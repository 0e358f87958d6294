import Interpolation.Proofs.Tree.Place
import Interpolation.Proofs.Tree.Shape
import Mathlib.Data.List.Basic

/-!
# Nodes and where they stand

In a shaped tree a node of each kind stands only where its kind can stand.

* `Tree.Standing`, `Shape.standing` — what a child can be, by the node it stands under and its place there;
* `Standing.of_node`, `Standing.of_leaf` — what a child of each kind can stand under;
* `Tree.WellShaped` — the nodes of each kind, their children and where they stand;
* `Tree.wellShaped_parse` — the tree of a source is well shaped.
-/

namespace Interpolation.Tree

/-! ## Children -/

/-- The first and the last child are paired brackets. -/
def IsGroup (k : NodeKind) (cs : List Tree) : Prop :=
  (k = .atom ∨ k = .trailer) ∧ ∃ opening ts closing, cs = .leaf opening :: (ts ++ [.leaf closing]) ∧
    opening.kind = .operator ∧ closing.kind = .operator ∧ opening.pairsWith closing = true

/-- What can be the child `c` at the place `i` among the children `cs` of a node. -/
inductive Standing (k : NodeKind) (cs : List Tree) (i : Nat) (c : Tree) : Prop
  | item (isItem : c.isItem = true) (above : c.kind? = some .term → k = .file ∨ k = .exprList ∨ IsGroup k cs)
  | line (above : k = .file) (isNewline : c.isToken .newline = true)
  | last (above : k = .file) (place : i + 1 = cs.length) (isMarker : c.isToken .endMarker = true)
  | trailer (above : k = .power) (isTrailer : c.kind? = some .trailer)
  | list {opening closing : Token} (above : IsGroup k cs) (round : opening.text = ['(']) (place : i = 1)
      (alone : cs = [.leaf opening, c, .leaf closing]) (isList : c.kind? = some .exprList)

/-- An operand or an operator can be anywhere. -/
theorem Standing.operand {k : NodeKind} {cs : List Tree} {i : Nat} {c : Tree} (h : c.isOperand = true) :
    Standing k cs i c :=
  .item (isItem_of_isOperand h).1 fun hterm => absurd hterm (isItem_of_isOperand h).2

theorem Standing.leaf {k : NodeKind} {cs : List Tree} {i : Nat} {c : Tree} (hleaf : c.kind? = none)
    (h : c.isItem = true) : Standing k cs i c :=
  .item h fun hterm => by simp [hleaf] at hterm

theorem Standing.operator {k : NodeKind} {cs : List Tree} {i : Nat} {u : Token} (h : u.kind = .operator) :
    Standing k cs i (.leaf u) := .leaf rfl (by simp [isItem, h])

/-- An operator is a leaf. -/
theorem exists_operator_of_isOperator {c : Tree} {op : Text} (h : c.isOperator op = true) :
    ∃ u : Token, c = .leaf u ∧ u.kind = .operator := by
  cases c with
  | leaf u => exact ⟨u, rfl, by simp_all [isOperator, Token.isOperator]⟩
  | node => simp [isOperator] at h

theorem exists_operator_of_any {c : Tree} {ops : List Text} (h : ops.any c.isOperator = true) :
    ∃ u : Token, c = .leaf u ∧ u.kind = .operator := by
  obtain ⟨op, -, hop⟩ := List.any_eq_true.1 h
  exact exists_operator_of_isOperator hop

theorem Factors.standing {k : NodeKind} {cs ts : List Tree} {i : Nat} {c : Tree} (h : Factors ts) (hc : c ∈ ts) :
    Standing k cs i c := by
  induction h with
  | nil => simp at hc
  | cons operator right _ ih =>
    rcases List.mem_cons.1 hc with rfl | hc
    · obtain ⟨u, rfl, hu⟩ := exists_operator_of_any operator
      exact .operator hu
    · rcases List.mem_cons.1 hc with rfl | hc
      · exact .operand right
      · exact ih hc

theorem Primary.standing {cs ts : List Tree} {i : Nat} {c : Tree} (h : Primary ts) (hc : c ∈ ts) :
    Standing .power cs i c := by
  have hatom {atom : Tree} {trailers : List Tree} (isAtom : atom.isAtom = true)
      (trailing : ∀ t ∈ trailers, t.kind? = some .trailer) (hc : c ∈ atom :: trailers) : Standing .power cs i c := by
    rcases List.mem_cons.1 hc with rfl | hc
    · exact .operand (isOperand_of_isAtom isAtom)
    · exact .trailer rfl (trailing c hc)
  cases h with
  | plain isAtom trailing => exact hatom isAtom trailing hc
  | awaited isAwait isAtom trailing =>
    rcases List.mem_cons.1 hc with rfl | hc
    · cases c with
      | leaf u => exact .leaf rfl (by simp_all [Tree.isAwait, isKeyword, isItem])
      | node => simp [Tree.isAwait, isKeyword] at isAwait
    · exact hatom isAtom trailing hc

/-- Every child of a node of its shape stands where it can stand. -/
theorem Shape.standing {k : NodeKind} {cs : List Tree} {i : Nat} {c : Tree} (h : Shape k cs) (hc : cs[i]? = some c) :
    Standing k cs i c := by
  have hmem := List.mem_of_getElem? hc
  cases h with
  | @file ts marker items ends =>
    rcases Nat.lt_or_ge i ts.length with hi | hi
    · rw [List.getElem?_append_left hi] at hc
      rcases items c (List.mem_of_getElem? hc) with hitem | hbreak
      · exact .item hitem fun _ => .inl rfl
      · exact .line rfl hbreak
    · have hlt : i < (ts ++ [leaf marker]).length := (List.getElem?_eq_some_iff.1 hc).1
      obtain rfl : i = ts.length := by
        rw [List.length_append, List.length_singleton] at hlt
        omega
      rw [List.getElem?_concat_length, Option.some.injEq] at hc
      subst hc
      exact .last rfl (by simp) (by simp [isToken, ends])
  | list items _ => exact .item (items c hmem) fun _ => .inr (.inl rfl)
  | term operand others _ =>
    rcases List.mem_cons.1 hmem with rfl | hmem
    · exact .operand operand
    · exact others.standing hmem
  | factor isSign isOperand =>
    obtain rfl | rfl : c = _ ∨ c = _ := by simpa using hmem
    · obtain ⟨u, rfl, hu⟩ := exists_operator_of_any isSign
      exact .operator hu
    · exact .operand isOperand
  | primary primary _ => exact primary.standing hmem
  | power base isPower isOperand =>
    rcases List.mem_append.1 hmem with hmem | hmem
    · exact base.standing hmem
    · obtain rfl | rfl : c = _ ∨ c = _ := by simpa using hmem
      · obtain ⟨u, rfl, hu⟩ := exists_operator_of_isOperator isPower
        exact .operator hu
      · exact .operand isOperand
  | member dotted named =>
    obtain rfl | rfl : c = _ ∨ c = _ := by simpa using hmem
    · obtain ⟨u, rfl, hu⟩ := exists_operator_of_isOperator dotted
      exact .operator hu
    · obtain ⟨u, rfl, hu⟩ := Pattern.exists_leaf_of_isToken named
      exact .leaf rfl (by simp [isItem, hu])
  | strings all _ =>
    obtain ⟨u, rfl, hu⟩ := Pattern.exists_leaf_of_isToken (all c hmem)
    exact .leaf rfl (by simp [isItem, hu])
  | @group _ opening closing ts kind opens closes paired contents =>
    have hgroup : IsGroup k (leaf opening :: (ts ++ [leaf closing])) :=
      ⟨kind.imp_right And.left, opening, ts, closing, rfl, opens, closes, paired⟩
    rcases List.mem_cons.1 hmem with rfl | hts
    · exact .operator opens
    · rcases List.mem_append.1 hts with hts | hts
      · cases contents with
        | items items _ => exact .item (items c hts) fun _ => .inr (.inr hgroup)
        | listed round =>
          obtain rfl := List.mem_singleton.1 hts
          obtain _ | _ | _ | i := i
          · simp at hc
          · exact .list hgroup round rfl rfl rfl
          · simp at hc
          · simp at hc
      · obtain rfl := List.mem_singleton.1 hts
        exact .operator closes

/-- What a node can stand under, by its kind. -/
theorem Standing.of_node {k kind : NodeKind} {cs ds : List Tree} {i : Nat} (h : Standing k cs i (.node kind ds)) :
    kind ≠ .file ∧ (kind = .term → k = .file ∨ k = .exprList ∨ IsGroup k cs) ∧ (kind = .trailer → k = .power) ∧
    (kind = .exprList → ∃ opening closing, IsGroup k cs ∧ opening.text = ['('] ∧ i = 1 ∧
      cs = [.leaf opening, .node kind ds, .leaf closing]) := by
  cases h with
  | item isItem above =>
    refine ⟨?_, fun hterm => above (congrArg some hterm), ?_, ?_⟩
    all_goals
      rintro rfl
      simp [Tree.isItem] at isItem
  | line _ isNewline => simp [isToken] at isNewline
  | last _ _ isMarker => simp [isToken] at isMarker
  | trailer above isTrailer =>
    obtain rfl : kind = .trailer := Option.some.inj isTrailer
    exact ⟨by simp, by simp, fun _ => above, by simp⟩
  | list above round place alone isList =>
    obtain rfl : kind = .exprList := Option.some.inj isList
    exact ⟨by simp, by simp, by simp, fun _ => ⟨_, _, above, round, place, alone⟩⟩

/-- What the end of a line or of the source can stand under. -/
theorem Standing.of_leaf {k : NodeKind} {cs : List Tree} {i : Nat} {u : Token} (h : Standing k cs i (.leaf u)) :
    (u.kind = .newline → k = .file) ∧ (u.kind = .endMarker → k = .file ∧ i + 1 = cs.length) := by
  cases h with
  | item isItem _ =>
    refine ⟨?_, ?_⟩
    all_goals
      intro hu
      simp [Tree.isItem, hu] at isItem
  | line above isNewline =>
    have hu : u.kind = .newline := by simpa [isToken] using isNewline
    exact ⟨fun _ => above, by simp [hu]⟩
  | last above place _ => exact ⟨fun _ => above, fun _ => ⟨above, place⟩⟩
  | trailer _ isTrailer => simp [kind?] at isTrailer
  | list _ _ _ _ isList => simp [kind?] at isList

/-! ## Subtrees -/

theorem Shaped.shape {k : NodeKind} {cs : List Tree} (h : Shaped (.node k cs)) : Shape k cs := by
  cases h with
  | node shape _ => exact shape

/-- Every subtree of a shaped tree is shaped. -/
theorem Shaped.subtree {t s : Tree} {p : Path} (h : Shaped t) (hs : t.subtree? p = some s) : Shaped s := by
  refine of_subtree? (fun {k cs} hnode => ?_) h hs
  cases hnode with
  | node _ children => exact children

/-- A subtree is the tree itself or stands under a node. -/
theorem exists_parent {t s : Tree} {p : Path} (hp : p ≠ []) (h : t.subtree? p = some s) :
    ∃ q i k cs, p = q ++ [i] ∧ t.subtree? q = some (.node k cs) ∧ cs[i]? = some s := by
  obtain ⟨q, i, rfl⟩ := (List.eq_nil_or_concat' p).resolve_left hp
  rw [subtree?_append] at h
  obtain ⟨u, hu, hs⟩ := Option.bind_eq_some_iff.1 h
  cases u with
  | leaf u => simp [children] at hs
  | node k cs => exact ⟨q, i, k, cs, rfl, hu, by simpa [children] using hs⟩

/-! ## Well-shaped trees -/

/-- Operands at the even places and multiplicative operators at the odd ones. -/
def Alternates (ts : List Tree) : Prop :=
  ∀ i t, ts[i]? = some t → if i % 2 = 0 then t.isOperand = true else t.isMultiplicative = true

theorem Factors.alternates {first : Tree} {ts : List Tree} (operand : first.isOperand = true) (h : Factors ts) :
    ts.length % 2 = 0 ∧ Alternates (first :: ts) := by
  induction h generalizing first with
  | nil =>
    refine ⟨rfl, fun i t ht => ?_⟩
    match i, ht with
    | 0, ht => simpa [← Option.some.inj ht] using operand
    | i + 1, ht => simp at ht
  | @cons op right ts operator hright _ ih =>
    obtain ⟨hlength, halternates⟩ := ih hright
    refine ⟨by rw [List.length_cons, List.length_cons]; omega, fun i t ht => ?_⟩
    match i, ht with
    | 0, ht => simpa [← Option.some.inj ht] using operand
    | 1, ht => simpa [← Option.some.inj ht] using operator
    | i + 2, ht => simpa using halternates i t (by simpa using ht)

/-- What stands directly between the first and the last child, or in the list that they enclose. -/
def direct : List Tree → List Tree
  | [.node .exprList ts] => ts
  | ts => ts

/-- A tree all of whose nodes are what their kinds say, and stand where their kinds can stand. -/
structure WellShaped (tree : Tree) : Prop where
  /-- The tree is a file that the only end marker ends. -/
  file : ∃ ts marker, tree = .node .file (ts ++ [.leaf marker]) ∧ marker.kind = .endMarker ∧
    ∀ p s, tree.subtree? p = some s → s.isToken .endMarker = true → p = [ts.length]
  /-- No other node is a file. -/
  root : ∀ p cs, tree.subtree? p = some (.node .file cs) → p = []
  /-- The ends of lines stand directly under the file. -/
  newline : ∀ p s, tree.subtree? p = some s → s.isToken .newline = true → p.length = 1
  /-- Terms are at least two operands with multiplicative operators between them. They stand under files, in lists and
  between brackets. -/
  term : ∀ p cs, tree.subtree? p = some (.node .term cs) → 3 ≤ cs.length ∧ cs.length % 2 = 1 ∧ Alternates cs ∧
    ∃ q i k ds, p = q ++ [i] ∧ tree.subtree? q = some (.node k ds) ∧ (k = .file ∨ k = .exprList ∨ IsGroup k ds)
  /-- Factors are a sign and its operand. -/
  factor : ∀ p cs, tree.subtree? p = some (.node .factor cs) →
    ∃ sign operand, cs = [sign, operand] ∧ sign.isSign = true ∧ operand.isOperand = true
  /-- Powers are an atom, with `await`, trailers or an exponent. -/
  power : ∀ p cs, tree.subtree? p = some (.node .power cs) → 2 ≤ cs.length ∧ (Primary cs ∨
    ∃ base op exponent, cs = base ++ [op, exponent] ∧ Primary base ∧ op.isPower = true ∧ exponent.isOperand = true)
  /-- Trailers are a dot and a name, or a group in round or square brackets. They stand in powers. -/
  trailer : ∀ p cs, tree.subtree? p = some (.node .trailer cs) →
    ((∃ dot name, cs = [dot, name] ∧ dot.isOperator ['.'] = true ∧ name.isToken .name = true) ∨
      IsGroup .trailer cs ∧ ∃ opening, cs.head? = some opening ∧
        (opening.isOperator ['('] = true ∨ opening.isOperator ['['] = true)) ∧
    ∃ q i ds, p = q ++ [i] ∧ tree.subtree? q = some (.node .power ds)
  /-- Atoms are several strings or a group. -/
  atom : ∀ p cs, tree.subtree? p = some (.node .atom cs) →
    2 ≤ cs.length ∧ (∀ c ∈ cs, c.isToken .string = true) ∨ IsGroup .atom cs
  /-- Lists stand between round brackets, which enclose nothing else. -/
  list : ∀ p ts, tree.subtree? p = some (.node .exprList ts) → ∃ q k opening closing, p = q ++ [1] ∧
    tree.subtree? q = some (.node k [.leaf opening, .node .exprList ts, .leaf closing]) ∧
    IsGroup k [.leaf opening, .node .exprList ts, .leaf closing] ∧ opening.text = ['(']
  /-- Round brackets enclose a list if and only if a comma stands directly between them. -/
  comma : ∀ p k opening ts closing, tree.subtree? p = some (.node k (.leaf opening :: (ts ++ [.leaf closing]))) →
    IsGroup k (.leaf opening :: (ts ++ [.leaf closing])) → opening.text = ['('] →
    ((∃ us, ts = [.node .exprList us]) ↔ (direct ts).any (isOperator [',']) = true)
  /-- Leaves have texts, unless they end the source, and those of no other kind are single characters. -/
  leaf : ∀ p u, tree.subtree? p = some (.leaf u) → u.kind ≠ .endMarker →
    u.text ≠ [] ∧ (u.kind = .unknown → u.text.length = 1)

namespace Shaped

variable {cs : List Tree} {p : Path}

/-- What a subtree that is not the whole tree stands under, and how. -/
theorem exists_standing {t s : Tree} (h : Shaped t) (hp : p ≠ []) (hs : t.subtree? p = some s) :
    ∃ q i k ds, p = q ++ [i] ∧ t.subtree? q = some (Tree.node k ds) ∧ ds[i]? = some s ∧ Standing k ds i s := by
  obtain ⟨q, i, k, ds, rfl, hq, hi⟩ := exists_parent hp hs
  exact ⟨q, i, k, ds, rfl, hq, hi, (h.subtree hq).shape.standing hi⟩

/-- In a file everything but the file stands under something. -/
theorem ne_nil {s : Tree} (hs : (Tree.node .file cs).subtree? p = some s) (hkind : s.kind? ≠ some .file) : p ≠ [] := by
  rintro rfl
  exact hkind (by simp [← Option.some.inj hs, kind?])

theorem root (h : Shaped (Tree.node .file cs)) {ds : List Tree}
    (hs : (Tree.node .file cs).subtree? p = some (Tree.node .file ds)) : p = [] := by
  by_contra hp
  obtain ⟨q, i, k, es, rfl, -, -, hstanding⟩ := h.exists_standing hp hs
  exact hstanding.of_node.1 rfl

theorem newline (h : Shaped (Tree.node .file cs)) {u : Token} (hs : (Tree.node .file cs).subtree? p = some (.leaf u))
    (hu : u.kind = .newline) : p.length = 1 := by
  obtain ⟨q, i, k, ds, rfl, hq, -, hstanding⟩ := h.exists_standing (ne_nil hs (by simp [kind?])) hs
  obtain rfl : k = .file := hstanding.of_leaf.1 hu
  simp [h.root hq]

theorem endMarker (h : Shaped (Tree.node .file cs)) {u : Token} (hs : (Tree.node .file cs).subtree? p = some (.leaf u))
    (hu : u.kind = .endMarker) : ∃ i, p = [i] ∧ i + 1 = cs.length := by
  obtain ⟨q, i, k, ds, rfl, hq, -, hstanding⟩ := h.exists_standing (ne_nil hs (by simp [kind?])) hs
  obtain ⟨rfl, hplace⟩ := hstanding.of_leaf.2 hu
  obtain rfl := h.root hq
  obtain rfl : cs = ds := by simpa using hq
  exact ⟨i, rfl, hplace⟩

theorem term (h : Shaped (Tree.node .file cs)) {ds : List Tree}
    (hs : (Tree.node .file cs).subtree? p = some (Tree.node .term ds)) :
    (3 ≤ ds.length ∧ ds.length % 2 = 1 ∧ Alternates ds) ∧ ∃ q i k es, p = q ++ [i] ∧
      (Tree.node .file cs).subtree? q = some (Tree.node k es) ∧ (k = .file ∨ k = .exprList ∨ IsGroup k es) := by
  refine ⟨?_, ?_⟩
  · cases (h.subtree hs).shape with
    | @term first ts operand others some =>
      obtain ⟨hlength, halternates⟩ := others.alternates operand
      have hpos := List.length_pos_iff.2 some
      refine ⟨?_, ?_, halternates⟩
      · rw [List.length_cons]
        omega
      · rw [List.length_cons]
        omega
    | group kind => simp at kind
  · obtain ⟨q, i, k, es, rfl, hq, -, hstanding⟩ := h.exists_standing (ne_nil hs (by simp [kind?])) hs
    exact ⟨q, i, k, es, rfl, hq, hstanding.of_node.2.1 rfl⟩

theorem factor {ds : List Tree} (h : Shaped (Tree.node .factor ds)) :
    ∃ sign operand, ds = [sign, operand] ∧ sign.isSign = true ∧ operand.isOperand = true := by
  cases h.shape with
  | factor isSign isOperand => exact ⟨_, _, rfl, isSign, isOperand⟩
  | group kind => simp at kind

theorem power {ds : List Tree} (h : Shaped (Tree.node .power ds)) : 2 ≤ ds.length ∧ (Primary ds ∨
    ∃ base op exponent, ds = base ++ [op, exponent] ∧ Primary base ∧ op.isPower = true ∧
      exponent.isOperand = true) := by
  cases h.shape with
  | primary primary some => exact ⟨some, .inl primary⟩
  | power base isPower isOperand => exact ⟨by simp, .inr ⟨_, _, _, rfl, base, isPower, isOperand⟩⟩
  | group kind => simp at kind

/-- The opening bracket of a trailer is round or square. -/
theorem isOperator_of_pairsWith {opening closing : Token} (opens : opening.kind = .operator)
    (paired : opening.pairsWith closing = true) (hbrace : opening.text ≠ ['\x7b']) :
    (Tree.leaf opening).isOperator ['('] = true ∨ (Tree.leaf opening).isOperator ['['] = true := by
  have hshapes : ∀ shape ∈ bracketShapes, shape.1 = ['('] ∨ shape.1 = ['['] ∨ shape.1 = ['\x7b'] := by decide
  rcases hshapes _ (of_decide_eq_true paired) with h | h | h
  · exact .inl (by simp_all [isOperator, Token.isOperator])
  · exact .inr (by simp_all [isOperator, Token.isOperator])
  · exact absurd h hbrace

theorem trailer (h : Shaped (Tree.node .file cs)) {ds : List Tree}
    (hs : (Tree.node .file cs).subtree? p = some (Tree.node .trailer ds)) :
    ((∃ dot name, ds = [dot, name] ∧ dot.isOperator ['.'] = true ∧ name.isToken .name = true) ∨
      IsGroup .trailer ds ∧ ∃ opening, ds.head? = some opening ∧
        (opening.isOperator ['('] = true ∨ opening.isOperator ['['] = true)) ∧
    ∃ q i es, p = q ++ [i] ∧ (Tree.node .file cs).subtree? q = some (Tree.node .power es) := by
  refine ⟨?_, ?_⟩
  · cases (h.subtree hs).shape with
    | member dotted named => exact .inl ⟨_, _, rfl, dotted, named⟩
    | group kind opens closes paired _ =>
      refine .inr ⟨⟨.inr rfl, _, _, _, rfl, opens, closes, paired⟩, _, rfl, ?_⟩
      exact isOperator_of_pairsWith opens paired (by simpa using kind)
  · obtain ⟨q, i, k, es, rfl, hq, -, hstanding⟩ := h.exists_standing (ne_nil hs (by simp [kind?])) hs
    obtain rfl : k = .power := hstanding.of_node.2.2.1 rfl
    exact ⟨q, i, es, rfl, hq⟩

theorem atom {ds : List Tree} (h : Shaped (Tree.node .atom ds)) :
    2 ≤ ds.length ∧ (∀ c ∈ ds, c.isToken .string = true) ∨ IsGroup .atom ds := by
  cases h.shape with
  | strings all some => exact .inl ⟨some, all⟩
  | group kind opens closes paired _ => exact .inr ⟨.inl rfl, _, _, _, rfl, opens, closes, paired⟩

theorem list (h : Shaped (Tree.node .file cs)) {ts : List Tree}
    (hs : (Tree.node .file cs).subtree? p = some (Tree.node .exprList ts)) : ∃ q k opening closing, p = q ++ [1] ∧
      (Tree.node .file cs).subtree? q = some (Tree.node k [.leaf opening, .node .exprList ts, .leaf closing]) ∧
      IsGroup k [.leaf opening, .node .exprList ts, .leaf closing] ∧ opening.text = ['('] := by
  obtain ⟨q, i, k, es, rfl, hq, -, hstanding⟩ := h.exists_standing (ne_nil hs (by simp [kind?])) hs
  obtain ⟨opening, closing, hgroup, hround, rfl, rfl⟩ := hstanding.of_node.2.2.2 rfl
  exact ⟨q, k, opening, closing, rfl, hq, hgroup, hround⟩

/-- Between round brackets stand items without a comma or a list. -/
theorem contents {k : NodeKind} {opening closing : Token} {ts : List Tree}
    (h : Shaped (Tree.node k (.leaf opening :: (ts ++ [.leaf closing]))))
    (hgroup : IsGroup k (.leaf opening :: (ts ++ [.leaf closing]))) (round : opening.text = ['(']) :
    Contents opening ts := by
  obtain ⟨hkind, opening', _, _, hcs, opens, -, -⟩ := hgroup
  obtain rfl : opening = opening' := Tree.leaf.inj (List.cons.inj hcs).1
  have hshape := h.shape
  generalize hds : Tree.leaf opening :: (ts ++ [Tree.leaf closing]) = ds at hshape
  cases hshape with
  | file => simp at hkind
  | list => simp at hkind
  | term => simp at hkind
  | factor => simp at hkind
  | primary => simp at hkind
  | power => simp at hkind
  | member dotted _ =>
    obtain rfl := (List.cons.inj hds).1
    simp [isOperator, Token.isOperator, round] at dotted
  | strings all _ =>
    subst hds
    simpa [isToken, opens] using all (Tree.leaf opening) (by simp)
  | group _ _ _ _ contents =>
    obtain ⟨hopening, hts⟩ := List.cons.inj hds
    obtain rfl := Tree.leaf.inj hopening
    obtain ⟨rfl, -⟩ := List.append_inj' hts rfl
    exact contents

theorem comma {k : NodeKind} {opening closing : Token} {ts : List Tree}
    (h : Shaped (Tree.node k (.leaf opening :: (ts ++ [.leaf closing]))))
    (hgroup : IsGroup k (.leaf opening :: (ts ++ [.leaf closing]))) (round : opening.text = ['(']) :
    (∃ us, ts = [.node .exprList us]) ↔ (direct ts).any (isOperator [',']) = true := by
  have hlist {us : List Tree} (hts : ts = [.node .exprList us]) : us.any (isOperator [',']) = true := by
    cases h with
    | node _ children =>
      subst hts
      cases (children (.node .exprList us) (by simp)).shape with
      | list _ comma => exact comma
      | group kind => simp at kind
  cases h.contents hgroup round with
  | @listed us _ => exact ⟨fun _ => hlist rfl, fun _ => ⟨us, rfl⟩⟩
  | items items noComma =>
    have hne : ¬∃ us, ts = [.node .exprList us] := by
      rintro ⟨us, rfl⟩
      simpa [isItem] using items (.node .exprList us) (by simp)
    have hdirect : direct ts = ts := by
      unfold direct
      split
      · next us => exact absurd ⟨us, rfl⟩ hne
      · rfl
    rw [hdirect, noComma round]
    simpa using hne

end Shaped

/-- A shaped file is well shaped. -/
theorem Shaped.wellShaped {cs : List Tree} (h : Shaped (.node .file cs)) : (Tree.node .file cs).WellShaped where
  file := by
    obtain ⟨ts, marker, rfl, ends⟩ : ∃ ts marker, cs = ts ++ [.leaf marker] ∧ marker.kind = .endMarker := by
      cases h.shape with
      | file _ ends => exact ⟨_, _, rfl, ends⟩
      | group kind => simp at kind
    refine ⟨ts, marker, rfl, ends, fun p s hs hmarker => ?_⟩
    obtain ⟨u, rfl, hu⟩ := Pattern.exists_leaf_of_isToken hmarker
    obtain ⟨i, rfl, hi⟩ := h.endMarker hs hu
    simpa using hi
  root _ _ := h.root
  newline p s hs hnewline := by
    obtain ⟨u, rfl, hu⟩ := Pattern.exists_leaf_of_isToken hnewline
    exact h.newline hs hu
  term p ds hs := by
    obtain ⟨⟨hsome, hodd, halternates⟩, habove⟩ := h.term hs
    exact ⟨hsome, hodd, halternates, habove⟩
  factor _ _ hs := (h.subtree hs).factor
  power _ _ hs := (h.subtree hs).power
  trailer _ _ := h.trailer
  atom _ _ hs := (h.subtree hs).atom
  list _ _ := h.list
  comma _ _ _ _ _ hs := (h.subtree hs).comma
  leaf p u hs := by
    cases h.subtree hs with
    | leaf token => exact token

/-- The tree of every source is well shaped. -/
theorem wellShaped_parse (source : Text) : (parse source).WellShaped :=
  (shaped_parse source).wellShaped

end Interpolation.Tree

import Interpolation.Proofs.Bracketed.Matching
import Interpolation.Proofs.Bracketed.Window
import Interpolation.Proofs.Operand.Regrouping
import Interpolation.Proofs.Tree.Place

/-!
# The bracket groups of a tree

* `Tree.pairs` — the brackets of all bracket groups of a tree, a group behind those in it;
* `Tree.mem_located_iff`, `Tree.mem_pairs_iff` — the tokens and the pairs of a tree, by the paths that lead to them;
* `Regroups.pairsAll_eq` — grouping operands makes no bracket group and destroys none;
* `Tree.pairs_close` — a group that is closed has the pairs of its contents and its own;
* `Tree.pairs_parse` — the pairs of a source are those of its items.
-/

namespace Interpolation.Tree

/-! ## Pairs -/

/-- The brackets of the tree itself, if it is a bracket group and starts at `first`. -/
def ownPair (first : Nat) (t : Tree) : List (Bracket × Bracket) :=
  t.brackets?.toList.map fun (u, v) =>
    (⟨u.text, first + t.startOf [0]⟩, ⟨v.text, first + t.startOf [t.children.length - 1]⟩)

mutual
/-- The brackets of all bracket groups of a tree that starts at `first`. -/
def pairs (first : Nat) : Tree → List (Bracket × Bracket)
  | .leaf _ => []
  | .node k cs => pairsAll first cs ++ ownPair first (.node k cs)
/-- The brackets of all bracket groups of some trees, the first of which starts at `first`. -/
def pairsAll (first : Nat) : List Tree → List (Bracket × Bracket)
  | [] => []
  | c :: cs => c.pairs first ++ pairsAll (first + c.render.length) cs
end

@[simp] theorem pairs_leaf (first : Nat) (u : Token) : (leaf u).pairs first = [] := by rw [pairs]

theorem pairs_node (first : Nat) (k : NodeKind) (cs : List Tree) :
    (node k cs).pairs first = pairsAll first cs ++ ownPair first (.node k cs) := by rw [pairs]

@[simp] theorem pairsAll_nil (first : Nat) : pairsAll first [] = [] := by rw [pairsAll]

@[simp] theorem pairsAll_cons (first : Nat) (c : Tree) (cs : List Tree) :
    pairsAll first (c :: cs) = c.pairs first ++ pairsAll (first + c.render.length) cs := by rw [pairsAll]

theorem pairsAll_append (first : Nat) (us vs : List Tree) :
    pairsAll first (us ++ vs) = pairsAll first us ++ pairsAll (first + (Token.renderAll (tokensAll us)).length) vs := by
  induction us generalizing first with
  | nil => simp
  | cons u us ih =>
    rw [List.cons_append, pairsAll_cons, ih, pairsAll_cons, List.append_assoc, tokensAll_cons, Token.renderAll_append,
      List.length_append, render, Nat.add_assoc]

/-! ## What holds of a subtree -/

/-- What is collected over some trees is collected of one of them. -/
theorem mem_siblings_iff {α : Type} {F : Nat → Tree → List α} {G : Nat → List Tree → List α}
    (nil : ∀ first, G first [] = [])
    (cons : ∀ first c cs, G first (c :: cs) = F first c ++ G (first + c.render.length) cs) {first : Nat}
    {cs : List Tree} {x : α} : x ∈ G first cs ↔
      ∃ pre c post, cs = pre ++ c :: post ∧ x ∈ F (first + (Token.renderAll (tokensAll pre)).length) c := by
  induction cs generalizing first with
  | nil => simp [nil]
  | cons d cs ih =>
    rw [cons, List.mem_append, ih]
    constructor
    · rintro (hd | ⟨pre, c, post, rfl, hc⟩)
      · exact ⟨[], d, cs, rfl, by simpa using hd⟩
      · refine ⟨d :: pre, c, post, rfl, ?_⟩
        rwa [tokensAll_cons, Token.renderAll_append, List.length_append, ← Nat.add_assoc]
    · rintro ⟨pre, c, post, hcs, hc⟩
      cases pre with
      | nil =>
        obtain ⟨rfl, rfl⟩ := List.cons.inj hcs
        exact .inl (by simpa using hc)
      | cons e pre =>
        obtain ⟨rfl, rfl⟩ := List.cons.inj hcs
        refine .inr ⟨pre, c, post, rfl, ?_⟩
        rwa [tokensAll_cons, Token.renderAll_append, List.length_append, ← Nat.add_assoc] at hc

/-- What holds of a tree if it holds of the tree itself or of a child holds of it if it holds of a subtree. -/
theorem iff_exists_subtree {F P : Nat → Tree → Prop} (leaf : ∀ first u, F first (.leaf u) ↔ P first (.leaf u))
    (node : ∀ first k cs, F first (.node k cs) ↔ P first (.node k cs) ∨
      ∃ pre c post, cs = pre ++ c :: post ∧ F (first + (Token.renderAll (tokensAll pre)).length) c)
    (first : Nat) (t : Tree) :
    F first t ↔ ∃ p s, t.subtree? p = some s ∧ P (first + (t.textBefore p).length) s := by
  induction t generalizing first with
  | leaf u =>
    rw [leaf]
    constructor
    · intro h
      exact ⟨[], .leaf u, rfl, by simpa [textBefore] using h⟩
    · rintro ⟨p, s, hs, h⟩
      cases p with
      | nil => simpa [textBefore, ← Option.some.inj hs] using h
      | cons i p => simp [children] at hs
  | node k cs ih =>
    rw [node]
    constructor
    · rintro (h | ⟨pre, c, post, rfl, h⟩)
      · exact ⟨[], .node k cs, rfl, by simpa [textBefore] using h⟩
      · obtain ⟨p, s, hs, h⟩ := (ih c (by simp) _).1 h
        refine ⟨pre.length :: p, s, by rwa [subtree?_node], ?_⟩
        rwa [textBefore_node, List.length_append, ← Nat.add_assoc]
    · rintro ⟨p, s, hs, h⟩
      cases p with
      | nil => exact .inl (by simpa [textBefore, ← Option.some.inj hs] using h)
      | cons i p =>
        obtain ⟨l, pre, c, post, hnode, rfl, hc⟩ := exists_children_eq hs
        obtain ⟨rfl, rfl⟩ := Tree.node.inj hnode
        rw [textBefore_node, List.length_append, ← Nat.add_assoc] at h
        exact .inr ⟨pre, c, post, rfl, (ih c (by simp) _).2 ⟨p, s, hc, h⟩⟩

/-- The tokens of a tree are those of its leaves, where they start. -/
theorem mem_located_iff {t : Tree} {first place : Nat} {u : Token} : (place, u) ∈ Token.located first t.tokens ↔
    ∃ p, t.subtree? p = some (.leaf u) ∧ place = first + t.startOf p := by
  have hsubtree := iff_exists_subtree (F := fun first t => (place, u) ∈ Token.located first t.tokens)
    (P := fun first s => s = .leaf u ∧ place = first + u.trivia.length) ?_ ?_ first t
  · rw [hsubtree]
    constructor
    · rintro ⟨p, s, hs, rfl, rfl⟩
      exact ⟨p, hs, by simp [startOf, hs, Nat.add_assoc]⟩
    · rintro ⟨p, hs, rfl⟩
      exact ⟨p, _, hs, rfl, by simp [startOf, hs, Nat.add_assoc]⟩
  · intro first v
    simp only [tokens_leaf, Token.located_cons, Token.located_nil, List.mem_singleton, Prod.mk.injEq, Tree.leaf.injEq]
    constructor
    · rintro ⟨rfl, rfl⟩
      exact ⟨rfl, rfl⟩
    · rintro ⟨rfl, rfl⟩
      exact ⟨rfl, rfl⟩
  · intro first k cs
    have hsiblings : (place, u) ∈ Token.located first (tokensAll cs) ↔ ∃ pre c post, cs = pre ++ c :: post ∧
        (place, u) ∈ Token.located (first + (Token.renderAll (tokensAll pre)).length) c.tokens :=
      mem_siblings_iff (F := fun first t => Token.located first t.tokens)
        (G := fun first cs => Token.located first (tokensAll cs)) (fun _ => rfl)
        (fun first c cs => by rw [tokensAll_cons, Token.located_append]; rfl)
    simpa using hsiblings

/-- The pairs of a tree are those of the bracket groups among its subtrees. -/
theorem mem_pairs_iff_subtree {t : Tree} {first : Nat} {pair : Bracket × Bracket} : pair ∈ t.pairs first ↔
    ∃ p s, t.subtree? p = some s ∧ pair ∈ s.ownPair (first + (t.textBefore p).length) := by
  refine iff_exists_subtree (F := fun first t => pair ∈ t.pairs first) (P := fun first s => pair ∈ s.ownPair first)
    ?_ ?_ first t
  · intro first u
    simp [ownPair, brackets?]
  · intro first k cs
    rw [pairs_node, List.mem_append, or_comm,
      mem_siblings_iff (F := fun first t => t.pairs first) (G := pairsAll) pairsAll_nil pairsAll_cons]

/-- The brackets of a group, where they start. -/
theorem mem_ownPair_iff {t : Tree} {first : Nat} {o c : Bracket} : (o, c) ∈ t.ownPair first ↔
    ∃ k u ts v, t = .node k (.leaf u :: (ts ++ [.leaf v])) ∧ (k = .atom ∨ k = .trailer) ∧ u.kind = .operator ∧
      v.kind = .operator ∧ o = ⟨u.text, first + t.startOf [0]⟩ ∧ c = ⟨v.text, first + t.startOf [ts.length + 1]⟩ := by
  simp only [ownPair, List.mem_map, Option.mem_toList, Prod.exists, brackets?_eq_some_iff, Prod.mk.injEq]
  constructor
  · rintro ⟨u, v, ⟨k, ts, rfl, hk, hu, hv⟩, rfl, rfl⟩
    exact ⟨k, u, ts, v, rfl, hk, hu, hv, rfl, by simp [children]⟩
  · rintro ⟨k, u, ts, v, rfl, hk, hu, hv, rfl, rfl⟩
    exact ⟨u, v, ⟨k, ts, rfl, hk, hu, hv⟩, rfl, by simp [children]⟩

/-- The pairs of a tree are the first and last children of its bracket groups. -/
theorem mem_pairs_iff {t : Tree} {o c : Bracket} : (o, c) ∈ t.pairs 0 ↔
    ∃ p k u ts v, t.subtree? p = some (.node k (.leaf u :: (ts ++ [.leaf v]))) ∧ (k = .atom ∨ k = .trailer) ∧
      u.kind = .operator ∧ v.kind = .operator ∧ o = ⟨u.text, t.startOf (p ++ [0])⟩ ∧
      c = ⟨v.text, t.startOf (p ++ [ts.length + 1])⟩ := by
  rw [mem_pairs_iff_subtree]
  constructor
  · rintro ⟨p, s, hs, h⟩
    obtain ⟨k, u, ts, v, rfl, hk, hu, hv, rfl, rfl⟩ := mem_ownPair_iff.1 h
    exact ⟨p, k, u, ts, v, hs, hk, hu, hv, by rw [startOf_append hs, Nat.zero_add],
      by rw [startOf_append hs, Nat.zero_add]⟩
  · rintro ⟨p, k, u, ts, v, hs, hk, hu, hv, rfl, rfl⟩
    refine ⟨p, _, hs, mem_ownPair_iff.2 ⟨k, u, ts, v, rfl, hk, hu, hv, ?_, ?_⟩⟩
    · rw [startOf_append hs, Nat.zero_add]
    · rw [startOf_append hs, Nat.zero_add]

/-! ## Where the brackets of a group are -/

theorem startOf_zero (k : NodeKind) (u : Token) (cs : List Tree) :
    (node k (.leaf u :: cs)).startOf [0] = u.trivia.length := by
  have h := startOf_node k [] cs (.leaf u) []
  simpa [startOf, textBefore] using h

theorem startOf_last (k : NodeKind) (u v : Token) (ts : List Tree) :
    (node k (.leaf u :: (ts ++ [.leaf v]))).startOf [ts.length + 1] =
      u.render.length + (Token.renderAll (tokensAll ts)).length + v.trivia.length := by
  have h := startOf_node k (.leaf u :: ts) [] (.leaf v) []
  simpa [startOf, textBefore, Token.render, Nat.add_assoc] using h

/-- The brackets of a group are in its text. -/
theorem bounds_of_mem_pairs {t : Tree} {first : Nat} {o c : Bracket} (h : (o, c) ∈ t.pairs first) :
    first ≤ o.place ∧ c.place ≤ first + t.render.length := by
  obtain ⟨p, s, hs, h⟩ := mem_pairs_iff_subtree.1 h
  obtain ⟨k, u, ts, v, rfl, -, -, -, rfl, rfl⟩ := mem_ownPair_iff.1 h
  obtain ⟨after, hrender⟩ := exists_render_eq hs
  have hlength := congrArg List.length hrender
  simp only [startOf_last, render, tokens_node, tokensAll_cons, tokensAll_append, tokens_leaf, tokensAll_nil,
    Token.renderAll_append, Token.renderAll_cons, Token.renderAll_nil, List.length_append, List.length_nil,
    Token.render] at hlength ⊢
  omega

theorem bounds_of_mem_pairsAll {cs : List Tree} {first : Nat} {o c : Bracket} (h : (o, c) ∈ pairsAll first cs) :
    first ≤ o.place ∧ c.place ≤ first + (Token.renderAll (tokensAll cs)).length := by
  have hnode : (o, c) ∈ (node .file cs).pairs first := by
    rw [pairs_node]
    exact List.mem_append_left _ h
  exact bounds_of_mem_pairs hnode

/-! ## Grouping operands -/

theorem Regroups.tokensAll_eq {us ts : List Tree} (h : Regroups us ts) : tokensAll ts = tokensAll us := by
  induction h with
  | refl => rfl
  | trans _ _ ihfirst ihsecond => exact ihsecond.trans ihfirst
  | append _ _ ihleft ihright => rw [tokensAll_append, tokensAll_append, ihleft, ihright]
  | node => simp
  | @trailer t group =>
    unfold isCallOrSubscript at group
    split at group
    · rfl
    · contradiction

theorem pairs_asTrailer {t : Tree} (group : t.isCallOrSubscript = true) (first : Nat) :
    t.asTrailer.pairs first = t.pairs first := by
  have hbrackets := brackets?_asTrailer group
  unfold isCallOrSubscript at group
  split at group
  · next opening cs =>
    rw [asTrailer, pairs_node, pairs_node, ownPair, ownPair]
    rw [asTrailer] at hbrackets
    rw [hbrackets]
    rfl
  · contradiction

theorem ownPair_eq_nil {t : Tree} (h : t.brackets? = none) (first : Nat) : t.ownPair first = [] := by
  simp [ownPair, h]

/-- Grouping operands keeps the bracket groups and where they are. -/
theorem Regroups.pairsAll_eq {us ts : List Tree} (h : Regroups us ts) (first : Nat) :
    pairsAll first ts = pairsAll first us := by
  induction h generalizing first with
  | refl => rfl
  | trans _ _ ihfirst ihsecond => exact (ihsecond first).trans (ihfirst first)
  | append left _ ihleft ihright => rw [pairsAll_append, pairsAll_append, ihleft, ihright, left.tokensAll_eq]
  | node _ noGroup => simp [pairs_node, ownPair_eq_nil noGroup]
  | trailer group => simp [pairs_asTrailer group]

theorem pairsAll_groupOperands (first : Nat) (ts : List Tree) :
    pairsAll first (groupOperands false ts) = pairsAll first ts :=
  (groups_groupOperands ts).regroups.pairsAll_eq first

theorem pairsAll_listed (first : Nat) (opening : Token) (ts : List Tree) :
    pairsAll first (listed opening ts) = pairsAll first ts := by
  unfold listed
  split
  · have hplain : (node .exprList ts).brackets? = none := brackets?_of_kind (by decide) (by decide) ts
    simp [pairs_node, ownPair_eq_nil hplain]
  · rfl

/-! ## Closing a group -/

/-- The pairs of a group are those of its contents and its own. -/
theorem pairs_group {u v : Token} (hu : u.kind = .operator) (hv : v.kind = .operator) (first : Nat) (ts : List Tree) :
    (node .atom (.leaf u :: (ts ++ [.leaf v]))).pairs first =
      pairsAll (first + u.render.length) ts ++ [(⟨u.text, first + u.trivia.length⟩,
        ⟨v.text, first + (u.render.length + (Token.renderAll (tokensAll ts)).length + v.trivia.length)⟩)] := by
  have hbrackets : (node .atom (.leaf u :: (ts ++ [.leaf v]))).brackets? = some (u, v) :=
    brackets?_eq_some_iff.2 ⟨.atom, ts, rfl, .inl rfl, hu, hv⟩
  have hlength : (node .atom (.leaf u :: (ts ++ [.leaf v]))).children.length - 1 = ts.length + 1 := by simp [children]
  rw [pairs_node, ownPair, hbrackets, hlength, startOf_zero, startOf_last]
  simp [pairsAll_append, render, Token.render]

@[simp] theorem render_leaf (t : Token) : (leaf t).render = t.render := by simp [render, Token.render]

theorem render_ofBracketed (b : Bracketed) : (ofBracketed b).render = Bracketed.text [b] := by
  rw [render, tokens_ofBracketed, Bracketed.text, Bracketed.tokensAll, Bracketed.tokensAll, List.append_nil]

/-- More trivia in front of an item move it. -/
theorem pairs_addTrivia (first : Nat) (z : Text) (b : Bracketed) :
    (ofBracketed (b.addTrivia z)).pairs first = (ofBracketed b).pairs (first + z.length) := by
  cases b with
  | token t => simp [Bracketed.addTrivia]
  | group opening contents closing =>
    have hlisted (ts : List Tree) : listed (opening.addTrivia z) ts = listed opening ts := rfl
    rw [Bracketed.addTrivia, ofBracketed, ofBracketed, hlisted]
    generalize listed opening (groupOperands false (ofBracketedAll contents)) = ts
    by_cases hkinds : opening.kind = .operator ∧ closing.kind = .operator
    · rw [pairs_group (u := opening.addTrivia z) hkinds.1 hkinds.2, pairs_group hkinds.1 hkinds.2,
        Bracketed.render_addTrivia]
      simp [Token.addTrivia, Nat.add_assoc]
    · have hplain (u : Token) (hu : u.kind = opening.kind) :
          (node .atom (.leaf u :: (ts ++ [.leaf closing]))).brackets? = none := by
        refine Option.eq_none_iff_forall_ne_some.2 fun ⟨u', v⟩ h => hkinds ?_
        obtain ⟨_, us, hnode, -, hopening, hclosing⟩ := brackets?_eq_some_iff.1 h
        obtain ⟨hleaf, hts⟩ := List.cons.inj (Tree.node.inj hnode).2
        obtain ⟨-, hlast⟩ := List.append_inj' hts rfl
        obtain rfl := Tree.leaf.inj hleaf
        obtain rfl := Tree.leaf.inj (List.cons.inj hlast).1
        exact ⟨hu ▸ hopening, hclosing⟩
      rw [pairs_node, pairs_node, ownPair_eq_nil (hplain (opening.addTrivia z) rfl),
        ownPair_eq_nil (hplain opening rfl)]
      simp [pairsAll_append, render, Token.addTrivia, Nat.add_assoc]

theorem pairsAll_joinLines (first : Nat) (carried : Text) (bs : List Bracketed) :
    pairsAll first (ofBracketedAll (Bracketed.joinLines carried bs).1) =
      pairsAll (first + carried.length) (ofBracketedAll bs) := by
  fun_induction Bracketed.joinLines carried bs generalizing first with
  | case1 => simp [ofBracketedAll]
  | case2 carried t rest _ ih =>
    simp [ih, ofBracketedAll, Nat.add_assoc]
  | case3 carried t rest _ ih =>
    simp [ih, ofBracketedAll, Bracketed.render_addTrivia, Nat.add_assoc]
  | case4 carried opening contents closing rest ih =>
    have hgroup := pairs_addTrivia first carried (.group opening contents closing)
    rw [Bracketed.addTrivia] at hgroup
    rw [ofBracketedAll, ofBracketedAll, pairsAll_cons, pairsAll_cons, hgroup, ih, render_ofBracketed,
      render_ofBracketed, Bracketed.text_group, Bracketed.text_group, Bracketed.render_addTrivia]
    simp [Nat.add_assoc]

/-- The pairs of a group that is closed are those of its contents and its own. -/
theorem pairs_close (first : Nat) (opening closing : Token) (contents : List Bracketed) :
    (ofBracketed (.close opening contents closing)).pairs first =
      pairsAll (first + opening.render.length) (ofBracketedAll contents) ++
        [(⟨opening.text, first + opening.trivia.length⟩, ⟨closing.text,
          first + (opening.render.length + (Bracketed.text contents).length + closing.trivia.length)⟩)] := by
  have hjoined := congrArg List.length (Bracketed.text_joinLines [] contents)
  rw [List.length_append, List.nil_append, Bracketed.text] at hjoined
  rw [Bracketed.close, ofBracketed, pairs_group rfl rfl, pairsAll_listed, pairsAll_groupOperands, pairsAll_joinLines,
    tokensAll_listed, tokensAll_groupOperands, tokensAll_ofBracketedAll, ← hjoined]
  simp [Token.asPaired, Token.addTrivia, Token.render, Nat.add_assoc]

/-- The pairs of the tree of a source are those of its items. -/
theorem pairs_parse (source : Text) :
    (parse source).pairs 0 = pairsAll 0 (ofBracketedAll (Bracketed.ofTokens (Token.scan source))) := by
  rw [parse, pairs_node, ownPair_eq_nil (brackets?_of_kind (by decide) (by decide) _), List.append_nil,
    pairsAll_groupOperands]

end Interpolation.Tree

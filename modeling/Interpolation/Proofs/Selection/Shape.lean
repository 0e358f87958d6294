import Interpolation.Selection
import Interpolation.Proofs.Pattern.Derivation
import Mathlib.Data.List.Basic

/-!
# The shape of an expression that is selected

* `Interpolates t c` — the tree `t` is a string, a percent sign and a name, or a string, a percent sign and a list of
  names in round brackets; `c` says where the string and the names are;
* `derives_term_iff`, `derives_atom_iff` — what the pattern derives, one node after the other;
* `captures_interpolation_iff` — these are the trees that the pattern `interpolation` matches, and these its captures;
* `select_eq_nil_of_interpolates` — no expression is selected within another.
-/

namespace Interpolation

/-- Names with a comma between any two of them, and perhaps one behind the last. -/
def Tree.isNameList : List Tree → Bool
  | [] => false
  | [n] => n.isToken .name
  | n :: c :: rest => n.isToken .name && c.isOperator [','] && (rest.isEmpty || isNameList rest)

/-- A tree of the shape that is selected, with what is captured of it. -/
inductive Interpolates : Tree → Captures → Prop
  | name {s op n : Token} (string : s.kind = .string) (percent : op.isOperator ['%']) (name : n.kind = .name) :
      Interpolates (.node .term [.leaf s, .leaf op, .leaf n]) ⟨[0], .single [2]⟩
  | tuple {s op opening closing : Token} {names : List Tree} (string : s.kind = .string)
      (percent : op.isOperator ['%']) (opens : opening.isOperator ['(']) (closes : closing.isOperator [')'])
      (listed : Tree.isNameList names) :
      Interpolates
        (.node .term [.leaf s, .leaf op, .node .atom [.leaf opening, .node .exprList names, .leaf closing]])
        ⟨[0], .sequence ((List.range names.length).map fun i => [2, 1, i])⟩

/-- The captures are a matter of the tree. -/
theorem Interpolates.unique {t : Tree} {c d : Captures} (h : Interpolates t c) (h' : Interpolates t d) : c = d := by
  cases h <;> cases h' <;> rfl

/-- An expression is a literal, a percent sign and an operand; the literal is its format string. -/
theorem Interpolates.exists_eq {t : Tree} {c : Captures} (h : Interpolates t c) :
    ∃ literal op operand, t = .node .term [.leaf literal, .leaf op, operand] ∧
      literal.kind = .string ∧ op.isOperator ['%'] = true ∧ c.formatString = [0] := by
  cases h with
  | name string percent _ => exact ⟨_, _, _, rfl, string, percent, rfl⟩
  | tuple string percent _ _ _ => exact ⟨_, _, _, rfl, string, percent, rfl⟩

namespace Pattern

/-! ## Derivations by the form of the pattern -/

section Inversion

variable {pathOf : Nat → Path} {siblings : List Tree} {i j : Nat} {b : Bindings}

theorem derives_leaf_iff {kind : TokenKind} {text : Option Text} :
    Derives pathOf siblings (.leaf kind text) i j b ↔
      ∃ t, siblings[i]? = some (.leaf t) ∧ t.kind = kind ∧ (∀ u ∈ text, t.text = u) ∧ j = i + 1 ∧ b = [] := by
  constructor
  · rintro (⟨here, same, spelled⟩)
    exact ⟨_, here, same, spelled, rfl, rfl⟩
  · rintro ⟨t, here, same, spelled, rfl, rfl⟩
    exact .leaf here same spelled

theorem derives_token_iff {kind : TokenKind} :
    Derives pathOf siblings (token kind) i j b ↔
      ∃ t, siblings[i]? = some (.leaf t) ∧ t.kind = kind ∧ j = i + 1 ∧ b = [] := by
  simp [token, derives_leaf_iff]

theorem derives_operator_iff {op : Text} :
    Derives pathOf siblings (operator op) i j b ↔
      ∃ t, siblings[i]? = some (.leaf t) ∧ t.isOperator op = true ∧ j = i + 1 ∧ b = [] := by
  simp [operator, derives_leaf_iff, Token.isOperator, and_assoc]

theorem derives_node_iff {kind : NodeKind} {parts : List Pattern} :
    Derives pathOf siblings (.node kind parts) i j b ↔
      ∃ cs, siblings[i]? = some (.node kind cs) ∧
        Derives (fun j => pathOf i ++ [j]) cs (.sequence parts) 0 cs.length b ∧ j = i + 1 := by
  constructor
  · rintro (_ | ⟨here, children⟩)
    exact ⟨_, here, children, rfl⟩
  · rintro ⟨cs, here, children, rfl⟩
    exact .node here children

theorem derives_nil_iff : Derives pathOf siblings (.sequence []) i j b ↔ j = i ∧ b = [] := by
  constructor
  · rintro (_ | _ | _)
    exact ⟨rfl, rfl⟩
  · rintro ⟨rfl, rfl⟩
    exact .sequenceNil

theorem derives_cons_iff {p : Pattern} {ps : List Pattern} :
    Derives pathOf siblings (.sequence (p :: ps)) i j b ↔
      ∃ k c d, Derives pathOf siblings p i k c ∧ Derives pathOf siblings (.sequence ps) k j d ∧ b = d ++ c := by
  constructor
  · rintro (_ | _ | _ | ⟨first, others⟩)
    exact ⟨_, _, _, first, others, rfl⟩
  · rintro ⟨k, c, d, first, others, rfl⟩
    exact .sequenceCons first others

theorem derives_capture_iff {name : String} {p : Pattern} :
    Derives pathOf siblings (.capture name p) i j b ↔
      ∃ c, Derives pathOf siblings p i j c ∧ b = (name, captured pathOf p i j) :: c := by
  constructor
  · intro h
    cases h with
    | capture part => exact ⟨_, part, rfl⟩
  · rintro ⟨c, part, rfl⟩
    exact .capture part

theorem derives_anyOf_iff {choices : List Pattern} :
    Derives pathOf siblings (.anyOf choices) i j b ↔ ∃ p ∈ choices, Derives pathOf siblings p i j b := by
  constructor
  · intro h
    cases h with
    | anyOf choice part => exact ⟨_, choice, part⟩
  · rintro ⟨p, choice, part⟩
    exact .anyOf choice part

/-- An optional part is there, or nothing is. -/
theorem derives_optional_iff {p : Pattern} :
    Derives pathOf siblings (optional p) i j b ↔ (j = i ∧ b = []) ∨ (i < j ∧ Derives pathOf siblings p i j b) := by
  constructor
  · intro h
    cases h with
    | repeatedNone => exact .inl ⟨rfl, rfl⟩
    | repeatedMore _ first moves others =>
      cases others with
      | repeatedNone => exact .inr ⟨moves, by simpa using first⟩
      | repeatedMore room => simp at room
  · rintro (⟨rfl, rfl⟩ | ⟨moves, h⟩)
    · exact .repeatedNone
    · have hroom : some 1 ≠ some 0 := by simp
      have hmore : Derives pathOf siblings (repeated p 0 (some 1)) i j ([] ++ b) :=
        .repeatedMore hroom h moves .repeatedNone
      exact hmore

end Inversion

/-! ## The default pattern -/

/-- The pattern of a list of names. -/
def nameList : Pattern :=
  sequence [repeated (sequence [token .name, operator [',']]) 0 none, token .name, optional (operator [','])]

section Names

variable {pathOf : Nat → Path} {siblings : List Tree} {i j : Nat} {b : Bindings}

theorem drop_eq_cons {t : Tree} (h : siblings[i]? = some t) : siblings.drop i = t :: siblings.drop (i + 1) := by
  obtain ⟨hi, rfl⟩ := List.getElem?_eq_some_iff.1 h
  exact List.drop_eq_getElem_cons hi

/-- Names with commas behind them, in front of a list of names, make a list of names. -/
theorem isNameList_drop_of_repeated
    (h : Derives pathOf siblings (repeated (sequence [token .name, operator [',']]) 0 none) i j b)
    (hlist : Tree.isNameList (siblings.drop j) = true) : b = [] ∧ Tree.isNameList (siblings.drop i) = true := by
  generalize hp : repeated (sequence [token .name, operator [',']]) 0 none = p at h
  induction h with
  | leaf | node | sequenceNil | sequenceCons | anyOf | capture => cases hp
  | repeatedNone => exact ⟨rfl, hlist⟩
  | @repeatedMore _ siblings _ _ _ i j k b c _ hfirst _ _ _ ih =>
    cases hp
    obtain ⟨rfl, hrest⟩ := ih hlist rfl
    simp only [derives_cons_iff, derives_nil_iff, derives_token_iff, derives_operator_iff] at hfirst
    obtain ⟨_, _, _, ⟨n, hn, hkind, rfl, rfl⟩, ⟨_, _, _, ⟨c, hc, hcomma, rfl, rfl⟩, ⟨rfl, rfl⟩, rfl⟩, rfl⟩ := hfirst
    refine ⟨rfl, ?_⟩
    rw [drop_eq_cons hn, drop_eq_cons hc]
    cases hd : siblings.drop (i + 1 + 1) with
    | nil => simp [Tree.isNameList, Tree.isToken, hkind, Tree.isOperator, hcomma]
    | cons t ts =>
      rw [hd] at hrest
      simp [Tree.isNameList, Tree.isToken, hkind, Tree.isOperator, hcomma, hrest]

/-- A leaf of a kind. -/
theorem exists_leaf_of_isToken {k : TokenKind} {t : Tree} (h : t.isToken k = true) :
    ∃ u, t = .leaf u ∧ u.kind = k := by
  cases t with
  | leaf u => exact ⟨u, rfl, by simpa [Tree.isToken] using h⟩
  | node => simp [Tree.isToken] at h

theorem exists_leaf_of_isOperator {op : Text} {t : Tree} (h : t.isOperator op = true) :
    ∃ u, t = .leaf u ∧ u.isOperator op = true := by
  cases t with
  | leaf u => exact ⟨u, rfl, h⟩
  | node => simp [Tree.isOperator] at h

theorem derives_nameList_of_isNameList (h : Tree.isNameList (siblings.drop i) = true) :
    Derives pathOf siblings nameList i siblings.length [] := by
  have key : ∃ j, Derives pathOf siblings (repeated (sequence [token .name, operator [',']]) 0 none) i j [] ∧
      ∃ n, siblings[j]? = some (.leaf n) ∧ n.kind = .name ∧
        (siblings.length = j + 1 ∨
          siblings.length = j + 2 ∧ ∃ c, siblings[j + 1]? = some (.leaf c) ∧ c.isOperator [','] = true) := by
    generalize hl : siblings.drop i = l at h
    fun_induction Tree.isNameList l generalizing i with
    | case1 => simp at h
    | case2 n =>
      obtain ⟨u, rfl, hu⟩ := exists_leaf_of_isToken h
      have hlength := congrArg List.length hl
      simp only [List.length_drop, List.length_cons, List.length_nil] at hlength
      have hn := congrArg (·[0]?) hl
      simp only [List.getElem?_drop, Nat.add_zero, List.getElem?_cons_zero] at hn
      exact ⟨i, .repeatedNone, u, hn, hu, .inl (by omega)⟩
    | case3 n c rest ih =>
      simp only [Bool.and_eq_true, Bool.or_eq_true, List.isEmpty_iff] at h
      obtain ⟨⟨hname, hcomma⟩, hrest⟩ := h
      obtain ⟨u, rfl, hu⟩ := exists_leaf_of_isToken hname
      obtain ⟨v, rfl, hv⟩ := exists_leaf_of_isOperator hcomma
      have hn := congrArg (·[0]?) hl
      have hc := congrArg (·[1]?) hl
      have hlength := congrArg List.length hl
      simp only [List.getElem?_drop, Nat.add_zero, List.getElem?_cons_zero, List.getElem?_cons_succ, List.length_drop,
        List.length_cons] at hn hc hlength
      have hdrop : siblings.drop (i + 2) = rest := by
        rw [← List.drop_drop, hl]
        rfl
      rcases hrest with rfl | hrest
      · exact ⟨i, .repeatedNone, u, hn, hu, .inr ⟨by simp at hlength; omega, v, hc, hv⟩⟩
      · obtain ⟨j, hj, hend⟩ := ih hdrop hrest
        have hpair : Derives pathOf siblings (sequence [token .name, operator [',']]) i (i + 2) [] := by
          simp only [derives_cons_iff, derives_nil_iff, derives_token_iff, derives_operator_iff]
          exact ⟨i + 1, [], [], ⟨u, hn, hu, rfl, rfl⟩, ⟨i + 2, [], [], ⟨v, hc, hv, rfl, rfl⟩, ⟨rfl, rfl⟩, rfl⟩, rfl⟩
        have hroom : (none : Option Nat) ≠ some 0 := by simp
        have hpairs : Derives pathOf siblings (repeated (sequence [token .name, operator [',']]) 0 none) i j ([] ++ []) :=
          .repeatedMore hroom hpair (by omega) hj
        exact ⟨j, hpairs, hend⟩
  obtain ⟨j, hpairs, n, hn, hname, hend⟩ := key
  simp only [nameList, derives_cons_iff, derives_nil_iff, derives_token_iff, derives_optional_iff,
    derives_operator_iff]
  refine ⟨j, [], [], hpairs, ⟨j + 1, [], [], ⟨n, hn, hname, rfl, rfl⟩, ⟨siblings.length, [], [], ?_, ⟨rfl, rfl⟩, rfl⟩, rfl⟩,
    rfl⟩
  rcases hend with hend | ⟨hend, c, hc, hcomma⟩
  · exact .inl ⟨hend, rfl⟩
  · exact .inr ⟨by omega, c, hc, hcomma, hend, rfl⟩

theorem derives_nameList_iff :
    Derives pathOf siblings nameList i siblings.length b ↔ Tree.isNameList (siblings.drop i) = true ∧ b = [] := by
  constructor
  · intro h
    simp only [nameList, derives_cons_iff, derives_nil_iff, derives_token_iff, derives_optional_iff,
      derives_operator_iff] at h
    obtain ⟨j, c, _, hpairs, ⟨_, _, _, ⟨n, hn, hname, rfl, rfl⟩, ⟨_, _, _, hcomma, ⟨hend, rfl⟩, rfl⟩, rfl⟩, rfl⟩ := h
    have hlist : Tree.isNameList (siblings.drop j) = true := by
      rw [drop_eq_cons hn]
      rcases hcomma with ⟨hstop, rfl⟩ | ⟨_, c, hc, hcomma, hstop, rfl⟩
      · rw [List.drop_eq_nil_of_le (by omega)]
        simp [Tree.isNameList, Tree.isToken, hname]
      · rw [drop_eq_cons hc, List.drop_eq_nil_of_le (by omega)]
        simp [Tree.isNameList, Tree.isToken, hname, Tree.isOperator, hcomma]
    obtain ⟨rfl, hi⟩ := isNameList_drop_of_repeated hpairs hlist
    refine ⟨hi, ?_⟩
    rcases hcomma with ⟨_, rfl⟩ | ⟨_, _, _, _, _, rfl⟩ <;> rfl
  · rintro ⟨h, rfl⟩
    exact derives_nameList_of_isNameList h

end Names

/-! ## Expressions -/

section Expressions

variable {pathOf : Nat → Path} {siblings : List Tree} {i j : Nat} {b : Bindings} {p q r : Pattern}

/-- The pattern matches elements one at a time. -/
def IsSingle (p : Pattern) : Prop :=
  ∀ ⦃pathOf : Nat → Path⦄ ⦃siblings : List Tree⦄ ⦃i j : Nat⦄ ⦃b : Bindings⦄, Derives pathOf siblings p i j b → j = i + 1

theorem isSingle_operator (op : Text) : (operator op).IsSingle := by
  intro _ _ _ _ _ h
  obtain ⟨_, -, -, rfl, -⟩ := derives_operator_iff.1 h
  rfl

theorem isSingle_capture_token (name : String) (kind : TokenKind) : (capture name (token kind)).IsSingle := by
  intro _ _ _ _ _ h
  obtain ⟨_, h, -⟩ := derives_capture_iff.1 h
  obtain ⟨_, -, -, rfl, -⟩ := derives_token_iff.1 h
  rfl

theorem isSingle_node (kind : NodeKind) (parts : List Pattern) : (node kind parts).IsSingle := by
  intro _ _ _ _ _ h
  obtain ⟨_, -, -, rfl⟩ := derives_node_iff.1 h
  rfl

/-- Three children, one for each pattern. -/
theorem derives_triple_iff (hp : p.IsSingle) (hq : q.IsSingle) (hr : r.IsSingle) :
    Derives pathOf siblings (.sequence [p, q, r]) 0 siblings.length b ↔ ∃ t u v c d e, siblings = [t, u, v] ∧
      Derives pathOf [t, u, v] p 0 1 c ∧ Derives pathOf [t, u, v] q 1 2 d ∧ Derives pathOf [t, u, v] r 2 3 e ∧
        b = e ++ d ++ c := by
  simp only [derives_cons_iff, derives_nil_iff]
  constructor
  · rintro ⟨k, c, _, hc, ⟨l, d, _, hd, ⟨m, e, _, he, ⟨hlength, rfl⟩, rfl⟩, rfl⟩, rfl⟩
    obtain rfl := hp hc
    obtain rfl := hq hd
    obtain rfl := hr he
    obtain ⟨t, u, v, rfl⟩ := List.length_eq_three.1 hlength
    exact ⟨t, u, v, c, d, _, rfl, hc, hd, he, rfl⟩
  · rintro ⟨t, u, v, c, d, e, rfl, hc, hd, he, rfl⟩
    exact ⟨1, c, _, hc, ⟨2, d, _, hd, ⟨3, e, [], he, ⟨rfl, rfl⟩, rfl⟩, rfl⟩, rfl⟩

/-- A captured token. -/
theorem derives_capture_token_iff {name : String} {kind : TokenKind} :
    Derives pathOf siblings (capture name (token kind)) i j b ↔ ∃ t, siblings[i]? = some (.leaf t) ∧ t.kind = kind ∧
      j = i + 1 ∧ b = [(name, .single (pathOf i))] := by
  rw [derives_capture_iff]
  constructor
  · rintro ⟨_, h, rfl⟩
    obtain ⟨t, ht, hkind, rfl, rfl⟩ := derives_token_iff.1 h
    exact ⟨t, ht, hkind, rfl, rfl⟩
  · rintro ⟨t, ht, hkind, rfl, rfl⟩
    exact ⟨[], derives_token_iff.2 ⟨t, ht, hkind, rfl, rfl⟩, rfl⟩

/-- A term of a string, a percent sign and an operand that matches the pattern `p`. -/
theorem derives_term_iff (hp : p.IsSingle) :
    Derives pathOf siblings (.node .term [capture "formatstring" (token .string), operator ['%'], p]) i j b ↔
      ∃ s op operand c, siblings[i]? = some (.node .term [.leaf s, .leaf op, operand]) ∧ s.kind = .string ∧
        op.isOperator ['%'] = true ∧ Derives (fun k => pathOf i ++ [k]) [.leaf s, .leaf op, operand] p 2 3 c ∧
          j = i + 1 ∧ b = c ++ [("formatstring", .single (pathOf i ++ [0]))] := by
  rw [derives_node_iff]
  constructor
  · rintro ⟨cs, hcs, h, rfl⟩
    obtain ⟨_, _, operand, _, _, c, rfl, hstring, hpercent, hoperand, rfl⟩ :=
      (derives_triple_iff (isSingle_capture_token _ _) (isSingle_operator _) hp).1 h
    obtain ⟨s, hs, hkind, -, rfl⟩ := derives_capture_token_iff.1 hstring
    obtain ⟨op, hop, hoperator, -, rfl⟩ := derives_operator_iff.1 hpercent
    obtain rfl := Option.some.inj hs
    obtain rfl := Option.some.inj hop
    exact ⟨s, op, operand, c, hcs, hkind, hoperator, hoperand, rfl, by simp⟩
  · rintro ⟨s, op, operand, c, hcs, hkind, hoperator, hoperand, rfl, rfl⟩
    have hstring : Derives (fun k => pathOf i ++ [k]) [.leaf s, .leaf op, operand]
        (capture "formatstring" (token .string)) 0 1 [("formatstring", .single (pathOf i ++ [0]))] := derives_capture_token_iff.2 ⟨s, rfl, hkind, rfl, rfl⟩
    have hpercent : Derives (fun k => pathOf i ++ [k]) [.leaf s, .leaf op, operand] (operator ['%']) 1 2 [] :=
      derives_operator_iff.2 ⟨op, rfl, hoperator, rfl, rfl⟩
    refine ⟨_, hcs, ?_, rfl⟩
    exact (derives_triple_iff (isSingle_capture_token _ _) (isSingle_operator _) hp).2
      ⟨_, _, _, _, _, _, rfl, hstring, hpercent, hoperand, by simp⟩

theorem captured_nameList (n : Nat) : captured pathOf nameList 0 n = .sequence ((List.range n).map pathOf) := by
  simp [captured, nameList, isRun, List.range_eq_range']

/-- A list of names in round brackets, captured as a whole. -/
theorem derives_atom_iff : Derives pathOf siblings
    (.node .atom [operator ['('], .node .exprList [capture "interpolation_args" nameList], operator [')']]) i j b ↔
      ∃ opening names closing, siblings[i]? = some (.node .atom [.leaf opening, .node .exprList names, .leaf closing]) ∧
        opening.isOperator ['('] = true ∧ closing.isOperator [')'] = true ∧ Tree.isNameList names = true ∧ j = i + 1 ∧
          b = [("interpolation_args", .sequence ((List.range names.length).map fun k => pathOf i ++ [1] ++ [k]))] := by
  constructor
  · intro h
    obtain ⟨cs, hcs, hchildren, rfl⟩ := derives_node_iff.1 h
    obtain ⟨_, _, _, _, _, _, rfl, hopen, hlist, hclose, rfl⟩ :=
      (derives_triple_iff (isSingle_operator _) (isSingle_node _ _) (isSingle_operator _)).1 hchildren
    obtain ⟨opening, ho, hopens, -, rfl⟩ := derives_operator_iff.1 hopen
    obtain ⟨closing, hc, hcloses, -, rfl⟩ := derives_operator_iff.1 hclose
    obtain ⟨names, hn, hnames, -⟩ := derives_node_iff.1 hlist
    simp only [derives_cons_iff, derives_nil_iff, derives_capture_iff] at hnames
    obtain ⟨_, _, _, ⟨_, hnames, rfl⟩, ⟨rfl, rfl⟩, rfl⟩ := hnames
    obtain ⟨hlisted, rfl⟩ := derives_nameList_iff.1 hnames
    obtain rfl := Option.some.inj ho
    obtain rfl := Option.some.inj hn
    obtain rfl := Option.some.inj hc
    exact ⟨opening, names, closing, hcs, hopens, hcloses, hlisted, rfl, by rw [captured_nameList]; rfl⟩
  · rintro ⟨opening, names, closing, hcs, hopens, hcloses, hlisted, rfl, rfl⟩
    have hnames : Derives (fun k => pathOf i ++ [1] ++ [k]) names nameList 0 names.length [] :=
      derives_nameList_iff.2 ⟨hlisted, rfl⟩
    have hlist : Derives (fun k => pathOf i ++ [1] ++ [k]) names (.sequence [capture "interpolation_args" nameList]) 0
        names.length
        [("interpolation_args", .sequence ((List.range names.length).map fun k => pathOf i ++ [1] ++ [k]))] := by
      rw [← captured_nameList]
      exact derives_cons_iff.2 ⟨_, _, [], derives_capture_iff.2 ⟨_, hnames, rfl⟩, derives_nil_iff.2 ⟨rfl, rfl⟩, rfl⟩
    refine derives_node_iff.2 ⟨_, hcs, ?_, rfl⟩
    exact (derives_triple_iff (isSingle_operator _) (isSingle_node _ _) (isSingle_operator _)).2
      ⟨_, _, _, [], _, [], rfl, derives_operator_iff.2 ⟨opening, rfl, hopens, rfl, rfl⟩,
        derives_node_iff.2 ⟨names, rfl, hlist, rfl⟩, derives_operator_iff.2 ⟨closing, rfl, hcloses, rfl, rfl⟩, by simp⟩

end Expressions

theorem interpolation_eq : interpolation = anyOf
    [.node .term [capture "formatstring" (token .string), operator ['%'], capture "interpolation_args" (token .name)],
     .node .term
      [capture "formatstring" (token .string), operator ['%'],
       .node .atom [operator ['('], .node .exprList [capture "interpolation_args" nameList], operator [')']]]] := rfl

/-- What the default pattern derives for a single element. -/
theorem derives_interpolation_iff {t : Tree} {b : Bindings} :
    Derives (fun _ => []) [t] interpolation 0 1 b ↔
      ∃ c, Interpolates t c ∧ b = [("interpolation_args", c.arguments), ("formatstring", .single c.formatString)] := by
  have htree {u : Tree} : [t][0]? = some u ↔ t = u := by simp
  simp only [interpolation_eq, derives_anyOf_iff, List.mem_cons, List.not_mem_nil, or_false, exists_eq_or_imp,
    exists_eq_left, derives_term_iff (isSingle_capture_token _ _), derives_term_iff (isSingle_node _ _), htree,
    derives_capture_token_iff, derives_atom_iff]
  constructor
  · rintro (⟨s, op, _, _, rfl, hstring, hpercent, ⟨n, hn, hname, -, rfl⟩, -, rfl⟩ |
      ⟨s, op, _, _, rfl, hstring, hpercent, ⟨opening, names, closing, ha, hopens, hcloses, hlisted, -, rfl⟩, -, rfl⟩)
    · obtain rfl := Option.some.inj hn
      exact ⟨_, .name hstring hpercent hname, rfl⟩
    · obtain rfl := Option.some.inj ha
      exact ⟨_, .tuple hstring hpercent hopens hcloses hlisted, rfl⟩
  · rintro ⟨c, hc, rfl⟩
    cases hc with
    | @name s op n hstring hpercent hname =>
      exact .inl ⟨s, op, _, _, rfl, hstring, hpercent, ⟨n, rfl, hname, trivial, rfl⟩, trivial, rfl⟩
    | @tuple s op opening closing names hstring hpercent hopens hcloses hlisted =>
      exact .inr ⟨s, op, _, _, rfl, hstring, hpercent,
        ⟨opening, names, closing, rfl, hopens, hcloses, hlisted, trivial, rfl⟩, trivial, rfl⟩

/-- The trees that the default pattern matches, and their captures. -/
theorem captures_interpolation_iff {t : Tree} {c : Captures} :
    (interpolation.match? t).bind Captures.ofBindings = some c ↔ Interpolates t c := by
  have hof (d : Captures) : Captures.ofBindings
      [("interpolation_args", d.arguments), ("formatstring", .single d.formatString)] = some d := by
    simp [Captures.ofBindings, List.lookup_cons]
  constructor
  · intro h
    obtain ⟨b, hb, hc⟩ := Option.bind_eq_some_iff.1 h
    obtain ⟨d, hd, rfl⟩ := derives_interpolation_iff.1 (derives_of_match? hb)
    rw [hof, Option.some.injEq] at hc
    exact hc ▸ hd
  · intro h
    obtain ⟨b, hb⟩ := exists_match? (derives_interpolation_iff.2 ⟨c, h, rfl⟩)
    obtain ⟨d, hd, rfl⟩ := derives_interpolation_iff.1 (derives_of_match? hb)
    rw [hb, Option.bind_some, hof, hd.unique h]

end Pattern

end Interpolation

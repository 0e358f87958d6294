import Interpolation.Proofs.Transform.Order

/-!
# Which nodes are selected

`Pattern.select` goes through the tree once and finds every node below the root that matches. For the default pattern
these are the terms of three children: a string, a percent sign, and a name or a list of names in round brackets.

* `Tree.mem_descendants_iff` — the descendants of a tree are its subtrees at all paths but the empty one;
* `Pattern.mem_select_iff` — what a pattern selects;
* `Tree.nameList` — a list of names, spelled out; `Tree.isNameList_iff` says that these are what is looked for;
* `Operand` — what can stand behind the percent sign, with the arguments that are captured of it;
* `Pattern.mem_select_interpolation_iff` — what the default pattern selects.
-/

namespace Interpolation

open Pattern (interpolation)

namespace Tree

/-! ## Descendants -/

theorem mem_descendantsFrom_iff {cs : List Tree} {i : Nat} {path : Path} {u : Tree} :
    (path, u) ∈ descendantsFrom i cs ↔
      ∃ j c q, cs[j]? = some c ∧ path = (i + j) :: q ∧ (q = [] ∧ u = c ∨ (q, u) ∈ c.descendants) := by
  induction cs generalizing i with
  | nil => simp [descendantsFrom]
  | cons d cs ih =>
    simp only [descendantsFrom, List.cons_append, List.mem_cons, List.mem_append, Prod.mk.injEq, List.mem_map,
      Prod.exists, ih]
    constructor
    · rintro (⟨rfl, rfl⟩ | ⟨q, _, hq, rfl, rfl⟩ | ⟨j, c, q, hc, rfl, hu⟩)
      · exact ⟨0, u, [], rfl, rfl, .inl ⟨rfl, rfl⟩⟩
      · exact ⟨0, d, q, rfl, rfl, .inr hq⟩
      · exact ⟨j + 1, c, q, hc, by rw [Nat.add_right_comm, Nat.add_assoc], hu⟩
    · rintro ⟨_ | j, c, q, hc, rfl, hu⟩
      · obtain rfl := Option.some.inj hc
        rcases hu with ⟨rfl, rfl⟩ | hu
        · exact .inl ⟨rfl, rfl⟩
        · exact .inr (.inl ⟨q, u, hu, rfl, rfl⟩)
      · exact .inr (.inr ⟨j, c, q, hc, by rw [Nat.add_right_comm, Nat.add_assoc], hu⟩)

/-- The descendants of a tree are its subtrees at all paths but the empty one. -/
theorem mem_descendants_iff {t u : Tree} {path : Path} :
    (path, u) ∈ t.descendants ↔ path ≠ [] ∧ t.subtree? path = some u := by
  induction t generalizing path with
  | leaf v => cases path <;> simp [descendants, children]
  | node k cs ih =>
    rw [descendants, mem_descendantsFrom_iff]
    constructor
    · rintro ⟨j, c, q, hc, rfl, hu⟩
      have hbelow : c.subtree? q = some u := by
        rcases hu with ⟨rfl, rfl⟩ | hu
        · exact subtree?_nil u
        · exact ((ih c (List.mem_of_getElem? hc)).1 hu).2
      refine ⟨List.cons_ne_nil _ _, ?_⟩
      rw [Nat.zero_add, subtree?_cons, children, hc]
      exact hbelow
    · rintro ⟨hpath, hu⟩
      obtain ⟨j, q, rfl⟩ := List.exists_cons_of_ne_nil hpath
      rw [subtree?_cons, children] at hu
      obtain ⟨c, hc, hbelow⟩ := Option.bind_eq_some_iff.1 hu
      refine ⟨j, c, q, hc, by rw [Nat.zero_add], ?_⟩
      by_cases hq : q = []
      · rw [hq, subtree?_nil, Option.some.injEq] at hbelow
        exact .inl ⟨hq, hbelow.symm⟩
      · exact .inr ((ih c (List.mem_of_getElem? hc)).2 ⟨hq, hbelow⟩)

/-! ## Lists of names -/

/-- The siblings of a list of names: a name, a comma and a name any number of times, and perhaps a comma. -/
def nameList (first : Token) (others : List (Token × Token)) (last : Option Token) : List Tree :=
  leaf first :: (others.flatMap (fun (comma, name) => [leaf comma, leaf name]) ++ last.toList.map leaf)

theorem isNameList_nameList {first : Token} {others : List (Token × Token)} {last : Option Token}
    (hfirst : first.kind = .name) (hothers : ∀ x ∈ others, x.1.isOperator [','] = true ∧ x.2.kind = .name)
    (hlast : ∀ comma ∈ last, comma.isOperator [','] = true) : isNameList (nameList first others last) = true := by
  induction others generalizing first with
  | nil =>
    cases last with
    | none => simp [nameList, isNameList, isToken, hfirst]
    | some comma => simp [nameList, isNameList, isToken, isOperator, hfirst, hlast comma rfl]
  | cons x others ih =>
    obtain ⟨⟨hcomma, hname⟩, hothers⟩ := List.forall_mem_cons.1 hothers
    have hrest := ih hname hothers
    show isNameList (leaf first :: leaf x.1 :: nameList x.2 others last) = true
    simp [isNameList, isToken, isOperator, hfirst, hcomma, hrest]

theorem isNameList_iff {ts : List Tree} : isNameList ts = true ↔ ∃ first others last, ts = nameList first others last ∧
    first.kind = .name ∧ (∀ x ∈ others, x.1.isOperator [','] = true ∧ x.2.kind = .name) ∧
    ∀ comma ∈ last, comma.isOperator [','] = true := by
  constructor
  · intro h
    fun_induction isNameList ts with
    | case1 => contradiction
    | case2 n =>
      obtain ⟨u, rfl, hname⟩ := Pattern.exists_leaf_of_isToken h
      exact ⟨u, [], none, rfl, hname, by simp, by simp⟩
    | case3 n c rest ih =>
      simp only [Bool.and_eq_true, Bool.or_eq_true, List.isEmpty_iff] at h
      obtain ⟨⟨hn, hc⟩, hrest⟩ := h
      obtain ⟨u, rfl, hname⟩ := Pattern.exists_leaf_of_isToken hn
      obtain ⟨v, rfl, hcomma⟩ := Pattern.exists_leaf_of_isOperator hc
      rcases hrest with rfl | hrest
      · exact ⟨u, [], some v, rfl, hname, by simp, by simpa using hcomma⟩
      · obtain ⟨w, others, last, rfl, hw, hothers, hlast⟩ := ih hrest
        exact ⟨u, (v, w) :: others, last, rfl, hname, List.forall_mem_cons.2 ⟨⟨hcomma, hw⟩, hothers⟩, hlast⟩
  · rintro ⟨first, others, last, rfl, hfirst, hothers, hlast⟩
    exact isNameList_nameList hfirst hothers hlast

end Tree

/-! ## Expressions -/

/-- What stands behind the percent sign of an expression, and the arguments captured of it: one name, or a list of names
in round brackets, with all siblings of the list. -/
inductive Operand : Tree → Captured → Prop
  | name {n : Token} (name : n.kind = .name) : Operand (.leaf n) (.single [2])
  | tuple {opening first closing : Token} {others : List (Token × Token)} {last : Option Token}
      (opens : opening.isOperator ['('] = true) (closes : closing.isOperator [')'] = true) (name : first.kind = .name)
      (pairs : ∀ x ∈ others, x.1.isOperator [','] = true ∧ x.2.kind = .name)
      (ends : ∀ comma ∈ last, comma.isOperator [','] = true) :
      Operand (.node .atom [.leaf opening, .node .exprList (Tree.nameList first others last), .leaf closing])
        (.sequence ((List.range (Tree.nameList first others last).length).map fun i => [2, 1, i]))

theorem interpolates_iff {t : Tree} {c : Captures} : Interpolates t c ↔ ∃ literal percent operand,
    t = .node .term [.leaf literal, .leaf percent, operand] ∧ literal.kind = .string ∧
      percent.isOperator ['%'] = true ∧ c.formatString = [0] ∧ Operand operand c.arguments := by
  constructor
  · rintro (⟨string, percent, name⟩ | ⟨string, percent, opens, closes, listed⟩)
    · exact ⟨_, _, _, rfl, string, percent, rfl, .name name⟩
    · obtain ⟨first, others, last, rfl, hfirst, hothers, hlast⟩ := Tree.isNameList_iff.1 listed
      exact ⟨_, _, _, rfl, string, percent, rfl, .tuple opens closes hfirst hothers hlast⟩
  · obtain ⟨formatString, arguments⟩ := c
    rintro ⟨literal, percent, operand, rfl, hstring, hpercent, rfl, hoperand⟩
    cases hoperand with
    | name name => exact .name hstring hpercent name
    | tuple opens closes hfirst hothers hlast =>
      exact .tuple hstring hpercent opens closes (Tree.isNameList_nameList hfirst hothers hlast)

namespace Pattern

/-- What a pattern selects are the nodes below the root that match with the captures of an expression. -/
theorem mem_select_iff {p : Pattern} {tree : Tree} {m : Match} : m ∈ p.select tree ↔
    m.path ≠ [] ∧ ∃ e, tree.subtree? m.path = some e ∧ p.here? e = some ⟨[], m.captures⟩ := by
  rw [select_eq, List.mem_filterMap]
  constructor
  · rintro ⟨⟨path, e⟩, hmem, hm⟩
    obtain ⟨n, hn, rfl⟩ := Option.map_eq_some_iff.1 hm
    obtain ⟨hpath, he⟩ := Tree.mem_descendants_iff.1 hmem
    have hroot := path_of_here? hn
    exact ⟨hpath, e, he, by rw [hn, ← hroot]⟩
  · rintro ⟨hpath, e, he, hhere⟩
    exact ⟨(m.path, e), Tree.mem_descendants_iff.2 ⟨hpath, he⟩, by rw [hhere, Option.map_some]⟩

/-- The default pattern selects the terms below the root that are a string, a percent sign and an operand, each of them
once, with the string and the names of the operand captured. -/
theorem mem_select_interpolation_iff (tree : Tree) :
    ((interpolation.select tree).map Match.path).Nodup ∧
    ∀ m, m ∈ interpolation.select tree ↔ m.path ≠ [] ∧ ∃ literal percent operand,
      tree.subtree? m.path = some (.node .term [.leaf literal, .leaf percent, operand]) ∧ literal.kind = .string ∧
        percent.isOperator ['%'] = true ∧ m.captures.formatString = [0] ∧ Operand operand m.captures.arguments := by
  constructor
  · refine List.pairwise_map.2 ((pairwise_parallel_select tree).imp fun h heq => ?_)
    exact h.1 (heq ▸ List.prefix_refl _)
  · intro m
    rw [mem_select_iff]
    refine and_congr_right fun _ => ?_
    simp only [here?_interpolation_eq_some_iff, true_and, interpolates_iff]
    constructor
    · rintro ⟨_, he, literal, percent, operand, rfl, h⟩
      exact ⟨literal, percent, operand, he, h⟩
    · rintro ⟨literal, percent, operand, he, h⟩
      exact ⟨_, he, literal, percent, operand, rfl, h⟩

end Pattern

end Interpolation

import Interpolation.Proofs.Selection.Selected

/-!
# Document order

The order of paths is that of lists of numbers, so that a node stands before all that is below it and behind all that is
below a sibling on its left.

* `Tree.pairwise_descendants` — a tree is gone through in the order of the paths;
* `Captures.ofBindings_eq_some_iff` — which captures make up an expression;
* `Pattern.select_inDocumentOrder` — what a pattern selects, and in which order.
-/

namespace Interpolation

namespace Tree

/-- The descendants on the left of a sibling stand before those at the sibling and behind it. -/
theorem lt_of_mem_descendantsFrom {i : Nat} {cs : List Tree} {p : Path} {x : Path × Tree}
    (hx : x ∈ descendantsFrom (i + 1) cs) : i :: p < x.1 := by
  obtain ⟨j, c, q, -, hpath, -⟩ := mem_descendantsFrom_iff.1 hx
  rw [hpath, List.cons_lt_cons_iff]
  left
  omega

/-- The descendants of a tree are in the order of their paths, all of them different. -/
theorem pairwise_descendants (t : Tree) : t.descendants.Pairwise fun x y => x.1 < y.1 := by
  induction t with
  | leaf u => simp [descendants]
  | node k cs ih =>
    rw [descendants]
    generalize 0 = i
    induction cs generalizing i with
    | nil => simp [descendantsFrom]
    | cons c cs ihcs =>
      obtain ⟨hc, hcs⟩ := List.forall_mem_cons.1 ih
      rw [descendantsFrom, List.cons_append, List.pairwise_cons, List.pairwise_append, List.pairwise_map]
      refine ⟨?_, ?_, ihcs hcs (i + 1), ?_⟩
      · -- The child itself stands before what is below it, and before its siblings on the right.
        intro x hx
        rcases List.mem_append.1 hx with hx | hx
        · obtain ⟨y, hy, rfl⟩ := List.mem_map.1 hx
          have hpath : y.1 ≠ [] := (mem_descendants_iff.1 hy).1
          obtain ⟨j, q, hjq⟩ := List.exists_cons_of_ne_nil hpath
          show [i] < i :: y.1
          rw [hjq, List.cons_lt_cons_iff]
          exact .inr ⟨rfl, List.nil_lt_cons j q⟩
        · exact lt_of_mem_descendantsFrom hx
      · refine hc.imp fun h => ?_
        rw [List.cons_lt_cons_iff]
        exact .inr ⟨rfl, h⟩
      · intro x hx y hy
        obtain ⟨z, -, rfl⟩ := List.mem_map.1 hx
        exact lt_of_mem_descendantsFrom hy

end Tree

/-- Captures make up an expression if a single format string is bound, and arguments. -/
theorem Captures.ofBindings_eq_some_iff {b : Bindings} {c : Captures} : ofBindings b = some c ↔
    b.lookup "formatstring" = some (.single c.formatString) ∧ b.lookup "interpolation_args" = some c.arguments := by
  unfold ofBindings
  constructor
  · intro h
    split at h
    · next path arguments hformat harguments =>
      obtain rfl := Option.some.inj h
      exact ⟨hformat, harguments⟩
    · contradiction
  · rintro ⟨hformat, harguments⟩
    rw [hformat, harguments]

namespace Pattern

/-- The paths of what is selected are in document order. -/
theorem pairwise_select (p : Pattern) (tree : Tree) : ((p.select tree).map Match.path).Pairwise (· < ·) := by
  rw [select_eq, List.pairwise_map, List.pairwise_filterMap]
  refine tree.pairwise_descendants.imp fun {x y} hxy m hm n hn => ?_
  obtain ⟨_, -, rfl⟩ := Option.map_eq_some_iff.1 hm
  obtain ⟨_, -, rfl⟩ := Option.map_eq_some_iff.1 hn
  exact hxy

/-- A pattern selects the nodes below the root on which it binds a single format string and arguments, each of them once,
by the path that leads to it, in document order, and nothing else. -/
theorem select_inDocumentOrder (p : Pattern) (tree : Tree) :
    ((p.select tree).map Match.path).Pairwise (· < ·) ∧ ((p.select tree).map Match.path).Nodup ∧
    ∀ m, m ∈ p.select tree ↔ ∃ e b, tree.below? m.path = some e ∧ e.kind?.isSome = true ∧ p.match? e = some b ∧
      b.lookup "formatstring" = some (.single m.captures.formatString) ∧
      b.lookup "interpolation_args" = some m.captures.arguments := by
  have hsorted := pairwise_select p tree
  have hdistinct : ((p.select tree).map Match.path).Nodup := by
    refine List.Pairwise.imp ?_ hsorted
    rintro x _ hlt rfl
    exact List.lt_irrefl x hlt
  refine ⟨hsorted, hdistinct, fun m => ?_⟩
  rw [mem_select_iff]
  constructor
  · rintro ⟨hpath, e, he, hhere⟩
    obtain ⟨hnode, hmatch⟩ := here?_eq_some_iff.1 hhere
    obtain ⟨b, hb, hcaptures⟩ := Option.bind_eq_some_iff.1 hmatch
    refine ⟨e, b, ?_, hnode, hb, Captures.ofBindings_eq_some_iff.1 hcaptures⟩
    rw [Tree.below?, if_neg hpath]
    exact he
  · rintro ⟨e, b, he, hnode, hb, hcaptures⟩
    have hpath : m.path ≠ [] := by
      intro hroot
      simp [Tree.below?, hroot] at he
    rw [Tree.below?, if_neg hpath] at he
    refine ⟨hpath, e, he, here?_eq_some_iff.2 ⟨hnode, ?_⟩⟩
    rw [hb, Option.bind_some, Captures.ofBindings_eq_some_iff]
    exact hcaptures

end Pattern

end Interpolation

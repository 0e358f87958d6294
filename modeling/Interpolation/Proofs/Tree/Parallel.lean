import Interpolation.Tree.Path
import Mathlib.Tactic.Common

/-!
# Changes at parallel paths

Two paths are parallel if neither leads to a place on the way of the other. What is done where one of them leads is no
matter for what stands where the other leads:

* `Tree.subtree?_update_of_parallel` — a subtree stays as it is when the tree changes at a parallel path;
* `Tree.update_update_of_parallel` — changes at parallel paths can be made in either order.
-/

namespace Interpolation

namespace Path

/-- Neither path is the start of the other. -/
def Parallel (p q : Path) : Prop := ¬p <+: q ∧ ¬q <+: p

theorem Parallel.symm {p q : Path} (h : Parallel p q) : Parallel q p := ⟨h.2, h.1⟩

@[simp] theorem not_parallel_nil_left (p : Path) : ¬Parallel [] p := fun h => h.1 List.nil_prefix

@[simp] theorem not_parallel_nil_right (p : Path) : ¬Parallel p [] := fun h => h.2 List.nil_prefix

theorem parallel_cons_iff {i j : Nat} {p q : Path} : Parallel (i :: p) (j :: q) ↔ (i = j → Parallel p q) := by
  unfold Parallel
  rw [List.cons_prefix_cons, List.cons_prefix_cons]
  constructor
  · rintro ⟨hp, hq⟩ rfl
    exact ⟨fun h => hp ⟨rfl, h⟩, fun h => hq ⟨rfl, h⟩⟩
  · intro h
    exact ⟨fun ⟨hij, hp⟩ => (h hij).1 hp, fun ⟨hji, hq⟩ => (h hji.symm).2 hq⟩

end Path

namespace Tree

open Interpolation.Path (Parallel)

variable {p q : Path}

theorem subtree?_update_of_parallel (h : Parallel p q) (f : Tree → Tree) (t : Tree) :
    (t.update f p).subtree? q = t.subtree? q := by
  induction p generalizing q t with
  | nil => exact absurd h (Path.not_parallel_nil_left q)
  | cons i p ih =>
    cases q with
    | nil => exact absurd h (Path.not_parallel_nil_right _)
    | cons j q =>
      cases t with
      | leaf u => rw [update_leaf_cons]
      | node k cs =>
        rw [update_node_cons, subtree?_cons, subtree?_cons]
        show ((cs.modify i fun c => c.update f p)[j]?.bind fun c => c.subtree? q) = cs[j]?.bind fun c => c.subtree? q
        rw [List.getElem?_modify]
        cases cs[j]? with
        | none => rfl
        | some c =>
          show (if i = j then c.update f p else c).subtree? q = c.subtree? q
          split
          · next hij => exact ih (Path.parallel_cons_iff.1 h hij) c
          · rfl

theorem update_update_of_parallel (h : Parallel p q) (f g : Tree → Tree) (t : Tree) :
    (t.update f p).update g q = (t.update g q).update f p := by
  induction p generalizing q t with
  | nil => exact absurd h (Path.not_parallel_nil_left q)
  | cons i p ih =>
    cases q with
    | nil => exact absurd h (Path.not_parallel_nil_right _)
    | cons j q =>
      cases t with
      | leaf u => simp
      | node k cs =>
        simp only [update_node_cons]
        by_cases hij : i = j
        · subst hij
          have hcomp : ∀ c : Tree, (c.update f p).update g q = (c.update g q).update f p :=
            ih (Path.parallel_cons_iff.1 h rfl)
          rw [List.modify_modify_eq, List.modify_modify_eq]
          congr 2
          funext c
          exact hcomp c
        · rw [List.modify_modify_ne _ _ _ hij]

end Tree

end Interpolation

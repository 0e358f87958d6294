import Interpolation.Transform
import Interpolation.Proofs.Selection.Matches
import Interpolation.Proofs.Transform.Expression
import Mathlib.Data.List.Pairwise

/-!
# The attempts at the expressions of a tree

The expressions of a tree are interpolated one after the other, each in the tree that the ones before it have left. No
expression lies within another, so that their paths are parallel; and an attempt changes the tree at its path alone, so
that none of them gets in the way of another.

* `Tree.interpolateAt_under`, `Tree.interpolateAll_under` — what is done in a child changes that child alone;
* `Tree.attempts` — the attempts at all expressions, each made in the tree as it was at first;
* `Tree.finish` — the tree after them;
* `Pattern.pairwise_parallel_found` — the paths of the expressions of a tree are parallel;
* `Tree.interpolateAt_snd` — what an attempt does to the tree is a change at its path;
* `Tree.interpolateAll_fst_of_pairwise`, `Tree.interpolateAll_found` — one after the other, attempts at parallel paths
  come out the same.
-/

namespace Interpolation

open Interpolation.Path (Parallel)
open Pattern (interpolation)

/-- An attempt in the child `i`, seen from its parent. -/
def Attempt.under (i : Nat) (a : Attempt) : Attempt := { a with selected := a.selected.under i }

namespace Tree

/-! ## In one child -/

section Child

variable (k : NodeKind) (pre post : List Tree) (c : Tree)

theorem interpolateAt_under (m : Match) : (node k (pre ++ c :: post)).interpolateAt (m.under pre.length) =
    ((c.interpolateAt m).1.under pre.length, node k (pre ++ (c.interpolateAt m).2 :: post)) := by
  have hnode : (node k (pre ++ c :: post)).nodeAt? (pre.length :: m.path) = c.nodeAt? m.path := by
    rw [nodeAt?, nodeAt?, subtree?_node]
  unfold interpolateAt
  rw [show (m.under pre.length).path = pre.length :: m.path from rfl, hnode]
  cases c.nodeAt? m.path with
  | none => rfl
  | some e =>
    dsimp only
    rw [update_node]
    rfl

theorem interpolateAll_under (ms : List Match) :
    (node k (pre ++ c :: post)).interpolateAll (ms.map (Match.under pre.length)) =
      ((c.interpolateAll ms).1.map (Attempt.under pre.length), node k (pre ++ (c.interpolateAll ms).2 :: post)) := by
  induction ms generalizing c with
  | nil => rfl
  | cons m ms ih => simp only [List.map_cons, interpolateAll, interpolateAt_under, ih]

end Child

theorem interpolateAll_append (t : Tree) (ms ns : List Match) : t.interpolateAll (ms ++ ns) =
    ((t.interpolateAll ms).1 ++ ((t.interpolateAll ms).2.interpolateAll ns).1,
      ((t.interpolateAll ms).2.interpolateAll ns).2) := by
  induction ms generalizing t with
  | nil => rfl
  | cons m ms ih => simp only [List.cons_append, interpolateAll, ih]

@[simp]
theorem interpolateAt_selected (t : Tree) (m : Match) : (t.interpolateAt m).1.selected = m := by
  unfold interpolateAt
  split <;> rfl

theorem interpolateAll_selected (t : Tree) (ms : List Match) :
    (t.interpolateAll ms).1.map Attempt.selected = ms := by
  induction ms generalizing t with
  | nil => rfl
  | cons m ms ih => simp [interpolateAll, ih]

/-! ## In all children -/

/-- The attempts at the given matches, each made in the tree `t` itself. -/
def attemptsAt (t : Tree) (ms : List Match) : List Attempt := ms.map fun m => (t.interpolateAt m).1

/-- The attempts at all that is found in a tree, each made in the tree as it was at first. -/
def attempts (t : Tree) : List Attempt := t.attemptsAt (interpolation.found t)

/-- The tree after all that is found in it is interpolated. -/
def finish (t : Tree) : Tree := (t.interpolateAll (interpolation.found t)).2

theorem attemptsAt_under (k : NodeKind) (pre post : List Tree) (c : Tree) (ms : List Match) :
    (node k (pre ++ c :: post)).attemptsAt (ms.map (Match.under pre.length)) =
      (c.attemptsAt ms).map (Attempt.under pre.length) := by
  simp [attemptsAt, interpolateAt_under]

theorem attemptsAt_append (t : Tree) (ms ns : List Match) :
    t.attemptsAt (ms ++ ns) = t.attemptsAt ms ++ t.attemptsAt ns := List.map_append

theorem foundFrom_cons (pre : List Tree) (c : Tree) (cs : List Tree) : interpolation.foundFrom pre.length (c :: cs) =
    (interpolation.found c).map (Match.under pre.length) ++ interpolation.foundFrom (pre ++ [c]).length cs := by
  simp [Pattern.foundFrom]

/-- In a node that is no expression, what is found is found in the children. -/
theorem found_node {k : NodeKind} {cs : List Tree} (hhere : interpolation.here? (node k cs) = none) :
    interpolation.found (node k cs) = interpolation.foundFrom ([] : List Tree).length cs := by
  simp [Pattern.found, hhere, Pattern.select_node]

/-- The children of a node are finished one after the other. -/
theorem interpolateAll_foundFrom (k : NodeKind) (pre cs : List Tree) :
    ((node k (pre ++ cs)).interpolateAll (interpolation.foundFrom pre.length cs)).2 =
      node k (pre ++ cs.map finish) := by
  induction cs generalizing pre with
  | nil => simp [Pattern.foundFrom, interpolateAll]
  | cons c cs ih =>
    have hrest := ih (pre ++ [c.finish])
    have hlength : (pre ++ [c.finish]).length = (pre ++ [c]).length := by simp
    rw [hlength] at hrest
    simp only [List.append_assoc, List.singleton_append] at hrest
    rw [foundFrom_cons, interpolateAll_append, interpolateAll_under]
    exact hrest

/-- A node that is no expression is finished when its children are. -/
theorem finish_node {k : NodeKind} {cs : List Tree} (hhere : interpolation.here? (node k cs) = none) :
    (node k cs).finish = node k (cs.map finish) := by
  rw [finish, found_node hhere]
  exact interpolateAll_foundFrom k [] cs

end Tree

/-! ## Expressions stand apart -/

/-- The paths of two matches are parallel. -/
def Match.Parallel (m n : Match) : Prop := Path.Parallel m.path n.path

instance : Std.Symm Match.Parallel := ⟨fun _ _ h => Path.Parallel.symm h⟩

namespace Pattern

theorem head?_path_of_mem_foundFrom {p : Pattern} {m : Match} {i : Nat} {cs : List Tree} (h : m ∈ p.foundFrom i cs) :
    ∃ j q, i ≤ j ∧ m.path = j :: q := by
  obtain ⟨j, c, n, -, -, rfl⟩ := exists_of_mem_foundFrom h
  exact ⟨i + j, n.path, Nat.le_add_right i j, rfl⟩

/-- What is found in several trees is parallel, if what is found in each of them is. -/
theorem pairwise_parallel_foundFrom {p : Pattern} {cs : List Tree} (h : ∀ c ∈ cs, (p.found c).Pairwise Match.Parallel)
    (i : Nat) : (p.foundFrom i cs).Pairwise Match.Parallel := by
  induction cs generalizing i with
  | nil => exact List.Pairwise.nil
  | cons c cs ih =>
    rw [List.forall_mem_cons] at h
    refine List.pairwise_append.2 ⟨?_, ih h.2 (i + 1), ?_⟩
    · exact List.pairwise_map.2 (h.1.imp fun hmn => Path.parallel_cons_iff.2 fun _ => hmn)
    · -- Paths that start with different children are parallel.
      intro m hm n hn
      obtain ⟨m, -, rfl⟩ := List.mem_map.1 hm
      obtain ⟨j, q, hij, hpath⟩ := head?_path_of_mem_foundFrom hn
      show Parallel (i :: m.path) n.path
      rw [hpath]
      exact Path.parallel_cons_iff.2 fun heq => by omega

theorem pairwise_parallel_found (t : Tree) : (interpolation.found t).Pairwise Match.Parallel := by
  induction t with
  | leaf u => exact List.Pairwise.nil
  | node k cs ih =>
    cases hhere : interpolation.here? (.node k cs) with
    | some m =>
      obtain ⟨-, hshape⟩ := here?_interpolation_eq_some_iff.1 hhere
      simp [found, hhere, select_eq_nil_of_interpolates hshape]
    | none =>
      rw [Tree.found_node hhere]
      exact pairwise_parallel_foundFrom ih _

end Pattern

/-- An expression is a node of the tree. -/
theorem Interpolates.nodeAt?_eq {t e : Tree} {p : Path} {c : Captures} (h : Interpolates e c)
    (he : t.subtree? p = some e) : t.nodeAt? p = some e := by
  obtain ⟨_, _, _, rfl, _⟩ := h.exists_eq
  simp [Tree.nodeAt?, he, Tree.kind?]

namespace Tree

/-! ## Two attempts -/

theorem interpolate_leaf (u : Token) (c : Captures) : ((leaf u).interpolate c).2 = leaf u := by
  rcases interpolate_cases (leaf u) c with ⟨-, heq⟩ | ⟨s, _, hresolves, -⟩
  · rw [heq]
  · obtain ⟨hp, hs⟩ := tokenAt?_eq_some_iff.1 hresolves.formatString
    obtain ⟨i, p, hp⟩ := List.exists_cons_of_ne_nil hp
    simp [hp, children] at hs

/-- An attempt changes the tree where its path leads, and nowhere else. -/
theorem interpolateAt_snd (t : Tree) (m : Match) :
    (t.interpolateAt m).2 = t.update (fun s => (s.interpolate m.captures).2) m.path := by
  unfold interpolateAt
  split
  · next hnone =>
    symm
    refine update_eq_self fun s hs => ?_
    cases s with
    | leaf u => exact interpolate_leaf u m.captures
    | node k cs => simp [nodeAt?, hs, kind?] at hnone
  · rfl

/-- An attempt comes out the same in two trees that agree where its path leads. -/
theorem interpolateAt_fst_congr {s t : Tree} {m : Match} (h : s.subtree? m.path = t.subtree? m.path) :
    (s.interpolateAt m).1 = (t.interpolateAt m).1 := by
  have hnode : s.nodeAt? m.path = t.nodeAt? m.path := by rw [nodeAt?, nodeAt?, h]
  unfold interpolateAt
  rw [hnode]
  split <;> rfl

theorem interpolateAt_fst_of_parallel {m n : Match} (h : m.Parallel n) (t : Tree) :
    ((t.interpolateAt m).2.interpolateAt n).1 = (t.interpolateAt n).1 := by
  rw [interpolateAt_snd]
  exact interpolateAt_fst_congr (subtree?_update_of_parallel h _ t)

theorem interpolateAt_snd_comm {m n : Match} (h : m.Parallel n) (t : Tree) :
    ((t.interpolateAt m).2.interpolateAt n).2 = ((t.interpolateAt n).2.interpolateAt m).2 := by
  simp only [interpolateAt_snd]
  exact update_update_of_parallel h _ _ t

/-- At parallel paths every attempt comes out as if it were the only one. -/
theorem interpolateAll_fst_of_pairwise {ms : List Match} (h : ms.Pairwise Match.Parallel) (t : Tree) :
    (t.interpolateAll ms).1 = t.attemptsAt ms := by
  induction ms generalizing t with
  | nil => rfl
  | cons m ms ih =>
    rw [List.pairwise_cons] at h
    have hothers : (t.interpolateAt m).2.attemptsAt ms = t.attemptsAt ms :=
      List.map_congr_left fun n hn => interpolateAt_fst_of_parallel (h.1 n hn) t
    show (t.interpolateAt m).1 :: ((t.interpolateAt m).2.interpolateAll ms).1 = _
    rw [ih h.2, hothers]
    rfl

/-- Interpolating all expressions one after the other, every attempt comes out as if it were the first. -/
theorem interpolateAll_found (t : Tree) : (t.interpolateAll (interpolation.found t)).1 = t.attempts :=
  interpolateAll_fst_of_pairwise (Pattern.pairwise_parallel_found t) t

end Tree

end Interpolation

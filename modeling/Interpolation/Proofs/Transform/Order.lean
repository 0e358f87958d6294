import Interpolation.Proofs.Transform.Attempts
import Mathlib.Data.List.Perm.Basic

/-!
# The order of the expressions is no matter

The paths of the expressions of a tree are parallel, and an attempt changes the tree at its path alone: neither what an
attempt at a parallel path finds nor what it leaves depends on it.

* `Pattern.pairwise_parallel_select` — the paths of the expressions of a tree are parallel;
* `Tree.interpolateAll_snd_perm` — at parallel paths the tree after all attempts does not depend on their order;
* `Tree.interpolateAll_select_perm` — the attempts at the expressions of a tree, in any order, and the tree after them.
-/

namespace Interpolation

open Pattern (interpolation)

namespace Pattern

/-- No expression of a tree is on the way to another. -/
theorem pairwise_parallel_select (t : Tree) : (interpolation.select t).Pairwise Match.Parallel :=
  (List.pairwise_append.1 (pairwise_parallel_found t)).2.1

theorem interpolates_of_mem_select {t : Tree} {m : Match} (h : m ∈ interpolation.select t) :
    ∃ e, t.subtree? m.path = some e ∧ Interpolates e m.captures :=
  interpolates_of_mem_found (List.mem_append_right _ h)

end Pattern

namespace Tree

theorem interpolateAll_snd (t : Tree) (ms : List Match) :
    (t.interpolateAll ms).2 = ms.foldl (fun t m => (t.interpolateAt m).2) t := by
  induction ms generalizing t with
  | nil => rfl
  | cons m ms ih => exact ih (t.interpolateAt m).2

/-- At parallel paths the tree after all attempts does not depend on their order. -/
theorem interpolateAll_snd_perm {ms ns : List Match} (hperm : ms.Perm ns) (h : ms.Pairwise Match.Parallel) (t : Tree) :
    (t.interpolateAll ms).2 = (t.interpolateAll ns).2 := by
  rw [interpolateAll_snd, interpolateAll_snd]
  refine hperm.foldl_eq' (fun m hm n hn s => ?_) t
  by_cases hmn : m = n
  · rw [hmn]
  · exact interpolateAt_snd_comm (h.forall hm hn hmn) s

/-- No expression of a tree is on the way to another, and the order in which they are interpolated is no matter: the
tree after them is the same, and every attempt finds the expression that was selected and comes out as if it were the
only one. -/
theorem interpolateAll_select_perm (tree : Tree) :
    let ms := interpolation.select tree
    ms.Pairwise (fun m n => ¬m.path <+: n.path ∧ ¬n.path <+: m.path) ∧
    ∀ ns, ns.Perm ms →
      (tree.interpolateAll ns).2 = (tree.interpolateAll ms).2 ∧
      (tree.interpolateAll ns).1 = ns.map (fun m => (tree.interpolateAt m).1) ∧
      ∀ a ∈ (tree.interpolateAll ns).1, a.selected ∈ ms ∧
        ∃ expression, tree.nodeAt? a.selected.path = some expression ∧
          a.visited = some (expression, (expression.interpolate a.selected.captures).1) := by
  intro ms
  have hpairwise : ms.Pairwise Match.Parallel := Pattern.pairwise_parallel_select tree
  refine ⟨hpairwise, fun ns hperm => ?_⟩
  have hpairwise' : ns.Pairwise Match.Parallel := hpairwise.perm hperm.symm Path.Parallel.symm
  have hattempts : (tree.interpolateAll ns).1 = tree.attemptsAt ns := interpolateAll_fst_of_pairwise hpairwise' tree
  refine ⟨interpolateAll_snd_perm hperm hpairwise' tree, hattempts, fun a ha => ?_⟩
  rw [hattempts] at ha
  obtain ⟨m, hm, rfl⟩ := List.mem_map.1 ha
  obtain ⟨e, he, hshape⟩ := Pattern.interpolates_of_mem_select (hperm.subset hm)
  have hnode : tree.nodeAt? m.path = some e := by
    obtain ⟨s, op, operand, rfl, -⟩ := hshape.exists_eq
    simp [nodeAt?, he, kind?]
  rw [interpolateAt, hnode]
  exact ⟨hperm.subset hm, e, hnode, rfl⟩

/-- Three expressions from the last one to the first. The one in the middle has too many arguments and is skipped. -/
theorem interpolateAll_select_reverse :
    let tree := parse "f('%s' % a, '%d' % (b, c), '%f' % d)".toList
    let ms := interpolation.select tree
    ms.map Match.path = [[0, 1, 1, 0], [0, 1, 1, 2], [0, 1, 1, 4]] ∧ ms.reverse.Perm ms ∧
      (tree.interpolateAll ms.reverse).2 = (tree.interpolateAll ms).2 ∧
      (tree.interpolateAll ms.reverse).2.render = "f(f'{a}', '%d' % (b, c), f'{d}')".toList ∧
      (tree.interpolateAll ms.reverse).1 = ms.reverse.map (fun m => (tree.interpolateAt m).1) := by
  intro tree ms
  have hperm : ms.reverse.Perm ms := List.reverse_perm ms
  obtain ⟨htree, hattempts, -⟩ := (interpolateAll_select_perm tree).2 ms.reverse hperm
  exact ⟨by decide +kernel, hperm, htree, by decide +kernel, hattempts⟩

end Tree

end Interpolation

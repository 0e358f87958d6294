import Interpolation.Proofs.Transform.Counts
import Interpolation.Proofs.Transform.Order
import Interpolation.Proofs.Transform.Pruning
import Interpolation.Proofs.Transform.Steps

/-!
# What is skipped is skipped again

After all expressions of a tree are interpolated, those that were skipped are all that is left to select, and they are
skipped again. What is left of an expression is a term with one child: neither an expression nor part of one, since
there is no term within an operand.

* `Tree.Termless` — a tree without terms, such as the operand of an expression. Where no term is left there was none
  (`Tree.termless_of_finish`), so that no node turns into an expression or ceases to be one (`Tree.here?_map_finish`);
* `Tree.attempts_finish` — the attempts at what is left of a tree are those that were skipped;
* `Tree.interpolateAt_snd_of_not_isInterpolated` — an attempt that makes no literal changes nothing;
* `Tree.select_interpolateAll` — what is selected of a tree after all attempts, and what becomes of it.
-/

namespace Interpolation

open Pattern (interpolation)

theorem Attempt.not_isInterpolated_of_isSkipped {a : Attempt} (h : a.isSkipped = true) : a.isInterpolated = false := by
  obtain ⟨m, _ | ⟨e, _ | _ | _⟩⟩ := a
  · rfl
  · cases h
  · rfl
  · rfl

namespace Tree

/-! ## Trees without terms -/

/-- There is no term in the tree. -/
inductive Termless : Tree → Prop
  | leaf (u : Token) : Termless (.leaf u)
  | node {k : NodeKind} {cs : List Tree} (kind : k ≠ .term) (each : ∀ c ∈ cs, Termless c) : Termless (.node k cs)

variable {t : Tree} {k : NodeKind} {cs : List Tree}

theorem Termless.kind?_ne (h : Termless t) : t.kind? ≠ some .term := by
  cases h with
  | leaf u => simp [kind?]
  | node kind _ => simpa [kind?] using kind

/-- The children of an expression are without terms. -/
theorem termless_of_here? {m : Match} (h : interpolation.here? (node k cs) = some m) : ∀ c ∈ cs, Termless c := by
  obtain ⟨_, hshape⟩ := Pattern.here?_interpolation_eq_some_iff.1 h
  generalize m.captures = captures at hshape
  cases hshape with
  | name => simp [Termless.leaf]
  | @tuple s op opening closing names _ _ _ _ listed =>
    have hnames : ∀ n ∈ names, Termless n := fun n hn => by
      obtain ⟨u, rfl⟩ := Pattern.exists_leaf_of_isNameList listed n hn
      exact .leaf u
    have hlist : Termless (node .exprList names) := .node (by decide) hnames
    have hatom : Termless (node .atom [leaf opening, node .exprList names, leaf closing]) :=
      .node (by decide) (by simp [Termless.leaf, hlist])
    simp [Termless.leaf, hatom]

theorem finish_of_termless (h : Termless t) : t.finish = t := by
  induction h with
  | leaf u => rfl
  | @node k cs kind _ ih =>
    rw [finish_node (Pattern.here?_interpolation_node kind cs), List.map_congr_left ih, List.map_id']

/-- Where no term is left there was none. -/
theorem termless_of_finish (h : Termless t.finish) : Termless t := by
  induction t with
  | leaf u => exact .leaf u
  | node k cs ih =>
    -- An expression that became a literal is still a term.
    have hk : k ≠ .term := fun hk => by
      have hkept : (node k cs).finish.kind? = some k := (pruned_interpolateAll _ _).kind?_eq
      exact h.kind?_ne (hk ▸ hkept)
    rw [finish_node (Pattern.here?_interpolation_node hk cs)] at h
    cases h with
    | node _ each => exact .node hk fun c hc => ih c hc (each _ (List.mem_map_of_mem hc))

/-- Finishing the children of a node neither makes it an expression nor keeps it from being one: if there is no term in
them they stay as they are, and otherwise it is none before and after. -/
theorem here?_map_finish (k : NodeKind) (cs : List Tree) :
    interpolation.here? (node k (cs.map finish)) = interpolation.here? (node k cs) := by
  by_cases h : ∀ c ∈ cs, Termless c
  · rw [List.map_congr_left fun c hc => finish_of_termless (h c hc), List.map_id']
  · have hbefore : interpolation.here? (node k cs) = none :=
      Option.eq_none_iff_forall_ne_some.2 fun m hm => h (termless_of_here? hm)
    have hafter : interpolation.here? (node k (cs.map finish)) = none := Option.eq_none_iff_forall_ne_some.2 fun m hm =>
      h fun c hc => termless_of_finish (termless_of_here? hm _ (List.mem_map_of_mem hc))
    rw [hbefore, hafter]

/-! ## The attempts at what is left -/

/-- The attempts at all that is found in some trees, the first of which is the child `i`. -/
def attemptsFrom (i : Nat) : List Tree → List Attempt
  | [] => []
  | c :: cs => c.attempts.map (.under i) ++ attemptsFrom (i + 1) cs

theorem attemptsAt_foundFrom (k : NodeKind) (pre cs : List Tree) :
    (node k (pre ++ cs)).attemptsAt (interpolation.foundFrom pre.length cs) = attemptsFrom pre.length cs := by
  induction cs generalizing pre with
  | nil => rfl
  | cons c cs ih =>
    have hrest := ih (pre ++ [c])
    rw [List.append_assoc, List.singleton_append] at hrest
    rw [foundFrom_cons, attemptsAt_append, attemptsAt_under, hrest, attemptsFrom, attempts, List.length_append,
      List.length_singleton]

theorem attempts_node (hhere : interpolation.here? (node k cs) = none) : (node k cs).attempts = attemptsFrom 0 cs := by
  rw [attempts, found_node hhere]
  exact attemptsAt_foundFrom k [] cs

theorem attemptsFrom_map_finish (h : ∀ c ∈ cs, c.finish.attempts = c.attempts.filter Attempt.isSkipped) (i : Nat) :
    attemptsFrom i (cs.map finish) = (attemptsFrom i cs).filter Attempt.isSkipped := by
  induction cs generalizing i with
  | nil => rfl
  | cons c cs ih =>
    rw [List.forall_mem_cons] at h
    rw [List.map_cons, attemptsFrom, attemptsFrom, List.filter_append, h.1, ih h.2, List.filter_map]
    rfl

/-- A literal is no expression. -/
theorem attempts_literal (u : Token) : (node .term [leaf u]).attempts = [] := by
  have hhere : interpolation.here? (node .term [leaf u]) = none := Option.eq_none_iff_forall_ne_some.2 fun m hm => by
    obtain ⟨_, hshape⟩ := Pattern.here?_interpolation_eq_some_iff.1 hm
    cases hshape
  rw [attempts_node hhere]
  rfl

/-- The attempts at what is left of a tree are those that were skipped. -/
theorem attempts_finish (t : Tree) : t.finish.attempts = t.attempts.filter Attempt.isSkipped := by
  induction t with
  | leaf u => rfl
  | node k cs ih =>
    cases hhere : interpolation.here? (node k cs) with
    | none =>
      rw [finish_node hhere, attempts_node ((here?_map_finish k cs).trans hhere), attempts_node hhere]
      exact attemptsFrom_map_finish ih 0
    | some m =>
      -- There is one attempt, at the whole tree, and its outcome decides.
      have hattempts := attempts_of_here? hhere
      have hfinish := finish_of_here? hhere
      obtain ⟨_, hshape⟩ := Pattern.here?_interpolation_eq_some_iff.1 hhere
      obtain ⟨literal, h⟩ | ⟨reason, h⟩ := interpolate_eq (node k cs) m.captures
      · obtain ⟨s, op, operand, heq, -, -, hformat⟩ := hshape.exists_eq
        rw [hfinish, hattempts, h, hformat, heq, replaceBy_head, attempts_literal]
        rfl
      · rw [hfinish, h, hattempts, h]
        rfl

/-! ## Attempts that change nothing -/

/-- An attempt that makes no literal changes nothing. -/
theorem interpolateAt_snd_of_not_isInterpolated {m : Match} (h : (t.interpolateAt m).1.isInterpolated = false) :
    (t.interpolateAt m).2 = t := by
  unfold interpolateAt at h ⊢
  split
  · rfl
  · next e he =>
    refine update_eq_self fun s hs => ?_
    obtain rfl : e = s := Option.some.inj ((Option.filter_eq_some_iff.1 he).1.symm.trans hs)
    obtain ⟨literal, heq⟩ | ⟨reason, heq⟩ := interpolate_eq e m.captures
    · simp [he, heq, Attempt.isInterpolated] at h
    · rw [heq]

/-- Attempts that leave the tree as it is come out the same one after the other. -/
theorem interpolateAll_of_forall {as : List Attempt} (h : ∀ a ∈ as, t.interpolateAt a.selected = (a, t)) :
    t.interpolateAll (as.map Attempt.selected) = (as, t) := by
  induction as with
  | nil => rfl
  | cons a as ih =>
    rw [List.forall_mem_cons] at h
    simp only [List.map_cons, interpolateAll, h.1, ih h.2]

/-! ## The whole tree -/

/-- The attempts at all that is selected of a tree, and those at what is selected of the tree after them. -/
theorem attemptsAt_select_interpolateAll (tree : Tree) :
    let final := (tree.interpolateAll (interpolation.select tree)).2
    final.attemptsAt (interpolation.select final) =
      (tree.attemptsAt (interpolation.select tree)).filter Attempt.isSkipped := by
  intro final
  cases tree with
  | leaf u => rfl
  | node k cs =>
    have hfinal : final = node k (cs.map finish) := by
      show ((node k cs).interpolateAll (interpolation.select (node k cs))).2 = _
      rw [Pattern.select_node]
      exact interpolateAll_foundFrom k [] cs
    have hattempts (ds : List Tree) : (node k ds).attemptsAt (interpolation.select (node k ds)) = attemptsFrom 0 ds := by
      rw [Pattern.select_node]
      exact attemptsAt_foundFrom k [] ds
    rw [hfinal, hattempts, hattempts, attemptsFrom_map_finish fun c _ => attempts_finish c]

theorem attemptsAt_selected (t : Tree) (ms : List Match) : (t.attemptsAt ms).map Attempt.selected = ms := by
  rw [attemptsAt, List.map_map]
  exact List.map_id'' (fun m => interpolateAt_selected t m) ms

/-- Every expression that is selected of a tree becomes a literal, or it is skipped for some reason. Those that are
skipped are all that is selected of the tree after them, in the same places and with the same captures. There each of
them comes out as it did, alone or in its turn, and nothing changes any more. -/
theorem select_interpolateAll (tree : Tree) :
    let attempts := (tree.interpolateAll (interpolation.select tree)).1
    let final := (tree.interpolateAll (interpolation.select tree)).2
    let skipped := attempts.filter Attempt.isSkipped
    interpolation.select final = skipped.map Attempt.selected ∧
    final.interpolateAll (interpolation.select final) = (skipped, final) ∧
    (∀ a ∈ skipped, final.interpolateAt a.selected = (a, final)) ∧
    ∀ a ∈ attempts, ∃ e, tree.nodeAt? a.selected.path = some e ∧
      ((∃ literal, a.visited = some (e, .interpolated literal)) ∨ ∃ reason, a.visited = some (e, .skipped reason)) := by
  intro attempts final skipped
  have hattempts : attempts = tree.attemptsAt (interpolation.select tree) :=
    interpolateAll_fst_of_pairwise (Pattern.pairwise_parallel_select tree) tree
  have hagain : final.attemptsAt (interpolation.select final) = skipped := by
    rw [attemptsAt_select_interpolateAll, ← hattempts]
  have hselect : interpolation.select final = skipped.map Attempt.selected := by
    rw [← hagain, attemptsAt_selected]
  have heach : ∀ a ∈ skipped, final.interpolateAt a.selected = (a, final) := fun a ha => by
    have hskipped : a.isSkipped = true := (List.mem_filter.1 ha).2
    obtain ⟨m, _, rfl⟩ := List.mem_map.1 (hagain ▸ ha)
    rw [interpolateAt_selected]
    exact Prod.ext rfl (interpolateAt_snd_of_not_isInterpolated (Attempt.not_isInterpolated_of_isSkipped hskipped))
  refine ⟨hselect, by rw [hselect, interpolateAll_of_forall heach], heach, fun a ha => ?_⟩
  rw [hattempts] at ha
  obtain ⟨m, hm, rfl⟩ := List.mem_map.1 ha
  obtain ⟨e, he, hshape⟩ := Pattern.interpolates_of_mem_select hm
  have hnode : tree.nodeAt? m.path = some e := hshape.nodeAt?_eq he
  have hvisited : (tree.interpolateAt m).1.visited = some (e, (e.interpolate m.captures).1) := by rw [interpolateAt, hnode]
  refine ⟨e, by rw [interpolateAt_selected, hnode], ?_⟩
  obtain ⟨literal, h⟩ | ⟨reason, h⟩ := interpolate_eq e m.captures
  · exact .inl ⟨literal, by rw [hvisited, h]⟩
  · exact .inr ⟨reason, by rw [hvisited, h]⟩

/-- What was skipped is the only match that is left, and it is skipped again. -/
theorem select_interpolateAll_mismatched :
    let tree := parse "'%s' % a, '%d' % (b, c)".toList
    let final := (tree.interpolateAll (interpolation.select tree)).2
    (interpolation.select tree).map Match.path = [[0], [2]] ∧ final.render = "f'{a}', '%d' % (b, c)".toList ∧
      (final.interpolateAll (interpolation.select final)).1.map (fun a => (a.selected.path, a.visited.map Prod.snd)) =
        [([2], some (.skipped (.countMismatch 1 2)))] ∧
      (final.interpolateAll (interpolation.select final)).2 = final := by
  intro tree final
  obtain ⟨-, hagain, -⟩ := select_interpolateAll tree
  exact ⟨by decide +kernel, by decide +kernel, by decide +kernel, by rw [hagain]⟩

end Tree

end Interpolation

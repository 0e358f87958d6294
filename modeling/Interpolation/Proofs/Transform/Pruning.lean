import Interpolation.Proofs.Transform.Attempts

/-!
# What the attempts leave of a tree

An attempt gives one token another text, and drops children at the end of one node. So nothing ever moves: where a path
still leads to something in the tree that is left, it leads to what was there at first, or to what is left of that. This
is so for any matches, be they nested or not.

* `Tree.Pruned` — what can be left of a tree;
* `Tree.Pruned.exists_nodeAt?` — a path that leads to a node of the pruned tree leads to the node it was pruned from;
* `Tree.pruned_update` — a change that prunes where it is made prunes the whole tree;
* `Tree.pruned_interpolateAt`, `Tree.pruned_interpolateAll` — one attempt prunes a tree, and so do all of them;
* `Pattern.pruned_transform` — what every attempt finds at its path, for any pattern and any source.
-/

namespace Interpolation

open Interpolation.Path (Parallel)

namespace Tree

/-- What can be left of a tree: every node keeps its kind and has the first of its children, or what is left of them;
every token keeps its kind and its trivia. -/
inductive Pruned : Tree → Tree → Prop
  | leaf {u v : Token} (kind : v.kind = u.kind) (trivia : v.trivia = u.trivia) : Pruned (.leaf u) (.leaf v)
  | node {k : NodeKind} {cs ds : List Tree} (fewer : ds.length ≤ cs.length)
      (each : ∀ (i : Nat) (c d : Tree), cs[i]? = some c → ds[i]? = some d → Pruned c d) : Pruned (.node k cs) (.node k ds)

namespace Pruned

theorem refl (t : Tree) : Pruned t t := by
  induction t with
  | leaf u => exact .leaf rfl rfl
  | node k cs ih =>
    refine .node (Nat.le_refl _) fun i c d hc hd => ?_
    obtain rfl : c = d := Option.some.inj (hc.symm.trans hd)
    exact ih c (List.mem_of_getElem? hc)

variable {s t u : Tree}

theorem trans (h : Pruned s t) (h' : Pruned t u) : Pruned s u := by
  induction h generalizing u with
  | leaf kind trivia =>
    cases h' with
    | leaf kind' trivia' => exact .leaf (kind'.trans kind) (trivia'.trans trivia)
  | @node k cs ds fewer each ih =>
    cases h' with
    | node fewer' each' =>
      refine .node (Nat.le_trans fewer' fewer) fun i c e hc he => ?_
      have hi : i < ds.length := Nat.lt_of_lt_of_le (List.getElem?_eq_some_iff.1 he).1 fewer'
      have hd : ds[i]? = some ds[i] := List.getElem?_eq_getElem hi
      exact ih i c _ hc hd (each' i _ e hd he)

/-! ## Where paths lead -/

theorem kind?_eq (h : Pruned s t) : t.kind? = s.kind? := by
  cases h <;> rfl

/-- A child of the pruned tree is what is left of the child that was there. -/
theorem exists_child (h : Pruned s t) {i : Nat} {d : Tree} (hd : t.children[i]? = some d) :
    ∃ c, s.children[i]? = some c ∧ Pruned c d := by
  cases h with
  | leaf => simp [children] at hd
  | @node k cs ds fewer each =>
    have hi : i < cs.length := Nat.lt_of_lt_of_le (List.getElem?_eq_some_iff.1 hd).1 fewer
    have hc : cs[i]? = some cs[i] := List.getElem?_eq_getElem hi
    exact ⟨_, hc, each i _ d hc hd⟩

theorem exists_subtree? (h : Pruned s t) {p : Path} (hp : t.subtree? p = some u) :
    ∃ v, s.subtree? p = some v ∧ Pruned v u := by
  induction p generalizing s t with
  | nil =>
    rw [subtree?_nil, Option.some.injEq] at hp
    exact ⟨s, subtree?_nil s, hp ▸ h⟩
  | cons i p ih =>
    rw [subtree?_cons, Option.bind_eq_some_iff] at hp
    obtain ⟨d, hd, hp⟩ := hp
    obtain ⟨c, hc, hcd⟩ := h.exists_child hd
    obtain ⟨v, hv, hvu⟩ := ih hcd hp
    exact ⟨v, by rw [subtree?_cons, hc, Option.bind_some, hv], hvu⟩

/-- A path that leads to a node leads to what is left of the node that was there. -/
theorem exists_nodeAt? (h : Pruned s t) {p : Path} (hp : t.nodeAt? p = some u) :
    ∃ v, s.nodeAt? p = some v ∧ Pruned v u := by
  obtain ⟨hsubtree, hkind⟩ := Option.filter_eq_some_iff.1 hp
  obtain ⟨v, hv, hvu⟩ := h.exists_subtree? hsubtree
  exact ⟨v, Option.filter_eq_some_iff.2 ⟨hv, by rw [← hvu.kind?_eq]; exact hkind⟩, hvu⟩

end Pruned

/-! ## Changes that prune -/

theorem pruned_withText (text : Text) (t : Tree) : Pruned t (t.withText text) := by
  cases t with
  | leaf u => exact .leaf rfl rfl
  | node k cs => exact .refl _

theorem pruned_takeChildren (n : Nat) (t : Tree) : Pruned t (t.takeChildren n) := by
  cases t with
  | leaf u => exact .refl _
  | node k cs =>
    refine .node (List.length_take_le' n cs) fun i c d hc hd => ?_
    rw [List.getElem?_take, Option.ite_none_right_eq_some] at hd
    obtain rfl : c = d := Option.some.inj (hc.symm.trans hd.2)
    exact .refl c

/-- A change that prunes where it is made prunes the whole tree. -/
theorem pruned_update {f : Tree → Tree} (hf : ∀ s, Pruned s (f s)) (t : Tree) (p : Path) : Pruned t (t.update f p) := by
  induction p generalizing t with
  | nil =>
    rw [update_nil]
    exact hf t
  | cons i p ih =>
    cases t with
    | leaf u =>
      rw [update_leaf_cons]
      exact .refl _
    | node k cs =>
      rw [update_node_cons]
      refine .node (Nat.le_of_eq (List.length_modify ..)) fun j c d hc hd => ?_
      rw [List.getElem?_modify, hc] at hd
      obtain rfl := Option.some.inj hd
      split
      · exact ih c
      · exact .refl c

/-- Whatever is captured of an expression, an attempt prunes it. -/
theorem pruned_interpolate (expression : Tree) (c : Captures) : Pruned expression (expression.interpolate c).2 := by
  rcases interpolate_eq expression c with ⟨literal, heq⟩ | ⟨reason, heq⟩
  · rw [heq]
    exact (pruned_update (pruned_withText _) expression c.formatString).trans (pruned_takeChildren _ _)
  · rw [heq]
    exact .refl _

theorem pruned_interpolateAt (t : Tree) (m : Match) : Pruned t (t.interpolateAt m).2 := by
  rw [interpolateAt_snd]
  exact pruned_update (fun s => pruned_interpolate s m.captures) t m.path

theorem pruned_interpolateAll (t : Tree) (ms : List Match) : Pruned t (t.interpolateAll ms).2 := by
  induction ms generalizing t with
  | nil => exact .refl t
  | cons m ms ih => exact (pruned_interpolateAt t m).trans (ih _)

/-! ## One attempt after the other -/

/-- The attempts up to one of them, this attempt, and those that come after it. -/
theorem exists_of_interpolateAll {t u : Tree} {ms : List Match} {before after : List Attempt} {a : Attempt}
    (h : t.interpolateAll ms = (before ++ a :: after, u)) : ∃ now next,
      t.interpolateAll (before.map Attempt.selected) = (before, now) ∧ now.interpolateAt a.selected = (a, next) ∧
      next.interpolateAll (after.map Attempt.selected) = (after, u) := by
  have hselected := interpolateAll_selected t ms
  rw [h, List.map_append, List.map_cons] at hselected
  rw [← hselected, interpolateAll_append] at h
  have hlength (s : Tree) (as : List Attempt) : (s.interpolateAll (as.map Attempt.selected)).1.length = as.length := by
    rw [← List.length_map Attempt.selected, interpolateAll_selected, List.length_map]
  obtain ⟨hattempts, rfl⟩ := Prod.mk.inj h
  obtain ⟨hbefore, hrest⟩ := List.append_inj hattempts (hlength t before)
  obtain ⟨ha, hafter⟩ := List.cons.inj hrest
  exact ⟨_, _, Prod.ext hbefore rfl, Prod.ext ha rfl, Prod.ext hafter rfl⟩

/-- An attempt finds the node at its path; where there is none it leaves the tree as it is. -/
theorem interpolateAt_eq {t next : Tree} {m : Match} {a : Attempt} (h : t.interpolateAt m = (a, next)) :
    (∃ e, t.nodeAt? m.path = some e ∧ a.visited = some (e, (e.interpolate m.captures).1)) ∨
      t.nodeAt? m.path = none ∧ a.visited = none ∧ next = t := by
  unfold interpolateAt at h
  split at h
  · next hnone =>
    obtain ⟨rfl, rfl⟩ := Prod.mk.inj h
    exact .inr ⟨hnone, rfl, rfl⟩
  · next e he =>
    obtain ⟨rfl, rfl⟩ := Prod.mk.inj h
    exact .inl ⟨e, he, rfl⟩

end Tree

/-- Whatever the pattern, the tree is pruned from the tree of the source at all times. In its turn the path of a match
leads to what is left of the node that was selected there, or to no node, and then the match is skipped and nothing
changes. What stands neither above nor below that path is left alone. -/
theorem Pattern.pruned_transform (p : Pattern) (source : Text) :
    let t := p.transform source
    t.attempts.map Attempt.selected = p.select t.parsed ∧ Tree.Pruned t.parsed t.final ∧
    ∀ before a after, t.attempts = before ++ a :: after → ∃ now next selected,
      t.parsed.interpolateAll (before.map Attempt.selected) = (before, now) ∧
      now.interpolateAt a.selected = (a, next) ∧
      next.interpolateAll (after.map Attempt.selected) = (after, t.final) ∧
      Tree.Pruned t.parsed now ∧ Tree.Pruned now next ∧
      t.parsed.nodeAt? a.selected.path = some selected ∧
      (p.match? selected).bind Captures.ofBindings = some a.selected.captures ∧
      ((∃ left, now.nodeAt? a.selected.path = some left ∧ Tree.Pruned selected left ∧
          a.visited = some (left, (left.interpolate a.selected.captures).1)) ∨
        now.nodeAt? a.selected.path = none ∧ a.visited = none ∧ a.isSkipped = true ∧ next = now) ∧
      ∀ q, Path.Parallel a.selected.path q → next.subtree? q = now.subtree? q := by
  intro t
  have hselected : t.attempts.map Attempt.selected = p.select t.parsed := Tree.interpolateAll_selected _ _
  refine ⟨hselected, Tree.pruned_interpolateAll _ _, fun before a after heq => ?_⟩
  have hall : t.parsed.interpolateAll (p.select t.parsed) = (before ++ a :: after, t.final) := Prod.ext heq rfl
  obtain ⟨now, next, hbefore, ha, hafter⟩ := Tree.exists_of_interpolateAll hall
  have hnow : Tree.Pruned t.parsed now := by
    have hpruned := Tree.pruned_interpolateAll t.parsed (before.map Attempt.selected)
    rwa [hbefore] at hpruned
  have hnext : (now.interpolateAt a.selected).2 = next := congrArg Prod.snd ha
  have hmem : a.selected ∈ p.select t.parsed := hselected ▸ List.mem_map.2 ⟨a, by simp [heq], rfl⟩
  obtain ⟨e, he, hhere⟩ := Pattern.here?_of_mem_found (List.mem_append_right _ hmem)
  obtain ⟨hkind, hcaptures⟩ := Pattern.here?_eq_some_iff.1 hhere
  have hnode : t.parsed.nodeAt? a.selected.path = some e := Option.filter_eq_some_iff.2 ⟨he, hkind⟩
  refine ⟨now, next, e, hbefore, ha, hafter, hnow, hnext ▸ Tree.pruned_interpolateAt now a.selected, hnode, hcaptures, ?_,
    fun q hq => ?_⟩
  · rcases Tree.interpolateAt_eq ha with ⟨left, hleft, hvisited⟩ | ⟨hnone, hvisited, hsame⟩
    · obtain ⟨e', he', hpruned⟩ := hnow.exists_nodeAt? hleft
      obtain rfl : e = e' := Option.some.inj (hnode.symm.trans he')
      exact .inl ⟨left, hleft, hpruned, hvisited⟩
    · exact .inr ⟨hnone, hvisited, by rw [Attempt.isSkipped, hvisited], hsame⟩
  · rw [← hnext, Tree.interpolateAt_snd]
    exact Tree.subtree?_update_of_parallel hq _ now

/-- The expressions, and also those whose arguments are a name and an expression, of which the name alone is captured. -/
def Pattern.nested : Pattern :=
  .anyOf [interpolation, .node .term [.capture "formatstring" (.token .string), .operator ['%'],
    .node .atom [.operator ['('], .node .exprList [.capture "interpolation_args" (.token .name), .operator [','],
      .node .term [.token .string, .operator ['%'], .token .name]], .operator [')']]]]

/-- One match lies within the other, and is gone when its turn comes. -/
theorem Pattern.pruned_transform_nested :
    let t := nested.transform "'%s' % (x, '%d' % y)".toList
    t.output = "f'{x}'".toList ∧ Tree.Pruned t.parsed t.final ∧ ∃ outer inner now selected,
      t.attempts = [outer, inner] ∧ t.parsed.interpolateAt outer.selected = (outer, now) ∧
      inner.selected.path = [0, 2, 1, 2] ∧ t.parsed.nodeAt? [0, 2, 1, 2] = some selected ∧
      now.nodeAt? [0, 2, 1, 2] = none ∧ inner.isSkipped = true ∧ t.final = now := by
  intro t
  have hattempts : t.attempts.map (fun a => (a.selected.path, a.visited.isSome)) = [([0], true), ([0, 2, 1, 2], false)] := by
    decide +kernel
  have houtput : t.output = "f'{x}'".toList := by decide +kernel
  obtain ⟨-, hfinal, hturn⟩ := pruned_transform nested "'%s' % (x, '%d' % y)".toList
  obtain ⟨outer, others, hcons, -, hothers⟩ := List.map_eq_cons_iff.1 hattempts
  obtain ⟨inner, last, rfl, hinner, hlast⟩ := List.map_eq_cons_iff.1 hothers
  obtain rfl := List.map_eq_nil_iff.1 hlast
  obtain ⟨hpath, hvisited⟩ := Prod.mk.inj hinner
  obtain ⟨now, next, selected, hbefore, -, hafter, -, -, hselected, -, hleft, -⟩ := hturn [outer] inner [] hcons
  rw [hpath] at hselected hleft
  rcases hleft with ⟨left, -, -, hleft⟩ | ⟨hnone, -, hskipped, rfl⟩
  · rw [hleft] at hvisited
    contradiction
  · obtain ⟨hat, hnow⟩ := Prod.mk.inj hbefore
    obtain ⟨hat, -⟩ := List.cons.inj hat
    exact ⟨houtput, hfinal, outer, inner, next, selected, hcons, Prod.ext hat hnow, hpath, hselected, hnone, hskipped,
      (congrArg Prod.snd hafter).symm⟩

end Interpolation

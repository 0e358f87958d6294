import Interpolation.Proofs.Transform.Attempts
import Interpolation.Proofs.Text.Replacement
import Interpolation.Proofs.Bracketed.Text

/-!
# What a transformation writes

* `Attempt.replacement?` — the replacement that an attempt stands for, if it made a literal: from the first character of
  the format string up to the end of the expression;
* `Tree.edits` — the replacements of all expressions of a tree;
* `Tree.yields_edits` — the edits lie in order in the text of the tree, and make it the text of the tree after them;
* `Pattern.output_transform` — the output is the source with these replacements and no other change.
-/

namespace Interpolation

open Pattern (interpolation)

/-- The literal that an attempt made. -/
def Attempt.literal? (a : Attempt) : Option Text := match a.visited with
  | some (_, .interpolated literal) => some literal
  | _ => none

/-- The replacement in the text of `tree` that an attempt stands for: its literal takes the place of the expression,
from the first character of the format string on. -/
def Attempt.replacement? (tree : Tree) (a : Attempt) : Option Replacement := a.literal?.map fun literal =>
  ⟨tree.startOf (a.selected.path ++ a.selected.captures.formatString), tree.stopOf a.selected.path, literal⟩

theorem Attempt.isSome_literal? (a : Attempt) : a.literal?.isSome = a.isInterpolated := by
  obtain ⟨m, _ | ⟨e, _ | _ | _⟩⟩ := a <;> rfl

theorem Attempt.replacement?_under (k : NodeKind) (pre post : List Tree) (c : Tree) (a : Attempt) :
    (a.under pre.length).replacement? (.node k (pre ++ c :: post)) =
      (a.replacement? c).map (Replacement.shift (Token.renderAll (Tree.tokensAll pre)).length) := by
  have hstart := Tree.startOf_node k pre post c (a.selected.path ++ a.selected.captures.formatString)
  have hstop := Tree.stopOf_node k pre post c a.selected.path
  unfold replacement?
  rw [Option.map_map]
  show a.literal?.map _ = a.literal?.map _
  congr
  funext literal
  show Replacement.mk _ _ literal = Replacement.mk _ _ literal
  rw [← hstart, ← hstop]
  rfl

/-! ## One expression -/

namespace Tree

open Replacement (Yields)

/-- The replacements that the attempts at the given matches stand for. -/
def editsAt (t : Tree) (ms : List Match) : List Replacement := (t.attemptsAt ms).filterMap (Attempt.replacement? t)

/-- The replacements of all expressions that are found in a tree. -/
def edits (t : Tree) : List Replacement := t.editsAt (interpolation.found t)

theorem editsAt_append (t : Tree) (ms ns : List Match) : t.editsAt (ms ++ ns) = t.editsAt ms ++ t.editsAt ns := by
  rw [editsAt, attemptsAt_append, List.filterMap_append, editsAt, editsAt]

theorem editsAt_under (k : NodeKind) (pre post : List Tree) (c : Tree) (ms : List Match) :
    (node k (pre ++ c :: post)).editsAt (ms.map (Match.under pre.length)) =
      (c.editsAt ms).map (Replacement.shift (Token.renderAll (tokensAll pre)).length) := by
  rw [editsAt, attemptsAt_under, List.filterMap_map, editsAt, List.map_filterMap]
  congr
  funext a
  exact Attempt.replacement?_under k pre post c a

theorem interpolateAt_self {t : Tree} {m : Match} (hpath : m.path = []) (hkind : t.kind?.isSome = true) :
    t.interpolateAt m = (⟨m, some (t, (t.interpolate m.captures).1)⟩, (t.interpolate m.captures).2) := by
  have hnode : t.nodeAt? m.path = some t := by simp [nodeAt?, hpath, hkind]
  unfold interpolateAt
  rw [hnode]
  dsimp only
  rw [hpath, update_nil]

/-- The match of a whole expression, with its edit. -/
theorem yields_editsAt_self {t : Tree} {m : Match} (hpath : m.path = []) (hshape : Interpolates t m.captures) :
    Yields 0 (t.editsAt [m]) t.render (t.interpolateAt m).2.render := by
  obtain ⟨s, op, operand, rfl, _, _, hformat⟩ := hshape.exists_eq
  have hself := interpolateAt_self (t := node .term [leaf s, leaf op, operand]) hpath rfl
  rw [editsAt, attemptsAt, List.map_singleton, hself]
  obtain ⟨literal, h⟩ | ⟨reason, h⟩ := interpolate_eq (node .term [leaf s, leaf op, operand]) m.captures
  · -- The literal stands behind the trivia of the format string, and nothing is left behind it.
    have hreplacement : Attempt.replacement? (node .term [leaf s, leaf op, operand])
        ⟨m, some (node .term [leaf s, leaf op, operand], .interpolated literal)⟩ =
          some ⟨0 + s.trivia.length, 0 + (s.trivia ++ (s.text ++ op.render ++ operand.render)).length, literal⟩ := by
      unfold Attempt.replacement?
      rw [hpath, hformat]
      simp [Attempt.literal?, startOf, stopOf, textBefore, tokensBefore, children, render, Token.render]
    have hsingle := Yields.single (s.text ++ op.render ++ operand.render) literal 0 s.trivia []
    rw [h, hformat, replaceBy_head, List.filterMap_cons_some hreplacement, List.filterMap_nil]
    simpa [render, Token.render] using hsingle
  · have hreplacement : Attempt.replacement? (node .term [leaf s, leaf op, operand])
        ⟨m, some (node .term [leaf s, leaf op, operand], .skipped reason)⟩ = none := rfl
    rw [h, List.filterMap_cons_none hreplacement, List.filterMap_nil]
    exact Yields.nil 0 _

/-! ## All expressions -/

theorem yields_editsAt_foundFrom (k : NodeKind) (pre cs : List Tree)
    (h : ∀ c ∈ cs, Yields 0 c.edits c.render c.finish.render) :
    Yields (Token.renderAll (tokensAll pre)).length
      ((node k (pre ++ cs)).editsAt (interpolation.foundFrom pre.length cs))
      (Token.renderAll (tokensAll cs)) (Token.renderAll (tokensAll (cs.map finish))) := by
  induction cs generalizing pre with
  | nil => exact Yields.nil _ _
  | cons c cs ih =>
    rw [List.forall_mem_cons] at h
    have hfirst := h.1.shift (Token.renderAll (tokensAll pre)).length
    have hrest := ih (pre ++ [c]) h.2
    have hlength : (Token.renderAll (tokensAll (pre ++ [c]))).length =
        (Token.renderAll (tokensAll pre)).length + c.render.length := by
      simp [render]
    rw [hlength] at hrest
    simp only [List.append_assoc, List.singleton_append] at hrest
    rw [foundFrom_cons, editsAt_append, editsAt_under]
    simp only [tokensAll_cons, List.map_cons, Token.renderAll_append]
    exact hfirst.append hrest

/-- The edits of a tree make its text the text of the tree after all expressions are interpolated. -/
theorem yields_edits (t : Tree) : Yields 0 t.edits t.render t.finish.render := by
  induction t with
  | leaf u => exact Yields.nil _ _
  | node k cs ih =>
    cases hhere : interpolation.here? (node k cs) with
    | some m =>
      obtain ⟨hpath, hshape⟩ := Pattern.here?_interpolation_eq_some_iff.1 hhere
      have hfound : interpolation.found (node k cs) = [m] := by
        simp [Pattern.found, hhere, Pattern.select_eq_nil_of_interpolates hshape]
      rw [edits, finish, hfound]
      exact yields_editsAt_self hpath hshape
    | none =>
      rw [edits, found_node hhere, finish_node hhere]
      exact yields_editsAt_foundFrom k [] cs ih

end Tree

/-! ## A source -/

namespace Pattern

theorem attempts_transform (source : Text) :
    (interpolation.transform source).attempts = (Tree.parse source).attempts := by
  show ((Tree.parse source).interpolateAll (interpolation.select (Tree.parse source))).1 = _
  rw [← found_parse]
  exact Tree.interpolateAll_found _

/-- An attempt is made at the expression that was selected. -/
theorem interpolates_of_mem_attempts {t : Tree} {a : Attempt} (h : a ∈ t.attempts) :
    ∃ e, t.subtree? a.selected.path = some e ∧ Interpolates e a.selected.captures ∧
      a.visited = some (e, (e.interpolate a.selected.captures).1) := by
  obtain ⟨m, hm, rfl⟩ := List.mem_map.1 h
  obtain ⟨e, he, hshape⟩ := interpolates_of_mem_found hm
  have hat : (t.interpolateAt m).1 = ⟨m, some (e, (e.interpolate m.captures).1)⟩ := by
    rw [Tree.interpolateAt, hshape.nodeAt?_eq he]
  rw [hat]
  exact ⟨e, he, hshape, rfl⟩

/-- An attempt at an expression of a tree: the expression is the one that was selected, and its edit goes from the
first character of the literal to the last of the operand. -/
theorem exists_of_mem_attempts {t : Tree} {a : Attempt} (h : a ∈ t.attempts) :
    ∃ literal op operand after,
      let expression := Tree.node .term [.leaf literal, .leaf op, operand]
      let stretch := literal.text ++ op.render ++ operand.render
      let before := t.textBefore a.selected.path ++ literal.trivia
      literal.kind = .string ∧ op.isOperator ['%'] = true ∧
      t.subtree? a.selected.path = some expression ∧
      a.visited = some (expression, (expression.interpolate a.selected.captures).1) ∧
      t.render = before ++ stretch ++ after ∧
      a.replacement? t = a.literal?.map fun text => ⟨before.length, (before ++ stretch).length, text⟩ := by
  obtain ⟨e, he, hshape, hvisited⟩ := interpolates_of_mem_attempts h
  obtain ⟨s, op, operand, rfl, hstring, hop, hformat⟩ := hshape.exists_eq
  obtain ⟨after, hafter⟩ := Tree.exists_render_eq he
  have hrender : (Tree.node .term [.leaf s, .leaf op, operand]).render =
      s.trivia ++ (s.text ++ op.render ++ operand.render) := by
    simp [Tree.render, Token.render]
  refine ⟨s, op, operand, after, hstring, hop, he, hvisited, ?_, ?_⟩
  · rw [hafter, hrender]
    simp
  · unfold Attempt.replacement?
    rw [hformat, Tree.startOf_append he, Tree.stopOf_eq he, hrender]
    simp [Tree.startOf, Tree.textBefore, Tree.tokensBefore, Tree.children]

/-- A transformation attempts what is selected in the tree of the source, one match after the other. Each match is a
stretch of the source: a string literal, `%` and an operand. The output is the source with the stretches that were
interpolated replaced by their new literals, and all else in it stays. -/
theorem output_transform (source : Text) :
    let t := interpolation.transform source
    let tree := Tree.parse source
    let rs := t.attempts.filterMap (Attempt.replacement? tree)
    t.attempts.map Attempt.selected = interpolation.select tree ∧
    (∀ a ∈ t.attempts, ∃ literal op operand after,
      let expression := Tree.node .term [.leaf literal, .leaf op, operand]
      let stretch := literal.text ++ op.render ++ operand.render
      let before := tree.textBefore a.selected.path ++ literal.trivia
      literal.kind = .string ∧ op.isOperator ['%'] = true ∧
      tree.subtree? a.selected.path = some expression ∧
      a.visited = some (expression, (expression.interpolate a.selected.captures).1) ∧
      source = before ++ stretch ++ after ∧
      a.replacement? tree = a.literal?.map fun text => ⟨before.length, (before ++ stretch).length, text⟩) ∧
    rs.length = t.interpolated ∧
    rs.Pairwise (fun r s => r.stop ≤ s.start) ∧
    (∀ r ∈ rs, r.start < r.stop ∧ r.stop ≤ source.length) ∧
    t.output = Replacement.apply 0 rs source ∧
    (t.interpolated = 0 → t.output = source) := by
  intro t tree rs
  have hattempts : t.attempts = tree.attempts := attempts_transform source
  have hedits : rs = tree.edits := by
    show t.attempts.filterMap _ = _
    rw [hattempts]
    rfl
  have hyields : Replacement.Yields 0 rs source t.output := by
    have hfinal : t.output = tree.finish.render := by
      show ((Tree.parse source).interpolateAll (interpolation.select (Tree.parse source))).2.render = _
      rw [← found_parse]
      rfl
    have := tree.yields_edits
    rwa [← hedits, ← hfinal, Tree.render_parse] at this
  have hexpression : ∀ a ∈ t.attempts, _ := fun a ha => exists_of_mem_attempts (hattempts ▸ ha)
  have hcount : rs.length = t.interpolated := by
    show (t.attempts.filterMap (Attempt.replacement? tree)).length = t.attempts.countP Attempt.isInterpolated
    rw [List.length_filterMap_eq_countP]
    congr
    funext a
    rw [Attempt.replacement?, Option.isSome_map, Attempt.isSome_literal?]
  refine ⟨Tree.interpolateAll_selected _ _, ?_, hcount, hyields.inOrder.pairwise, ?_, hyields.apply_eq.symm, ?_⟩
  · intro a ha
    have := hexpression a ha
    rwa [Tree.render_parse] at this
  · intro r hr
    obtain ⟨a, ha, har⟩ := List.mem_filterMap.1 hr
    obtain ⟨s, op, operand, after, _, hop, _, _, _, hreplacement⟩ := hexpression a ha
    rw [hreplacement] at har
    obtain ⟨text, _, rfl⟩ := Option.map_eq_some_iff.1 har
    have hpercent : op.text = ['%'] := by
      simp only [Token.isOperator, Bool.and_eq_true, decide_eq_true_eq] at hop
      exact hop.2
    have hstop := (hyields.inOrder.bounds _ hr).2.2
    have hrender : 0 < op.render.length := by simp [Token.render, hpercent]
    refine ⟨?_, by simpa using hstop⟩
    simp only [List.length_append]
    omega
  · intro h
    rw [List.eq_nil_of_length_eq_zero (hcount.trans h)] at hyields
    exact hyields.apply_eq.symm

end Pattern

end Interpolation

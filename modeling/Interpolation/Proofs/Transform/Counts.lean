import Interpolation.Proofs.Bracketed.Reading
import Interpolation.Proofs.Placeholder.Fill
import Interpolation.Proofs.Transform.Attempts

/-!
# No attempt fails

An attempt fills the placeholders of a literal only where there are as many arguments, and then all of them are filled
and none is left over. What the literal and the arguments are is no matter: they may be whatever an earlier attempt has
left.

* `Tree.interpolate_ne_failed` — no expression fails, whatever is captured of it;
* `Tree.not_isFailed_of_mem_interpolateAll` — no attempt fails, whatever is tried before it;
* `Tree.countP_interpolateAll` — every attempt makes a literal or is skipped;
* `Pattern.interpolated_add_skipped` — the same for a source and a pattern.
-/

namespace Interpolation

/-- Every attempt makes a literal, is skipped or fails. -/
theorem Attempt.countP_add_countP_add_countP (as : List Attempt) :
    as.countP isInterpolated + as.countP isSkipped + as.countP isFailed = as.length := by
  induction as with
  | nil => rfl
  | cons a as ih =>
    simp only [List.countP_cons, List.length_cons]
    obtain ⟨m, _ | ⟨expression, _ | _ | _⟩⟩ := a
    all_goals
      simp only [isInterpolated, isSkipped, isFailed, if_true, Bool.false_eq_true, if_false]
      omega

namespace Tree

/-- Once the numbers agree, nothing is left to go wrong. -/
theorem interpolate_ne_failed (expression : Tree) (c : Captures) (e : SubstitutionError) :
    (expression.interpolate c).1 ≠ .failed e := by
  rcases interpolate_eq expression c with ⟨literal, heq⟩ | ⟨reason, heq⟩ <;> simp [heq]

theorem not_isFailed_interpolateAt (t : Tree) (m : Match) : (t.interpolateAt m).1.isFailed = false := by
  unfold interpolateAt
  split
  · rfl
  · next expression _ =>
    rcases interpolate_eq expression m.captures with ⟨literal, heq⟩ | ⟨reason, heq⟩ <;> rw [Attempt.isFailed, heq]

/-- Whatever the attempts before it have made of the tree, no attempt fails. -/
theorem not_isFailed_of_mem_interpolateAll {t : Tree} {ms : List Match} {a : Attempt}
    (h : a ∈ (t.interpolateAll ms).1) : a.isFailed = false := by
  induction ms generalizing t with
  | nil => simp [interpolateAll] at h
  | cons m ms ih =>
    rcases List.mem_cons.1 h with rfl | h
    · exact not_isFailed_interpolateAt t m
    · exact ih h

theorem countP_isFailed_interpolateAll (t : Tree) (ms : List Match) :
    (t.interpolateAll ms).1.countP Attempt.isFailed = 0 :=
  List.countP_eq_zero.2 fun _ ha => by simp [not_isFailed_of_mem_interpolateAll ha]

theorem countP_interpolateAll (t : Tree) (ms : List Match) :
    (t.interpolateAll ms).1.countP Attempt.isInterpolated + (t.interpolateAll ms).1.countP Attempt.isSkipped =
      ms.length := by
  have hall := Attempt.countP_add_countP_add_countP (t.interpolateAll ms).1
  have hlength := congrArg List.length (interpolateAll_selected t ms)
  rw [countP_isFailed_interpolateAll] at hall
  rw [List.length_map] at hlength
  omega

end Tree

/-- Every source is read, whatever is selected of it is attempted, and every attempt makes a literal or is skipped. That
an attempt never fails holds of any expression and captures, and of any matches in any tree. -/
theorem Pattern.interpolated_add_skipped (p : Pattern) (source : Text) :
    let t := p.transform source
    (∃ items, Grammar.File source items ∧
      t.parsed = .node .file (Tree.groupOperands false (Tree.ofBracketedAll items))) ∧
    t.attempts.map Attempt.selected = p.select t.parsed ∧
    t.failed = 0 ∧ t.interpolated + t.skipped = (p.select t.parsed).length ∧
    (∀ (expression : Tree) (c : Captures) (e : SubstitutionError), (expression.interpolate c).1 ≠ .failed e) ∧
    ∀ (tree : Tree) (ms : List Match), (tree.interpolateAll ms).1.countP Attempt.isFailed = 0 ∧
      (tree.interpolateAll ms).1.countP Attempt.isInterpolated + (tree.interpolateAll ms).1.countP Attempt.isSkipped =
        ms.length := by
  intro t
  obtain ⟨items, hitems⟩ := Grammar.exists_file source
  have hparsed : t.parsed = .node .file (Tree.groupOperands false (Tree.ofBracketedAll items)) := by
    show Tree.parse source = _
    rw [Tree.parse, hitems.eq_ofTokens]
  exact ⟨⟨items, hitems, hparsed⟩, Tree.interpolateAll_selected _ _, Tree.countP_isFailed_interpolateAll _ _,
    Tree.countP_interpolateAll _ _, Tree.interpolate_ne_failed, fun tree ms =>
      ⟨Tree.countP_isFailed_interpolateAll tree ms, Tree.countP_interpolateAll tree ms⟩⟩

end Interpolation

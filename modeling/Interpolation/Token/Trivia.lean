import Interpolation.Text.LineBreak

/-!
# Trivia

Trivia are what stands between two tokens of one line: blanks, a comment up to the end of its line, and a
backslash that joins the next line to this one. `Trivia.split` cuts all trivia off the front of a text.
-/

namespace Interpolation.Trivia

/-- A space, a tabulator or a form feed. -/
def isBlank (c : Char) : Bool := c = ' ' || c = '\t' || c = '\x0c'

/-- The trivia at the front of a text, and the rest of the text. Nothing that can follow a comment is trivia,
because a comment reaches up to a line break. -/
def split : Text → Text × Text
  | [] => ([], [])
  | c :: s =>
    if isBlank c then (c :: (split s).1, (split s).2)
    else if c = '#' then ((c :: s).takeWhile (!isBreak ·), (c :: s).dropWhile (!isBreak ·))
    else if c = '\\' then
      match s with
      | '\r' :: '\n' :: s => (c :: '\r' :: '\n' :: (split s).1, (split s).2)
      | '\r' :: s => (c :: '\r' :: (split s).1, (split s).2)
      | '\n' :: s => (c :: '\n' :: (split s).1, (split s).2)
      | s => ([], c :: s)
    else ([], c :: s)

theorem split_blank {c : Char} (h : isBlank c = true) (s : Text) :
    split (c :: s) = (c :: (split s).1, (split s).2) := by
  rw [split.eq_def]
  simp only [if_pos h]

theorem split_comment (s : Text) :
    split ('#' :: s) = (('#' :: s).takeWhile (!isBreak ·), ('#' :: s).dropWhile (!isBreak ·)) := by
  rw [split.eq_def]
  simp only [if_neg (show ¬isBlank '#' = true by decide), if_pos]

/-- A character that begins no trivia. -/
theorem split_eq_self {c : Char} (hblank : isBlank c = false) (hcomment : c ≠ '#') (hjoin : c ≠ '\\') (s : Text) :
    split (c :: s) = ([], c :: s) := by
  rw [split.eq_def]
  simp only [hblank, if_neg Bool.false_ne_true, if_neg hcomment, if_neg hjoin]

/-- A backslash joins the lines that the line break behind it ends. -/
theorem split_joined {brk s : Text} (h : brk = ['\r', '\n'] ∨ brk = ['\n'] ∨ (brk = ['\r'] ∧ s.head? ≠ some '\n')) :
    split ('\\' :: (brk ++ s)) = ('\\' :: (brk ++ (split s).1), (split s).2) := by
  rcases h with rfl | rfl | ⟨rfl, hs⟩
  · simp [split, isBlank]
  · simp [split, isBlank]
  · cases s with
    | nil => simp [split, isBlank]
    | cons c s =>
      have hc : c ≠ '\n' := by simpa using hs
      simp [split, isBlank, hc]

/-- A backslash joins no lines where no line break follows it. -/
theorem split_backslash {s : Text} (h : ∀ c ∈ s.head?, isBreak c = false) : split ('\\' :: s) = ([], '\\' :: s) := by
  cases s with
  | nil => rfl
  | cons c s =>
    have hc : c ≠ '\n' ∧ c ≠ '\r' := by simpa [isBreak] using h c rfl
    simp [split, isBlank, hc.1, hc.2]

theorem split_append (s : Text) : (split s).1 ++ (split s).2 = s := by
  fun_induction split s <;> simp_all [List.takeWhile_append_dropWhile]

theorem length_split_le (s : Text) : (split s).2.length ≤ s.length := by
  have := congrArg List.length (split_append s)
  simp only [List.length_append] at this
  omega

end Interpolation.Trivia

import Interpolation.Text.Basic

/-!
# Lines

A line ends with a line feed, which belongs to it; the last line may lack it.

* `splitAfter` — cut a list behind every occurrence of an element;
* `Text.lines` and `Bytes.lines` — the lines of a text, and of the bytes that a user types.

`flatten_splitAfter` says that the lines make up the text again.
-/

namespace Interpolation

/-- Cut a list behind every occurrence of `stop`. There is no empty piece. -/
def splitAfter {α : Type} [DecidableEq α] (stop : α) : List α → List (List α)
  | [] => []
  | a :: as =>
    if a = stop then [a] :: splitAfter stop as
    else
      match splitAfter stop as with
      | [] => [[a]]
      | l :: ls => (a :: l) :: ls

theorem flatten_splitAfter {α : Type} [DecidableEq α] (stop : α) (as : List α) :
    (splitAfter stop as).flatten = as := by
  fun_induction splitAfter stop as with
  | case1 => rfl
  | case2 s ih => simp [ih]
  | case3 c s _ h ih => simp_all
  | case4 c s _ l ls h ih => rw [h] at ih; simpa using ih

/-- The lines of a text, each with its line feed. -/
def Text.lines (t : Text) : List Text := splitAfter '\n' t

/-- The lines of some bytes, each with its line feed. -/
def Bytes.lines (b : Bytes) : List Bytes := splitAfter 10 b

/-- Whether a text ends with a line feed. -/
def Text.endsLine (t : Text) : Bool := t.getLast? = some '\n'

end Interpolation

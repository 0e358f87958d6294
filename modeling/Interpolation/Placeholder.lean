import Interpolation.Text.Basic

/-!
# Placeholders

A placeholder is `%s`, `%d` or `%f` with no percent sign right in front of it; only that one character counts.

* `Piece.ofText` — a text cut into plain characters and placeholders; `Piece.render` is its inverse;
* `placeholders` — the places of the placeholders in a text, in bytes of its UTF-8 encoding;
* `substitute` — each placeholder replaced by the next argument in braces. The numbers must agree.
-/

namespace Interpolation

/-- A part of a text: one plain character, or a placeholder with its conversion letter. -/
inductive Piece where
  | plain (c : Char)
  | hole (conversion : Char)
  deriving DecidableEq, Repr

namespace Piece

/-- The letters that make a placeholder. -/
def isConversion (c : Char) : Bool := c = 's' || c = 'd' || c = 'f'

/-- Cut a text into pieces. `behindPercent` says whether a percent sign stands right in front of it. -/
def ofText (behindPercent : Bool) : Text → List Piece
  | [] => []
  | [c] => [.plain c]
  | c :: d :: s =>
    if c = '%' && isConversion d && !behindPercent then .hole d :: ofText false s
    else .plain c :: ofText (c = '%') (d :: s)

/-- The text of a piece. -/
def text : Piece → Text
  | .plain c => [c]
  | .hole c => ['%', c]

/-- The text of some pieces in turn. -/
def render (ps : List Piece) : Text := ps.flatMap text

/-- The number of placeholders among the pieces. -/
def holes (ps : List Piece) : Nat := ps.countP fun p => match p with
  | .plain _ => false
  | .hole _ => true

/-- Cutting a text loses nothing. -/
theorem render_ofText (behindPercent : Bool) (s : Text) : render (ofText behindPercent s) = s := by
  fun_induction ofText behindPercent s with
  | case1 => rfl
  | case2 => rfl
  | case3 _ c d s h ih => simp_all [render, text]
  | case4 _ c d s _ ih => simp_all [render, text]

end Piece

/-- A placeholder and the byte at which it starts. -/
structure Placeholder where
  start : Nat
  conversion : Char
  deriving DecidableEq, Repr

namespace Placeholder

/-- The characters of a placeholder. -/
def text (p : Placeholder) : Text := ['%', p.conversion]

/-- The byte behind a placeholder. -/
def stop (p : Placeholder) : Nat := p.start + p.text.utf8Size

end Placeholder

/-- The placeholders among some pieces, the first of which starts at the byte `start`. -/
def placeholdersFrom (start : Nat) : List Piece → List Placeholder
  | [] => []
  | .plain c :: ps => placeholdersFrom (start + c.utf8Size) ps
  | .hole c :: ps => ⟨start, c⟩ :: placeholdersFrom (start + (Piece.hole c).text.utf8Size) ps

/-- The placeholders in a text, from left to right. -/
def placeholders (t : Text) : List Placeholder := placeholdersFrom 0 (Piece.ofText false t)

/-- The number of placeholders in a text. -/
def placeholderCount (t : Text) : Nat := Piece.holes (Piece.ofText false t)

/-- Why arguments cannot take the places of the placeholders. -/
inductive SubstitutionError where
  /-- All arguments, `consumed` in number, are used up and a placeholder is left. -/
  | exhausted (consumed : Nat)
  /-- All placeholders are filled and some arguments are left. -/
  | unconsumed (remaining : Nat)
  deriving DecidableEq, Repr

namespace SubstitutionError

def message : SubstitutionError → Text
  | .exhausted consumed =>
    "interpolation arguments exhausted after ".toList ++ Nat.toDigits 10 consumed ++ " placeholder(s)".toList
  | .unconsumed remaining =>
    Nat.toDigits 10 remaining ++ " interpolation argument(s) left unconsumed after substitution".toList

end SubstitutionError

/-- Fill the placeholders among some pieces; `consumed` arguments are used up already. -/
def Piece.fill (consumed : Nat) : List Piece → List Text → Except SubstitutionError Text
  | [], [] => .ok []
  | [], a :: as => .error (.unconsumed (a :: as).length)
  | .plain c :: ps, as => (fill consumed ps as).map (c :: ·)
  | .hole _ :: _, [] => .error (.exhausted consumed)
  | .hole _ :: ps, a :: as => (fill (consumed + 1) ps as).map fun t => '\x7b' :: (a ++ '\x7d' :: t)

/-- Replace each placeholder, from left to right, by the next argument in braces. -/
def substitute (t : Text) (arguments : List Text) : Except SubstitutionError Text :=
  Piece.fill 0 (Piece.ofText false t) arguments

end Interpolation

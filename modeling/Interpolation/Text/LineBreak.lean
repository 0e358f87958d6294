import Interpolation.Text.Recognizer

/-!
# Line breaks

A line break is a line feed, a carriage return, or the two together in the order return, feed.
-/

namespace Interpolation

/-- The characters that line breaks are made of. -/
def isBreak (c : Char) : Bool := c = '\n' || c = '\r'

/-- One line break; a return takes the feed behind it along. -/
def lineBreak : Recognizer := .firstOf [.exactly ['\n'], .exactly ['\r', '\n'], .exactly ['\r']]

theorem lineBreak_splits : lineBreak.Splits :=
  Recognizer.splits_firstOf (by simp [Recognizer.splits_exactly])

theorem lineBreak_consumes : lineBreak.Consumes :=
  Recognizer.consumes_firstOf (by simp [Recognizer.consumes_exactly])

end Interpolation

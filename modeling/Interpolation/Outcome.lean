import Interpolation.Placeholder
import Interpolation.Selection

/-!
# What becomes of an expression

The format string of an expression becomes an interpolated literal: its placeholders are replaced by the
arguments in braces, an `f` is put in front, and what follows the literal in the expression is dropped.

* `Outcome` — the literal that an expression became, or why it is left as it is;
* `Tree.interpolate` — the outcome and the expression after it. There must be as many placeholders as arguments.
-/

namespace Interpolation

/-- Why an expression is left as it is. -/
inductive SkipReason where
  /-- The numbers of placeholders and arguments differ. -/
  | countMismatch (placeholders arguments : Nat)
  /-- A capture does not lead to a token of the expression. -/
  | unresolvedCapture
  deriving DecidableEq, Repr

/-- What became of an expression. -/
inductive Outcome where
  /-- The expression is now the literal alone. -/
  | interpolated (literal : Text)
  | skipped (reason : SkipReason)
  | failed (error : SubstitutionError)
  deriving DecidableEq, Repr

/-- The names that a capture leads to: the token of a single capture whatever its kind, and the names among the
elements of a run. -/
def Tree.argumentNames (expression : Tree) : Captured → Option (List Text)
  | .single p => (expression.tokenAt? p).map fun t => [t.text]
  | .sequence ps => some (((ps.filterMap expression.tokenAt?).filter (·.kind = .name)).map (·.text))

/-- Put an `f` in front of a literal that does not start with one. -/
def markInterpolated (literal : Text) : Text := if literal.head? = some 'f' then literal else 'f' :: literal

/-- The expression with its format string replaced by `literal`, and nothing behind it. -/
def Tree.replaceBy (expression : Tree) (formatString : Path) (literal : Text) : Tree :=
  (expression.setText formatString literal).takeChildren (formatString.headD 0 + 1)

/-- Turn an expression into an interpolated literal. Where the outcome is another it is left as it is. -/
def Tree.interpolate (expression : Tree) (c : Captures) : Outcome × Tree :=
  match expression.argumentNames c.arguments, expression.tokenAt? c.formatString with
  | some arguments, some literal =>
    if placeholderCount literal.text ≠ arguments.length then
      (.skipped (.countMismatch (placeholderCount literal.text) arguments.length), expression)
    else
      match substitute literal.text arguments with
      | .error e => (.failed e, expression)
      | .ok text =>
        (.interpolated (markInterpolated text), expression.replaceBy c.formatString (markInterpolated text))
  | _, _ => (.skipped .unresolvedCapture, expression)

end Interpolation

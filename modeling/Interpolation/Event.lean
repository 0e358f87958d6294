import Interpolation.Failure
import Interpolation.Outcome
import Interpolation.Text.Quoted

/-!
# The log

* `Event` — what is worth a line in the log;
* `Event.level`, `Event.message`, `Event.fields` — how it is written: how serious it is, what happened, and the
  particulars, each under a name.
-/

namespace Interpolation

/-- How serious an event is. -/
inductive Level where
  | debug
  | info
  | warn
  | error
  deriving DecidableEq, Repr

def Level.name : Level → Text
  | .debug => "DEBUG".toList
  | .info => "INFO".toList
  | .warn => "WARN".toList
  | .error => "ERROR".toList

/-- What is worth a line in the log. -/
inductive Event where
  /-- A pattern matched an expression. -/
  | selected (path : Path) (expression : Text)
  /-- All of a source was searched. -/
  | searched (found : Nat)
  /-- An expression has more placeholders than arguments, or fewer. -/
  | mismatched (expression : Text) (placeholders arguments : Nat)
  | skipped (reason : SkipReason)
  | interpolated (literal : Text)
  /-- The path of a match leads to no node any more. -/
  | lost (path : Path)
  | aborted (path : Path) (error : SubstitutionError)
  /-- A file could not be read or written. -/
  | failed (failure : Failure)
  /-- There is nothing to change in a file. -/
  | unchanged (path : Text)
  /-- An answer, in lower case and without white space around it, that is none of those known. -/
  | unrecognised (answer : Text)
  /-- The user wants no more. -/
  | stopped
  | wrote (path : Text) (literals : Nat)
  deriving DecidableEq, Repr

/-- A path in square brackets. -/
def Path.text (p : Path) : Text := '[' :: (", ".toList.intercalate (p.map (Nat.toDigits 10)) ++ [']'])

/-- A reason with its particulars. -/
def SkipReason.text : SkipReason → Text
  | .countMismatch placeholders arguments =>
    "CountMismatch \x7b placeholders: ".toList ++ Nat.toDigits 10 placeholders ++ ", arguments: ".toList ++
      Nat.toDigits 10 arguments ++ " \x7d".toList
  | .unresolvedCapture => "UnresolvedCapture".toList

namespace Event

def level : Event → Level
  | .selected _ _ | .mismatched _ _ _ | .stopped | .wrote _ _ => .info
  | .searched _ | .skipped _ | .interpolated _ | .unchanged _ => .debug
  | .lost _ | .unrecognised _ => .warn
  | .aborted _ _ | .failed _ => .error

def message : Event → Text
  | .selected _ _ => "selected expression".toList
  | .searched _ => "selected expressions".toList
  | .mismatched _ _ _ => "placeholders and arguments differ, leaving expression unchanged".toList
  | .skipped _ => "skipped expression".toList
  | .interpolated _ => "rewrote expression".toList
  | .lost _ => "matched expression no longer in tree".toList
  | .aborted _ error => "rewrite aborted: ".toList ++ error.message
  | .failed failure => failure.message
  | .unchanged _ => "no changes".toList
  | .unrecognised answer => "unrecognised answer ".toList ++ Quoted.encode answer
  | .stopped => "stopping at user request".toList
  | .wrote _ _ => "wrote changes".toList

def fields : Event → List (Text × Text)
  | .selected path expression => [("path".toList, path.text), ("expression".toList, expression)]
  | .searched found => [("matches".toList, Nat.toDigits 10 found)]
  | .mismatched expression placeholders arguments =>
    [("expression".toList, expression), ("placeholders".toList, Nat.toDigits 10 placeholders),
     ("arguments".toList, Nat.toDigits 10 arguments)]
  | .skipped reason => [("reason".toList, reason.text)]
  | .interpolated literal => [("literal".toList, literal)]
  | .lost path => [("path".toList, path.text)]
  | .aborted path _ => [("path".toList, path.text)]
  | .failed _ => []
  | .unchanged path => [("path".toList, path)]
  | .unrecognised _ => []
  | .stopped => []
  | .wrote path literals => [("path".toList, path), ("rewritten".toList, Nat.toDigits 10 literals)]

end Event

end Interpolation

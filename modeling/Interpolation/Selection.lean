import Interpolation.Pattern.Match

/-!
# Selecting expressions

* `Captures` — what must be captured of an expression: its format string and its arguments;
* `Match` — an expression that was found, by its path;
* `Pattern.interpolation` — the expressions `'...' % name` and `'...' % (name, ..., name)`;
* `Pattern.select` — all expressions below the root of a tree that a pattern matches.
-/

namespace Interpolation

/-- The places of a format string and of its arguments in an expression. -/
structure Captures where
  formatString : Path
  arguments : Captured
  deriving DecidableEq, Repr

/-- An expression in a tree. -/
structure Match where
  path : Path
  captures : Captures
  deriving DecidableEq, Repr

/-- The captures that make up an expression: the format string is a single element. -/
def Captures.ofBindings (b : Bindings) : Option Captures :=
  match b.lookup "formatstring", b.lookup "interpolation_args" with
  | some (.single path), some arguments => some ⟨path, arguments⟩
  | _, _ => none

namespace Pattern

/-- A string literal, a percent sign and a name, or a string literal, a percent sign and names with commas between
them in round brackets. -/
def interpolation : Pattern :=
  let formatString := capture "formatstring" (token .string)
  let names := sequence
    [repeated (sequence [token .name, operator [',']]) 0 none, token .name, optional (operator [','])]
  anyOf
    [node .term [formatString, operator ['%'], capture "interpolation_args" (token .name)],
     node .term
      [formatString, operator ['%'],
       node .atom
        [operator ['('], node .exprList [capture "interpolation_args" names], operator [')']]]]

/-- All nodes below the root of `tree` that match with the captures of an expression, in document order. -/
def select (p : Pattern) (tree : Tree) : List Match :=
  tree.descendants.filterMap fun (path, t) =>
    if t.kind?.isSome then ((p.match? t).bind Captures.ofBindings).map (⟨path, ·⟩) else none

end Pattern

end Interpolation

import Interpolation.Tree.Path

/-!
# Patterns

A pattern describes a run of siblings in a tree: leaves by kind and text, nodes by kind and children, and
sequences, repetitions and choices of these. Parts of a pattern can capture what they match under a name.
-/

namespace Interpolation

/-- A description of a run of siblings. -/
inductive Pattern where
  /-- One leaf of a kind, with the given text if there is one. -/
  | leaf (kind : TokenKind) (text : Option Text)
  /-- One node of a kind, all of whose children match the patterns in turn. -/
  | node (kind : NodeKind) (children : List Pattern)
  /-- One pattern after the other. -/
  | sequence (parts : List Pattern)
  /-- At least `min` runs in a row, and at most `max` if that is given. -/
  | repeated (part : Pattern) (min : Nat) (max : Option Nat)
  /-- One of several patterns. -/
  | anyOf (choices : List Pattern)
  /-- What `part` matches, under a name. -/
  | capture (name : String) (part : Pattern)
  deriving Repr

/-- What a name was captured for, by paths from the element that was matched. -/
inductive Captured where
  /-- One element. -/
  | single (path : Path)
  /-- A run of siblings. -/
  | sequence (paths : List Path)
  deriving DecidableEq, Repr

/-- The captures made along a match, the latest first. Of several captures of a name the latest counts. -/
abbrev Bindings := List (String × Captured)

namespace Pattern

/-- The operator `op`. -/
def operator (op : Text) : Pattern := .leaf .operator (some op)

/-- A token of a kind. -/
def token (kind : TokenKind) : Pattern := .leaf kind none

/-- At most one run. -/
def optional (part : Pattern) : Pattern := .repeated part 0 (some 1)

/-- Whether the pattern is a sequence or repetition, so that a capture of it is a run of siblings. -/
def isRun : Pattern → Bool
  | .sequence _ => true
  | .repeated _ _ _ => true
  | _ => false

end Pattern

end Interpolation

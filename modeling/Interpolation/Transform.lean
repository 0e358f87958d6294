import Interpolation.Event
import Interpolation.Tree.Parse

/-!
# Transforming a source

All expressions of a source are selected first; then each is interpolated in its turn, in the tree as the ones before
it have left it.

* `Attempt` — a match and what became of it;
* `Tree.interpolateAll` — the attempts and the tree after them;
* `Transformation` — the result for a whole source, with its counts and its log;
* `Pattern.transform` — the transformation of a source.
-/

namespace Interpolation

/-- A match in its turn: the node its path led to then, and what became of it, or `none` where the path led to no
node any more. -/
structure Attempt where
  selected : Match
  visited : Option (Tree × Outcome)
  deriving Repr

namespace Attempt

def isInterpolated (a : Attempt) : Bool := match a.visited with
  | some (_, .interpolated _) => true
  | _ => false

/-- A match whose node is gone counts as skipped. -/
def isSkipped (a : Attempt) : Bool := match a.visited with
  | some (_, .skipped _) => true
  | none => true
  | _ => false

def isFailed (a : Attempt) : Bool := match a.visited with
  | some (_, .failed _) => true
  | _ => false

/-- The log of an attempt. -/
def events (a : Attempt) : List Event := match a.visited with
  | none => [.lost a.selected.path]
  | some (_, .interpolated literal) => [.interpolated literal]
  | some (expression, .skipped (.countMismatch placeholders arguments)) =>
    [.mismatched expression.render placeholders arguments, .skipped (.countMismatch placeholders arguments)]
  | some (_, .skipped .unresolvedCapture) => [.skipped .unresolvedCapture]
  | some (_, .failed e) => [.aborted a.selected.path e]

end Attempt

namespace Tree

/-- Interpolate the match `m` in the tree. -/
def interpolateAt (tree : Tree) (m : Match) : Attempt × Tree :=
  match tree.nodeAt? m.path with
  | none => (⟨m, none⟩, tree)
  | some expression =>
    (⟨m, some (expression, (expression.interpolate m.captures).1)⟩,
      tree.update (fun t => (t.interpolate m.captures).2) m.path)

/-- Interpolate some matches one after the other. -/
def interpolateAll (tree : Tree) : List Match → List Attempt × Tree
  | [] => ([], tree)
  | m :: ms =>
    let (attempt, tree) := tree.interpolateAt m
    let (attempts, tree) := tree.interpolateAll ms
    (attempt :: attempts, tree)

end Tree

/-- What became of a source: its tree, the attempts at its expressions, and the tree after them. -/
structure Transformation where
  parsed : Tree
  attempts : List Attempt
  final : Tree
  deriving Repr

namespace Transformation

/-- The text after all attempts. -/
def output (t : Transformation) : Text := t.final.render

/-- The number of expressions that became literals. -/
def interpolated (t : Transformation) : Nat := t.attempts.countP Attempt.isInterpolated

/-- The number of expressions that were left alone. -/
def skipped (t : Transformation) : Nat := t.attempts.countP Attempt.isSkipped

/-- The number of expressions whose placeholders could not be filled although their number was right. -/
def failed (t : Transformation) : Nat := t.attempts.countP Attempt.isFailed

/-- Whether some expression became a literal. -/
def isChanged (t : Transformation) : Bool := 0 < t.interpolated

/-- The log of a transformation: the selected expressions, their number, and the attempts. -/
def log (t : Transformation) : List Event :=
  t.attempts.map (fun a => .selected a.selected.path (((t.parsed.subtree? a.selected.path).map Tree.render).getD []))
    ++ .searched t.attempts.length :: t.attempts.flatMap Attempt.events

end Transformation

/-- Interpolate all expressions of a source that the pattern selects. -/
def Pattern.transform (p : Pattern) (source : Text) : Transformation :=
  let tree := Tree.parse source
  let (attempts, final) := tree.interpolateAll (p.select tree)
  ⟨tree, attempts, final⟩

end Interpolation

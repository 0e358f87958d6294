import Interpolation.Diff.Script

/-!
# Hunks

A hunk is a stretch of an edit script: a change with the kept lines around it. Changes whose surroundings touch or
overlap share a hunk.
-/

namespace Interpolation.Hunk

/-- The number of kept lines shown on either side of a change. -/
def context : Nat := 3

/-- The places of the changes in an edit script. -/
def changes {α : Type} (script : List (Edit α)) : List Nat :=
  script.zipIdx.filterMap fun (e, i) => if e.op = .keep then none else some i

/-- The ranges around some changes in a script of `length` lines: the first line and the line behind the last. -/
def rangesAround (length : Nat) : (changes : List Nat) → List (Nat × Nat)
  | [] => []
  | i :: is =>
    let stop := min (i + 1 + context) length
    match rangesAround length is with
    | [] => [(i - context, stop)]
    | (next, last) :: rest =>
      if next ≤ stop then (i - context, last) :: rest else (i - context, stop) :: (next, last) :: rest

/-- The ranges of the hunks of an edit script. -/
def ranges {α : Type} (script : List (Edit α)) : List (Nat × Nat) := rangesAround script.length (changes script)

/-- The hunks of an edit script. -/
def all {α : Type} (script : List (Edit α)) : List (List (Edit α)) :=
  (ranges script).map fun (first, stop) => (script.drop first).take (stop - first)

end Interpolation.Hunk

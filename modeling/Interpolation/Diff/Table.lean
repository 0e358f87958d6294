import Interpolation.Diff.Script

/-!
# The search with a table

The search for an edit script, with a table of numbers in the place of the fronts. A diagonal is named by how many more
old than new lines its points have in front of them. The table holds the number of old lines in front of the furthest
point of each diagonal, that of the diagonal `k` at the place `k + shift`. Before each round the part of the table that
the round reads is put aside, and the way to the end is found backwards through these parts.

Places, diagonals and numbers of lines are signed here, and whatever is looked up or changed at a place that does not
exist fails: the result is `none`.

* `at?`, `put?`, `part?` — the entry at a place, another entry there, and the entries from one place to another;
* `Table.round?` — one round; `Table.search?` — all rounds, up to the first that finds an end;
* `Table.walk?` — the way back through the parts that were put aside;
* `Table.find?` — the search and the way back.
-/

namespace Interpolation

/-- The entry at a place. -/
def at? {α : Type} (l : List α) (i : Int) : Option α := do l[← i.toNat?]?

/-- Put an entry at a place. -/
def put? {α : Type} (l : List α) (i : Int) (x : α) : Option (List α) := do
  let n ← i.toNat?
  if n < l.length then some (l.set n x) else none

/-- The entries from the place `i` to the place `j`. -/
def part? {α : Type} (l : List α) (i j : Int) : Option (List α) := do
  let n ← i.toNat?
  let m ← j.toNat?
  if n ≤ m + 1 ∧ m < l.length then some ((l.drop n).take (m + 1 - n)) else none

namespace Table

/-- Whether the furthest point of the diagonal `k` in the round `d` comes from the diagonal above, by an insertion. If
not, it comes from the one below, by a deletion. -/
def comesFromAbove? (table : List Int) (shift d k : Int) : Option Bool :=
  if k = -d then some true
  else if k = d then some false
  else do
    let low ← at? table (k - 1 + shift)
    let high ← at? table (k + 1 + shift)
    some (low < high)

/-- The number of old lines in front of the first point of the diagonal `k` in the round `d`. -/
def start? (table : List Int) (shift d k : Int) : Option Int := do
  if ← comesFromAbove? table shift d k then at? table (k + 1 + shift)
  else return (← at? table (k - 1 + shift)) + 1

section Search

variable {α : Type} [DecidableEq α] (old new : List α)

/-- Go on over the lines that agree, behind `x` old and `y` new ones. -/
def slide? (x y : Int) : Option (Int × Int) :=
  if x < old.length ∧ y < new.length then do
    let a ← at? old x
    let b ← at? new y
    if a = b then slide? (x + 1) (y + 1) else some (x, y)
  else some (x, y)
termination_by (old.length - x).toNat

/-- The round `d` from the diagonal `k` on: the table behind it, and whether an end was found. -/
def round? (shift d k : Int) (table : List Int) : Option (List Int × Bool) :=
  if k ≤ d then do
    let start ← start? table shift d k
    let (x, y) ← slide? old new start (start - k)
    let table ← put? table (k + shift) x
    if old.length ≤ x ∧ new.length ≤ y then some (table, true) else round? shift d (k + 2) table
  else some (table, false)
termination_by (d + 1 - k).toNat

/-- The next `rounds` rounds, the first of which is `d`: the round that has found an end, if there was one, and the parts
of the table that were put aside, the last one first. -/
def search? (shift : Int) :
    (rounds d : Nat) → (table : List Int) → (trace : List (List Int)) → Option (Option Nat × List (List Int))
  | 0, _, _, trace => some (none, trace)
  | rounds + 1, d, table, trace => do
    let part ← part? table (shift - d) (shift + d)
    let (table, found) ← round? old new shift d (-d) table
    if found then some (some d, part :: trace) else search? shift rounds (d + 1) table (part :: trace)

end Search

/-- A line of a script, without its text. -/
abbrev Step := EditOp × Nat × Nat

/-- Step back from `x` old and `y` new lines. -/
def step? (op : EditOp) (x y : Int) : Option Step := do return (op, ← x.toNat?, ← y.toNat?)

/-- Go back over kept lines, down to `x'` old or `y'` new lines. -/
def slideBack? (x' y' x y : Int) (script : List Step) : Option (Int × Int × List Step) :=
  if max x' 0 < x ∧ max y' 0 < y then do
    slideBack? x' y' (x - 1) (y - 1) ((← step? .keep (x - 1) (y - 1)) :: script)
  else some (x, y, script)
termination_by x.toNat

/-- Go back from `x` old and `y` new lines, through the parts of the table that were put aside. -/
def walk? : (trace : List (List Int)) → (x y : Int) → (script : List Step) → Option (Int × Int × List Step)
  | [], x, y, script => some (x, y, script)
  | part :: trace, x, y, script => do
    let d : Int := trace.length
    let k := x - y
    let k' := if ← comesFromAbove? part d d k then k + 1 else k - 1
    let x' ← if d = 0 then some 0 else at? part (k' + d)
    let (x, y, script) ← slideBack? x' (x' - k') x y script
    if d = 0 then walk? trace x y script
    else if x = x' then walk? trace x (y - 1) ((← step? .insert x (y - 1)) :: script)
    else walk? trace (x - 1) y ((← step? .delete (x - 1) y) :: script)

/-- What the search has come to. -/
structure Result where
  /-- The round that has found an end, if one has. -/
  round : Option Nat
  /-- Where the way back has ended. -/
  origin : Int × Int
  /-- The lines of the script. -/
  steps : List Step
  deriving DecidableEq, Repr

/-- Search for an edit script from `old` to `new`. -/
def find? {α : Type} [DecidableEq α] (old new : List α) : Option Result := do
  let most := old.length + new.length
  let (round, trace) ← search? old new (most + 1) (most + 1) 0 (List.replicate (2 * most + 3) 0) []
  let (x, y, steps) ← walk? trace old.length new.length []
  return ⟨round, (x, y), steps⟩

end Table

end Interpolation

/-!
# Edit scripts

* `Edit` — one line of an edit script: kept, deleted or inserted, with its place in both texts;
* `Reach` — how far a script gets in both lists of lines;
* `Edit.script` — a shortest script from one list to another.

The search goes by rounds. The front of the round `d` has one point for each of the diagonals `-d`, `-d + 2`, …,
`d`, in this order: the furthest point of that diagonal that `d` insertions and deletions reach, after all lines
that can be kept from there on. A point may lie beyond the end of a list; such a point is never the end of a
script, but the next front is computed from it like from any other.
-/

namespace Interpolation

/-- What a line of an edit script does. -/
inductive EditOp where
  | keep
  | delete
  | insert
  deriving DecidableEq, Repr

/-- A line of an edit script, with the numbers of old and of new lines in front of it. -/
structure Edit (α : Type) where
  op : EditOp
  line : α
  old : Nat
  new : Nat
  deriving DecidableEq, Repr

/-- A point of the search: the numbers of old and of new lines in front of it, the lines behind it, and the script
that leads there, the last line first. -/
structure Reach (α : Type) where
  old : Nat
  new : Nat
  oldRest : List α
  newRest : List α
  script : List (Edit α)
  deriving DecidableEq, Repr

namespace Reach

variable {α : Type}

/-- Go on over the next old line. -/
def delete (r : Reach α) : Reach α :=
  match r.oldRest with
  | [] => { r with old := r.old + 1 }
  | a :: as => { r with old := r.old + 1, oldRest := as, script := ⟨.delete, a, r.old, r.new⟩ :: r.script }

/-- Go on over the next new line. -/
def insert (r : Reach α) : Reach α :=
  match r.newRest with
  | [] => { r with new := r.new + 1 }
  | b :: bs => { r with new := r.new + 1, newRest := bs, script := ⟨.insert, b, r.old, r.new⟩ :: r.script }

/-- Go on over the lines that agree. -/
def slideFrom [DecidableEq α] (old new : Nat) (script : List (Edit α)) : (oldRest newRest : List α) → Reach α
  | a :: as, b :: bs =>
    if a = b then slideFrom (old + 1) (new + 1) (⟨.keep, a, old, new⟩ :: script) as bs
    else ⟨old, new, a :: as, b :: bs, script⟩
  | as, bs => ⟨old, new, as, bs, script⟩

/-- Go on over the lines that agree. -/
def slide [DecidableEq α] (r : Reach α) : Reach α := slideFrom r.old r.new r.script r.oldRest r.newRest

/-- Whether no line is left on either side. -/
def isEnd (r : Reach α) : Bool := r.oldRest.isEmpty && r.newRest.isEmpty

/-- The points that follow those of a front, on the diagonals above each of them. Between two points the one that
has more old lines behind it is preferred, and of two equal ones the lower. -/
def above : List (Reach α) → List (Reach α)
  | [] => []
  | [r] => [r.delete]
  | low :: high :: front => (if low.old < high.old then high.insert else low.delete) :: above (high :: front)

/-- The front of the next round. -/
def nextFront [DecidableEq α] : List (Reach α) → List (Reach α)
  | [] => []
  | r :: front => (r.insert :: above (r :: front)).map slide

/-- The script of the first point that is the end, in this front or one of the next `rounds`. -/
def search [DecidableEq α] : (rounds : Nat) → (front : List (Reach α)) → List (Edit α)
  | rounds, front =>
    match front.find? isEnd with
    | some r => r.script.reverse
    | none =>
      match rounds with
      | 0 => []
      | rounds + 1 => search rounds (nextFront front)

end Reach

/-- A shortest edit script from `old` to `new`. Deleting all old and inserting all new lines is a script, so that
there is no need to search longer than for as many rounds. -/
def Edit.script {α : Type} [DecidableEq α] (old new : List α) : List (Edit α) :=
  Reach.search (old.length + new.length) [Reach.slideFrom 0 0 [] old new]

end Interpolation

import Interpolation.Pattern.Basic

/-!
# Matching

* `Way` — one way to match: where it stops among the siblings, and what it captured;
* `Pattern.ways` — all ways in which a pattern matches a run of siblings from a given one on, in the order in
  which they are preferred: choices from first to last, fewer repetitions before more;
* `Pattern.match?` — the captures of the first way to match a single element.

A repetition counts only runs that are not empty, so it ends after as many rounds as there are siblings left.
-/

namespace Interpolation

/-- A way to match: the index behind the last sibling matched, and the captures. -/
structure Way where
  stop : Nat
  bindings : Bindings
  deriving DecidableEq, Repr

/-- The way `v` behind the way `w`. -/
def Way.before (w v : Way) : Way := ⟨v.stop, v.bindings ++ w.bindings⟩

namespace Pattern

/-- All ways to go on from those in `front` with one more run that is not empty; `step` gives the runs from an
index on. -/
def advance (step : Nat → List Way) (front : List Way) : List Way :=
  front.flatMap fun w => ((step w.stop).filter (w.stop < ·.stop)).map w.before

/-- The ways in `front`, which make `count` runs, and all that go on from there, as far as the bounds permit. No
more than `fuel` rounds are made. -/
def rounds (step : Nat → List Way) (min : Nat) (max : Option Nat) :
    (fuel count : Nat) → (front : List Way) → List Way
  | 0, _, _ => []
  | fuel + 1, count, front =>
    if front.isEmpty then []
    else
      (if min ≤ count then front else []) ++
        (if max.any (· ≤ count) then [] else rounds step min max fuel (count + 1) (advance step front))

mutual
/-- All ways to match a run of siblings from the index `start` on. The path of the sibling `i` is `pathOf i`. -/
def ways (pathOf : Nat → Path) (siblings : List Tree) (start : Nat) : Pattern → List Way
  | .leaf kind text =>
    match siblings[start]? with
    | some (.leaf t) => if t.kind = kind && text.all (t.text = ·) then [⟨start + 1, []⟩] else []
    | _ => []
  | .node kind parts =>
    match siblings[start]? with
    | some (.node k cs) =>
      if k = kind then
        match (waysInTurn (fun i => pathOf start ++ [i]) cs 0 parts).find? (·.stop = cs.length) with
        | some w => [⟨start + 1, w.bindings⟩]
        | none => []
      else []
    | _ => []
  | .sequence parts => waysInTurn pathOf siblings start parts
  | .repeated part min max =>
    rounds (fun i => ways pathOf siblings i part) min max (siblings.length - start + 2) 0 [⟨start, []⟩]
  | .anyOf choices => waysOfAny pathOf siblings start choices
  | .capture name part =>
    (ways pathOf siblings start part).map fun w =>
      let captured := if part.isRun then .sequence ((List.range' start (w.stop - start)).map pathOf)
        else .single (pathOf start)
      ⟨w.stop, (name, captured) :: w.bindings⟩
/-- All ways to match one pattern after the other. -/
def waysInTurn (pathOf : Nat → Path) (siblings : List Tree) (start : Nat) : List Pattern → List Way
  | [] => [⟨start, []⟩]
  | p :: ps => (ways pathOf siblings start p).flatMap fun w => (waysInTurn pathOf siblings w.stop ps).map w.before
/-- All ways to match one of several patterns. -/
def waysOfAny (pathOf : Nat → Path) (siblings : List Tree) (start : Nat) : List Pattern → List Way
  | [] => []
  | p :: ps => ways pathOf siblings start p ++ waysOfAny pathOf siblings start ps
end

/-- The captures of the first way to match a single element, by paths from that element. -/
def match? (p : Pattern) (element : Tree) : Option Bindings :=
  ((p.ways (fun _ => []) [element] 0).find? (·.stop = 1)).map (·.bindings)

end Pattern

end Interpolation

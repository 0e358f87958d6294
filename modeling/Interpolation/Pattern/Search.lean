import Interpolation.Account
import Interpolation.Pattern.Match

/-!
# Matching round by round

The ways in which a pattern matches are found here without a bound on the rounds of a repetition: it goes on as long as
there are ways to go on from, and the matches of the parts of a sequence are made part by part. How many rounds each
repetition makes is kept account of. That a search comes to an end is no part of the definitions.

* `Loop`, `Search` — a repetition that has come to an end, and what can go through some of them;
* `Pattern.repeatedly` — the rounds of a repetition, and their number;
* `Pattern.search` — all ways in which a pattern matches a run of siblings from a given one on.
-/

namespace Interpolation

/-- A repetition that has come to an end: how many siblings there are, from which of them on it was to match, and how many
rounds it has made. -/
structure Loop where
  siblings : Nat
  start : Nat
  rounds : Nat
  deriving DecidableEq, Repr

/-- What keeps account of the repetitions that it goes through, if it comes to an end. -/
abbrev Search := Account Loop

namespace Pattern

section Rounds

variable (step : Nat → Search (List Way)) (min : Nat) (max : Option Nat)

/-- The rounds of a repetition, from the round `count` on and with the ways in `front` to go on from: what they end with, and
the number of all rounds. -/
def repeatedly : ReaderT (Nat × List Way) Search (List Way × Nat) := fun (count, front) => do
  if front.isEmpty then return ([], count)
  else
    let complete := if min ≤ count then front else []
    if max.any (· ≤ count) then return (complete, count + 1)
    else
      let next ← front.mapM fun w => return ((← step w.stop).filter (w.stop < ·.stop)).map w.before
      let (longer, rounds) ← repeatedly.run (count + 1, next.flatten)
      return (complete ++ longer, rounds)
partial_fixpoint

end Rounds

mutual
/-- All ways to match a run of siblings from the index `start` on. The path of the sibling `i` is `pathOf i`. -/
def search (pathOf : Nat → Path) (siblings : List Tree) (start : Nat) : Pattern → Search (List Way)
  | .leaf kind text =>
    match siblings[start]? with
    | some (.leaf t) => return if t.kind = kind && text.all (t.text = ·) then [⟨start + 1, []⟩] else []
    | _ => return []
  | .node kind parts =>
    match siblings[start]? with
    | some (.node k cs) =>
      if k = kind then do
        let ways ← searchInTurn (fun i => pathOf start ++ [i]) cs [⟨0, []⟩] parts
        return ((ways.find? (·.stop = cs.length)).map fun w => ⟨start + 1, w.bindings⟩).toList
      else return []
    | _ => return []
  | .sequence parts => searchInTurn pathOf siblings [⟨start, []⟩] parts
  | .repeated part min max => do
    let (ways, rounds) ← repeatedly (fun i => search pathOf siblings i part) min max (0, [⟨start, []⟩])
    Account.enter ⟨siblings.length, start, rounds⟩
    return ways
  | .anyOf choices => searchOfAny pathOf siblings start choices
  | .capture name part => do
    let ways ← search pathOf siblings start part
    return ways.map fun w =>
      let captured := if part.isRun then .sequence ((List.range' start (w.stop - start)).map pathOf)
        else .single (pathOf start)
      ⟨w.stop, (name, captured) :: w.bindings⟩
/-- All ways to go on from those in `front` with one pattern after the other. -/
def searchInTurn (pathOf : Nat → Path) (siblings : List Tree) (front : List Way) : List Pattern → Search (List Way)
  | [] => return front
  | p :: ps => do
    let next ← front.mapM fun w => return (← search pathOf siblings w.stop p).map w.before
    if next.flatten.isEmpty then return []
    else searchInTurn pathOf siblings next.flatten ps
/-- All ways to match one of several patterns. -/
def searchOfAny (pathOf : Nat → Path) (siblings : List Tree) (start : Nat) : List Pattern → Search (List Way)
  | [] => return []
  | p :: ps => return (← search pathOf siblings start p) ++ (← searchOfAny pathOf siblings start ps)
end

end Pattern

end Interpolation

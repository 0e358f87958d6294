import Interpolation.Account
import Interpolation.Tree.Operand

/-!
# Operands from a queue

The operands of a list of siblings are read off a queue here, by recursive descent. What a rule takes off the queue it
never puts back: if it fails behind that, what it has taken is lost. So it matters where each rule is called, and the
calls are kept account of. That reading comes to an end is no part of the definitions.

* `Rule`, `Call` — the rules, and a call of one with what it has come to;
* `Reader` — what reads off a queue and keeps account of its calls;
* `Reader.pop`, `Reader.front`, `Reader.startsFactor` — taking the first sibling, and looking ahead;
* `Reader.andThen` — reading on where nothing has failed;
* `Reader.atom`, `Reader.trailer`, `Reader.power`, `Reader.factor`, `Reader.term` — the rules;
* `Reader.group` — the siblings with their operands grouped.
-/

namespace Interpolation

open Interpolation.Tree

/-- Whether a factor starts at the index `i`: signs, and then an atom or `await` with an atom. -/
def Tree.startsFactorAt (ts : List Tree) (i : Nat) : Bool :=
  match _h : ts[i]? with
  | none => false
  | some t => if t.isSign then startsFactorAt ts (i + 1) else if t.isAwait then ts[i + 1]?.any isAtom else t.isAtom
termination_by ts.length - i
decreasing_by
  have := (List.getElem?_eq_some_iff.1 _h).1
  omega

/-- What is read off a queue at a time. -/
inductive Rule where
  /-- An operand as a whole, or a sibling that starts none. -/
  | sibling
  | term
  | factor
  | power
  | atom
  | trailer
  deriving DecidableEq, Repr

/-- A call of a rule: the siblings that were waiting, what it has read, if it has not failed, and the siblings that were
waiting afterwards. -/
structure Call where
  rule : Rule
  before : List Tree
  result : Option Tree
  after : List Tree

/-- What reads off a queue of siblings and keeps account of its calls, if it comes to an end. -/
abbrev Reader := StateT (List Tree) (Account Call)

namespace Reader

/-- Whether the first sibling that is waiting is of the class `p`. -/
def front (p : Tree → Bool) : Reader Bool := return (← get).head?.any p

/-- Whether a factor starts behind the first `i` siblings that are waiting. -/
def startsFactor (i : Nat) : Reader Bool := return startsFactorAt (← get) i

/-- Take the first sibling off the queue. -/
def pop : Reader (Option Tree) := do
  match ← get with
  | [] => return none
  | t :: ts =>
    set ts
    return t

/-- Change what is read. -/
abbrev map {α β : Type} (read : Reader α) (f : α → β) : Reader β := return f (← read)

/-- Read on, unless it has failed: what has been taken by then is not put back. -/
abbrev andThen {α β : Type} (read : Reader (Option α)) (next : α → Reader (Option β)) : Reader (Option β) := do
  let some a ← read | return none
  next a

/-- Keep account of a call. -/
abbrev called (rule : Rule) (read : Reader (Option Tree)) : Reader (Option Tree) := do
  let before ← get
  let result ← read
  Account.enter (Call.mk rule before result (← get))
  return result

/-! ## Atoms and trailers -/

/-- Take siblings off the queue as long as they are strings. -/
def strings : Reader (Option (List Tree)) := do
  if ← front (isToken .string) then
    pop.andThen fun t => strings.andThen fun ts => return some (t :: ts)
  else return some []
partial_fixpoint

/-- The first sibling, whatever it is; adjacent strings make up one atom. -/
def atom : Reader (Option Tree) := called .atom <| pop.andThen fun t =>
  if t.isToken .string then strings.andThen fun ts => return collapse .atom (t :: ts)
  else return t

/-- A call, a subscript or a dotted name. -/
def trailer : Reader (Option Tree) := called .trailer do
  if ← front isCallOrSubscript then
    pop.andThen fun
      | .node _ cs => return node .trailer cs
      | .leaf _ => return none
  else if (← front (isOperator ['.'])) && (← get)[1]?.any (isToken .name) then
    pop.andThen fun dot => pop.andThen fun name => return node .trailer [dot, name]
  else return none

/-- Trailers until there is none. -/
def trailers : Reader (List Tree) := do
  let some t ← trailer | return []
  trailers.map (t :: ·)
partial_fixpoint

/-- An atom with its trailers. -/
def trailed : Reader (Option (List Tree)) := atom.andThen fun a => trailers.map fun ts => some (a :: ts)

/-- An atom with its trailers, and `await` in front if it is there. -/
def primary : Reader (Option (List Tree)) := do
  if ← front isAwait then pop.andThen fun await => trailed.andThen fun ts => return some (await :: ts)
  else trailed

/-! ## Powers, factors and terms -/

/-- A base, with an exponent if there is one. -/
abbrev power (exponent : Reader (Option Tree)) (base : Reader (Option (List Tree))) : Reader (Option Tree) :=
  called .power <| base.andThen fun parts => do
    if (← front isPower) && (← startsFactor 1) then
      pop.andThen fun op => exponent.andThen fun t => return collapse .power (parts ++ [op, t])
    else return collapse .power parts

/-- A sign with its operand, or a power. -/
def factor : Reader (Option Tree) := called .factor do
  if ← front isSign then
    pop.andThen fun sign => factor.andThen fun operand => return node .factor [sign, operand]
  else factor.power primary
partial_fixpoint

/-- Multiplicative operators, each with its right operand. -/
def products : Reader (Option (List Tree)) := do
  if (← front isMultiplicative) && (← startsFactor 1) then
    pop.andThen fun op => factor.andThen fun operand => products.andThen fun ts => return some (op :: operand :: ts)
  else return some []
partial_fixpoint

/-- Factors with multiplicative operators between them. -/
def term : Reader (Option Tree) := called .term <|
  factor.andThen fun first => products.andThen fun others => return collapse .term (first :: others)

/-! ## All siblings -/

/-- Group the operands of the siblings that are waiting, from a place on of which is known whether an operand stands right
in front of it. What a failed term has taken is missing from the result. -/
def group : ReaderT Bool Reader (List Tree) := fun behindOperand => do
  if (← get).isEmpty then return []
  else
    let operand := !((← front isSign) && behindOperand) && (← startsFactor 0)
    let read ← called .sibling (if operand then term else pop)
    return read.toList ++ (← group.run operand)
partial_fixpoint

end Reader

end Interpolation

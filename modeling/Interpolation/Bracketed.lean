import Interpolation.Token.Basic

/-!
# Paired brackets

Brackets pair up as on a stack. An opening bracket is pushed. A closing bracket pairs with the topmost opening
bracket of its own shape; those above it stay unpaired. Where there is none of its shape the whole stack stays
unpaired, and so does the closing bracket.

* `Bracketed` — a token, or a pair of brackets with all that stands between them;
* `Nesting` — the stack, with what was read since each of its brackets;
* `Bracketed.ofTokens` — the pairing of a list of tokens.

Between paired brackets a line break ends nothing: it is trivia of what follows (`Bracketed.joinLines`).
-/

namespace Interpolation

/-- A token, or a bracket group. -/
inductive Bracketed where
  | token (token : Token)
  | group (opening : Token) (contents : List Bracketed) (closing : Token)
  deriving Repr

/-- The shapes of brackets: the opening one and the closing one. -/
def bracketShapes : List (Text × Text) := [(['('], [')']), (['['], [']']), (['\x7b'], ['\x7d'])]

namespace Token

/-- Whether a token, as scanned, is an opening bracket. -/
def isOpening (t : Token) : Bool := t.kind = .unknown && bracketShapes.any fun (opening, _) => t.text = opening

/-- Whether a token, as scanned, is a closing bracket. -/
def isClosing (t : Token) : Bool := t.kind = .unknown && bracketShapes.any fun (_, closing) => t.text = closing

/-- Whether an opening and a closing bracket have the same shape. -/
def pairsWith (opening closing : Token) : Bool := (opening.text, closing.text) ∈ bracketShapes

/-- A bracket that is paired counts as an operator. -/
def asPaired (t : Token) : Token := { t with kind := .operator }

/-- A token with more trivia in front. -/
def addTrivia (trivia : Text) (t : Token) : Token := { t with trivia := trivia ++ t.trivia }

end Token

namespace Bracketed

/-- More trivia in front of a token or group. -/
def addTrivia (trivia : Text) : Bracketed → Bracketed
  | .token t => .token (t.addTrivia trivia)
  | .group opening contents closing => .group (opening.addTrivia trivia) contents closing

/-- Turn the line breaks in a list into trivia of what follows them. The second component is what is left over
at the end; `carried` is what is left over from before. -/
def joinLines (carried : Text) : List Bracketed → List Bracketed × Text
  | [] => ([], carried)
  | .token t :: rest =>
    if t.kind = .newline then joinLines (carried ++ t.render) rest
    else (.token (t.addTrivia carried) :: (joinLines [] rest).1, (joinLines [] rest).2)
  | .group opening contents closing :: rest =>
    (.group (opening.addTrivia carried) contents closing :: (joinLines [] rest).1, (joinLines [] rest).2)

/-- A group made of a pair of brackets and what was read between them. -/
def close (opening : Token) (contents : List Bracketed) (closing : Token) : Bracketed :=
  .group opening.asPaired (joinLines [] contents).1 (closing.asPaired.addTrivia (joinLines [] contents).2)

end Bracketed

/-- An opening bracket that is not paired yet, with what was read since, the last item first. -/
structure OpenGroup where
  opening : Token
  contents : List Bracketed

/-- What the bracket and its contents are as long as it is unpaired, the last item first. -/
def OpenGroup.spilled (g : OpenGroup) : List Bracketed := g.contents ++ [.token g.opening]

/-- The unpaired opening brackets, the last one first, and what was read before the first of them, the last item
first. -/
structure Nesting where
  stack : List OpenGroup
  outside : List Bracketed

namespace Nesting

/-- Nothing read. -/
def empty : Nesting := ⟨[], []⟩

/-- All items, the last one first, if no further bracket is paired. -/
def spilled (n : Nesting) : List Bracketed := n.stack.flatMap OpenGroup.spilled ++ n.outside

/-- One more item, behind the last opening bracket. -/
def add (n : Nesting) (item : Bracketed) : Nesting :=
  match n.stack with
  | [] => { n with outside := item :: n.outside }
  | g :: stack => { n with stack := { g with contents := item :: g.contents } :: stack }

/-- A closing bracket. -/
def close (n : Nesting) (closing : Token) : Nesting :=
  match n.stack.dropWhile (!·.opening.pairsWith closing) with
  | [] => ⟨[], .token closing :: n.spilled⟩
  | g :: stack =>
    let unpaired := n.stack.takeWhile (!·.opening.pairsWith closing)
    let contents := unpaired.flatMap OpenGroup.spilled ++ g.contents
    add ⟨stack, n.outside⟩ (.close g.opening contents.reverse closing)

/-- One more token. -/
def next (n : Nesting) (t : Token) : Nesting :=
  if t.isOpening then { n with stack := ⟨t, []⟩ :: n.stack }
  else if t.isClosing then n.close t
  else n.add (.token t)

end Nesting

namespace Bracketed

/-- Pair the brackets in a list of tokens. -/
def ofTokens (ts : List Token) : List Bracketed := (ts.foldl Nesting.next .empty).spilled.reverse

mutual
/-- The tokens of a bracketed item from left to right. -/
def tokens : Bracketed → List Token
  | .token t => [t]
  | .group opening contents closing => opening :: (tokensAll contents ++ [closing])
/-- The tokens of some bracketed items in turn. -/
def tokensAll : List Bracketed → List Token
  | [] => []
  | b :: bs => b.tokens ++ tokensAll bs
end

@[simp] theorem tokensAll_append (bs cs : List Bracketed) : tokensAll (bs ++ cs) = tokensAll bs ++ tokensAll cs := by
  induction bs with
  | nil => rfl
  | cons b bs ih => simp [tokensAll, ih]

end Bracketed

end Interpolation

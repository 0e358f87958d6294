import Interpolation.Text.Basic

/-!
# Tokens

A token carries the trivia in front of it, so that a list of tokens holds every character of its source:
`Token.renderAll` writes the source out again.
-/

namespace Interpolation

/-- The lexical categories. -/
inductive TokenKind where
  /-- An identifier; the constants `True`, `False` and `None` are names too. -/
  | name
  /-- A reserved word. -/
  | keyword
  /-- A numeric literal. -/
  | number
  /-- A string literal with its leading letters and its quotes. -/
  | string
  /-- An operator, a delimiter or a paired bracket. -/
  | operator
  /-- A line break that no paired brackets enclose. -/
  | newline
  /-- Any other character; an unpaired bracket is one. -/
  | unknown
  /-- The empty token that carries the trivia at the end. -/
  | endMarker
  deriving DecidableEq, Repr

/-- A token with the trivia (blanks, comments and joined lines) in front of it. -/
structure Token where
  kind : TokenKind
  trivia : Text
  text : Text
  deriving DecidableEq, Repr

namespace Token

/-- The characters of a token: its trivia, then its text. -/
def render (t : Token) : Text := t.trivia ++ t.text

/-- The characters of some tokens in turn. -/
def renderAll (ts : List Token) : Text := ts.flatMap render

/-- Whether the token is the operator `op`. -/
def isOperator (op : Text) (t : Token) : Bool := t.kind = .operator && t.text = op

@[simp] theorem renderAll_nil : renderAll [] = [] := rfl

@[simp] theorem renderAll_cons (t : Token) (ts : List Token) :
    renderAll (t :: ts) = t.trivia ++ t.text ++ renderAll ts := rfl

@[simp] theorem renderAll_append (ts us : List Token) :
    renderAll (ts ++ us) = renderAll ts ++ renderAll us := by simp [renderAll]

end Token

end Interpolation

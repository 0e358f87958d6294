import Interpolation.Text.Identifier
import Interpolation.Token.Basic
import Interpolation.Token.Trivia
import Interpolation.Token.Number
import Interpolation.Token.Literal

/-!
# Scanning

* `Token.lexeme?` — the token at the front of a text that does not start with trivia;
* `Token.scan` — all tokens of a text, each with its trivia; the last one is the end marker.

`Token.renderAll_scan` says that scanning loses nothing. At this level a bracket is an unknown character:
whether it is paired is not a matter of its neighbours.
-/

namespace Interpolation.Token

/-- The reserved words. -/
def keywords : List Text :=
  ["and", "as", "assert", "async", "await", "break", "class", "continue", "def", "del", "elif", "else",
   "except", "finally", "for", "from", "global", "if", "import", "in", "is", "lambda", "nonlocal", "not",
   "or", "pass", "raise", "return", "try", "while", "with", "yield"].map String.toList

/-- The operators, an operator before those that it starts with. -/
def operators : List Text :=
  ["**=", "//=", ">>=", "<<=", "...",
   "**", "//", "<<", ">>", "<=", ">=", "==", "!=", "->", ":=",
   "+=", "-=", "*=", "/=", "%=", "&=", "|=", "^=", "@=",
   "+", "-", "*", "/", "%", "@", "&", "|", "^", "~",
   "<", ">", "=", ".", ",", ":", ";", "!", "`"].map String.toList

/-- An identifier or a reserved word. -/
def word : Recognizer :=
  (Recognizer.one fun c => Identifier.isStart c || c = '_').andThen (.many Identifier.isContinue)

/-- What each kind of token looks like; the first that applies is taken. -/
def rules : List (TokenKind × Recognizer) :=
  [(.newline, lineBreak),
   (.string, Literal.literal),
   (.number, Number.number),
   (.keyword, word.restrict (· ∈ keywords)),
   (.name, word),
   (.operator, .firstOf (operators.map .exactly)),
   (.unknown, .one fun _ => true)]

/-- The kind and the text of the token at the front, and the rest of the text. -/
def lexeme? (s : Text) : Option (TokenKind × Text × Text) :=
  rules.findSome? fun (kind, rule) => (rule s).map fun (text, rest) => (kind, text, rest)

theorem word_splits : word.Splits := (Recognizer.splits_one _).andThen (Recognizer.splits_many _)

theorem rules_splits : ∀ r ∈ rules, r.2.Splits := by
  simp only [rules, List.forall_mem_cons, List.not_mem_nil, false_implies, implies_true, and_true]
  refine ⟨lineBreak_splits, Literal.literal_splits, Number.number_splits, word_splits.restrict _, word_splits,
    Recognizer.splits_firstOf fun r hr => ?_, Recognizer.splits_one _⟩
  obtain ⟨op, _, rfl⟩ := List.mem_map.1 hr
  exact Recognizer.splits_exactly op

theorem rules_consumes : ∀ r ∈ rules, r.2.Consumes := by
  have hword : word.Consumes := (Recognizer.consumes_one _).andThen _
  simp only [rules, List.forall_mem_cons, List.not_mem_nil, false_implies, implies_true, and_true]
  refine ⟨lineBreak_consumes, Literal.literal_consumes, Number.number_consumes, hword.restrict _, hword,
    Recognizer.consumes_firstOf fun r hr => ?_, Recognizer.consumes_one _⟩
  obtain ⟨op, hop, rfl⟩ := List.mem_map.1 hr
  exact Recognizer.consumes_exactly ((by decide : ∀ op ∈ operators, op ≠ []) op hop)

/-- The rule that found a token. -/
theorem exists_rule_of_lexeme? {s : Text} {kind : TokenKind} {text rest : Text}
    (h : lexeme? s = some (kind, text, rest)) : ∃ rule, (kind, rule) ∈ rules ∧ rule s = some (text, rest) := by
  obtain ⟨⟨k, rule⟩, hr, h⟩ := List.exists_of_findSome?_eq_some h
  obtain ⟨⟨t, r⟩, hs, h⟩ := Option.map_eq_some_iff.1 h
  simp only [Prod.mk.injEq] at h
  obtain ⟨rfl, rfl, rfl⟩ := h
  exact ⟨rule, hr, hs⟩

theorem lexeme?_append {s : Text} {kind : TokenKind} {text rest : Text}
    (h : lexeme? s = some (kind, text, rest)) : text ++ rest = s := by
  obtain ⟨rule, hr, hs⟩ := exists_rule_of_lexeme? h
  exact rules_splits _ hr _ _ _ hs

theorem lexeme?_ne_nil {s : Text} {kind : TokenKind} {text rest : Text}
    (h : lexeme? s = some (kind, text, rest)) : text ≠ [] := by
  obtain ⟨rule, hr, hs⟩ := exists_rule_of_lexeme? h
  exact rules_consumes _ hr _ _ _ hs

theorem length_lexeme?_lt {s : Text} {kind : TokenKind} {text rest : Text}
    (h : lexeme? s = some (kind, text, rest)) : rest.length < s.length := by
  have := List.length_pos_iff.2 (lexeme?_ne_nil h)
  rw [← lexeme?_append h, List.length_append]
  omega

theorem lexeme?_eq_none_iff {s : Text} : lexeme? s = none ↔ s = [] := by
  constructor
  · intro h
    cases s with
    | nil => rfl
    | cons c s => simp [lexeme?, rules, Recognizer.one] at h
  · rintro rfl
    rfl

/-- The tokens of a text, each with its trivia. The end marker takes the trivia at the end. -/
def scan (s : Text) : List Token :=
  match _h : lexeme? (Trivia.split s).2 with
  | none => [⟨.endMarker, (Trivia.split s).1, []⟩]
  | some (kind, text, rest) => ⟨kind, (Trivia.split s).1, text⟩ :: scan rest
termination_by s.length
decreasing_by exact Nat.lt_of_lt_of_le (length_lexeme?_lt _h) (Trivia.length_split_le s)

/-- Scanning loses nothing. -/
theorem renderAll_scan (s : Text) : renderAll (scan s) = s := by
  fun_induction scan s with
  | case1 s h =>
    have hs := Trivia.split_append s
    rw [lexeme?_eq_none_iff.1 h] at hs
    simpa using hs
  | case2 s kind text rest h ih =>
    rw [renderAll_cons, ih, List.append_assoc, lexeme?_append h, Trivia.split_append]

end Interpolation.Token

import Interpolation.Proofs.Bracketed.Reading
import Interpolation.Proofs.Text.Recognizer
import Interpolation.Token.Scan

/-!
# The tokens of a text

* `Token.IsLexeme` — the kind and the text of a token are those of a token at the front of some text;
* `Token.exists_scan_eq` — the tokens of a text are such tokens, and the end marker behind them;
* `IsLexeme.text_ne_nil`, `IsLexeme.length_of_unknown` — what the texts of such tokens are;
* `IsLexeme.unknown_of_bracket`, `IsLexeme.newline_of_isBreak` — outside of strings, a bracket is a token by itself and
  a line break is one with its like.
-/

namespace Interpolation.Token

open Recognizer (avoids_one avoids_many avoids_exactly avoids_firstOf)

/-- The token stands at the front of some text. -/
def IsLexeme (t : Token) : Prop := ∃ s rest, lexeme? s = some (t.kind, t.text, rest)

/-- The tokens of a text end with the only end marker. -/
theorem exists_scan_eq (s : Text) : ∃ ts z, scan s = ts ++ [⟨.endMarker, z, []⟩] ∧ ∀ t ∈ ts, t.IsLexeme := by
  fun_induction scan s with
  | case1 s _ => exact ⟨[], (Trivia.split s).1, rfl, by simp⟩
  | case2 s kind text rest h ih =>
    obtain ⟨ts, z, hts, hall⟩ := ih
    exact ⟨⟨kind, (Trivia.split s).1, text⟩ :: ts, z, by rw [hts, List.cons_append],
      List.forall_mem_cons.2 ⟨⟨_, _, h⟩, hall⟩⟩

/-- Every token of a text stands at the front of some text, or is the end marker, which has none. -/
theorem isLexeme_or_nil_of_mem_scan {s : Text} {t : Token} (h : t ∈ scan s) : t.IsLexeme ∨ t.text = [] := by
  obtain ⟨ts, z, hscan, hlexemes⟩ := exists_scan_eq s
  rw [hscan] at h
  rcases List.mem_append.1 h with h | h
  · exact .inl (hlexemes t h)
  · exact .inr (by rw [List.mem_singleton.1 h])

namespace IsLexeme

variable {t : Token}

theorem exists_rule (h : t.IsLexeme) : ∃ rule s rest, (t.kind, rule) ∈ rules ∧ rule s = some (t.text, rest) := by
  obtain ⟨s, rest, h⟩ := h
  obtain ⟨rule, hrule, hread⟩ := exists_rule_of_lexeme? h
  exact ⟨rule, s, rest, hrule, hread⟩

theorem text_ne_nil (h : t.IsLexeme) : t.text ≠ [] := by
  obtain ⟨s, rest, h⟩ := h
  exact lexeme?_ne_nil h

theorem kind_ne_endMarker (h : t.IsLexeme) : t.kind ≠ .endMarker := by
  obtain ⟨rule, s, rest, hrule, -⟩ := h.exists_rule
  have hkinds : ∀ r ∈ rules, r.1 ≠ .endMarker := by simp [rules]
  exact hkinds _ hrule

/-- A token of no other kind is a single character. -/
theorem length_of_unknown (h : t.IsLexeme) (hkind : t.kind = .unknown) : t.text.length = 1 := by
  obtain ⟨rule, s, rest, hrule, hread⟩ := h.exists_rule
  obtain rfl : rule = .one fun _ => true := by simpa [rules, hkind] using hrule
  cases s with
  | nil => simp [Recognizer.one] at hread
  | cons c s =>
    obtain ⟨htext, -⟩ : [c] = t.text ∧ s = rest := by simpa [Recognizer.one] using hread
    simp [← htext]

end IsLexeme

/-! ## Characters that stand by themselves -/

/-- The brackets. -/
def brackets : Text := ['(', ')', '[', ']', '\x7b', '\x7d']

/-- The brackets and the characters of line breaks. -/
def marks : Text := brackets ++ ['\n', '\r']

theorem number_avoids : Number.number.Avoids marks := by
  have heither {letter : Char} (h : ∀ c ∈ marks, decide (c.toLower = letter) = false) :
      (Number.either letter).Avoids marks := avoids_one h
  have hbased {letter : Char} {p : Char → Bool} (h : ∀ c ∈ marks, decide (c.toLower = letter) = false)
      (hp : ∀ c ∈ marks, (p c || decide (c = '_')) = false) : (Number.based letter p).Avoids marks :=
    ((avoids_one (by decide)).andThen (heither h)).andThen ((avoids_one hp).andThen (avoids_many hp))
  have hdigits : Number.digits.Avoids marks := (avoids_one (by decide)).andThen (avoids_many (by decide))
  have hexponent : Number.exponent.Avoids marks :=
    ((heither (by decide)).andThen (avoids_one (by decide)).optional).andThen hdigits
  have hdecimal : Number.decimal.Avoids marks :=
    ((hdigits.andThen ((avoids_one (by decide)).andThen hdigits.optional).optional).orElse
      ((avoids_one (by decide)).andThen hdigits)).andThen hexponent.optional
  refine (avoids_firstOf ?_).andThen ((heither (by decide)).orElse (heither (by decide))).optional
  simp only [List.forall_mem_cons, List.not_mem_nil, false_implies, implies_true, and_true]
  exact ⟨hbased (by decide) (by decide), hbased (by decide) (by decide), hbased (by decide) (by decide), hdecimal⟩

theorem word_avoids : word.Avoids marks := (avoids_one (by decide)).andThen (avoids_many (by decide))

theorem operator_avoids : (Recognizer.firstOf (operators.map .exactly)).Avoids marks :=
  avoids_firstOf fun r hr => by
    obtain ⟨op, hop, rfl⟩ := List.mem_map.1 hr
    exact avoids_exactly fun c hc => (by decide : ∀ op ∈ operators, ∀ c ∈ marks, c ∉ op) op hop c hc

theorem lineBreak_avoids : lineBreak.Avoids brackets :=
  avoids_firstOf (by
    simp only [List.forall_mem_cons, List.not_mem_nil, false_implies, implies_true, and_true]
    exact ⟨avoids_exactly (by decide), avoids_exactly (by decide), avoids_exactly (by decide)⟩)

/-- A text that starts with a line break is read as one. -/
theorem exists_lineBreak_of_isBreak {c : Char} (h : isBreak c = true) (s : Text) :
    ∃ brk rest, lineBreak (c :: s) = some (brk, rest) := by
  simp only [isBreak, Bool.or_eq_true, decide_eq_true_eq] at h
  rcases h with rfl | rfl
  · exact ⟨['\n'], s, rfl⟩
  · cases hs : lineBreak ('\r' :: s) with
    | none => simp [lineBreak, Recognizer.firstOf, Recognizer.exactly] at hs
    | some p => exact ⟨p.1, p.2, rfl⟩

/-- The tokens that are neither strings nor of no kind have no brackets, and line breaks only if they are line breaks. -/
theorem avoids_of_mem_rules {kind : TokenKind} {rule : Recognizer} (h : (kind, rule) ∈ rules)
    (hstring : kind ≠ .string) (hunknown : kind ≠ .unknown) : kind = .newline ∧ rule.Avoids brackets ∨ rule.Avoids marks := by
  simp only [rules, List.mem_cons, Prod.mk.injEq, List.not_mem_nil, or_false] at h
  rcases h with ⟨rfl, rfl⟩ | ⟨rfl, -⟩ | ⟨-, rfl⟩ | ⟨-, rfl⟩ | ⟨-, rfl⟩ | ⟨-, rfl⟩ | ⟨rfl, -⟩
  · exact .inl ⟨rfl, lineBreak_avoids⟩
  · contradiction
  · exact .inr number_avoids
  · exact .inr (word_avoids.restrict _)
  · exact .inr word_avoids
  · exact .inr operator_avoids
  · contradiction

namespace IsLexeme

variable {t : Token} {c : Char}

/-- A bracket that is not in a string is a token of no other kind. -/
theorem unknown_of_bracket (h : t.IsLexeme) (hstring : t.kind ≠ .string) (hc : c ∈ t.text) (hbracket : c ∈ brackets) :
    t.kind = .unknown := by
  by_contra hunknown
  obtain ⟨rule, s, rest, hrule, hread⟩ := h.exists_rule
  rcases avoids_of_mem_rules hrule hstring hunknown with ⟨-, havoids⟩ | havoids
  · exact havoids _ _ _ hread c hbracket hc
  · exact havoids _ _ _ hread c (List.mem_append_left _ hbracket) hc

/-- A line break that is not in a string is in a token of its kind. -/
theorem newline_of_isBreak (h : t.IsLexeme) (hstring : t.kind ≠ .string) (hc : c ∈ t.text) (hbreak : isBreak c = true) :
    t.kind = .newline := by
  by_cases hunknown : t.kind = .unknown
  · obtain ⟨d, hd⟩ := List.length_eq_one_iff.1 (h.length_of_unknown hunknown)
    obtain rfl : c = d := by simpa [hd] using hc
    obtain ⟨s, rest, hread⟩ := h
    have hs := lexeme?_append hread
    rw [hd, List.singleton_append] at hs
    obtain ⟨brk, rest', hbrk⟩ := exists_lineBreak_of_isBreak hbreak rest
    rw [hs] at hbrk
    have hnewline := hread.symm.trans (lexeme?_of_lineBreak hbrk)
    exact (Prod.mk.inj (Option.some.inj hnewline)).1
  · obtain ⟨rule, s, rest, hrule, hread⟩ := h.exists_rule
    rcases avoids_of_mem_rules hrule hstring hunknown with ⟨hnewline, -⟩ | havoids
    · exact hnewline
    · refine absurd hc (havoids _ _ _ hread c (List.mem_append_right _ ?_))
      simpa [isBreak] using hbreak

end IsLexeme

end Interpolation.Token

import Interpolation.Token.Scan
import Interpolation.Proofs.Text.Tail
import Interpolation.Proofs.Token.Literal

/-!
# The text in front of a literal

What stands in front of a literal is read before the literal is. A text is settled if it is read in one way whatever
literal stands behind it.

* `Quote.isOpen`, `Literal.isOpen` — an attempt at a literal that comes to the end of the text and not to its own;
* `Text.Settled` — no word and no number reaches up to the end of the text, and no attempt at a literal is open there;
* `Token.lexeme?_append_tail`, `Trivia.split_append_tail` — the tail is no matter to a token and to trivia;
* `Text.Settled.trivia`, `Text.Settled.lexeme` — what is behind a token of a settled text is settled.
-/

namespace Interpolation

open Identifier (isContinue)

/-! ## Open attempts -/

namespace Quote

/-- Whether the body comes to the end of the text before a delimiter closes it or a line break cuts it off. -/
def isOpenBody (q : Quote) : Text → Bool
  | [] => true
  | c :: s =>
    if (c :: s).take q.delimiter.length = q.delimiter then false
    else if c = '\\' then
      match s with
      | [] => true
      | _ :: s => q.isOpenBody s
    else if !q.triple && isBreak c then false
    else q.isOpenBody s

/-- Whether an attempt at a quoted text comes to the end of the text, be it within the opening delimiter. -/
def isOpen (q : Quote) (s : Text) : Bool :=
  if s.take q.delimiter.length = q.delimiter then q.isOpenBody (s.drop q.delimiter.length)
  else s.isPrefixOf q.delimiter

end Quote

namespace Literal

/-- Whether an attempt at a literal comes to the end of the text. -/
def isOpen (s : Text) : Bool := Quote.all.any fun q => q.isOpen ((lead s).getD ([], s)).2

/-- The characters that a literal can start with. -/
def firsts : Text := "rbufRBUF'\"".toList

@[inherit_doc firsts]
def isFirst (c : Char) : Bool := isLetter c || c = '\'' || c = '"'

end Literal

namespace Text

/-- Whether no attempt at a literal, made at one of the tokens of the text, comes to the end of the text. -/
def isClosed (s : Text) : Bool :=
  match _h : Token.lexeme? (Trivia.split s).2 with
  | none => true
  | some (_, _, rest) => !Literal.isOpen (Trivia.split s).2 && isClosed rest
termination_by s.length
decreasing_by exact Nat.lt_of_lt_of_le (Token.length_lexeme?_lt _h) (Trivia.length_split_le s)

/-- What stands in front of a literal is read without it: no word and no number goes up to the literal, and no attempt
at a literal in front of it is open where it starts. -/
structure Settled (before : Text) : Prop where
  loose : ∀ c ∈ before.getLast?, isContinue c = false
  closed : isClosed before = true

instance (before : Text) : Decidable (Settled before) :=
  decidable_of_iff (before.getLast?.any isContinue = false ∧ isClosed before = true)
    ⟨fun h => ⟨(Option.any_eq_false _ _).1 h.1, h.2⟩, fun h => ⟨(Option.any_eq_false _ _).2 h.loose, h.closed⟩⟩

end Text

/-! ## Characters -/

namespace Identifier

theorem isUpper_iff {c : Char} : c.isUpper = true ↔ 'A'.toNat ≤ c.toNat ∧ c.toNat ≤ 'Z'.toNat := by
  show decide ('A'.val ≤ c.val ∧ c.val ≤ 'Z'.val) = true ↔ _
  rw [decide_eq_true_iff]
  exact Iff.rfl

theorem isLower_iff {c : Char} : c.isLower = true ↔ 'a'.toNat ≤ c.toNat ∧ c.toNat ≤ 'z'.toNat := by
  show (decide ('a'.val ≤ c.val) && decide (c.val ≤ 'z'.val)) = true ↔ _
  rw [Bool.and_eq_true, decide_eq_true_iff, decide_eq_true_iff]
  exact Iff.rfl

theorem isAlphanum_iff {c : Char} :
    c.isAlphanum = true ↔ (c.isUpper = true ∨ c.isLower = true) ∨ c.isDigit = true := by
  show ((c.isUpper || c.isLower) || c.isDigit) = true ↔ _
  rw [Bool.or_eq_true, Bool.or_eq_true]

theorem isContinue_of_isAlphanum {c : Char} (h : c.isAlphanum = true) : isContinue c = true := by
  have hlt : c.toNat < 128 := by
    rw [isAlphanum_iff, isUpper_iff, isLower_iff, Char.isDigit_iff_toNat] at h
    rcases h with (⟨-, h⟩ | ⟨-, h⟩) | ⟨-, h⟩ <;> exact Nat.lt_of_le_of_lt h (by decide)
  simp [isContinue, hlt, h]

/-- A class of characters of words, with the underscore. -/
theorem isContinue_of_or {p : Char → Bool} (hp : ∀ c, p c = true → isContinue c = true) {c : Char}
    (h : (p c || c = '_') = true) : isContinue c = true := by
  simp only [Bool.or_eq_true, decide_eq_true_eq] at h
  rcases h with h | rfl
  · exact hp c h
  · decide

theorem isContinue_of_toLower {c : Char} (h : isContinue c.toLower = true) : isContinue c = true := by
  by_cases hupper : c.isUpper = true
  · exact isContinue_of_isAlphanum (isAlphanum_iff.2 (.inl (.inl hupper)))
  · have hsame : c.toLower = c := dif_neg (mt isUpper_iff.2 hupper)
    rwa [hsame] at h

theorem isContinue_of_isHexDigit {c : Char} (h : Number.isHexDigit c = true) : isContinue c = true := by
  simp only [Number.isHexDigit, Bool.or_eq_true, Bool.and_eq_true, decide_eq_true_eq] at h
  refine isContinue_of_isAlphanum (isAlphanum_iff.2 ?_)
  rcases h with (h | ⟨hfirst, hlast⟩) | ⟨hfirst, hlast⟩
  · exact .inr h
  · exact .inl (.inr (isLower_iff.2 ⟨hfirst, Nat.le_trans hlast (by decide)⟩))
  · exact .inl (.inl (isUpper_iff.2 ⟨hfirst, Nat.le_trans hlast (by decide)⟩))

theorem isContinue_of_isOctalDigit {c : Char} (h : Number.isOctalDigit c = true) : isContinue c = true := by
  simp only [Number.isOctalDigit, Bool.and_eq_true, decide_eq_true_eq] at h
  have hdigit : c.isDigit = true := Char.isDigit_iff_toNat.2 ⟨h.1, Nat.le_trans h.2 (by decide)⟩
  exact isContinue_of_isAlphanum (isAlphanum_iff.2 (.inr hdigit))

theorem isContinue_of_isBinaryDigit {c : Char} (h : Number.isBinaryDigit c = true) : isContinue c = true := by
  simp only [Number.isBinaryDigit, Bool.or_eq_true, decide_eq_true_eq] at h
  rcases h with rfl | rfl <;> decide

end Identifier

namespace Literal

theorem mem_of_isLetter {c : Char} (h : isLetter c = true) : c ∈ "rbufRBUF".toList := by
  simp only [isLetter, decide_eq_true_eq, List.mem_cons, List.not_mem_nil, or_false] at h
  unfold Char.toLower at h
  split at h
  · next hupper =>
    have hle : c.toNat ≤ 90 := hupper.2
    simp [Char.ext_iff, UInt32.ext_iff] at h ⊢
    omega
  · grind

theorem mem_of_isFirst {c : Char} (h : isFirst c = true) : c ∈ firsts := by
  simp only [isFirst, Bool.or_eq_true, decide_eq_true_eq] at h
  rcases h with (h | rfl) | rfl
  · have hletters : ∀ d ∈ "rbufRBUF".toList, d ∈ firsts := by decide
    exact hletters c (mem_of_isLetter h)
  · decide
  · decide

theorem lineBreak_eq_none {c : Char} (hc : isFirst c = true) (v : Text) : lineBreak (c :: v) = none := by
  have hne : ∀ d ∈ firsts, d ≠ '\n' ∧ d ≠ '\r' := by decide
  obtain ⟨hfeed, hreturn⟩ := hne c (mem_of_isFirst hc)
  simp [lineBreak, Recognizer.firstOf, Recognizer.exactly, hfeed, hreturn]

theorem isContinue_of_isLetter {c : Char} (h : isLetter c = true) : isContinue c = true := by
  have hletters : ∀ d ∈ "rbufRBUF".toList, isContinue d = true := by decide
  exact hletters c (mem_of_isLetter h)

end Literal

/-! ## Literals -/

namespace Quote

open Recognizer

variable {q : Quote} {s tail : Text}

/-- A body that is not open has room for the delimiter. -/
theorem length_delimiter_le (h : q.isOpenBody s = false) : q.delimiter.length ≤ s.length := by
  fun_induction isOpenBody q s with
  | case1 => contradiction
  | case2 c s hdelimiter => exact (List.prefix_iff_eq_take.2 hdelimiter.symm).length_le
  | case3 => contradiction
  | case4 _ d s ih =>
    have := ih h
    simp only [List.length_cons]
    omega
  | case5 c s _ _ hcut =>
    have htriple : q.triple = false := by
      rw [Bool.and_eq_true, Bool.not_eq_true'] at hcut
      exact hcut.1
    simp [delimiter, htriple]
  | case6 c s _ _ _ ih =>
    have := ih h
    simp only [List.length_cons]
    omega

theorem ignores_body (hq : q ∈ all) (h : q.isOpenBody s = false) : q.body.Ignores tail s := by
  fun_induction isOpenBody q s with
  | case1 => contradiction
  | case2 c s hdelimiter =>
    have hexactly : exactly q.delimiter (c :: s) = some (q.delimiter, (c :: s).drop q.delimiter.length) := by
      rw [exactly, if_pos hdelimiter]
    have htail : (exactly q.delimiter).Ignores tail (c :: s) :=
      ignores_exactly_of_prefix (.inl (List.prefix_iff_eq_take.2 hdelimiter.symm))
    rw [Ignores, hexactly, Option.map_some] at htail
    rw [Ignores, body_of_exactly htail, body_of_exactly hexactly]
    rfl
  | case3 => contradiction
  | case4 d s hdelimiter ih =>
    have hrest := ih h
    rw [Ignores] at hrest
    rw [Ignores, List.cons_append, List.cons_append, body_escape hq, body_escape hq, hrest]
    cases q.body s <;> rfl
  | case5 c s hdelimiter hescape hcut =>
    obtain ⟨htriple, hbreak⟩ : q.triple = false ∧ isBreak c = true := by simpa using hcut
    rw [Ignores, List.cons_append, body_break hq htriple hbreak, body_break hq htriple hbreak]
    rfl
  | case6 c s hdelimiter hescape hcut ih =>
    have hrest := ih h
    have hbreak : q.triple = true ∨ isBreak c = false := by
      cases htriple : q.triple with
      | true => exact .inl rfl
      | false => exact .inr (by simpa [htriple] using hcut)
    have hdelimiter' : (c :: (s ++ tail)).take q.delimiter.length ≠ q.delimiter := by
      have := length_delimiter_le h
      rw [← List.cons_append, List.take_append_of_le_length (by rw [List.length_cons]; omega)]
      exact hdelimiter
    rw [Ignores] at hrest
    rw [Ignores, List.cons_append, body_plain hdelimiter' hescape hbreak, body_plain hdelimiter hescape hbreak, hrest]
    cases q.body s <;> rfl

theorem ignores_quoted (hq : q ∈ all) (h : q.isOpen s = false) : q.quoted.Ignores tail s := by
  have hexactly : (exactly q.delimiter).Ignores tail s := by
    refine ignores_exactly_of_prefix ?_
    rw [isOpen] at h
    split at h
    · next hdelimiter => exact .inl (List.prefix_iff_eq_take.2 hdelimiter.symm)
    · exact .inr (mt List.isPrefixOf_iff_prefix.2 (Bool.eq_false_iff.1 h))
  refine hexactly.andThen fun t rest ht => ignores_body hq ?_
  obtain ⟨rfl, rfl⟩ := exactly_eq_some_iff.1 ht
  rwa [isOpen, if_pos (List.take_left' rfl), List.drop_left' rfl] at h

end Quote

namespace Literal

open Recognizer

variable {c : Char} {s v : Text}

theorem ignores_literal (hs : s ≠ []) (hloose : ∀ d ∈ s.getLast?, isContinue d = false) (hopen : isOpen s = false) :
    literal.Ignores (c :: v) s := by
  have hlead : lead.Ignores (c :: v) s := by
    refine ignores_firstOf fun a ha => ?_
    obtain ⟨u, hu, rfl⟩ := List.mem_map.1 ha
    refine ignores_caseless fun w heq => ?_
    -- The last character of the text would be a letter.
    have hletter : isLetter (s.getLast hs) = true := by
      have hletters : ∀ u ∈ leads, ∀ d ∈ u, d ∈ ['r', 'b', 'u', 'f'] := by decide
      have hmem : (s.getLast hs).toLower ∈ u := by
        rw [← heq, List.map_append]
        exact List.mem_append_left _ (List.mem_map_of_mem (List.getLast_mem hs))
      simpa [isLetter] using hletters u hu _ hmem
    have hlast := hloose _ (List.getLast?_eq_some_getLast hs)
    rw [isContinue_of_isLetter hletter] at hlast
    contradiction
  refine hlead.optional.andThen fun l s' hl => ignores_firstOf fun a ha => ?_
  obtain ⟨q, hq, rfl⟩ := List.mem_map.1 ha
  refine Quote.ignores_quoted hq ?_
  rw [isOpen, List.any_eq_false] at hopen
  have hq' := hopen q hq
  rw [Recognizer.optional, Option.some.injEq] at hl
  rw [hl] at hq'
  simpa using hq'

end Literal

/-! ## Numbers -/

namespace Number

open Recognizer

variable {c : Char} {s tail v : Text}

/-- What is behind characters of words at the front of a text that does not end with such a character. -/
theorem loose_of_append {t rest : Text} (hloose : ∀ d ∈ s.getLast?, isContinue d = false) (hs : s ≠ [])
    (happend : t ++ rest = s) (ht : ∀ d ∈ t, isContinue d = true) :
    rest ≠ [] ∧ ∀ d ∈ rest.getLast?, isContinue d = false := by
  have hrest : rest ≠ [] := by
    rintro rfl
    rw [List.append_nil] at happend
    subst happend
    have hlast := hloose _ (List.getLast?_eq_some_getLast hs)
    rw [ht _ (List.getLast_mem hs)] at hlast
    contradiction
  refine ⟨hrest, fun d hd => hloose d ?_⟩
  rw [← happend, List.getLast?_append, Option.mem_def.1 hd]
  rfl

theorem ignores_based {letter : Char} {isDigit : Char → Bool} (hletter : isContinue letter = true)
    (hdigit : ∀ d, isDigit d = true → isContinue d = true) (hs : s ≠ [])
    (hloose : ∀ d ∈ s.getLast?, isContinue d = false) : (based letter isDigit).Ignores tail s := by
  have hlow : ∀ d, (isDigit d || d = '_') = true → isContinue d = true := fun d => Identifier.isContinue_of_or hdigit
  -- Each piece is made of characters of words, so that something is left behind it.
  have hbehind {p : Char → Bool} (hp : ∀ d, p d = true → isContinue d = true) {s t rest : Text} (hs : s ≠ [])
      (hloose : ∀ d ∈ s.getLast?, isContinue d = false) (h : one p s = some (t, rest)) :
      rest ≠ [] ∧ ∀ d ∈ rest.getLast?, isContinue d = false := by
    obtain ⟨d, hd, rfl, rfl⟩ := one_eq_some_iff.1 h
    exact loose_of_append (t := [d]) hloose hs rfl (by simpa using hp d hd)
  have hzero : ∀ d, (decide (d = '0')) = true → isContinue d = true := by
    intro d hd
    rw [of_decide_eq_true hd]
    decide
  have heither : ∀ d, (decide (d.toLower = letter)) = true → isContinue d = true := by
    intro d hd
    exact Identifier.isContinue_of_toLower (by rwa [of_decide_eq_true hd])
  refine ((ignores_one hs).andThen fun t rest h => ?_).andThen fun t rest h => ?_
  · exact ignores_one (hbehind hzero hs hloose h).1
  · obtain ⟨u, w, s', hu, hw, -⟩ := andThen_eq_some_iff.1 h
    obtain ⟨hs', hloose'⟩ := hbehind hzero hs hloose hu
    obtain ⟨hrest, hlooseRest⟩ := hbehind heither hs' hloose' hw
    refine (ignores_one hrest).andThen fun t' rest' h' => ignores_many_of_mem ?_
    obtain ⟨hrest', hlooseRest'⟩ := hbehind hlow hrest hlooseRest h'
    refine ⟨_, List.getLast_mem hrest', Bool.eq_false_iff.2 fun hlast => ?_⟩
    have hnot := hlooseRest' _ (List.getLast?_eq_some_getLast hrest')
    rw [hlow _ hlast] at hnot
    exact Bool.noConfusion hnot

/-- A class that no literal starts with. -/
def NotFirst (p : Char → Bool) : Prop := ∀ c ∈ Literal.firsts, p c = false

instance (p : Char → Bool) : Decidable (NotFirst p) := inferInstanceAs (Decidable (∀ c ∈ _, _))

theorem ignores_digits (hc : Literal.isFirst c = true) (s : Text) : digits.Ignores (c :: v) s := by
  have hdigit : NotFirst Char.isDigit := by decide
  have hlow : NotFirst fun c => c.isDigit || c = '_' := by decide
  have hmem := Literal.mem_of_isFirst hc
  exact (ignores_one_of_tail (hdigit c hmem) s).andThen fun _ _ _ => ignores_many_of_tail (hlow c hmem) _

theorem ignores_exponent (hc : Literal.isFirst c = true) (s : Text) : exponent.Ignores (c :: v) s := by
  have hletter : NotFirst fun c => c.toLower = 'e' := by decide
  have hsign : NotFirst fun c => c = '+' || c = '-' := by decide
  have hmem := Literal.mem_of_isFirst hc
  exact ((ignores_one_of_tail (hletter c hmem) s).andThen fun _ _ _ =>
    (ignores_one_of_tail (hsign c hmem) _).optional).andThen fun _ _ _ => ignores_digits hc _

theorem ignores_decimal (hc : Literal.isFirst c = true) (s : Text) : decimal.Ignores (c :: v) s := by
  have hpoint (s : Text) : (one (· = '.')).Ignores (c :: v) s := by
    have hfirst : NotFirst fun c => c = '.' := by decide
    exact ignores_one_of_tail (hfirst c (Literal.mem_of_isFirst hc)) s
  exact (((ignores_digits hc s).andThen fun _ _ _ =>
      ((hpoint _).andThen fun _ _ _ => (ignores_digits hc _).optional).optional).orElse
    ((hpoint s).andThen fun _ _ _ => ignores_digits hc _)).andThen fun _ _ _ => (ignores_exponent hc _).optional

/-- A number is a matter of the text in front of a literal, unless that ends with a character of words. -/
theorem ignores_number (hc : Literal.isFirst c = true) (hs : s ≠ []) (hloose : ∀ d ∈ s.getLast?, isContinue d = false) :
    number.Ignores (c :: v) s := by
  have hj : NotFirst fun c => c.toLower = 'j' := by decide
  have hl : NotFirst fun c => c.toLower = 'l' := by decide
  have hmem := Literal.mem_of_isFirst hc
  refine (ignores_firstOf ?_).andThen fun _ _ _ =>
    ((ignores_one_of_tail (hj c hmem) _).orElse (ignores_one_of_tail (hl c hmem) _)).optional
  simp only [List.forall_mem_cons, List.not_mem_nil, false_implies, implies_true, and_true]
  exact ⟨ignores_based (by decide) (fun _ => Identifier.isContinue_of_isHexDigit) hs hloose,
    ignores_based (by decide) (fun _ => Identifier.isContinue_of_isOctalDigit) hs hloose,
    ignores_based (by decide) (fun _ => Identifier.isContinue_of_isBinaryDigit) hs hloose, ignores_decimal hc s⟩

end Number

/-! ## Tokens -/

namespace Token

open Recognizer

variable {c : Char} {s v : Text}

theorem ignores_word (hs : s ≠ []) (hloose : ∀ d ∈ s.getLast?, isContinue d = false) : word.Ignores (c :: v) s := by
  refine (ignores_one hs).andThen fun t rest h => ignores_many_of_mem ?_
  obtain ⟨d, hd, rfl, rfl⟩ := one_eq_some_iff.1 h
  have hword : isContinue d = true := Identifier.isContinue_of_or Identifier.isContinue_of_isStart hd
  obtain ⟨hrest, hlooseRest⟩ := Number.loose_of_append (t := [d]) hloose hs rfl (by simpa using hword)
  exact ⟨_, List.getLast_mem hrest, hlooseRest _ (List.getLast?_eq_some_getLast hrest)⟩

/-- At each rule the piece is a matter of the text in front of a literal. -/
theorem ignores_rules (hc : Literal.isFirst c = true) (hs : s ≠ []) (hloose : ∀ d ∈ s.getLast?, isContinue d = false)
    (hopen : Literal.isOpen s = false) : ∀ r ∈ rules, r.2.Ignores (c :: v) s := by
  have hmem := Literal.mem_of_isFirst hc
  have hbreak : lineBreak.Ignores (c :: v) s := by
    have hchars : ∀ c ∈ Literal.firsts, c ∉ ['\n'] ∧ c ∉ ['\r', '\n'] ∧ c ∉ ['\r'] := by decide
    obtain ⟨hfeed, hboth, hreturn⟩ := hchars c hmem
    refine ignores_firstOf ?_
    simp only [List.forall_mem_cons, List.not_mem_nil, false_implies, implies_true, and_true]
    exact ⟨ignores_exactly hfeed s, ignores_exactly hboth s, ignores_exactly hreturn s⟩
  have hoperator : (firstOf (operators.map exactly)).Ignores (c :: v) s := by
    have hchars : ∀ op ∈ operators, ∀ c ∈ Literal.firsts, c ∉ op := by decide
    refine ignores_firstOf fun a ha => ?_
    obtain ⟨op, hop, rfl⟩ := List.mem_map.1 ha
    exact ignores_exactly (hchars op hop c hmem) s
  have hword := ignores_word (c := c) (v := v) hs hloose
  simp only [rules, List.forall_mem_cons, List.not_mem_nil, false_implies, implies_true, and_true]
  exact ⟨hbreak, Literal.ignores_literal hs hloose hopen, Number.ignores_number hc hs hloose, hword.restrict _, hword,
    hoperator, ignores_one hs⟩

theorem findSome?_append {rs : List (TokenKind × Recognizer)} {tail : Text} (h : ∀ r ∈ rs, r.2.Ignores tail s) :
    (rs.findSome? fun (kind, rule) => (rule (s ++ tail)).map fun (text, rest) => (kind, text, rest)) =
      (rs.findSome? fun (kind, rule) => (rule s).map fun (text, rest) => (kind, text, rest)).map
        fun (kind, text, rest) => (kind, text, rest ++ tail) := by
  induction rs with
  | nil => rfl
  | cons r rs ih =>
    obtain ⟨kind, rule⟩ := r
    obtain ⟨hr, hrs⟩ := List.forall_mem_cons.1 h
    simp only [Ignores] at hr
    simp only [List.findSome?_cons, hr]
    cases rule s with
    | none => exact ih hrs
    | some p => rfl

/-- A token of a text is a token of the text with a literal behind it, unless the text ends with a character of words or
within an attempt at a literal. -/
theorem lexeme?_append_tail (hc : Literal.isFirst c = true) (hs : s ≠ [])
    (hloose : ∀ d ∈ s.getLast?, isContinue d = false) (hopen : Literal.isOpen s = false) :
    lexeme? (s ++ c :: v) = (lexeme? s).map fun (kind, text, rest) => (kind, text, rest ++ c :: v) :=
  findSome?_append (ignores_rules hc hs hloose hopen)

end Token

/-! ## Trivia -/

namespace Trivia

/-- What follows a backslash that joins no line is no line break. -/
theorem isBreak_head?_eq_false {s : Text} (hreturn : ∀ t, s = '\r' :: t → False) (hfeed : ∀ t, s = '\n' :: t → False) :
    ∀ c ∈ s.head?, isBreak c = false := by
  intro c hc
  obtain ⟨t, rfl⟩ := List.head?_eq_some_iff.1 hc
  have hne : c ≠ '\n' ∧ c ≠ '\r' := ⟨fun heq => hfeed t (heq ▸ rfl), fun heq => hreturn t (heq ▸ rfl)⟩
  simp [isBreak, hne.1, hne.2]

/-- Behind trivia there are no more trivia. -/
theorem split_split (s : Text) : split (split s).2 = ([], (split s).2) := by
  fun_induction split s with
  | case1 => rfl
  | case2 c s hblank ih => exact ih
  | case3 s hblank =>
    cases hrest : ('#' :: s).dropWhile (!isBreak ·) with
    | nil => rfl
    | cons c rest =>
      have hbreak := List.head?_dropWhile_not (!isBreak ·) ('#' :: s)
      rw [hrest] at hbreak
      have hc : isBreak c = true := by simpa using hbreak
      simp only [isBreak, Bool.or_eq_true, decide_eq_true_eq] at hc
      rcases hc with rfl | rfl <;> exact split_eq_self (by decide) (by decide) (by decide) rest
  | case4 s _ _ ih => exact ih
  | case5 s _ _ _ ih => exact ih
  | case6 s _ _ ih => exact ih
  | case7 s _ hreturn hfeed => exact split_backslash (isBreak_head?_eq_false hreturn hfeed)
  | case8 c s hblank hcomment hjoin => exact split_eq_self (by simpa using hblank) hcomment hjoin s

/-- A line that is joined in front of a character that is no line break. -/
theorem split_joined_append {brk s : Text}
    (h : brk = ['\r', '\n'] ∨ brk = ['\n'] ∨ (brk = ['\r'] ∧ s.head? ≠ some '\n')) {c : Char} (hc : isBreak c = false)
    (v : Text) : split ('\\' :: (brk ++ s) ++ c :: v) =
      ('\\' :: (brk ++ (split (s ++ c :: v)).1), (split (s ++ c :: v)).2) := by
  rw [List.cons_append, List.append_assoc]
  refine split_joined (h.imp_right (Or.imp_right (And.imp_right fun hs => ?_)))
  cases s with
  | nil => exact fun heq => absurd hc (by rw [Option.some.inj heq]; decide)
  | cons d s => exact hs

/-- Trivia that end in front of a literal are the same whatever literal it is. -/
theorem split_append_tail {c c' : Char} (hc : Literal.isFirst c = true) (hc' : Literal.isFirst c' = true) {p v : Text}
    (h : (split (p ++ c :: v)).1.length ≤ p.length) (v' : Text) :
    split (p ++ c' :: v') = ((split p).1, (split p).2 ++ c' :: v') := by
  have hnone : ∀ d ∈ Literal.firsts, isBlank d = false ∧ d ≠ '#' ∧ d ≠ '\\' ∧ isBreak d = false := by decide
  obtain ⟨hblank', hcomment', hjoin', hbreak'⟩ := hnone c' (Literal.mem_of_isFirst hc')
  have hbreak := (hnone c (Literal.mem_of_isFirst hc)).2.2.2
  have hjoined (brk : Text) {s : Text} (hbrk : brk = ['\r', '\n'] ∨ brk = ['\n'] ∨ (brk = ['\r'] ∧ s.head? ≠ some '\n'))
      (ih : (split (s ++ c :: v)).1.length ≤ s.length → split (s ++ c' :: v') = ((split s).1, (split s).2 ++ c' :: v'))
      (h : (split ('\\' :: (brk ++ s) ++ c :: v)).1.length ≤ ('\\' :: (brk ++ s)).length) :
      split ('\\' :: (brk ++ s) ++ c' :: v') = ('\\' :: (brk ++ (split s).1), (split s).2 ++ c' :: v') := by
    rw [split_joined_append hbrk hbreak] at h
    rw [split_joined_append hbrk hbreak', ih (by simpa using h)]
  fun_induction split p with
  | case1 => exact split_eq_self hblank' hcomment' hjoin' v'
  | case2 d s hblank ih =>
    rw [List.cons_append, split_blank hblank] at h
    rw [List.cons_append, split_blank hblank, ih (by simpa using h)]
  | case3 s hblank =>
    -- A comment up to the end of the text would go on with the literal.
    have hmem : ∃ d ∈ '#' :: s, (!isBreak d) = false := by
      by_contra hall
      have hall' : ∀ d ∈ '#' :: s, (!isBreak d) = true := by simpa using hall
      rw [List.cons_append, split_comment, ← List.cons_append, List.takeWhile_append_of_pos hall'] at h
      simp only [List.takeWhile_cons, hbreak, Bool.not_false, if_true, List.length_append, List.length_cons] at h
      omega
    have hignored : (Recognizer.many fun d => !isBreak d).Ignores (c' :: v') ('#' :: s) :=
      Recognizer.ignores_many_of_mem hmem
    rw [Recognizer.Ignores, Recognizer.many, Recognizer.many, Option.map_some, Option.some.injEq] at hignored
    rw [List.cons_append, split_comment, ← List.cons_append]
    exact hignored
  | case4 s _ _ ih => exact hjoined ['\r', '\n'] (.inl rfl) ih h
  | case5 s hpair _ _ ih =>
    refine hjoined ['\r'] (.inr (.inr ⟨rfl, fun hs => ?_⟩)) ih h
    obtain ⟨s, rfl⟩ := List.head?_eq_some_iff.1 hs
    exact hpair s rfl
  | case6 s _ _ ih => exact hjoined ['\n'] (.inr (.inl rfl)) ih h
  | case7 s _ hreturn hfeed =>
    refine split_backslash fun d hd => ?_
    cases s with
    | nil => exact Option.some.inj hd ▸ hbreak'
    | cons e s => exact isBreak_head?_eq_false hreturn hfeed d hd
  | case8 d s hblank hcomment hjoin => exact split_eq_self (by simpa using hblank) hcomment hjoin _

end Trivia

/-! ## Reading a settled text -/

namespace Text

open Token (lexeme?)

theorem isClosed_of_lexeme? {s text rest : Text} {kind : TokenKind}
    (h : lexeme? (Trivia.split s).2 = some (kind, text, rest)) :
    isClosed s = (!Literal.isOpen (Trivia.split s).2 && isClosed rest) := by
  rw [isClosed]
  split <;> simp_all

theorem isClosed_split (s : Text) : isClosed (Trivia.split s).2 = isClosed s := by
  rw [isClosed, isClosed, Trivia.split_split]

namespace Settled

variable {p : Text} {c : Char} {v : Text}

/-- What is left behind a part of a settled text, if it is closed. -/
theorem of_append {q : Text} (h : Settled (p ++ q)) (hq : isClosed q = true) : Settled q := by
  refine ⟨fun d hd => h.loose d ?_, hq⟩
  rw [List.getLast?_append, Option.mem_def.1 hd]
  rfl

/-- Trivia of a settled text are the same whatever literal stands behind it. -/
theorem trivia (h : Settled p) (hc : Literal.isFirst c = true) {z r : Text}
    (hsplit : Trivia.split (p ++ c :: v) = (z, r)) (hle : z.length ≤ p.length) :
    ∃ q, p = z ++ q ∧ r = q ++ c :: v ∧ Settled q ∧ Trivia.split q = ([], q) ∧
      ∀ c' v', Literal.isFirst c' = true → Trivia.split (p ++ c' :: v') = (z, q ++ c' :: v') := by
  have htail {c' : Char} {v' : Text} (hc' : Literal.isFirst c' = true) :=
    Trivia.split_append_tail hc hc' (by rwa [hsplit] : (Trivia.split (p ++ c :: v)).1.length ≤ p.length) v'
  obtain ⟨rfl, rfl⟩ := Prod.mk.inj (hsplit.symm.trans (htail hc))
  have happend := Trivia.split_append p
  refine ⟨(Trivia.split p).2, happend.symm, rfl, ?_, Trivia.split_split p, fun c' v' hc' => htail hc'⟩
  exact of_append (by rwa [happend]) (by rw [isClosed_split, h.closed])

/-- A token of a settled text is the same whatever literal stands behind it, and what is left of the text is settled. -/
theorem lexeme {q text rest : Text} {kind : TokenKind} (h : Settled q) (hq : Trivia.split q = ([], q)) (hne : q ≠ [])
    (hc : Literal.isFirst c = true) (hread : lexeme? (q ++ c :: v) = some (kind, text, rest)) :
    ∃ w, q = text ++ w ∧ rest = w ++ c :: v ∧ Settled w ∧
      ∀ c' v', Literal.isFirst c' = true → lexeme? (q ++ c' :: v') = some (kind, text, w ++ c' :: v') := by
  have hsome : lexeme? (Trivia.split q).2 ≠ none := by
    rw [hq]
    exact mt Token.lexeme?_eq_none_iff.1 hne
  obtain ⟨⟨kind', text', w⟩, hw⟩ := Option.ne_none_iff_exists'.1 hsome
  have hclosed := h.closed
  rw [isClosed_of_lexeme? hw, Bool.and_eq_true, Bool.not_eq_true', hq] at hclosed
  have htail {c' : Char} {v' : Text} (hc' : Literal.isFirst c' = true) :=
    Token.lexeme?_append_tail (v := v') hc' hne h.loose hclosed.1
  rw [hq] at hw
  rw [htail hc, hw] at hread
  simp only [Option.map_some, Option.some.injEq, Prod.mk.injEq] at hread
  obtain ⟨rfl, rfl, rfl⟩ := hread
  have happend := Token.lexeme?_append hw
  refine ⟨w, happend.symm, rfl, of_append (by rwa [happend]) hclosed.2, fun c' v' hc' => ?_⟩
  rw [htail hc', hw]
  rfl

end Settled

end Text

end Interpolation

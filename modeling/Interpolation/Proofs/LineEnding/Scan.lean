import Interpolation.Proofs.Bracketed.Reading
import Interpolation.Proofs.LineEnding.Text
import Interpolation.Proofs.Token.Literal

/-!
# Scanning with either line ending

* `Literal.isTriple` — whether three marks stand at either end of a literal;
* `Token.isJoined` — whether a string between single marks goes over several lines;
* `Token.scan_withReturns` — a text without such strings has the same tokens with returns as without.

A backslash takes one character along, so that in a string between single marks it joins two lines with a line feed
between them, but not two lines with a return and a line feed between them.
-/

namespace Interpolation

/-- Whether a literal stands between three marks. -/
def Literal.isTriple (literal : Text) : Bool :=
  let marked := literal.dropWhile fun c => c ≠ '\'' && c ≠ '"'
  marked.take 3 = ['\'', '\'', '\''] || marked.take 3 = ['"', '"', '"']

/-- Whether a token is a string between single marks that goes over more than one line. -/
def Token.isJoined (t : Token) : Bool := t.kind = .string && '\n' ∈ t.text && !Literal.isTriple t.text

namespace Quote

open Recognizer

variable {q : Quote}

theorem commutes_delimiter (hq : q ∈ all) : Commutes (exactly q.delimiter) := by
  refine commutes_exactly ?_ ?_
  · revert q
    decide
  · revert q
    decide

theorem not_delimiter_of_withReturns (hq : q ∈ all) {s : Text} (h : s.take q.delimiter.length ≠ q.delimiter) :
    s.withReturns.take q.delimiter.length ≠ q.delimiter := by
  have hs := commutes_delimiter hq s
  rw [CommutesAt, exactly, exactly, if_neg h, Option.map_none, ite_eq_right_iff] at hs
  exact fun heq => Option.some_ne_none _ (hs heq)

/-- Between three marks a line break is content like any other character. -/
theorem body_newline (hq : q ∈ all) (htriple : q.triple = true) (s : Text) :
    q.body ('\r' :: '\n' :: s) = (q.body s).map fun (t, rest) => ('\r' :: '\n' :: t, rest) := by
  obtain ⟨-, hfeed, hreturn⟩ := mark_ne hq
  rw [body_plain (take_ne_delimiter hreturn.symm _) (by decide) (.inl htriple),
    body_plain (take_ne_delimiter hfeed.symm _) (by decide) (.inl htriple), Option.map_map]
  rfl

/-- A character behind a backslash is content. A line feed goes on as a return, which the backslash takes along, and a
feed, which is content only between three marks. -/
theorem commutesAt_body_escape (hq : q ∈ all) {d : Char} {s : Text} (hs : CommutesAt q.body s)
    (hjoined : d = '\n' → q.triple = true ∨ q.body s = none) : CommutesAt q.body ('\\' :: d :: s) := by
  rw [CommutesAt] at hs
  rw [CommutesAt, Text.withReturns_cons (by decide), body_escape hq]
  by_cases hd : d = '\n'
  · subst hd
    rw [Text.withReturns_newline, body_escape hq]
    cases htriple : q.triple with
    | true =>
      rw [body_plain (take_ne_delimiter (mark_ne hq).2.1.symm (Text.withReturns s)) (by decide) (.inl htriple), hs]
      cases q.body s <;> simp [addReturns, Text.withReturns_cons]
    | false =>
      have hnone : q.body s = none := (hjoined rfl).resolve_left (by simp [htriple])
      rw [body_break hq htriple (by decide), hnone]
      rfl
  · rw [Text.withReturns_cons hd, body_escape hq, hs]
    cases q.body s <;> simp [addReturns, Text.withReturns_cons, hd]

theorem commutesAt_body_break (hq : q ∈ all) (htriple : q.triple = false) {c : Char} (hc : isBreak c = true) (s : Text) :
    CommutesAt q.body (c :: s) := by
  rw [CommutesAt, body_break hq htriple hc]
  by_cases hfeed : c = '\n'
  · subst hfeed
    rw [Text.withReturns_newline, body_break hq htriple (by decide)]
    rfl
  · rw [Text.withReturns_cons hfeed, body_break hq htriple hc]
    rfl

theorem commutesAt_body_plain (hq : q ∈ all) {c : Char} {s : Text}
    (hdelimiter : (c :: s).take q.delimiter.length ≠ q.delimiter) (hescape : c ≠ '\\')
    (hbreak : q.triple = true ∨ isBreak c = false) (hs : CommutesAt q.body s) : CommutesAt q.body (c :: s) := by
  rw [CommutesAt] at hs
  rw [CommutesAt, body_plain hdelimiter hescape hbreak]
  by_cases hc : c = '\n'
  · subst hc
    have htriple : q.triple = true := hbreak.resolve_right (by decide)
    rw [Text.withReturns_newline, body_newline hq htriple, hs]
    cases q.body s <;> simp [addReturns]
  · have hdelimiter' := not_delimiter_of_withReturns hq hdelimiter
    rw [Text.withReturns_cons hc] at hdelimiter' ⊢
    rw [body_plain hdelimiter' hescape hbreak, hs]
    cases q.body s <;> simp [addReturns, Text.withReturns_cons, hc]

/-- The body is the same with either line ending, but for a line that a backslash joins between single marks. -/
theorem commutesAt_body (hq : q ∈ all) {s : Text}
    (h : q.triple = true ∨ ∀ t rest, q.body s = some (t, rest) → '\n' ∉ t) : CommutesAt q.body s := by
  fun_induction body q s with
  | case1 => rfl
  | case2 c s hdelimiter =>
    have hexactly : exactly q.delimiter (c :: s) = some (q.delimiter, (c :: s).drop q.delimiter.length) := by
      rw [exactly, if_pos hdelimiter]
    have hs := commutes_delimiter hq (c :: s)
    rw [CommutesAt, hexactly, Option.map_some] at hs
    rw [CommutesAt, body_of_exactly hs, body_of_exactly hexactly, Option.map_some]
  | case3 hdelimiter =>
    rw [CommutesAt, Text.withReturns_cons (by decide), Text.withReturns_nil, body.eq_def]
    simp [hdelimiter]
  | case4 d s hdelimiter ih =>
    refine commutesAt_body_escape hq (ih ?_) ?_
    · refine h.imp_right fun h t rest hs hmem => ?_
      exact h _ rest (by rw [hs]; rfl) (List.mem_cons_of_mem _ (List.mem_cons_of_mem _ hmem))
    · rintro rfl
      refine h.imp_right fun h => Option.eq_none_iff_forall_ne_some.2 ?_
      rintro ⟨t, rest⟩ hs
      exact h ('\\' :: '\n' :: t) rest (by rw [hs]; rfl) (by simp)
  | case5 c s hdelimiter hescape hcut =>
    obtain ⟨htriple, hbreak⟩ : q.triple = false ∧ isBreak c = true := by simpa using hcut
    exact commutesAt_body_break hq htriple hbreak s
  | case6 c s hdelimiter hescape hcut ih =>
    have hbreak : q.triple = true ∨ isBreak c = false := by
      cases htriple : q.triple with
      | true => exact .inl rfl
      | false => exact .inr (by simpa [htriple] using hcut)
    refine commutesAt_body_plain hq hdelimiter hescape hbreak (ih ?_)
    refine h.imp_right fun h t rest hs hmem => ?_
    exact h _ rest (by rw [hs]; rfl) (List.mem_cons_of_mem _ hmem)

theorem commutesAt_quoted (hq : q ∈ all) {s : Text}
    (h : q.triple = true ∨ ∀ t rest, q.quoted s = some (t, rest) → '\n' ∉ t) : CommutesAt q.quoted s := by
  refine (commutes_delimiter hq s).andThen fun t rest hdelimiter => commutesAt_body hq ?_
  refine h.imp_right fun hline u rest' hbody hmem => ?_
  exact hline (t ++ u) rest' (andThen_eq_some_iff.2 ⟨t, u, rest, hdelimiter, hbody, rfl⟩) (List.mem_append_right t hmem)

/-- Of the ways to quote that apply, only the one that is chosen matters. -/
theorem commutesAt_firstOf_quoted {qs : List Quote} (hqs : ∀ q ∈ qs, q ∈ all) {s : Text}
    (h : ∀ q ∈ qs, ∀ t rest, q.quoted s = some (t, rest) → firstOf (qs.map quoted) s = some (t, rest) →
      q.triple = true ∨ '\n' ∉ t) : CommutesAt (firstOf (qs.map quoted)) s := by
  induction qs with
  | nil => rfl
  | cons q qs ih =>
    obtain ⟨hq, hqs⟩ := List.forall_mem_cons.1 hqs
    rw [List.map_cons, firstOf_cons] at h ⊢
    cases hs : q.quoted s with
    | some p =>
      have hchosen : (q.quoted.orElse (firstOf (qs.map quoted))) s = some p := by
        rw [orElse, hs, Option.some_or]
      have hcommutes : CommutesAt q.quoted s := by
        refine commutesAt_quoted hq ?_
        rcases h q List.mem_cons_self p.1 p.2 hs hchosen with htriple | hline
        · exact .inl htriple
        · refine .inr fun t rest ht => ?_
          obtain rfl := Option.some.inj (hs.symm.trans ht)
          exact hline
      rw [CommutesAt, hs] at hcommutes
      rw [CommutesAt, hchosen, orElse, hcommutes]
      rfl
    | none =>
      have hcommutes : CommutesAt q.quoted s := commutesAt_quoted hq (.inr fun t rest ht => by simp [hs] at ht)
      refine hcommutes.orElse (ih hqs fun q' hq' t rest ht hchosen => ?_)
      refine h q' (List.mem_cons_of_mem q hq') t rest ht ?_
      rw [orElse, hs, hchosen]
      rfl

end Quote

namespace Literal

open Recognizer

theorem commutes_lead : Commutes lead := by
  refine commutes_firstOf fun a ha => ?_
  obtain ⟨u, hu, rfl⟩ := List.mem_map.1 ha
  have hletters : ∀ u ∈ leads, '\n' ∉ u ∧ '\r' ∉ u := by decide
  exact commutes_caseless (hletters u hu).1 (hletters u hu).2

/-- Leading letters do not matter to the marks of a literal. -/
theorem isTriple_append {l t : Text} (h : ∀ c ∈ l, isLetter c = true) : isTriple (l ++ t) = isTriple t := by
  have hmarks : ∀ c ∈ l, (c ≠ '\'' && c ≠ '"') = true := by
    intro c hc
    obtain ⟨hsingle, hdouble⟩ := ne_mark_of_isLetter (h c hc)
    simp [hsingle, hdouble]
  rw [isTriple, isTriple, List.dropWhile_append_of_pos hmarks]

theorem isTriple_quoted {q : Quote} (hq : q ∈ Quote.all) (htriple : q.triple = false) {s t rest : Text}
    (h : q.quoted s = some (t, rest)) : isTriple t = false := by
  obtain ⟨u, rfl, hmarks⟩ := Quote.exists_of_quoted h
  have hdrop : (q.mark :: u).dropWhile (fun c => c ≠ '\'' && c ≠ '"') = q.mark :: u := by
    rcases Quote.mark_of_mem hq with hmark | hmark <;> simp [hmark]
  rw [isTriple, hdrop, Bool.or_eq_false_iff, decide_eq_false_iff_not, decide_eq_false_iff_not]
  exact ⟨hmarks htriple _, hmarks htriple _⟩

/-- A literal is the same with either line ending, but for one that goes over several lines between single marks. -/
theorem commutesAt_literal {s : Text}
    (h : ∀ t rest, literal s = some (t, rest) → '\n' ∈ t → isTriple t = true) : literal.CommutesAt s := by
  refine (commutes_lead s).optional.andThen fun l s' hlead => ?_
  refine Quote.commutesAt_firstOf_quoted (fun q hq => hq) fun q hq t rest hs hchosen => ?_
  by_contra hnot
  obtain ⟨htriple, hfeed⟩ : q.triple = false ∧ '\n' ∈ t := by simpa using hnot
  have hliteral : literal s = some (l ++ t, rest) := andThen_eq_some_iff.2 ⟨l, t, s', hlead, hchosen, rfl⟩
  have := h (l ++ t) rest hliteral (List.mem_append_right l hfeed)
  rw [isTriple_append (isLetter_of_lead hlead), isTriple_quoted hq htriple hs] at this
  exact Bool.false_ne_true this

end Literal

namespace Token

open Recognizer

theorem commutes_word : Commutes word := (commutes_one (by decide)).andThen (commutes_many (by decide))

theorem commutes_keyword : Commutes (word.restrict (· ∈ keywords)) := by
  refine commutes_word.restrict fun t => ?_
  have hline : ∀ u ∈ keywords, '\n' ∉ u := by decide
  rw [decide_eq_decide]
  constructor
  · intro h
    exact (Text.withReturns_eq_iff (hline _ h)).1 rfl ▸ h
  · intro h
    rwa [Text.withReturns_eq_self (hline _ h)]

theorem commutes_operator : Commutes (firstOf (operators.map exactly)) := by
  refine commutes_firstOf fun a ha => ?_
  obtain ⟨u, hu, rfl⟩ := List.mem_map.1 ha
  have hline : ∀ u ∈ operators, '\n' ∉ u ∧ '\r' ∉ u := by decide
  exact commutes_exactly (hline u hu).1 (hline u hu).2

/-- The kind, the text and the rest with returns. -/
def addReturns (p : TokenKind × Text × Text) : TokenKind × Text × Text := (p.1, p.2.1.withReturns, p.2.2.withReturns)

theorem findSome?_rules {rs : List (TokenKind × Recognizer)} {s : Text} (h : ∀ r ∈ rs, r.2.CommutesAt s) :
    (rs.findSome? fun (kind, rule) => (rule s.withReturns).map fun (text, rest) => (kind, text, rest)) =
      (rs.findSome? fun (kind, rule) => (rule s).map fun (text, rest) => (kind, text, rest)).map addReturns := by
  induction rs with
  | nil => rfl
  | cons r rs ih =>
    obtain ⟨kind, rule⟩ := r
    obtain ⟨hr, hrs⟩ := List.forall_mem_cons.1 h
    simp only [CommutesAt] at hr
    simp only [List.findSome?_cons, hr]
    cases rule s with
    | none => exact ih hrs
    | some p => rfl

/-- The token at the front of a text is the same with either line ending. -/
theorem lexeme?_withReturns {s : Text} (hreturn : '\r' ∉ s)
    (h : ∀ t rest, lexeme? s = some (.string, t, rest) → '\n' ∈ t → Literal.isTriple t = true) :
    lexeme? s.withReturns = (lexeme? s).map addReturns := by
  have hbreak := lineBreak_withReturns hreturn
  cases hs : lineBreak s with
  | some p =>
    rw [CommutesAt, hs] at hbreak
    rw [lexeme?_of_lineBreak hs, lexeme?_of_lineBreak hbreak]
    rfl
  | none =>
    have hliteral : Literal.literal.CommutesAt s := by
      refine Literal.commutesAt_literal fun t rest ht => h t rest ?_
      simp [lexeme?, rules, hs, ht]
    have hunknown : (one fun _ => true).CommutesAt s := by
      cases s with
      | nil => rfl
      | cons c s =>
        have hc : c ≠ '\n' := by
          rintro rfl
          simp [lineBreak, firstOf, exactly] at hs
        rw [CommutesAt, Text.withReturns_cons hc]
        simp [one, Recognizer.addReturns, Text.withReturns_cons hc]
    refine findSome?_rules ?_
    simp only [rules, List.forall_mem_cons, List.not_mem_nil, false_implies, implies_true, and_true]
    exact ⟨hbreak, hliteral, Number.commutes_number s, commutes_keyword s, commutes_word s, commutes_operator s, hunknown⟩

/-- A token with returns in its trivia and its text. -/
def withReturns (t : Token) : Token := ⟨t.kind, t.trivia.withReturns, t.text.withReturns⟩

/-- A text has the same tokens with either line ending, unless a string between single marks goes over several lines. -/
theorem scan_withReturns {s : Text} (hreturn : '\r' ∉ s) (h : ∀ t ∈ scan s, t.isJoined = false) :
    scan s.withReturns = (scan s).map withReturns := by
  fun_induction scan s with
  | case1 s hs =>
    rw [lexeme?_eq_none_iff] at hs
    rw [scan_eq_scanFrom, Trivia.split_withReturns hreturn, hs]
    rfl
  | case2 s kind text rest hs ih =>
    obtain ⟨hfirst, hothers⟩ := List.forall_mem_cons.1 h
    have hbehind : '\r' ∉ (Trivia.split s).2 := fun hmem => hreturn (Trivia.split_append s ▸ List.mem_append_right _ hmem)
    have hrest : '\r' ∉ rest := fun hmem => hbehind (lexeme?_append hs ▸ List.mem_append_right _ hmem)
    have hlexeme := lexeme?_withReturns hbehind fun t rest' ht hfeed => by
      rw [hs] at ht
      simp only [Option.some.injEq, Prod.mk.injEq] at ht
      obtain ⟨rfl, rfl, rfl⟩ := ht
      simpa [isJoined, hfeed] using hfirst
    rw [hs, Option.map_some] at hlexeme
    rw [scan_eq_scanFrom, Trivia.split_withReturns hreturn, scanFrom_of_lexeme? hlexeme, ih hrest hothers]
    rfl

end Token

end Interpolation

import Interpolation.Outcome
import Interpolation.Proofs.Placeholder.Fill
import Interpolation.Proofs.Token.Settled

/-!
# How an interpolated literal is read

An interpolated literal is the format string with the placeholders filled and an `f` in front. The marks and escapes of
the format string are those of the literal, so that it ends where the format string ended. The `f` is a leading letter
where it makes one of `Literal.leads` together with the letters behind it; else the letters are a word of their own.

* `Quote.Body` — the bodies of quoted texts; `Quote.body_eq_some_iff` says that these are what is taken;
* `Quote.Body.filled` — a body is a body when its placeholders are filled;
* `Literal.Interpolated` — the form of a literal with an `f` in front;
* `Literal.spelling` — the tokens that it is read as.
-/

namespace Interpolation

open Identifier (isContinue)

/-! ## Bodies -/

namespace Quote

/-- A body with its closing delimiter. -/
inductive Body (q : Quote) : Text → Prop
  | close : Body q q.delimiter
  | escape {b : Text} (d : Char) (others : Body q b) : Body q ('\\' :: d :: b)
  | plain {c : Char} {b : Text} (escape : c ≠ '\\') (line : q.triple = true ∨ isBreak c = false)
      (inside : ¬ q.delimiter <+: c :: b) (others : Body q b) : Body q (c :: b)

variable {q : Quote} {b b' s t rest : Text} {c : Char}

theorem Body.length_le (h : Body q b) : q.delimiter.length ≤ b.length := by
  induction h with
  | close => exact Nat.le_refl _
  | escape d _ ih => simp only [List.length_cons]; omega
  | plain _ _ _ _ ih => simp only [List.length_cons]; omega

theorem body_eq_some_iff (hq : q ∈ all) : q.body s = some (t, rest) ↔ Body q t ∧ s = t ++ rest := by
  constructor
  · intro h
    refine ⟨?_, (body_splits q s t rest h).symm⟩
    fun_induction body q s generalizing t with
    | case1 => contradiction
    | case2 c s hdelimiter =>
      obtain ⟨rfl, -⟩ := Prod.mk.inj (Option.some.inj h)
      exact .close
    | case3 => contradiction
    | case4 d s _ ih =>
      obtain ⟨⟨t, r⟩, ht, heq⟩ := Option.map_eq_some_iff.1 h
      obtain ⟨rfl, rfl⟩ := Prod.mk.inj heq
      exact .escape d (ih ht)
    | case5 => contradiction
    | case6 c s hdelimiter hescape hcut ih =>
      obtain ⟨⟨t, r⟩, ht, heq⟩ := Option.map_eq_some_iff.1 h
      obtain ⟨rfl, rfl⟩ := Prod.mk.inj heq
      refine .plain hescape ?_ (fun hstarts => hdelimiter ?_) (ih ht)
      · cases htriple : q.triple with
        | true => exact .inl rfl
        | false => exact .inr (by simpa [htriple] using hcut)
      · rw [← body_splits q s t r ht, ← List.cons_append]
        exact (List.prefix_iff_eq_take.1 (hstarts.trans (List.prefix_append _ r))).symm
  · rintro ⟨h, rfl⟩
    induction h with
    | close =>
      exact body_of_exactly (Recognizer.exactly_eq_some_iff.2 ⟨rfl, rfl⟩)
    | escape d _ ih => rw [List.cons_append, List.cons_append, body_escape hq, ih, Option.map_some]
    | @plain c b hescape hline hinside hb ih =>
      have hlength := hb.length_le
      have hdelimiter : (c :: (b ++ rest)).take q.delimiter.length ≠ q.delimiter := by
        rw [← List.cons_append, List.take_append_of_le_length (by rw [List.length_cons]; omega)]
        exact fun htake => hinside (htake ▸ List.take_prefix _ _)
      rw [List.cons_append, body_plain hdelimiter hescape hline, ih, Option.map_some]

/-- A body that is more than its delimiter does not start with the mark between single marks. -/
theorem Body.head_ne (hq : q ∈ all) (h : Body q b) (hb : b ≠ q.delimiter) (hsingle : q.triple = false) :
    b.head? ≠ some q.mark := by
  cases h with
  | close => contradiction
  | escape d _ => simpa using (mark_ne hq).1.symm
  | plain _ _ hinside _ =>
    intro hhead
    obtain rfl := Option.some.inj hhead
    exact hinside (by simp [delimiter, hsingle])

/-- A body ends with the first delimiter in it. -/
theorem Body.eq_of_prefix (hq : q ∈ all) (h : Body q b) (hstarts : q.delimiter <+: b) : b = q.delimiter := by
  cases h with
  | close => rfl
  | escape d _ =>
    obtain ⟨marks, hmarks⟩ := q.exists_delimiter_eq
    rw [hmarks, List.cons_prefix_cons] at hstarts
    exact absurd hstarts.1 (mark_ne hq).1
  | plain _ _ hinside _ => contradiction

/-- A character that means nothing in a body. -/
def isOrdinary (c : Char) : Bool := c ≠ '\\' && c ≠ '\'' && c ≠ '"' && !isBreak c

theorem isOrdinary_of_isContinue (h : isContinue c = true) : isOrdinary c = true := by
  have hne {d : Char} (hd : isContinue d = false) : c ≠ d := by
    rintro rfl
    rw [h] at hd
    contradiction
  simp [isOrdinary, isBreak, hne (d := '\\') (by decide), hne (d := '\'') (by decide), hne (d := '"') (by decide),
    hne (d := '\n') (by decide), hne (d := '\r') (by decide)]

theorem Body.cons (hq : q ∈ all) (hc : isOrdinary c = true) (h : Body q b) : Body q (c :: b) := by
  obtain ⟨⟨⟨hescape, hsingle⟩, hdouble⟩, hbreak⟩ :
      ((c ≠ '\\' ∧ c ≠ '\'') ∧ c ≠ '"') ∧ isBreak c = false := by simpa [isOrdinary] using hc
  refine .plain hescape (.inr hbreak) (fun hstarts => ?_) h
  obtain ⟨marks, hmarks⟩ := q.exists_delimiter_eq
  rw [hmarks, List.cons_prefix_cons] at hstarts
  rcases mark_of_mem hq with hmark | hmark
  · exact hsingle (hstarts.1 ▸ hmark)
  · exact hdouble (hstarts.1 ▸ hmark)

theorem Body.append (hq : q ∈ all) (hs : ∀ c ∈ s, isOrdinary c = true) (h : Body q b) : Body q (s ++ b) := by
  induction s with
  | nil => exact h
  | cons c s ih =>
    rw [List.forall_mem_cons] at hs
    exact (ih hs.2).cons hq hs.1

theorem Body.of_cons (hq : q ∈ all) (hc : isOrdinary c = true) (h : Body q (c :: b)) : Body q b := by
  generalize heq : c :: b = b' at h
  cases h with
  | close =>
    obtain ⟨marks, hmarks⟩ := q.exists_delimiter_eq
    obtain ⟨rfl, -⟩ := List.cons.inj (heq.trans hmarks)
    rcases mark_of_mem hq with hmark | hmark <;> exact absurd hc (by rw [hmark]; decide)
  | escape d others =>
    obtain ⟨rfl, rfl⟩ := List.cons.inj heq
    exact absurd hc (by decide)
  | plain _ _ _ others =>
    obtain ⟨rfl, rfl⟩ := List.cons.inj heq
    exact others

/-- A word in braces is nothing but content. -/
theorem Body.braced (hq : q ∈ all) {a : Text} (ha : ∀ c ∈ a, isContinue c = true) (h : Body q b) :
    Body q (a ++ '\x7d' :: b) :=
  (h.cons hq (by decide)).append hq fun c hc => isOrdinary_of_isContinue (ha c hc)

theorem percent_not_mem_delimiter (hq : q ∈ all) : '%' ∉ q.delimiter ∧ '\x7b' ∉ q.delimiter := by
  revert q
  decide

/-- A body is a body when its placeholders are filled. -/
theorem Body.filled (hq : q ∈ all) (h : Body q b) (hfilled : Filled b b') : Body q b' := by
  have hconversion {d : Char} (hd : Piece.isConversion d = true) : isOrdinary d = true := by
    simp only [Piece.isConversion, Bool.or_eq_true, decide_eq_true_eq] at hd
    rcases hd with (rfl | rfl) | rfl <;> decide
  induction h generalizing b' with
  | close =>
    rw [← List.append_nil q.delimiter] at hfilled
    obtain ⟨_, rfl, hnil⟩ := hfilled.of_append (percent_not_mem_delimiter hq).1
    cases hnil
    rw [List.append_nil]
    exact .close
  | escape d hb ih =>
    obtain ⟨b', rfl, hbehind⟩ := hfilled.of_cons (by decide)
    cases hbehind with
    | plain _ hrest => exact .escape d (ih hrest)
    | hole hd ha hrest =>
      -- The backslash takes the brace along, and the conversion letter goes.
      exact .escape '\x7b' (((ih (.plain _ hrest)).of_cons hq (hconversion hd)).braced hq ha)
  | @plain c b hescape hline hinside hb ih =>
    have hstarts := hfilled.prefix_iff (percent_not_mem_delimiter hq)
    cases hfilled with
    | plain _ hrest => exact .plain hescape hline (mt hstarts.2 hinside) (ih hrest)
    | hole hd ha hrest =>
      exact (((ih (.plain _ hrest)).of_cons hq (hconversion hd)).braced hq ha).cons hq (by decide)

/-! ## Quoted texts -/

theorem quoted_eq_none {d : Char} (h : d ≠ q.mark) : q.quoted (d :: s) = none := by
  have hexactly : Recognizer.exactly q.delimiter (d :: s) = none := by
    rw [Recognizer.exactly, if_neg (take_ne_delimiter h s)]
  rw [quoted, Recognizer.andThen, hexactly]
  rfl

theorem quoted_eq_some (hq : q ∈ all) (h : Body q b) (rest : Text) :
    q.quoted (q.delimiter ++ b ++ rest) = some (q.delimiter ++ b, rest) := by
  refine Recognizer.andThen_eq_some_iff.2 ⟨q.delimiter, b, b ++ rest, ?_, (body_eq_some_iff hq).2 ⟨h, rfl⟩, rfl⟩
  exact Recognizer.exactly_eq_some_iff.2 ⟨rfl, List.append_assoc _ _ _⟩

/-- Between single marks there are not three marks at the front, unless the literal is empty. -/
theorem quoted_triple_eq_none (hb : b.head? ≠ some q.mark) (hne : b ≠ []) (hsingle : q.triple = false) (rest : Text) :
    (⟨q.mark, true⟩ : Quote).quoted (q.delimiter ++ b ++ rest) = none := by
  obtain ⟨d, b, rfl⟩ := List.exists_cons_of_ne_nil hne
  have hd : d ≠ q.mark := by simpa using hb
  have hexactly : Recognizer.exactly (⟨q.mark, true⟩ : Quote).delimiter (q.delimiter ++ d :: b ++ rest) = none := by
    rw [Recognizer.exactly, if_neg]
    simp [delimiter, hsingle, hd]
  rw [quoted, Recognizer.andThen, hexactly]
  rfl

/-- A delimiter and a body that is more than its delimiter are read as a quoted text. -/
theorem firstOf_quoted (hq : q ∈ all) (h : Body q b) (hb : b ≠ q.delimiter) (rest : Text) :
    Recognizer.firstOf (all.map quoted) (q.delimiter ++ b ++ rest) = some (q.delimiter ++ b, rest) := by
  have hsome := quoted_eq_some hq h rest
  have hne : b ≠ [] := by
    rintro rfl
    have := h.length_le
    rw [List.length_nil, Nat.le_zero, List.length_eq_zero_iff] at this
    exact q.delimiter_ne_nil this
  obtain ⟨marks, hmarks⟩ := q.exists_delimiter_eq
  have hother (q' : Quote) (hmark : q'.mark ≠ q.mark) : q'.quoted (q.delimiter ++ b ++ rest) = none := by
    rw [hmarks, List.cons_append, List.cons_append]
    exact quoted_eq_none hmark.symm
  have htriple := fun hsingle => quoted_triple_eq_none (h.head_ne hq hb hsingle) hne hsingle rest
  simp only [all, List.mem_cons, List.not_mem_nil, or_false] at hq
  simp only [Recognizer.firstOf, all, List.map_cons, List.map_nil, List.findSome?_cons, List.findSome?_nil]
  rcases hq with rfl | rfl | rfl | rfl
  · rw [hsome]
  · rw [hother ⟨'\'', true⟩ (by decide), hsome]
  · rw [htriple rfl, hother ⟨'"', true⟩ (by decide), hsome]
  · rw [hother ⟨'\'', true⟩ (by decide), htriple rfl, hother ⟨'\'', false⟩ (by decide), hsome]

end Quote

/-! ## Literals with an `f` in front -/

namespace Literal

open Recognizer
open Token (lexeme? word keywords)

/-- A literal with an `f` in front, and more than nothing between its marks. -/
inductive Interpolated : Text → Prop
  | intro {letters b : Text} {q : Quote} (letter : ∀ c ∈ letters, isLetter c = true) (quote : q ∈ Quote.all)
      (body : q.Body b) (content : b ≠ q.delimiter) : Interpolated ('f' :: letters ++ (q.delimiter ++ b))

/-- The tokens that an interpolated literal is read as, the first with the trivia `z` in front. -/
def spelling (z literal : Text) : List Token :=
  let letters := literal.takeWhile isLetter
  if lead letters = some (letters, []) then [⟨.string, z, literal⟩]
  else [⟨.name, z, letters⟩, ⟨.string, [], literal.dropWhile isLetter⟩]

variable {q : Quote} {s t b letters z : Text} {as : List Text}

theorem percent_not_mem (h : ∀ c ∈ letters, isLetter c = true) : '%' ∉ letters :=
  fun hmem => absurd (h _ hmem) (by decide)

/-- A format string with its placeholders filled and an `f` in front is such a literal. -/
theorem interpolated_of_substitute {rest : Text} (hs : literal (s ++ rest) = some (s, rest))
    (hcount : placeholderCount s ≠ 0) (hwords : ∀ a ∈ as, ∀ c ∈ a, isContinue c = true) (ht : substitute s as = .ok t) :
    Interpolated (markInterpolated t) := by
  obtain ⟨l, u, s', q, hlead, hq, hquoted, rfl⟩ := exists_of_literal hs
  obtain ⟨_, b, s'', hdelimiter, hbody, rfl⟩ := andThen_eq_some_iff.1 hquoted
  obtain ⟨rfl, -⟩ := exactly_eq_some_iff.1 hdelimiter
  obtain ⟨hb, -⟩ := (Quote.body_eq_some_iff hq).1 hbody
  have hletters := isLetter_of_lead hlead
  have hpercent := Quote.percent_not_mem_delimiter hq
  obtain ⟨t, rfl, ht'⟩ := (filled_of_substitute hwords ht).of_append (percent_not_mem hletters)
  obtain ⟨b', rfl, hfilled⟩ := ht'.of_append hpercent.1
  have hcontent : b' ≠ q.delimiter := by
    intro heq
    have hstarts := (hfilled.prefix_iff hpercent).2 (heq ▸ List.prefix_refl _)
    -- With its closing delimiter in front the format string would be empty.
    have hempty : b = q.delimiter := hb.eq_of_prefix hq hstarts
    rw [placeholderCount_append (percent_not_mem hletters), placeholderCount_append hpercent.1, hempty,
      ← List.append_nil q.delimiter, placeholderCount_append hpercent.1] at hcount
    exact hcount rfl
  have hb' := hb.filled hq hfilled
  unfold markInterpolated
  split
  · next hhead =>
    cases l with
    | nil =>
      obtain ⟨marks, hmarks⟩ := q.exists_delimiter_eq
      rw [hmarks] at hhead
      have hmark : q.mark = 'f' := Option.some.inj hhead
      rcases Quote.mark_of_mem hq with h | h <;> exact absurd (h.symm.trans hmark) (by decide)
    | cons c l =>
      obtain rfl : c = 'f' := Option.some.inj hhead
      exact .intro (List.forall_mem_cons.1 hletters).2 hq hb' hcontent
  · exact .intro hletters hq hb' hcontent

/-! ## How it is read -/

theorem lexeme?_of_literal {c : Char} {v rest : Text} (hc : isFirst c = true) (h : literal (c :: v) = some (t, rest)) :
    lexeme? (c :: v) = some (.string, t, rest) := by
  simp [lexeme?, Token.rules, lineBreak_eq_none hc, h]

theorem isFirst_mark (hq : q ∈ Quote.all) : isFirst q.mark = true := by
  revert q
  decide

theorem isLetter_mark (hq : q ∈ Quote.all) : isLetter q.mark = false := by
  revert q
  decide

/-- The letters in front of a mark are the leading letters of a literal, or not, whatever comes behind the mark. -/
theorem lead_append (hq : q ∈ Quote.all) (letters v : Text) :
    lead (letters ++ q.mark :: v) = (lead letters).map fun (t, rest) => (t, rest ++ q.mark :: v) := by
  refine ignores_firstOf fun a ha => ?_
  obtain ⟨u, hu, rfl⟩ := List.mem_map.1 ha
  refine ignores_caseless fun w heq => ?_
  have hmem : q.mark.toLower ∈ u := by
    rw [← heq]
    simp
  revert hmem
  have hnot : ∀ q ∈ Quote.all, ∀ u ∈ leads, q.mark.toLower ∉ u := by decide
  exact hnot q hq u hu

theorem takeWhile_letters (hq : q ∈ Quote.all) (h : ∀ c ∈ letters, isLetter c = true) (v : Text) :
    (letters ++ q.mark :: v).takeWhile isLetter = letters ∧ (letters ++ q.mark :: v).dropWhile isLetter = q.mark :: v := by
  rw [List.takeWhile_append_of_pos h, List.dropWhile_append_of_pos h]
  simp [isLetter_mark hq]

/-- The letters in front of a mark are taken as the leading letters if they can be that. -/
theorem optional_lead_append (hq : q ∈ Quote.all) (h : letters = [] ∨ lead letters = some (letters, [])) (v : Text) :
    lead.optional (letters ++ q.mark :: v) = some (letters, q.mark :: v) := by
  rw [Recognizer.optional, lead_append hq]
  rcases h with rfl | h
  · rfl
  · rw [h]
    rfl

/-- Leading letters and a quoted text, if there is one behind them, are a literal. -/
theorem literal_append {u : Text} {rest : Text} (hq : q ∈ Quote.all) (hlead : letters = [] ∨ lead letters = some (letters, []))
    (hquoted : Recognizer.firstOf (Quote.all.map Quote.quoted) (q.delimiter ++ s) = some (u, rest)) :
    literal (letters ++ (q.delimiter ++ s)) = some (letters ++ u, rest) := by
  obtain ⟨marks, hmarks⟩ := q.exists_delimiter_eq
  have hfront := optional_lead_append hq hlead (marks ++ s)
  rw [← List.cons_append, ← hmarks] at hfront
  exact andThen_eq_some_iff.2 ⟨letters, u, _, hfront, hquoted, rfl⟩

/-- Without leading letters a quoted text is a string. -/
theorem lexeme?_quoted (hq : q ∈ Quote.all) (hb : q.Body b) (hcontent : b ≠ q.delimiter) (rest : Text) :
    lexeme? (q.delimiter ++ b ++ rest) = some (.string, q.delimiter ++ b, rest) := by
  have hquoted := Quote.firstOf_quoted hq hb hcontent rest
  rw [List.append_assoc] at hquoted ⊢
  have hliteral := literal_append hq (.inl rfl) hquoted
  obtain ⟨marks, hmarks⟩ := q.exists_delimiter_eq
  rw [hmarks] at hliteral ⊢
  exact lexeme?_of_literal (isFirst_mark hq) hliteral

/-- With an `f` and letters in front a quoted text is a string if the letters are leading letters. -/
theorem lexeme?_lettered (hq : q ∈ Quote.all) (hb : q.Body b) (hcontent : b ≠ q.delimiter)
    (hlead : lead ('f' :: letters) = some ('f' :: letters, [])) (rest : Text) :
    lexeme? ('f' :: letters ++ (q.delimiter ++ b) ++ rest) =
      some (.string, 'f' :: letters ++ (q.delimiter ++ b), rest) := by
  have hquoted := Quote.firstOf_quoted hq hb hcontent rest
  rw [List.append_assoc] at hquoted
  have hliteral := literal_append hq (.inr hlead) hquoted
  rw [List.append_assoc, List.append_assoc q.delimiter]
  exact lexeme?_of_literal (by decide) hliteral

/-- Letters in front of a mark that are no leading letters start no literal. -/
theorem literal_eq_none (hq : q ∈ Quote.all) (hletters : ∀ c ∈ letters, isLetter c = true) (hne : letters ≠ [])
    (hlead : lead letters ≠ some (letters, [])) (v : Text) : literal (letters ++ q.mark :: v) = none := by
  -- A letter is left behind the leading letters.
  obtain ⟨x, d, y, hxy, hoptional⟩ : ∃ x d y, x ++ d :: y = letters ∧
      lead.optional (letters ++ q.mark :: v) = some (x, d :: y ++ q.mark :: v) := by
    rw [Recognizer.optional, lead_append hq]
    cases hl : lead letters with
    | none =>
      obtain ⟨d, y, rfl⟩ := List.exists_cons_of_ne_nil hne
      exact ⟨[], d, y, rfl, rfl⟩
    | some p =>
      obtain ⟨x, y⟩ := p
      have hsplit := lead_splits letters x y hl
      cases y with
      | nil =>
        rw [List.append_nil] at hsplit
        exact absurd (hsplit ▸ hl) hlead
      | cons d y => exact ⟨x, d, y, hsplit, rfl⟩
  rw [Option.eq_none_iff_forall_ne_some]
  rintro ⟨t, rest⟩ h
  obtain ⟨l, u, s', q', hl, hq', hquoted, -⟩ := exists_of_literal h
  obtain ⟨-, rfl⟩ := Prod.mk.inj (Option.some.inj (hoptional.symm.trans hl))
  have hd := ne_mark_of_isLetter (hletters d (hxy ▸ List.mem_append_right _ List.mem_cons_self))
  have hmark : d ≠ q'.mark := by
    rcases Quote.mark_of_mem hq' with hmark | hmark
    · exact hmark ▸ hd.1
    · exact hmark ▸ hd.2
  rw [List.cons_append, Quote.quoted_eq_none hmark] at hquoted
  contradiction

/-- With an `f` and letters in front that are no leading letters, the letters are a name. -/
theorem lexeme?_name (hq : q ∈ Quote.all) (hletters : ∀ c ∈ letters, isLetter c = true)
    (hlead : lead ('f' :: letters) ≠ some ('f' :: letters, [])) (v : Text) :
    lexeme? ('f' :: letters ++ q.mark :: v) = some (.name, 'f' :: letters, q.mark :: v) := by
  have hall : ∀ c ∈ 'f' :: letters, isLetter c = true := List.forall_mem_cons.2 ⟨by decide, hletters⟩
  have hword : word ('f' :: letters ++ q.mark :: v) = some ('f' :: letters, q.mark :: v) := by
    have hmark : isContinue q.mark = false := by
      revert q
      decide
    have hcontinue : ∀ c ∈ letters, isContinue c = true := fun c hc => isContinue_of_isLetter (hletters c hc)
    refine andThen_eq_some_iff.2 ⟨['f'], letters, letters ++ q.mark :: v,
      one_eq_some_iff.2 ⟨'f', by decide, rfl, rfl⟩, ?_, rfl⟩
    rw [many, List.takeWhile_append_of_pos hcontinue, List.dropWhile_append_of_pos hcontinue]
    simp [hmark]
  have hkeyword : (word.restrict (· ∈ keywords)) ('f' :: letters ++ q.mark :: v) = none := by
    have hnot : ∀ k ∈ keywords, k.all isLetter = false := by decide
    have hmem : 'f' :: letters ∉ keywords := fun hmem => by
      have := hnot _ hmem
      rw [List.all_eq_true.2 hall] at this
      contradiction
    rw [restrict, hword, Option.filter_some, if_neg (by simpa using hmem)]
  have hbreak : lineBreak ('f' :: letters ++ q.mark :: v) = none := lineBreak_eq_none (by decide) _
  have hnumber : Number.number ('f' :: letters ++ q.mark :: v) = none := rfl
  have hliteral := literal_eq_none hq hall (List.cons_ne_nil _ _) hlead v
  simp only [lexeme?, Token.rules, List.findSome?_cons, hbreak, hliteral, hnumber, hkeyword, hword, Option.map_none,
    Option.map_some]

/-- The tokens of the spelling of an interpolated literal are those that it is read as. -/
theorem Interpolated.reads (h : Interpolated t) (z : Text) :
    (spelling z t = [⟨.string, z, t⟩] ∧ ∀ rest, lexeme? (t ++ rest) = some (.string, t, rest)) ∨
      ∃ letters mark quoted, spelling z t = [⟨.name, z, letters⟩, ⟨.string, [], mark :: quoted⟩] ∧
        t = letters ++ mark :: quoted ∧ isLetter mark = false ∧ isFirst mark = true ∧ '%' ∉ letters ∧
        ∀ rest, lexeme? (t ++ rest) = some (.name, letters, mark :: quoted ++ rest) ∧
          lexeme? (mark :: quoted ++ rest) = some (.string, mark :: quoted, rest) := by
  obtain @⟨l, b, q, hletters, hq, hb, hcontent⟩ := h
  have hall : ∀ c ∈ 'f' :: l, isLetter c = true := List.forall_mem_cons.2 ⟨by decide, hletters⟩
  obtain ⟨marks, hmarks⟩ := q.exists_delimiter_eq
  have hfront : q.delimiter ++ b = q.mark :: (marks ++ b) := by rw [hmarks, List.cons_append]
  obtain ⟨htake, hdrop⟩ := takeWhile_letters hq hall (marks ++ b)
  by_cases hlead : lead ('f' :: l) = some ('f' :: l, [])
  · refine .inl ⟨?_, fun rest => lexeme?_lettered hq hb hcontent hlead rest⟩
    rw [spelling, hfront, htake, if_pos hlead]
  · refine .inr ⟨'f' :: l, q.mark, marks ++ b, ?_, ?_, ?_, isFirst_mark hq, percent_not_mem hall, fun rest => ⟨?_, ?_⟩⟩
    · rw [spelling, hfront, htake, hdrop, if_neg hlead]
    · rw [hfront]
    · exact isLetter_mark hq
    · have hname := lexeme?_name hq hletters hlead (marks ++ b ++ rest)
      rw [hmarks]
      simpa using hname
    · have hquoted := lexeme?_quoted hq hb hcontent rest
      rwa [hmarks, List.cons_append] at hquoted

end Literal

end Interpolation

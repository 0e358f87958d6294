import Interpolation.Proofs.Placeholder.Places
import Interpolation.Proofs.Rewriting.Letters

/-!
# Filling the placeholders keeps the form of a literal

A literal that is read as a whole has letters in front, and its content stands between two delimiters. Words in braces
bring neither a backslash nor a quotation mark nor a line break along, so that what closes the literal stays what closes
it. Where a backslash takes the percent sign of a placeholder along, it takes the brace then.

* `Quote.Body.eq_of_prefix_body` — no body is the start of another: what closes it stands at its end and no earlier;
* `Literal.Form` — the letters, the quotes and the content of a literal; `Literal.literal_eq_self_iff` says that these
  make up the literals that are read as a whole, and `Literal.Form.unique` that they do so in one way;
* `Literal.Form.filled` — the form stays when placeholders are filled;
* `Literal.literal_substitute` — so it does when arguments are substituted.
-/

namespace Interpolation

open Identifier (isContinue)

namespace Quote

variable {q q' : Quote} {b b' : Text}

/-- A body is some content and the closing delimiter. -/
theorem Body.exists_content (h : Body q b) : ∃ content, b = content ++ q.delimiter := by
  induction h with
  | close => exact ⟨[], rfl⟩
  | escape d _ ih =>
    obtain ⟨content, rfl⟩ := ih
    exact ⟨'\\' :: d :: content, rfl⟩
  | @plain c _ _ _ _ _ ih =>
    obtain ⟨content, rfl⟩ := ih
    exact ⟨c :: content, rfl⟩

/-- No body is the start of another. -/
theorem Body.eq_of_prefix_body (hq : q ∈ all) (h : Body q b) (h' : Body q b') (hstarts : b' <+: b) : b' = b := by
  obtain ⟨rest, rfl⟩ := hstarts
  have hwhole : q.body (b' ++ rest) = some (b' ++ rest, []) :=
    (body_eq_some_iff hq).2 ⟨h, (List.append_nil _).symm⟩
  have hstart : q.body (b' ++ rest) = some (b', rest) := (body_eq_some_iff hq).2 ⟨h', rfl⟩
  exact (Prod.mk.inj (Option.some.inj (hstart.symm.trans hwhole))).1

/-- What stands between single marks does not start with three of them. -/
theorem delimiter_append_ne (hq : q ∈ all) (hb : Body q b) (hsingle : q.triple = false) (htriple : q'.triple = true)
    (v : Text) : q.delimiter ++ b ≠ q'.delimiter ++ v := by
  intro heq
  have hopening : q.delimiter = [q.mark] := by rw [delimiter, hsingle, if_neg Bool.false_ne_true]
  have hopening' : q'.delimiter = [q'.mark, q'.mark, q'.mark] := by rw [delimiter, if_pos htriple]
  rw [hopening, hopening', List.cons_append, List.cons_append, List.cons.injEq] at heq
  obtain ⟨hmark, hbehind⟩ := heq
  by_cases hempty : b = q.delimiter
  · rw [hempty, hopening] at hbehind
    simp at hbehind
  · have hhead : b.head? = some q.mark := by
      rw [List.nil_append] at hbehind
      rw [hbehind, hmark]
      rfl
    exact hb.head_ne hq hempty hsingle hhead

/-- Two delimiters are an empty literal. -/
theorem firstOf_quoted_empty (hq : q ∈ all) :
    Recognizer.firstOf (all.map quoted) (q.delimiter ++ q.delimiter) = some (q.delimiter ++ q.delimiter, []) := by
  revert q
  decide

end Quote

namespace Literal

open Token (word)

/-- The parts of a literal that is read as a whole: letters that can lead it, and content between two delimiters. The
second delimiter is the first one behind the opening delimiter that no backslash breaks up. -/
structure Form (t l : Text) (q : Quote) (content : Text) : Prop where
  text : t = l ++ (q.delimiter ++ (content ++ q.delimiter))
  letters : l = [] ∨ l.map Char.toLower ∈ leads
  quote : q ∈ Quote.all
  body : q.Body (content ++ q.delimiter)

variable {t u l l' content content' : Text} {q q' : Quote}

namespace Form

theorem lead_eq (h : Form t l q content) : l = [] ∨ lead l = some (l, []) := h.letters.imp_right lead_eq_some_iff.2

/-- A literal begins with its letters, and its mark stands behind them. -/
theorem exists_optional_lead (h : Form t l q content) : ∃ v, lead.optional t = some (l, q.mark :: v) := by
  obtain ⟨marks, hmarks⟩ := q.exists_delimiter_eq
  rw [h.text, hmarks]
  exact ⟨_, optional_lead_append h.quote h.lead_eq _⟩

/-- A text of this form is read as a whole. -/
theorem literal_eq (h : Form t l q content) : literal t = some (t, []) := by
  have hquoted : Recognizer.firstOf (Quote.all.map Quote.quoted) (q.delimiter ++ (content ++ q.delimiter)) =
      some (q.delimiter ++ (content ++ q.delimiter), []) := by
    by_cases hempty : content = []
    · rw [hempty]
      exact Quote.firstOf_quoted_empty h.quote
    · have hread := Quote.firstOf_quoted h.quote h.body (by simpa using hempty) []
      rwa [List.append_nil] at hread
  rw [h.text]
  exact literal_append h.quote h.lead_eq hquoted

/-- A literal is of one form only. -/
theorem unique (h : Form t l q content) (h' : Form t l' q' content') : l' = l ∧ q' = q ∧ content' = content := by
  obtain ⟨v, hlead⟩ := h.exists_optional_lead
  obtain ⟨v', hlead'⟩ := h'.exists_optional_lead
  obtain ⟨rfl, hmark⟩ := Prod.mk.inj (Option.some.inj (hlead'.symm.trans hlead))
  have hbehind : q.delimiter ++ (content ++ q.delimiter) = q'.delimiter ++ (content' ++ q'.delimiter) :=
    List.append_cancel_left (h.text.symm.trans h'.text)
  have htriple : q'.triple = q.triple := by
    cases hq : q.triple <;> cases hq' : q'.triple
    · rfl
    · exact absurd hbehind (Quote.delimiter_append_ne h.quote h.body hq hq' _)
    · exact absurd hbehind.symm (Quote.delimiter_append_ne h'.quote h'.body hq' hq _)
    · rfl
  obtain rfl : q' = q := by
    cases q
    cases q'
    exact congrArg₂ Quote.mk (List.cons.inj hmark).1 htriple
  exact ⟨rfl, rfl, (List.append_cancel_right (List.append_cancel_left hbehind)).symm⟩

/-- The form of a literal stays when its placeholders are filled. -/
theorem filled (h : Form t l q content) (hfilled : Filled t u) : ∃ content', Form u l q content' := by
  obtain ⟨_, hlead⟩ := h.exists_optional_lead
  have hletters : '%' ∉ l := percent_not_mem (isLetter_of_lead hlead)
  rw [h.text] at hfilled
  obtain ⟨v, rfl, hv⟩ := hfilled.of_append hletters
  obtain ⟨b, rfl, hb⟩ := hv.of_append (Quote.percent_not_mem_delimiter h.quote).1
  have hbody : q.Body b := h.body.filled h.quote hb
  obtain ⟨content', rfl⟩ := hbody.exists_content
  exact ⟨content', rfl, h.letters, h.quote, hbody⟩

end Form

/-- The literals that are read as a whole are those of such a form. -/
theorem literal_eq_self_iff : literal t = some (t, []) ↔ ∃ l q content, Form t l q content := by
  constructor
  · intro h
    obtain ⟨l, u, s, q, hlead, hq, hquoted, rfl⟩ := exists_of_literal h
    obtain ⟨_, b, s', hdelimiter, hbody, rfl⟩ := Recognizer.andThen_eq_some_iff.1 hquoted
    obtain ⟨rfl, -⟩ := Recognizer.exactly_eq_some_iff.1 hdelimiter
    obtain ⟨hb, -⟩ := (Quote.body_eq_some_iff hq).1 hbody
    obtain ⟨content, rfl⟩ := hb.exists_content
    exact ⟨l, q, content, rfl, mem_leads_of_lead hlead, hq, hb⟩
  · rintro ⟨l, q, content, h⟩
    exact h.literal_eq

/-- Words substituted for the placeholders of a literal make a literal that is read as a whole. Its letters and its
quotes are the same, and no other letters and quotes make it up; its closing delimiter stands at its end and no earlier. -/
theorem literal_substitute {names : List Text} (ht : literal t = some (t, []))
    (hnames : ∀ a ∈ names, word a = some (a, [])) (hlength : names.length = (placeholders t).length) :
    ∃ u l q content content', substitute t names = .ok u ∧ literal u = some (u, []) ∧
      Form t l q content ∧ Form u l q content' ∧
      (∀ l' q' others, Form u l' q' others → l' = l ∧ q' = q) ∧
      ∀ b, q.Body b → b <+: content' ++ q.delimiter → b = content' ++ q.delimiter := by
  obtain ⟨l, q, content, hform⟩ := literal_eq_self_iff.1 ht
  rw [length_placeholders] at hlength
  obtain ⟨u, hu⟩ := exists_substitute_eq_ok hlength.symm
  have hwords : ∀ a ∈ names, ∀ c ∈ a, isContinue c = true := fun a ha => Token.isContinue_of_word (hnames a ha)
  obtain ⟨content', hform'⟩ := hform.filled (filled_of_substitute hwords hu)
  refine ⟨u, l, q, content, content', hu, hform'.literal_eq, hform, hform', ?_, ?_⟩
  · intro l' q' others h
    obtain ⟨hl, hq, -⟩ := hform'.unique h
    exact ⟨hl, hq⟩
  · intro b hb hstarts
    exact hform'.body.eq_of_prefix_body hform'.quote hb hstarts

/-- Behind a backslash, next to quotation marks and to each other, between triple marks. -/
theorem literal_substitute_triple :
    let t : Text := "Rb'''\\%s''%d%f'\\''''".toList
    let names : List Text := ["x".toList, "ñ".toList, "if".toList]
    literal t = some (t, []) ∧ (∀ a ∈ names, word a = some (a, [])) ∧ names.length = (placeholders t).length ∧
    ∃ u l q content content', substitute t names = .ok u ∧ literal u = some (u, []) ∧
      Form t l q content ∧ Form u l q content' ∧ u = "Rb'''\\\x7bx\x7d''\x7bñ\x7d\x7bif\x7d'\\''''".toList := by
  intro t names
  have ht : literal t = some (t, []) := by decide +kernel
  have hnames : ∀ a ∈ names, word a = some (a, []) := by decide +kernel
  have hlength : names.length = (placeholders t).length := by decide +kernel
  have hvalue : substitute t names = .ok "Rb'''\\\x7bx\x7d''\x7bñ\x7d\x7bif\x7d'\\''''".toList := by decide +kernel
  obtain ⟨u, l, q, content, content', hu, hliteral, hform, hform', -, -⟩ := literal_substitute ht hnames hlength
  exact ⟨ht, hnames, hlength, u, l, q, content, content', hu, hliteral, hform, hform', Except.ok.inj (hu.symm.trans hvalue)⟩

end Literal

end Interpolation

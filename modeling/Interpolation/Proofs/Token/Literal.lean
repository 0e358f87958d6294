import Interpolation.Token.Literal
import Interpolation.Proofs.Text.Recognizer

/-!
# The form of a literal

* `Quote.body_of_exactly` — the closing delimiter ends the body;
* `Quote.body_escape`, `Quote.body_plain`, `Quote.body_break` — a backslash takes the next character along, a plain
  character goes into the body, and a line break cuts the body off between single marks;
* `Literal.exists_of_literal` — a literal is made of leading letters, a delimiter and a body.
-/

namespace Interpolation

namespace Quote

variable {q : Quote}

theorem mark_of_mem (hq : q ∈ all) : q.mark = '\'' ∨ q.mark = '"' := by
  revert q
  decide

/-- No quotation mark is a backslash or a line break. -/
theorem mark_ne (hq : q ∈ all) : q.mark ≠ '\\' ∧ q.mark ≠ '\n' ∧ q.mark ≠ '\r' := by
  revert q
  decide

theorem exists_delimiter_eq (q : Quote) : ∃ marks, q.delimiter = q.mark :: marks := by
  unfold delimiter
  split <;> exact ⟨_, rfl⟩

/-- The delimiter at the front ends the body. -/
theorem body_of_exactly {s : Text} {p : Text × Text} (h : Recognizer.exactly q.delimiter s = some p) :
    q.body s = some p := by
  simp only [Recognizer.exactly, Option.ite_none_right_eq_some] at h
  obtain ⟨htake, hp⟩ := h
  obtain ⟨marks, hmarks⟩ := q.exists_delimiter_eq
  cases s with
  | nil => simp [hmarks] at htake
  | cons c s => rw [body.eq_def]; simp only [if_pos htake, hp]

theorem take_ne_delimiter {c : Char} (h : c ≠ q.mark) (s : Text) :
    (c :: s).take q.delimiter.length ≠ q.delimiter := by
  obtain ⟨marks, hmarks⟩ := q.exists_delimiter_eq
  rw [hmarks, List.length_cons, List.take_succ_cons]
  exact fun heq => h (List.cons.inj heq).1

theorem body_escape (hq : q ∈ all) (d : Char) (s : Text) :
    q.body ('\\' :: d :: s) = (q.body s).map fun (t, rest) => ('\\' :: d :: t, rest) := by
  rw [body.eq_def]
  simp only [if_neg (take_ne_delimiter (mark_ne hq).1.symm (d :: s)), if_true]

theorem body_plain {c : Char} {s : Text} (hdelimiter : (c :: s).take q.delimiter.length ≠ q.delimiter)
    (hescape : c ≠ '\\') (hbreak : q.triple = true ∨ isBreak c = false) :
    q.body (c :: s) = (q.body s).map fun (t, rest) => (c :: t, rest) := by
  have hcut : (!q.triple && isBreak c) = false := by
    rcases hbreak with h | h <;> simp [h]
  rw [body.eq_def]
  simp only [if_neg hdelimiter, if_neg hescape, hcut, if_neg Bool.false_ne_true]

theorem body_break (hq : q ∈ all) {c : Char} (htriple : q.triple = false) (hbreak : isBreak c = true) (s : Text) :
    q.body (c :: s) = none := by
  have hc : c = '\n' ∨ c = '\r' := by simpa [isBreak] using hbreak
  obtain ⟨-, hfeed, hreturn⟩ := mark_ne hq
  have hmark : c ≠ q.mark := by
    rcases hc with rfl | rfl
    · exact hfeed.symm
    · exact hreturn.symm
  have hescape : c ≠ '\\' := by rcases hc with rfl | rfl <;> decide
  rw [body.eq_def]
  simp only [if_neg (take_ne_delimiter hmark s), if_neg hescape, htriple, hbreak, Bool.not_false, Bool.and_self, if_pos]

/-- A literal begins with its mark; between single marks it does not begin with three of them. -/
theorem exists_of_quoted {s t rest : Text} (h : q.quoted s = some (t, rest)) :
    ∃ u, t = q.mark :: u ∧ (q.triple = false → ∀ mark, t.take 3 ≠ [mark, mark, mark]) := by
  obtain ⟨_, u, s', hdelimiter, hbody, rfl⟩ := Recognizer.andThen_eq_some_iff.1 h
  obtain ⟨rfl, -⟩ := Recognizer.exactly_eq_some_iff.1 hdelimiter
  obtain ⟨marks, hmarks⟩ := q.exists_delimiter_eq
  refine ⟨marks ++ u, by rw [hmarks, List.cons_append], fun htriple mark heq => ?_⟩
  have hdelimiter : q.delimiter = [q.mark] := by rw [delimiter, htriple, if_neg Bool.false_ne_true]
  rw [hdelimiter, List.singleton_append, List.take_succ_cons, List.cons.injEq] at heq
  obtain ⟨rfl, heq⟩ := heq
  have hsplit := body_splits q s' u rest hbody
  cases u with
  | nil => simp at heq
  | cons c u =>
    -- A mark right behind the opening one closes the literal.
    rw [List.take_succ_cons, List.cons.injEq] at heq
    have hclose : Recognizer.exactly q.delimiter s' = some ([q.mark], u ++ rest) := by
      rw [Recognizer.exactly_eq_some_iff, hdelimiter, ← hsplit, heq.1]
      exact ⟨rfl, rfl⟩
    rw [body_of_exactly hclose, Option.some.injEq, Prod.mk.injEq, List.cons.injEq] at hbody
    rw [← hbody.1.2] at heq
    simp at heq

end Quote

namespace Literal

/-- A letter that can stand in front of a literal. -/
def isLetter (c : Char) : Bool := c.toLower ∈ ['r', 'b', 'u', 'f']

theorem ne_mark_of_isLetter {c : Char} (h : isLetter c = true) : c ≠ '\'' ∧ c ≠ '"' := by
  constructor <;> rintro rfl <;> exact absurd h (by decide)

/-- The leading letters are one of the choices, in either case, where there are any. -/
theorem mem_leads_of_lead {s l rest : Text} (h : lead.optional s = some (l, rest)) :
    l = [] ∨ l.map Char.toLower ∈ leads := by
  rw [Recognizer.optional, Option.some.injEq] at h
  cases hlead : lead s with
  | none =>
    rw [hlead, Option.getD_none, Prod.mk.injEq] at h
    exact .inl h.1.symm
  | some p =>
    rw [hlead, Option.getD_some] at h
    subst h
    obtain ⟨a, ha, hs⟩ := List.exists_of_findSome?_eq_some hlead
    obtain ⟨u, hu, rfl⟩ := List.mem_map.1 ha
    obtain ⟨rfl, -⟩ := Recognizer.caseless_eq_some_iff.1 hs
    exact .inr hu

theorem isLetter_of_lead {s l rest : Text} (h : lead.optional s = some (l, rest)) : ∀ c ∈ l, isLetter c = true := by
  have hletters : ∀ u ∈ leads, ∀ d ∈ u, d ∈ ['r', 'b', 'u', 'f'] := by decide
  intro c hc
  rcases mem_leads_of_lead h with rfl | hu
  · cases hc
  · simpa [isLetter] using hletters _ hu _ (List.mem_map_of_mem hc)

/-- A literal is made of leading letters and a quoted text. -/
theorem exists_of_literal {s t rest : Text} (h : literal s = some (t, rest)) :
    ∃ l u s' q, lead.optional s = some (l, s') ∧ q ∈ Quote.all ∧ q.quoted s' = some (u, rest) ∧ t = l ++ u := by
  obtain ⟨l, u, s', hlead, hquoted, rfl⟩ := Recognizer.andThen_eq_some_iff.1 h
  obtain ⟨a, ha, hs⟩ := List.exists_of_findSome?_eq_some hquoted
  obtain ⟨q, hq, rfl⟩ := List.mem_map.1 ha
  exact ⟨l, u, s', q, hlead, hq, hs, rfl⟩

/-- The first character of a literal. -/
theorem head_of_literal {s t rest : Text} (h : literal s = some (t, rest)) :
    ∃ c t', t = c :: t' ∧ (isLetter c = true ∨ c = '\'' ∨ c = '"') := by
  obtain ⟨l, u, s', q, hlead, hq, hquoted, rfl⟩ := exists_of_literal h
  cases l with
  | nil =>
    obtain ⟨u', rfl, -⟩ := Quote.exists_of_quoted hquoted
    exact ⟨q.mark, u', rfl, .inr (Quote.mark_of_mem hq)⟩
  | cons c l => exact ⟨c, l ++ u, rfl, .inl (isLetter_of_lead hlead c List.mem_cons_self)⟩

end Literal

end Interpolation

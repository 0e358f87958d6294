import Interpolation.Text.LineBreak

/-!
# String literals

* `Quote` — the four ways to quote: either quotation mark, standing once or three times;
* `Quote.body` — the content of a literal up to its closing delimiter;
* `Literal.literal` — leading letters, the opening delimiter and the body. Where no closing delimiter of three
  marks follows, the first two of the marks are an empty literal.
-/

namespace Interpolation

/-- The quotation mark of a literal, and whether three of them stand at either end. -/
structure Quote where
  mark : Char
  triple : Bool
  deriving DecidableEq, Repr

namespace Quote

/-- What opens and closes the literal. -/
def delimiter (q : Quote) : Text := if q.triple then [q.mark, q.mark, q.mark] else [q.mark]

/-- The content up to and with the first delimiter. A backslash takes the next character along, whatever it is;
between single marks no other line break can stand. -/
def body (q : Quote) : Recognizer
  | [] => none
  | c :: s =>
    if (c :: s).take q.delimiter.length = q.delimiter then
      some (q.delimiter, (c :: s).drop q.delimiter.length)
    else if c = '\\' then
      match s with
      | [] => none
      | d :: s => (q.body s).map fun (t, rest) => (c :: d :: t, rest)
    else if !q.triple && isBreak c then none
    else (q.body s).map fun (t, rest) => (c :: t, rest)

/-- The literal from its opening to its closing delimiter. -/
def quoted (q : Quote) : Recognizer := (Recognizer.exactly q.delimiter).andThen q.body

/-- All ways to quote. Three marks are tried before one. -/
def all : List Quote := [⟨'\'', true⟩, ⟨'"', true⟩, ⟨'\'', false⟩, ⟨'"', false⟩]

theorem delimiter_ne_nil (q : Quote) : q.delimiter ≠ [] := by
  unfold delimiter
  split <;> simp

theorem body_splits (q : Quote) : q.body.Splits := by
  intro s t rest h
  fun_induction body q s generalizing t with
  | case1 => simp at h
  | case2 c s hd =>
    have := List.take_append_drop q.delimiter.length (c :: s)
    simp only [Option.some.injEq, Prod.mk.injEq] at h
    rwa [hd, h.2, h.1] at this
  | case3 => simp at h
  | case4 d s _ ih =>
    obtain ⟨⟨t, r⟩, hb, hp⟩ := Option.map_eq_some_iff.1 h
    simp only [Prod.mk.injEq] at hp
    obtain ⟨rfl, rfl⟩ := hp
    simp [ih _ hb]
  | case5 => simp at h
  | case6 c s _ _ _ ih =>
    obtain ⟨⟨t, r⟩, hb, hp⟩ := Option.map_eq_some_iff.1 h
    simp only [Prod.mk.injEq] at hp
    obtain ⟨rfl, rfl⟩ := hp
    simp [ih _ hb]

theorem quoted_splits (q : Quote) : q.quoted.Splits := (Recognizer.splits_exactly _).andThen q.body_splits

theorem quoted_consumes (q : Quote) : q.quoted.Consumes := (Recognizer.consumes_exactly q.delimiter_ne_nil).andThen _

end Quote

namespace Literal

/-- The letters that may stand in front of a literal, in lower case. Two letters are tried before one. -/
def leads : List Text := [['r', 'b'], ['b', 'r'], ['f', 'r'], ['r', 'f'], ['r'], ['b'], ['u'], ['f']]

/-- The leading letters, in either case. -/
def lead : Recognizer := .firstOf (leads.map .caseless)

/-- A string literal. -/
def literal : Recognizer := lead.optional.andThen (.firstOf (Quote.all.map Quote.quoted))

theorem lead_splits : lead.Splits := Recognizer.splits_firstOf fun r hr => by
  obtain ⟨t, _, rfl⟩ := List.mem_map.1 hr
  exact Recognizer.splits_caseless t

theorem literal_splits : literal.Splits :=
  lead_splits.optional.andThen (Recognizer.splits_firstOf fun r hr => by
    obtain ⟨q, _, rfl⟩ := List.mem_map.1 hr
    exact q.quoted_splits)

theorem literal_consumes : literal.Consumes :=
  Recognizer.Consumes.after (Recognizer.consumes_firstOf fun r hr => by
    obtain ⟨q, _, rfl⟩ := List.mem_map.1 hr
    exact q.quoted_consumes) _

end Literal

end Interpolation

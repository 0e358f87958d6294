import Interpolation.Text.Basic

/-!
# Recognizers

A recognizer takes a piece off the front of a text. Choices are ordered and a repetition never gives
back what it took, so every recognizer has at most one answer.

* `Recognizer.one`, `many`, `exactly`, `caseless` — the elementary recognizers;
* `Recognizer.andThen`, `orElse`, `firstOf`, `optional`, `restrict` — the ways to combine them;
* `Recognizer.Splits` — the piece and the rest make up the text again. Every recognizer here splits,
  which is what makes the scanner lose nothing;
* `Recognizer.Consumes` — the piece is never empty, which is what makes the scanner end.
-/

namespace Interpolation

/-- The piece that is taken off the front of a text, with the rest of the text, or `none` where the text
does not start with such a piece. -/
abbrev Recognizer := Text → Option (Text × Text)

namespace Recognizer

/-- One character of the class `p`. -/
def one (p : Char → Bool) : Recognizer
  | [] => none
  | c :: s => if p c then some ([c], s) else none

/-- All characters of the class `p` at the front, of which there may be none. -/
def many (p : Char → Bool) : Recognizer := fun s => some (s.takeWhile p, s.dropWhile p)

/-- The text `t` itself. -/
def exactly (t : Text) : Recognizer := fun s => if s.take t.length = t then some (t, s.drop t.length) else none

/-- The text `t`, given in lower case, in any mixture of ASCII cases. -/
def caseless (t : Text) : Recognizer := fun s =>
  if (s.take t.length).map Char.toLower = t then some (s.take t.length, s.drop t.length) else none

/-- First `a`, then `b` on what `a` left. -/
def andThen (a b : Recognizer) : Recognizer := fun s =>
  (a s).bind fun (t, s') => (b s').map fun (u, rest) => (t ++ u, rest)

/-- `a`, or `b` where `a` does not apply. -/
def orElse (a b : Recognizer) : Recognizer := fun s => (a s).or (b s)

/-- The first of the recognizers that applies. -/
def firstOf (rs : List Recognizer) : Recognizer := fun s => rs.findSome? fun r => r s

/-- `a`, or the empty piece where `a` does not apply. -/
def optional (a : Recognizer) : Recognizer := fun s => some ((a s).getD ([], s))

/-- `a`, where the piece that it takes satisfies `p`. -/
def restrict (a : Recognizer) (p : Text → Bool) : Recognizer := fun s => (a s).filter fun (t, _) => p t

/-! ## The piece and the rest make up the text -/

/-- What `a` takes and what it leaves are the text, cut in two. -/
def Splits (a : Recognizer) : Prop := ∀ s t rest, a s = some (t, rest) → t ++ rest = s

theorem splits_one (p : Char → Bool) : Splits (one p) := by
  intro s t rest h
  cases s with
  | nil => simp [one] at h
  | cons c s =>
    simp only [one, Option.ite_none_right_eq_some, Option.some.injEq, Prod.mk.injEq] at h
    obtain ⟨_, rfl, rfl⟩ := h
    rfl

theorem splits_many (p : Char → Bool) : Splits (many p) := by
  intro s t rest h
  simp only [many, Option.some.injEq, Prod.mk.injEq] at h
  obtain ⟨rfl, rfl⟩ := h
  exact List.takeWhile_append_dropWhile

theorem splits_exactly (u : Text) : Splits (exactly u) := by
  intro s t rest h
  simp only [exactly, Option.ite_none_right_eq_some, Option.some.injEq, Prod.mk.injEq] at h
  obtain ⟨hu, rfl, rfl⟩ := h
  have := List.take_append_drop u.length s
  rwa [hu] at this

theorem splits_caseless (u : Text) : Splits (caseless u) := by
  intro s t rest h
  simp only [caseless, Option.ite_none_right_eq_some, Option.some.injEq, Prod.mk.injEq] at h
  obtain ⟨_, rfl, rfl⟩ := h
  exact List.take_append_drop _ _

theorem Splits.andThen {a b : Recognizer} (ha : Splits a) (hb : Splits b) : Splits (a.andThen b) := by
  intro s t rest h
  simp only [Recognizer.andThen, Option.bind_eq_some_iff, Option.map_eq_some_iff] at h
  obtain ⟨⟨t₁, s'⟩, h₁, ⟨t₂, r⟩, h₂, h⟩ := h
  simp only [Prod.mk.injEq] at h
  obtain ⟨rfl, rfl⟩ := h
  rw [List.append_assoc, hb _ _ _ h₂, ha _ _ _ h₁]

theorem Splits.orElse {a b : Recognizer} (ha : Splits a) (hb : Splits b) : Splits (a.orElse b) := by
  intro s t rest h
  simp only [Recognizer.orElse, Option.or_eq_some_iff] at h
  rcases h with h | ⟨_, h⟩
  · exact ha _ _ _ h
  · exact hb _ _ _ h

theorem splits_firstOf {rs : List Recognizer} (h : ∀ r ∈ rs, Splits r) : Splits (firstOf rs) := by
  intro s t rest hs
  obtain ⟨r, hr, hrs⟩ := List.exists_of_findSome?_eq_some hs
  exact h r hr _ _ _ hrs

theorem Splits.optional {a : Recognizer} (ha : Splits a) : Splits a.optional := by
  intro s t rest h
  simp only [Recognizer.optional, Option.some.injEq] at h
  cases hs : a s with
  | none => rw [hs] at h; simp only [Option.getD_none, Prod.mk.injEq] at h; simp [← h.1, ← h.2]
  | some p => rw [hs, Option.getD_some] at h; subst h; exact ha _ _ _ hs

theorem Splits.restrict {a : Recognizer} (ha : Splits a) (p : Text → Bool) : Splits (a.restrict p) := by
  intro s t rest h
  exact ha _ _ _ (Option.eq_some_of_filter_eq_some h)

/-! ## The piece is not empty -/

/-- `a` never takes the empty piece. -/
def Consumes (a : Recognizer) : Prop := ∀ s t rest, a s = some (t, rest) → t ≠ []

theorem consumes_one (p : Char → Bool) : Consumes (one p) := by
  intro s t rest h
  cases s with
  | nil => simp [one] at h
  | cons c s =>
    simp only [one, Option.ite_none_right_eq_some, Option.some.injEq, Prod.mk.injEq] at h
    simp [← h.2.1]

theorem consumes_exactly {u : Text} (hu : u ≠ []) : Consumes (exactly u) := by
  intro s t rest h
  simp only [exactly, Option.ite_none_right_eq_some, Option.some.injEq, Prod.mk.injEq] at h
  exact h.2.1 ▸ hu

theorem Consumes.andThen {a : Recognizer} (ha : Consumes a) (b : Recognizer) : Consumes (a.andThen b) := by
  intro s t rest h
  simp only [Recognizer.andThen, Option.bind_eq_some_iff, Option.map_eq_some_iff] at h
  obtain ⟨⟨t₁, s'⟩, h₁, ⟨t₂, r⟩, _, h⟩ := h
  simp only [Prod.mk.injEq] at h
  have := ha _ _ _ h₁
  simp [← h.1, this]

theorem Consumes.after {b : Recognizer} (hb : Consumes b) (a : Recognizer) : Consumes (a.andThen b) := by
  intro s t rest h
  simp only [Recognizer.andThen, Option.bind_eq_some_iff, Option.map_eq_some_iff] at h
  obtain ⟨⟨t₁, s'⟩, _, ⟨t₂, r⟩, h₂, h⟩ := h
  simp only [Prod.mk.injEq] at h
  have := hb _ _ _ h₂
  simp [← h.1, this]

theorem Consumes.orElse {a b : Recognizer} (ha : Consumes a) (hb : Consumes b) : Consumes (a.orElse b) := by
  intro s t rest h
  simp only [Recognizer.orElse, Option.or_eq_some_iff] at h
  rcases h with h | ⟨_, h⟩
  · exact ha _ _ _ h
  · exact hb _ _ _ h

theorem consumes_firstOf {rs : List Recognizer} (h : ∀ r ∈ rs, Consumes r) : Consumes (firstOf rs) := by
  intro s t rest hs
  obtain ⟨r, hr, hrs⟩ := List.exists_of_findSome?_eq_some hs
  exact h r hr _ _ _ hrs

theorem Consumes.restrict {a : Recognizer} (ha : Consumes a) (p : Text → Bool) : Consumes (a.restrict p) := by
  intro s t rest h
  exact ha _ _ _ (Option.eq_some_of_filter_eq_some h)

end Recognizer

end Interpolation

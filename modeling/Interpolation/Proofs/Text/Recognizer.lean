import Interpolation.Text.Recognizer
import Mathlib.Data.List.TakeWhile
import Mathlib.Tactic.Common

/-!
# What recognizers take

Each elementary recognizer, and each way to combine recognizers, by the pieces that it takes, and by the characters that
no such piece has (`Recognizer.Avoids`).
-/

namespace Interpolation

/-- What holds of the characters of a text is decided one by one, and not for all characters that there are. -/
instance (s : Text) (p : Char → Prop) [DecidablePred p] : Decidable (∀ c ∈ s, p c) := List.decidableBAll p s

namespace Recognizer

variable {a b : Recognizer} {s t rest : Text}

theorem one_eq_some_iff {p : Char → Bool} : one p s = some (t, rest) ↔ ∃ c, p c = true ∧ t = [c] ∧ s = c :: rest := by
  cases s with
  | nil => simp [one]
  | cons d s =>
    simp only [one, Option.ite_none_right_eq_some, Option.some.injEq, Prod.mk.injEq, List.cons.injEq]
    constructor
    · rintro ⟨hd, rfl, rfl⟩
      exact ⟨d, hd, rfl, rfl, rfl⟩
    · rintro ⟨c, hc, rfl, rfl, rfl⟩
      exact ⟨hc, rfl, rfl⟩

theorem exactly_eq_some_iff {u : Text} : exactly u s = some (t, rest) ↔ t = u ∧ s = t ++ rest := by
  simp only [exactly, Option.ite_none_right_eq_some, Option.some.injEq, Prod.mk.injEq]
  constructor
  · rintro ⟨htake, rfl, rfl⟩
    exact ⟨rfl, by rw [← List.take_append_drop u.length s, htake, List.drop_left' rfl]⟩
  · rintro ⟨rfl, rfl⟩
    simp

theorem caseless_eq_some_iff {u : Text} : caseless u s = some (t, rest) ↔ t.map Char.toLower = u ∧ s = t ++ rest := by
  simp only [caseless, Option.ite_none_right_eq_some, Option.some.injEq, Prod.mk.injEq]
  constructor
  · rintro ⟨hlower, rfl, rfl⟩
    exact ⟨hlower, (List.take_append_drop _ _).symm⟩
  · rintro ⟨rfl, rfl⟩
    simp

theorem andThen_eq_some_iff : (a.andThen b) s = some (t, rest) ↔
    ∃ u v s', a s = some (u, s') ∧ b s' = some (v, rest) ∧ t = u ++ v := by
  simp only [andThen, Option.bind_eq_some_iff, Option.map_eq_some_iff, Prod.exists, Prod.mk.injEq]
  constructor
  · rintro ⟨u, s', hu, v, rest', hv, rfl, rfl⟩
    exact ⟨u, v, s', hu, hv, rfl⟩
  · rintro ⟨u, v, s', hu, hv, rfl⟩
    exact ⟨u, s', hu, v, rest, hv, rfl, rfl⟩

theorem firstOf_cons (a : Recognizer) (as : List Recognizer) : firstOf (a :: as) = a.orElse (firstOf as) := by
  funext s
  rw [firstOf, orElse, List.findSome?_cons]
  cases a s <;> rfl

/-! ## Characters that are never taken -/

/-- No piece that `a` takes has a character of `cs`. -/
def Avoids (a : Recognizer) (cs : Text) : Prop := ∀ s t rest, a s = some (t, rest) → ∀ c ∈ cs, c ∉ t

variable {cs : Text}

theorem avoids_one {p : Char → Bool} (h : ∀ c ∈ cs, p c = false) : (one p).Avoids cs := by
  intro s t rest hs c hc hmem
  obtain ⟨d, hd, rfl, -⟩ := one_eq_some_iff.1 hs
  obtain rfl := List.mem_singleton.1 hmem
  simp [h c hc] at hd

theorem avoids_many {p : Char → Bool} (h : ∀ c ∈ cs, p c = false) : (many p).Avoids cs := by
  intro s t rest hs c hc hmem
  obtain ⟨rfl, -⟩ := Prod.mk.inj (Option.some.inj hs)
  simpa [h c hc] using List.mem_takeWhile_imp hmem

theorem avoids_exactly {u : Text} (h : ∀ c ∈ cs, c ∉ u) : (exactly u).Avoids cs := by
  intro s t rest hs
  obtain ⟨rfl, -⟩ := exactly_eq_some_iff.1 hs
  exact h

theorem Avoids.andThen (ha : a.Avoids cs) (hb : b.Avoids cs) : (a.andThen b).Avoids cs := by
  intro s t rest hs c hc hmem
  obtain ⟨u, v, s', hu, hv, rfl⟩ := andThen_eq_some_iff.1 hs
  exact (List.mem_append.1 hmem).elim (ha _ _ _ hu c hc) (hb _ _ _ hv c hc)

theorem Avoids.orElse (ha : a.Avoids cs) (hb : b.Avoids cs) : (a.orElse b).Avoids cs := by
  intro s t rest hs
  rcases Option.or_eq_some_iff.1 hs with h | ⟨-, h⟩
  · exact ha _ _ _ h
  · exact hb _ _ _ h

theorem Avoids.optional (ha : a.Avoids cs) : a.optional.Avoids cs := by
  intro s t rest hs
  rw [Recognizer.optional, Option.some.injEq] at hs
  cases h : a s with
  | none =>
    rw [h, Option.getD_none] at hs
    simp [← (Prod.mk.inj hs).1]
  | some p =>
    rw [h, Option.getD_some] at hs
    exact ha s t rest (by rw [h, hs])

theorem avoids_firstOf {rs : List Recognizer} (h : ∀ r ∈ rs, r.Avoids cs) : (firstOf rs).Avoids cs := by
  intro s t rest hs
  obtain ⟨r, hr, hrs⟩ := List.exists_of_findSome?_eq_some hs
  exact h r hr _ _ _ hrs

theorem Avoids.restrict (ha : a.Avoids cs) (p : Text → Bool) : (a.restrict p).Avoids cs := fun _ _ _ hs =>
  ha _ _ _ (Option.eq_some_of_filter_eq_some hs)

end Recognizer

end Interpolation

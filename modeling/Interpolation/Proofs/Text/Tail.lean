import Interpolation.Proofs.Text.Recognizer

/-!
# What is behind a text

A recognizer ignores the tail behind a text if it takes the same piece of the text with the tail as without. One that
takes characters of a class does so unless the text ends within the class and the tail goes on with it.

* `Recognizer.Ignores` — the piece is a matter of the text in front of the tail;
* `Ignores.andThen`, `Ignores.orElse`, `Ignores.optional`, `ignores_firstOf`, `Ignores.restrict` — the combinations.
-/

namespace Interpolation.Recognizer

/-- Behind the text `s` the tail does not matter to the recognizer. -/
def Ignores (a : Recognizer) (tail s : Text) : Prop := a (s ++ tail) = (a s).map fun (t, rest) => (t, rest ++ tail)

variable {a b : Recognizer} {p : Char → Bool} {c : Char} {s t tail v : Text}

/-! ## Elementary recognizers -/

theorem ignores_one (hs : s ≠ []) : (one p).Ignores tail s := by
  obtain ⟨d, s, rfl⟩ := List.exists_cons_of_ne_nil hs
  by_cases hd : p d = true <;> simp [Ignores, one, hd]

theorem ignores_one_of_tail (hc : p c = false) (s : Text) : (one p).Ignores (c :: v) s := by
  cases s with
  | nil => simp [Ignores, one, hc]
  | cons d s => exact ignores_one (List.cons_ne_nil d s)

theorem ignores_many_of_mem (h : ∃ d ∈ s, p d = false) : (many p).Ignores tail s := by
  obtain ⟨d, hd, hpd⟩ := h
  obtain ⟨left, right, rfl⟩ := List.append_of_mem hd
  rw [Ignores, many, many, Option.map_some]
  induction left with
  | nil => simp [hpd]
  | cons e left ih =>
    have hrest := Option.some.inj (ih (by simp))
    simp only [Prod.mk.injEq] at hrest
    by_cases he : p e = true
    · simpa [he] using hrest
    · simp [he]

theorem ignores_many_of_tail (hc : p c = false) (s : Text) : (many p).Ignores (c :: v) s := by
  induction s with
  | nil => simp [Ignores, many, hc]
  | cons d s ih =>
    have hrest := Option.some.inj ih
    simp only [Prod.mk.injEq] at hrest
    by_cases hd : p d = true
    · simpa [Ignores, many, hd] using hrest
    · simp [Ignores, many, hd]

/-- A recognizer that is given by the pieces it takes, none of which reaches into the tail. -/
theorem ignores_of_pieces (piece : Text → Prop) (ha : ∀ s t rest, a s = some (t, rest) ↔ piece t ∧ s = t ++ rest)
    (hpiece : ∀ u, piece (s ++ c :: u) → False) : a.Ignores (c :: v) s := by
  rw [Ignores]
  ext ⟨t, rest⟩
  simp only [Option.map_eq_some_iff, Prod.exists, Prod.mk.injEq, ha]
  constructor
  · rintro ⟨ht, hs⟩
    obtain ⟨u, rfl, hu⟩ | ⟨u, rfl, rfl⟩ := List.append_eq_append_iff.1 hs
    · cases u with
      | nil => exact ⟨s, [], ⟨by simpa using ht, by simp⟩, by simp, by simpa using hu⟩
      | cons d u =>
        obtain ⟨rfl, -⟩ := List.cons.inj hu
        exact (hpiece u ht).elim
    · exact ⟨t, u, ⟨ht, rfl⟩, rfl, rfl⟩
  · rintro ⟨t, rest, ⟨ht, rfl⟩, rfl, rfl⟩
    exact ⟨ht, by simp⟩

/-- A piece at the front of the text, or one that the whole text does not start, is found or not found there. -/
theorem ignores_exactly_of_prefix {u : Text} (h : u <+: s ∨ ¬ s <+: u) : (exactly u).Ignores tail s := by
  by_cases hle : u.length ≤ s.length
  · rw [Ignores, exactly, exactly, List.take_append_of_le_length hle]
    split
    · rw [List.drop_append_of_le_length hle]
      rfl
    · rfl
  · have hnot : ¬ s <+: u := h.resolve_left fun hu => hle hu.length_le
    have hs : s.take u.length ≠ u := fun heq => hle (heq ▸ List.length_take_le' _ _)
    have htail : (s ++ tail).take u.length ≠ u := by
      intro heq
      rw [List.take_append, List.take_of_length_le (by omega)] at heq
      exact hnot ⟨_, heq⟩
    rw [Ignores, exactly, exactly, if_neg hs, if_neg htail]
    rfl

theorem ignores_exactly {u : Text} (hc : c ∉ u) (s : Text) : (exactly u).Ignores (c :: v) s := by
  refine ignores_of_pieces (· = u) (fun _ _ _ => exactly_eq_some_iff) ?_
  rintro w rfl
  simp at hc

theorem ignores_caseless {u : Text} (h : ∀ w, (s ++ c :: w).map Char.toLower ≠ u) : (caseless u).Ignores (c :: v) s :=
  ignores_of_pieces (fun t => t.map Char.toLower = u) (fun _ _ _ => caseless_eq_some_iff) h

/-! ## Combinations -/

theorem Ignores.andThen (ha : a.Ignores tail s) (hb : ∀ t rest, a s = some (t, rest) → b.Ignores tail rest) :
    (a.andThen b).Ignores tail s := by
  rw [Ignores, Recognizer.andThen, Recognizer.andThen, ha]
  cases hs : a s with
  | none => rfl
  | some q =>
    obtain ⟨t, rest⟩ := q
    have hrest := hb t rest hs
    rw [Ignores] at hrest
    simp only [Option.map_some, Option.bind_some, hrest, Option.map_map]
    rfl

theorem Ignores.orElse (ha : a.Ignores tail s) (hb : b.Ignores tail s) : (a.orElse b).Ignores tail s := by
  rw [Ignores, Recognizer.orElse, Recognizer.orElse, ha, hb]
  cases a s <;> rfl

theorem Ignores.optional (ha : a.Ignores tail s) : a.optional.Ignores tail s := by
  rw [Ignores, Recognizer.optional, Recognizer.optional, ha]
  cases a s <;> rfl

theorem ignores_firstOf {rs : List Recognizer} (h : ∀ r ∈ rs, r.Ignores tail s) : (firstOf rs).Ignores tail s := by
  induction rs with
  | nil => rfl
  | cons r rs ih =>
    obtain ⟨hr, hrs⟩ := List.forall_mem_cons.1 h
    rw [firstOf_cons]
    exact hr.orElse (ih hrs)

theorem Ignores.restrict (ha : a.Ignores tail s) (p : Text → Bool) : (a.restrict p).Ignores tail s := by
  rw [Ignores, Recognizer.restrict, Recognizer.restrict, ha]
  cases a s with
  | none => rfl
  | some q => simp only [Option.map_some, Option.filter_some]; split <;> rfl

end Interpolation.Recognizer

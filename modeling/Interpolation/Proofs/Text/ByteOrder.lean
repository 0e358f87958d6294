import Interpolation.Proofs.Text.Utf8

/-!
# The order of texts and of their bytes

Texts are in the order of their characters, which is that of their bytes in UTF-8: a greater character begins with a
greater byte, or agrees with the smaller one up to a greater byte.

* `Text.utf8_lt_utf8_iff` — a text is in front of another if its bytes are;
* `map_utf8_lt_map_utf8_iff` — and so for lists of texts.
-/

namespace Interpolation

/-- Of two numbers the smaller one has fewer times sixty-four, or as many and a smaller rest. -/
theorem div_lt_or_mod_lt {n m : Nat} (h : n < m) : n / 64 < m / 64 ∨ n / 64 = m / 64 ∧ n % 64 < m % 64 := by
  omega

theorem byte_lt_byte {n m : Nat} (hm : m < 256) (h : n < m) : UInt8.ofNat n < UInt8.ofNat m := by
  rw [UInt8.lt_iff_toNat_lt, UInt8.toNat_ofNat', UInt8.toNat_ofNat', Nat.mod_eq_of_lt hm, Nat.mod_eq_of_lt (by omega)]
  exact h

theorem bytes_lt_bytes {n m : Nat} {x y : Bytes} (hm : m < 256) (h : n < m ∨ n = m ∧ x < y) :
    UInt8.ofNat n :: x < UInt8.ofNat m :: y := by
  rcases h with h | ⟨rfl, h⟩
  · exact List.cons_lt_cons_iff.2 (.inl (byte_lt_byte hm h))
  · exact List.cons_lt_cons_iff.2 (.inr ⟨rfl, h⟩)

/-- Whatever follows, a smaller character has smaller bytes. -/
theorem utf8EncodeChar_lt {c d : Char} (h : c < d) (x y : Bytes) :
    String.utf8EncodeChar c ++ x < String.utf8EncodeChar d ++ y := by
  have hlt : c.val.toNat < d.val.toNat := UInt32.lt_iff_toNat_lt.1 h
  have hvalid : d.val.toNat < 0x110000 := by
    have := d.valid
    simp only [UInt32.isValidChar, Nat.isValidChar] at this
    omega
  simp only [String.utf8EncodeChar]
  generalize c.val.toNat = n at hlt
  generalize d.val.toNat = m at hlt hvalid
  -- The digits of both numbers to the base 64, from the last to the first.
  have hlast := div_lt_or_mod_lt hlt
  have hthird (h : n / 64 < m / 64) : n / 4096 < m / 4096 ∨ n / 4096 = m / 4096 ∧ n / 64 % 64 < m / 64 % 64 := by
    simpa [Nat.div_div_eq_div_mul] using div_lt_or_mod_lt h
  have hsecond (h : n / 4096 < m / 4096) :
      n / 262144 < m / 262144 ∨ n / 262144 = m / 262144 ∧ n / 4096 % 64 < m / 4096 % 64 := by
    simpa [Nat.div_div_eq_div_mul] using div_lt_or_mod_lt h
  split_ifs <;> simp only [List.cons_append, List.nil_append]
  all_goals first | omega | refine bytes_lt_bytes (by omega) ?_
  -- Where the numbers of bytes differ, the first byte decides.
  all_goals first | exact .inl (by omega) | skip
  · rcases hlast with h | ⟨heq, h⟩
    · exact .inl (by omega)
    · exact .inr ⟨by omega, bytes_lt_bytes (by omega) (.inl (by omega))⟩
  · rcases hlast with h | ⟨heq, h⟩
    · rcases hthird h with h | ⟨heq, h⟩
      · exact .inl (by omega)
      · exact .inr ⟨by omega, bytes_lt_bytes (by omega) (.inl (by omega))⟩
    · exact .inr ⟨by omega, bytes_lt_bytes (by omega) (.inr ⟨by omega, bytes_lt_bytes (by omega) (.inl (by omega))⟩)⟩
  · rcases hlast with h | ⟨heq, h⟩
    · rcases hthird h with h | ⟨heq, h⟩
      · rcases hsecond h with h | ⟨heq, h⟩
        · exact .inl (by omega)
        · exact .inr ⟨by omega, bytes_lt_bytes (by omega) (.inl (by omega))⟩
      · exact .inr ⟨by omega, bytes_lt_bytes (by omega) (.inr ⟨by omega, bytes_lt_bytes (by omega) (.inl (by omega))⟩)⟩
    · exact .inr ⟨by omega, bytes_lt_bytes (by omega) (.inr ⟨by omega, bytes_lt_bytes (by omega)
        (.inr ⟨by omega, bytes_lt_bytes (by omega) (.inl (by omega))⟩)⟩)⟩

/-- Two ways to order lists agree if one is carried to the other. -/
theorem map_lt_map_iff {α β : Type} [LT α] [LT β] {f : α → β} (hlt : ∀ a b, f a < f b ↔ a < b)
    (hinj : ∀ a b, f a = f b → a = b) {l m : List α} : l.map f < m.map f ↔ l < m := by
  induction l generalizing m with
  | nil => cases m <;> simp
  | cons a l ih =>
    cases m with
    | nil => simp
    | cons b m =>
      rw [List.map_cons, List.map_cons, List.cons_lt_cons_iff, List.cons_lt_cons_iff, hlt, ih]
      exact or_congr_right (and_congr_left' ⟨hinj a b, congrArg f⟩)

theorem Text.utf8_lt_utf8 {s t : Text} (h : s < t) : s.utf8 < t.utf8 := by
  induction s generalizing t with
  | nil =>
    cases t with
    | nil => simp at h
    | cons d t =>
      rw [utf8_cons]
      obtain ⟨b, bs, hb⟩ := List.exists_cons_of_length_pos (l := String.utf8EncodeChar d)
        (by rw [String.length_utf8EncodeChar]; exact d.utf8Size_pos)
      rw [hb]
      exact List.nil_lt_cons _ _
  | cons c s ih =>
    cases t with
    | nil => simp at h
    | cons d t =>
      rw [utf8_cons, utf8_cons]
      rcases List.cons_lt_cons_iff.1 h with hc | ⟨rfl, hrest⟩
      · exact utf8EncodeChar_lt hc _ _
      · exact List.append_left_lt (ih hrest)

theorem Text.utf8_inj {s t : Text} (h : s.utf8 = t.utf8) : s = t := by
  have htext := congrArg Bytes.text? h
  rw [Bytes.text?_utf8, Bytes.text?_utf8] at htext
  exact Option.some.inj htext

/-- The order of texts is that of their bytes. -/
theorem Text.utf8_lt_utf8_iff {s t : Text} : s.utf8 < t.utf8 ↔ s < t := by
  refine ⟨fun h => ?_, utf8_lt_utf8⟩
  by_contra hnot
  rcases Std.le_iff_lt_or_eq.1 (Std.not_lt.1 hnot) with hlt | heq
  · exact Std.lt_irrefl (Std.lt_trans h (utf8_lt_utf8 hlt))
  · subst heq
    exact Std.lt_irrefl h

/-- The order of lists of texts is that of the lists of their bytes. -/
theorem map_utf8_lt_map_utf8_iff {l m : List Text} : l.map Text.utf8 < m.map Text.utf8 ↔ l < m :=
  map_lt_map_iff (fun _ _ => Text.utf8_lt_utf8_iff) fun _ _ => Text.utf8_inj

end Interpolation

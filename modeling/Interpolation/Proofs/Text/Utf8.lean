import Interpolation.Text.Basic
import Mathlib.Tactic.Common

/-!
# ASCII characters among the bytes of a text

An ASCII character is encoded as a single byte, and that byte stands nowhere in the encoding of another character. So the
bytes of a text show where its ASCII characters are.

* `Text.getElem?_utf8_eq_some_iff` — a byte of an ASCII character is that character, behind as many bytes;
* `Text.append_inj_of_utf8Size` — the front parts of a text have different sizes.
-/

namespace Interpolation

/-! ## The bytes of a character -/

section Char

variable {c d : Char}

theorem toNat_toUInt8 (hc : c.toNat < 128) : c.toUInt8.toNat = c.toNat := by
  show c.toNat % 256 = c.toNat
  omega

/-- An ASCII character is encoded as a single byte. -/
theorem utf8EncodeChar_of_lt (hc : c.toNat < 128) : String.utf8EncodeChar c = [c.toUInt8] := by
  have hle : c.val.toNat ≤ 127 := Nat.le_of_lt_succ hc
  simp only [String.utf8EncodeChar, if_pos hle]
  rfl

theorem utf8Size_of_lt (hc : c.toNat < 128) : c.utf8Size = 1 := by
  rw [← String.length_utf8EncodeChar, utf8EncodeChar_of_lt hc, List.length_singleton]

/-- No other character has an ASCII byte. -/
theorem le_of_mem_utf8EncodeChar (hc : 128 ≤ c.toNat) : ∀ b ∈ String.utf8EncodeChar c, 128 ≤ b.toNat := by
  have hgt : ¬ c.val.toNat ≤ 127 := Nat.not_le.2 hc
  simp only [String.utf8EncodeChar, if_neg hgt]
  split
  · simp
    omega
  · split <;> simp <;> omega

theorem eq_of_mem_utf8EncodeChar (hc : c.toNat < 128) (h : c.toUInt8 ∈ String.utf8EncodeChar d) : d = c := by
  have hbyte := toNat_toUInt8 hc
  have hd : d.toNat < 128 := by
    by_contra hge
    have := le_of_mem_utf8EncodeChar (Nat.not_lt.1 hge) _ h
    omega
  rw [utf8EncodeChar_of_lt hd, List.mem_singleton] at h
  have hnat : c.toNat = d.toNat := by rw [← hbyte, h, toNat_toUInt8 hd]
  exact Char.ext (UInt32.toNat_inj.1 hnat.symm)

end Char

namespace Text

variable {s t u v : Text} {c : Char} {i : Nat}

theorem utf8_cons (c : Char) (t : Text) : utf8 (c :: t) = String.utf8EncodeChar c ++ utf8 t := by
  show (String.ofList (c :: t)).toByteArray.data.toList = _
  rw [String.toByteArray_ofList, List.utf8Encode_cons, ByteArray.data_append, Array.toList_append]
  simp [utf8, List.utf8Encode]

/-- A byte of an ASCII character is that character, behind as many bytes. -/
theorem getElem?_utf8_eq_some_iff (hc : c.toNat < 128) :
    t.utf8[i]? = some c.toUInt8 ↔ ∃ u v, t = u ++ c :: v ∧ i = u.utf8Size := by
  constructor
  · intro h
    induction t generalizing i with
    | nil => simp at h
    | cons d t ih =>
      rw [utf8_cons] at h
      by_cases hi : i < (String.utf8EncodeChar d).length
      · rw [List.getElem?_append_left hi] at h
        obtain rfl := eq_of_mem_utf8EncodeChar hc (List.mem_of_getElem? h)
        rw [utf8EncodeChar_of_lt hc, List.length_singleton] at hi
        exact ⟨[], t, rfl, Nat.lt_one_iff.1 hi⟩
      · rw [List.getElem?_append_right (Nat.not_lt.1 hi)] at h
        obtain ⟨u, v, rfl, hu⟩ := ih h
        rw [String.length_utf8EncodeChar] at hi hu
        exact ⟨d :: u, v, rfl, by rw [utf8Size]; omega⟩
  · rintro ⟨u, v, rfl, rfl⟩
    rw [utf8_append, utf8_cons, utf8EncodeChar_of_lt hc, ← length_utf8, List.getElem?_append_right (Nat.le_refl _),
      Nat.sub_self]
    rfl

theorem eq_nil_of_utf8Size_eq_zero (h : t.utf8Size = 0) : t = [] := by
  cases t with
  | nil => rfl
  | cons c t =>
    have := c.utf8Size_pos
    rw [utf8Size] at h
    omega

/-- The front parts of a text have different sizes. -/
theorem append_inj_of_utf8Size (h : s ++ t = u ++ v) (hsize : s.utf8Size = u.utf8Size) : s = u ∧ t = v := by
  obtain ⟨w, rfl, rfl⟩ | ⟨w, rfl, rfl⟩ := List.append_eq_append_iff.1 h
  · obtain rfl := eq_nil_of_utf8Size_eq_zero (t := w) (by rw [utf8Size_append] at hsize; omega)
    simp
  · obtain rfl := eq_nil_of_utf8Size_eq_zero (t := w) (by rw [utf8Size_append] at hsize; omega)
    simp

theorem utf8Size_concat (hc : c.toNat < 128) : (u ++ [c]).utf8Size = u.utf8Size + 1 := by
  rw [utf8Size_append, utf8Size, utf8Size_of_lt hc, utf8Size]

/-- Two ASCII characters side by side. -/
theorem getElem?_utf8_pair_iff {d : Char} (hc : c.toNat < 128) (hd : d.toNat < 128) :
    t.utf8[i]? = some c.toUInt8 ∧ t.utf8[i + 1]? = some d.toUInt8 ↔ ∃ u v, t = u ++ c :: d :: v ∧ i = u.utf8Size := by
  rw [getElem?_utf8_eq_some_iff hc, getElem?_utf8_eq_some_iff hd]
  constructor
  · rintro ⟨⟨u, v, rfl, rfl⟩, w, x, heq, hw⟩
    have hsize : (u ++ [c]).utf8Size = w.utf8Size := by rw [utf8Size_concat hc, hw]
    obtain ⟨-, rfl⟩ := append_inj_of_utf8Size (t := v) (by simpa using heq) hsize
    exact ⟨u, x, rfl, rfl⟩
  · rintro ⟨u, v, rfl, rfl⟩
    exact ⟨⟨u, d :: v, rfl, rfl⟩, u ++ [c], v, by simp, (utf8Size_concat hc).symm⟩

/-- The byte in front of a place. -/
theorem getElem?_utf8_pred_iff (hc : c.toNat < 128) :
    (u.utf8Size ≠ 0 ∧ (u ++ v).utf8[u.utf8Size - 1]? = some c.toUInt8) ↔ u.getLast? = some c := by
  rw [getElem?_utf8_eq_some_iff hc, List.getLast?_eq_some_iff]
  constructor
  · rintro ⟨hne, w, x, heq, hw⟩
    have hsize : u.utf8Size = (w ++ [c]).utf8Size := by rw [utf8Size_concat hc]; omega
    obtain ⟨rfl, -⟩ := append_inj_of_utf8Size (by simpa using heq) hsize
    exact ⟨w, rfl⟩
  · rintro ⟨w, rfl⟩
    rw [utf8Size_concat hc]
    exact ⟨by omega, w, v, by simp, rfl⟩

end Text

end Interpolation

/-!
# Text and bytes

* `Text` — the characters of a text, first to last;
* `Bytes` — what a file, the answers of a user or the output hold;
* `Text.utf8` and `Bytes.text?` — the UTF-8 encoding and the decoding of well-formed UTF-8;
  `Bytes.text?_utf8` says that the second undoes the first, and `Text.length_utf8` how many bytes the first gives.
-/

namespace Interpolation

/-- The characters of a text, first to last. -/
abbrev Text := List Char

/-- A sequence of bytes, first to last. -/
abbrev Bytes := List UInt8

/-- The number of bytes that the UTF-8 encoding of a text takes. -/
def Text.utf8Size : Text → Nat
  | [] => 0
  | c :: t => c.utf8Size + utf8Size t

/-- The UTF-8 encoding of a text. -/
def Text.utf8 (t : Text) : Bytes := (String.ofList t).toUTF8.data.toList

/-- The text that well-formed UTF-8 encodes. -/
def Bytes.text? (b : Bytes) : Option Text := (String.fromUTF8? ⟨⟨b⟩⟩).map String.toList

@[simp]
theorem Bytes.text?_utf8 (t : Text) : Bytes.text? t.utf8 = some t := by
  have h : String.fromUTF8? (String.ofList t).toUTF8 = some (String.ofList t) := by
    unfold String.fromUTF8?
    rw [String.toUTF8_eq_toByteArray, dif_pos (String.ofList t).isValidUTF8]
    rfl
  show (String.fromUTF8? (String.ofList t).toUTF8).map String.toList = some t
  rw [h, Option.map_some, String.toList_ofList]

namespace Text

@[simp]
theorem utf8Size_append (s t : Text) : utf8Size (s ++ t) = utf8Size s + utf8Size t := by
  induction s with
  | nil => exact (Nat.zero_add _).symm
  | cons c s ih => rw [List.cons_append, utf8Size, utf8Size, ih, Nat.add_assoc]

@[simp]
theorem utf8_nil : utf8 [] = [] := rfl

/-- Texts are encoded character by character. -/
@[simp]
theorem utf8_append (s t : Text) : utf8 (s ++ t) = utf8 s ++ utf8 t := by
  show (String.ofList (s ++ t)).toByteArray.data.toList = _
  rw [String.toByteArray_ofList, List.utf8Encode_append, ByteArray.data_append, Array.toList_append]
  rfl

/-- The size of a text is the number of its bytes. -/
theorem length_utf8 (t : Text) : t.utf8.length = utf8Size t := by
  show (String.ofList t).toByteArray.size = _
  rw [String.toByteArray_ofList]
  induction t with
  | nil => rfl
  | cons c t ih =>
    rw [List.utf8Encode_cons, ByteArray.size_append, ih, utf8Size]
    simp [List.utf8Encode, String.length_utf8EncodeChar]

end Text

end Interpolation

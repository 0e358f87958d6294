import Interpolation.Proofs.Placeholder.Fill
import Interpolation.Proofs.Text.Stretch

/-!
# Where the placeholders are

* `Placeholder.Stands` — two bytes that are a placeholder;
* `mem_placeholders_iff` — these are the placeholders of a text, whatever stands around them;
* `pairwise_placeholders`, `stop_of_mem_placeholders` — from left to right, two bytes each;
* `Bytes.withArguments` — bytes with placeholders replaced by arguments in braces, and every other byte kept;
* `placeholders_substitute` — what substitution makes of a text.
-/

namespace Interpolation

/-! ## The placeholders of a text -/

/-- Two bytes that are a placeholder, and no percent sign in front of them. -/
structure Placeholder.Stands (bytes : Bytes) (p : Placeholder) : Prop where
  percent : bytes[p.start]? = some '%'.toUInt8
  letter : bytes[p.start + 1]? = some p.conversion.toUInt8
  conversion : Piece.isConversion p.conversion = true
  front : p.start = 0 ∨ bytes[p.start - 1]? ≠ some '%'.toUInt8

/-- Whether a percent sign stands right behind a text; `behindPercent` says whether one stands in front of it. -/
def endsPercent (behindPercent : Bool) (u : Text) : Bool := u.foldl (fun _ c => c = '%') behindPercent

theorem endsPercent_false_iff {u : Text} : endsPercent false u = true ↔ u.getLast? = some '%' := by
  rcases List.eq_nil_or_concat u with rfl | ⟨u, c, rfl⟩
  · simp [endsPercent]
  · simp [endsPercent]

namespace Piece

theorem ne_percent_of_isConversion {c : Char} (h : isConversion c = true) : c ≠ '%' := by
  rintro rfl
  contradiction

/-- The placeholders among the pieces of a text: each `%` with a conversion letter, unless a `%` is in front. -/
theorem mem_placeholdersFrom_iff {s : Text} {behindPercent : Bool} {start : Nat} {p : Placeholder} :
    p ∈ placeholdersFrom start (ofText behindPercent s) ↔ ∃ u v, s = u ++ '%' :: p.conversion :: v ∧
      p.start = start + u.utf8Size ∧ isConversion p.conversion = true ∧ endsPercent behindPercent u = false := by
  fun_induction ofText behindPercent s generalizing start with
  | case1 => simp [placeholdersFrom]
  | case2 behindPercent c =>
    have hone (u v : Text) : [c] ≠ u ++ '%' :: p.conversion :: v := by
      intro heq
      have := congrArg List.length heq
      simp only [List.length_append, List.length_cons, List.length_nil] at this
      omega
    simp [placeholdersFrom, hone]
  | case3 behindPercent c d s hhole ih =>
    obtain ⟨⟨rfl, hd⟩, rfl⟩ := isHole_iff.1 hhole
    have hends (u : Text) : endsPercent false ('%' :: d :: u) = endsPercent false u := by
      simp [endsPercent, ne_percent_of_isConversion hd]
    rw [placeholdersFrom, List.mem_cons, ih]
    constructor
    · rintro (rfl | ⟨u, v, rfl, hstart, hp, hu⟩)
      · exact ⟨[], s, rfl, rfl, hd, rfl⟩
      · exact ⟨'%' :: d :: u, v, rfl, by rw [hstart]; simp only [text, Text.utf8Size]; omega, hp, (hends u).trans hu⟩
    · rintro ⟨u, v, heq, hstart, hp, hu⟩
      rcases u with _ | ⟨e, _ | ⟨e', u⟩⟩
      · simp only [List.nil_append, List.cons.injEq] at heq
        obtain ⟨-, rfl, -⟩ := heq
        obtain rfl : p.start = start := hstart
        exact .inl rfl
      · simp only [List.cons_append, List.nil_append, List.cons.injEq] at heq
        exact absurd heq.2.1 (ne_percent_of_isConversion hd)
      · simp only [List.cons_append, List.cons.injEq] at heq
        obtain ⟨rfl, rfl, heq⟩ := heq
        refine .inr ⟨u, v, heq, ?_, hp, (hends u).symm.trans hu⟩
        rw [hstart]
        simp only [text, Text.utf8Size]
        omega
  | case4 behindPercent c d s hhole ih =>
    rw [placeholdersFrom, ih]
    constructor
    · rintro ⟨u, v, heq, hstart, hp, hu⟩
      exact ⟨c :: u, v, by rw [heq, List.cons_append], by rw [hstart, Text.utf8Size, Nat.add_assoc], hp, hu⟩
    · rintro ⟨u, v, heq, hstart, hp, hu⟩
      cases u with
      | nil =>
        simp only [List.nil_append, List.cons.injEq] at heq
        obtain ⟨rfl, rfl, -⟩ := heq
        exact absurd (isHole_iff.2 ⟨⟨rfl, hp⟩, hu⟩) hhole
      | cons e u =>
        rw [List.cons_append, List.cons.injEq] at heq
        obtain ⟨rfl, heq⟩ := heq
        exact ⟨u, v, heq, by rw [hstart, Text.utf8Size, Nat.add_assoc], hp, hu⟩

/-- The placeholders stand behind one another. -/
theorem le_of_mem_placeholdersFrom {ps : List Piece} {start : Nat} {p : Placeholder} (h : p ∈ placeholdersFrom start ps) :
    start ≤ p.start := by
  fun_induction placeholdersFrom start ps with
  | case1 => cases h
  | case2 start c ps ih => exact Nat.le_trans (Nat.le_add_right _ _) (ih h)
  | case3 start c ps ih =>
    rcases List.mem_cons.1 h with rfl | h
    · exact Nat.le_refl _
    · exact Nat.le_trans (Nat.le_add_right _ _) (ih h)

theorem pairwise_placeholdersFrom (start : Nat) (ps : List Piece) :
    (placeholdersFrom start ps).Pairwise fun p q => p.stop ≤ q.start := by
  fun_induction placeholdersFrom start ps with
  | case1 => exact .nil
  | case2 start c ps ih => exact ih
  | case3 start c ps ih => exact .cons (fun q hq => le_of_mem_placeholdersFrom hq) ih

theorem length_placeholdersFrom (start : Nat) (ps : List Piece) : (placeholdersFrom start ps).length = holes ps := by
  fun_induction placeholdersFrom start ps with
  | case1 => rfl
  | case2 start c ps ih => rw [ih, holes_plain]
  | case3 start c ps ih => rw [List.length_cons, ih, holes_hole]

end Piece

section Places

variable {t : Text} {p : Placeholder}

/-- The placeholders of a text are the pairs of bytes that read as one behind no percent sign. -/
theorem mem_placeholders_iff : p ∈ placeholders t ↔ p.Stands t.utf8 := by
  rw [placeholders, Piece.mem_placeholdersFrom_iff]
  constructor
  · rintro ⟨u, v, rfl, hstart, hp, hu⟩
    rw [Nat.zero_add] at hstart
    obtain ⟨hpercent, hletter⟩ := (Text.getElem?_utf8_pair_iff (c := '%') (by decide) (Piece.lt_of_isConversion hp)).2
      ⟨u, v, rfl, hstart⟩
    refine ⟨hpercent, hletter, hp, ?_⟩
    by_contra hfront
    rw [hstart] at hfront
    rw [not_or, not_not] at hfront
    rw [endsPercent_false_iff.2 ((Text.getElem?_utf8_pred_iff (c := '%') (by decide)).1 hfront)] at hu
    contradiction
  · rintro ⟨hpercent, hletter, hp, hfront⟩
    obtain ⟨u, v, rfl, hstart⟩ := (Text.getElem?_utf8_pair_iff (by decide) (Piece.lt_of_isConversion hp)).1
      ⟨hpercent, hletter⟩
    refine ⟨u, v, rfl, by rw [hstart, Nat.zero_add], hp, ?_⟩
    by_contra hu
    obtain ⟨hz, hends⟩ := (Text.getElem?_utf8_pred_iff (c := '%') (v := '%' :: p.conversion :: v) (by decide)).2
      (endsPercent_false_iff.1 (by simpa using hu))
    rw [hstart] at hfront
    exact hfront.elim hz fun hne => hne hends

theorem pairwise_placeholders (t : Text) : (placeholders t).Pairwise fun p q => p.stop ≤ q.start :=
  Piece.pairwise_placeholdersFrom 0 _

theorem stop_of_mem_placeholders (h : p ∈ placeholders t) : p.stop = p.start + 2 := by
  have hsize := utf8Size_of_lt (Piece.lt_of_isConversion (mem_placeholders_iff.1 h).conversion)
  have hpercent : ('%' : Char).utf8Size = 1 := by decide
  simp only [Placeholder.stop, Placeholder.text, Text.utf8Size]
  omega

theorem length_placeholders (t : Text) : (placeholders t).length = placeholderCount t :=
  Piece.length_placeholdersFrom 0 _

end Places

/-! ## Substitution -/

/-- Some bytes from the byte `first` on, with placeholders replaced by arguments in braces. -/
def Bytes.withArguments (bytes : Bytes) (first : Nat) : List (Placeholder × Text) → Bytes
  | [] => bytes.drop first
  | (p, a) :: others =>
    bytes.extract first p.start ++ (Text.utf8 ('\x7b' :: (a ++ ['\x7d'])) ++ withArguments bytes p.stop others)

/-- What stands in front of all placeholders is kept. -/
theorem Bytes.withArguments_eq_append {bytes : Bytes} {first middle : Nat} {found : List (Placeholder × Text)}
    (hle : first ≤ middle) (hfound : ∀ f ∈ found, middle ≤ f.1.start) :
    bytes.withArguments first found = bytes.extract first middle ++ bytes.withArguments middle found := by
  cases found with
  | nil => exact (extract_append_drop hle).symm
  | cons f others =>
    obtain ⟨p, a⟩ := f
    rw [withArguments, withArguments, ← List.append_assoc (bytes.extract first middle),
      extract_append_extract hle (hfound _ List.mem_cons_self)]

theorem Text.extract_utf8 (u v w : Text) : (u ++ (v ++ w)).utf8.extract u.utf8Size (u ++ v).utf8Size = v.utf8 := by
  simp [List.extract_eq_take_drop, ← Text.length_utf8]

namespace Piece

variable {ps : List Piece} {as : List Text} {consumed : Nat} {t : Text}

/-- Filling replaces the placeholders and keeps every other byte; `before` is what stands in front of the pieces. -/
theorem utf8_of_fill (before : Text) (h : fill consumed ps as = .ok t) :
    t.utf8 = Bytes.withArguments (before ++ render ps).utf8 before.utf8Size
      ((placeholdersFrom before.utf8Size ps).zip as) := by
  induction ps generalizing consumed as before t with
  | nil =>
    obtain ⟨-, rfl⟩ := fill_nil_eq_ok h
    rw [placeholdersFrom, List.zip_nil_left, Bytes.withArguments, ← Text.length_utf8]
    simp [render]
  | cons q ps ih =>
    cases q with
    | plain c =>
      obtain ⟨u, hu, rfl⟩ := fill_plain_eq_ok h
      have hrest := ih (before ++ [c]) hu
      have hfound : ∀ f ∈ (placeholdersFrom (before ++ [c]).utf8Size ps).zip as, (before ++ [c]).utf8Size ≤ f.1.start :=
        fun f hf => le_of_mem_placeholdersFrom (List.of_mem_zip hf).1
      have hle : before.utf8Size ≤ (before ++ [c]).utf8Size := by simp
      have hfrom : placeholdersFrom before.utf8Size (.plain c :: ps) = placeholdersFrom (before ++ [c]).utf8Size ps := by
        rw [placeholdersFrom, Text.utf8Size_append]
        rfl
      have hkept : (before ++ render (.plain c :: ps)).utf8.extract before.utf8Size (before ++ [c]).utf8Size =
          Text.utf8 [c] := Text.extract_utf8 before [c] (render ps)
      rw [hfrom, Bytes.withArguments_eq_append hle hfound, hkept, ← List.singleton_append, Text.utf8_append, hrest,
        List.append_assoc]
      rfl
    | hole c =>
      obtain ⟨a, others, u, rfl, hu, rfl⟩ := fill_hole_eq_ok h
      have hrest := ih (before ++ ['%', c]) hu
      rw [Text.utf8Size_append, List.append_assoc] at hrest
      have hbraces : '\x7b' :: (a ++ '\x7d' :: u) = ('\x7b' :: (a ++ ['\x7d'])) ++ u := by simp
      rw [placeholdersFrom, List.zip_cons_cons, Bytes.withArguments, extract_self, List.nil_append, hbraces,
        Text.utf8_append, hrest]
      rfl

end Piece

/-- The placeholders of a text are the pairs of bytes that read as one behind no percent sign, from left to right. As many
arguments as placeholders take their places in braces, and every other byte is kept; where the numbers differ the error
says by how much. Arguments without a percent sign make no placeholder. -/
theorem placeholders_substitute (t : Text) (arguments : List Text) :
    (∀ p, p ∈ placeholders t ↔ p.Stands t.utf8) ∧ (∀ p ∈ placeholders t, p.stop = p.start + 2) ∧
    (placeholders t).Pairwise (fun p q => p.stop ≤ q.start) ∧
    (arguments.length < (placeholders t).length → substitute t arguments = .error (.exhausted arguments.length)) ∧
    ((placeholders t).length < arguments.length →
      substitute t arguments = .error (.unconsumed (arguments.length - (placeholders t).length))) ∧
    ((placeholders t).length = arguments.length → ∃ u, substitute t arguments = .ok u ∧
      u.utf8 = t.utf8.withArguments 0 ((placeholders t).zip arguments) ∧
      ((∀ a ∈ arguments, '%' ∉ a) → placeholders u = [])) := by
  refine ⟨fun _ => mem_placeholders_iff, fun _ => stop_of_mem_placeholders, pairwise_placeholders t, ?_, ?_, ?_⟩ <;>
    rw [length_placeholders]
  · intro h
    rw [substitute, Piece.fill_eq_exhausted h, Nat.zero_add]
  · exact fun h => Piece.fill_eq_unconsumed h
  · intro h
    obtain ⟨u, hu⟩ := exists_substitute_eq_ok h
    refine ⟨u, hu, ?_, fun hplain => ?_⟩
    · have hbytes := Piece.utf8_of_fill [] hu
      rwa [List.nil_append, Piece.render_ofText] at hbytes
    · rw [← List.length_eq_zero_iff, length_placeholders]
      exact Piece.holes_of_fill hplain hu

/-- Placeholders behind a letter of two bytes and next to each other, between percent signs that are none. -/
theorem placeholders_substitute_escaped :
    let t : Text := "é%s%d%%f%%%s".toList
    placeholders t = [⟨2, 's'⟩, ⟨4, 'd'⟩] ∧ (placeholders t).length = ["x".toList, "ñ".toList].length ∧
      ∃ u, substitute t ["x".toList, "ñ".toList] = .ok u ∧
        u.utf8 = t.utf8.withArguments 0 ((placeholders t).zip ["x".toList, "ñ".toList]) ∧ placeholders u = [] := by
  intro t
  have hfound : placeholders t = [⟨2, 's'⟩, ⟨4, 'd'⟩] := by decide +kernel
  have hlength : (placeholders t).length = ["x".toList, "ñ".toList].length := by rw [hfound]; rfl
  obtain ⟨u, hu, hbytes, hnone⟩ := (placeholders_substitute t ["x".toList, "ñ".toList]).2.2.2.2.2 hlength
  exact ⟨hfound, hlength, u, hu, hbytes, hnone (by decide +kernel)⟩

end Interpolation

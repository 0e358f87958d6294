import Interpolation.Placeholder
import Interpolation.Proofs.Text.Utf8
import Interpolation.Text.Identifier
import Mathlib.Algebra.GroupWithZero.Nat
import Mathlib.Tactic.Common

/-!
# Filling placeholders

* `Piece.exists_fill_eq_ok`, `Piece.fill_eq_exhausted`, `Piece.fill_eq_unconsumed` — as many arguments as placeholders
  fill them all, and no other number does;
* `Filled` — a text with some placeholders replaced by words in braces;
* `filled_of_substitute` — substitution fills a text;
* `utf8Size_of_substitute` — filling adds the arguments, byte for byte;
* `placeholderCount_of_substitute` — no placeholder is left, and filling makes no new one.
-/

namespace Interpolation

open Identifier (isContinue)

/-- The second text is the first with some placeholders replaced by words in braces. -/
inductive Filled : Text → Text → Prop
  | nil : Filled [] []
  | plain {s t : Text} (c : Char) (others : Filled s t) : Filled (c :: s) (c :: t)
  | hole {s t a : Text} {d : Char} (conversion : Piece.isConversion d = true) (word : ∀ c ∈ a, isContinue c = true)
      (others : Filled s t) : Filled ('%' :: d :: s) ('\x7b' :: (a ++ '\x7d' :: t))

namespace Filled

variable {s t u : Text} {c : Char}

/-- A character that starts no placeholder stays in front. -/
theorem of_cons (hc : c ≠ '%') (h : Filled (c :: s) t) : ∃ u, t = c :: u ∧ Filled s u := by
  cases h with
  | plain _ others => exact ⟨_, rfl, others⟩
  | hole => contradiction

/-- A piece in which no placeholder starts stays in front. -/
theorem of_append (hs : '%' ∉ s) (h : Filled (s ++ t) u) : ∃ v, u = s ++ v ∧ Filled t v := by
  induction s generalizing u with
  | nil => exact ⟨u, rfl, h⟩
  | cons c s ih =>
    obtain ⟨hc, hs⟩ : '%' ≠ c ∧ '%' ∉ s := by simpa using hs
    obtain ⟨u, rfl, hu⟩ := of_cons hc.symm h
    obtain ⟨v, rfl, hv⟩ := ih hs hu
    exact ⟨v, rfl, hv⟩

/-- No piece without a percent sign or a brace comes to the front or goes from there. -/
theorem prefix_iff {m : Text} (hm : '%' ∉ m ∧ '\x7b' ∉ m) (h : Filled s t) : m <+: s ↔ m <+: t := by
  induction m generalizing s t with
  | nil => simp
  | cons e m ih =>
    obtain ⟨⟨hpercent, hm⟩, hbrace, hm'⟩ : ('%' ≠ e ∧ '%' ∉ m) ∧ '\x7b' ≠ e ∧ '\x7b' ∉ m := by simpa using hm
    cases h with
    | nil => rfl
    | plain c others => rw [List.cons_prefix_cons, List.cons_prefix_cons, ih ⟨hm, hm'⟩ others]
    | hole => simp [hpercent.symm, hbrace.symm]

end Filled

namespace Piece

variable {ps : List Piece} {as : List Text} {behindPercent : Bool} {consumed : Nat} {s t : Text}

/-- A character that starts no placeholder is plain. -/
theorem ofText_plain {c : Char} (h : ∀ d ∈ s.head?, (c = '%' && isConversion d && !behindPercent) = false) :
    ofText behindPercent (c :: s) = .plain c :: ofText (c = '%') s := by
  cases s with
  | nil => rfl
  | cons d s => rw [ofText, h d rfl, if_neg Bool.false_ne_true]

theorem ofText_cons {c : Char} (hc : c ≠ '%') : ofText behindPercent (c :: s) = .plain c :: ofText false s := by
  rw [ofText_plain (by simp [hc]), decide_eq_false hc]

@[simp] theorem holes_plain (c : Char) : holes (.plain c :: ps) = holes ps := by simp [holes]

@[simp] theorem holes_hole (c : Char) : holes (.hole c :: ps) = holes ps + 1 := by simp [holes]

theorem holes_ofText_append (hs : '%' ∉ s) : holes (ofText false (s ++ t)) = holes (ofText false t) := by
  induction s with
  | nil => rfl
  | cons c s ih =>
    obtain ⟨hc, hs⟩ : '%' ≠ c ∧ '%' ∉ s := by simpa using hs
    rw [List.cons_append, ofText_cons hc.symm, holes_plain, ih hs]

/-- As many arguments as placeholders fill them all. -/
theorem exists_fill_eq_ok (h : holes ps = as.length) : ∃ t, fill consumed ps as = .ok t := by
  fun_induction fill consumed ps as with
  | case1 => exact ⟨[], rfl⟩
  | case2 => simp [holes] at h
  | case3 consumed c ps as ih =>
    obtain ⟨t, ht⟩ := ih (by simpa using h)
    exact ⟨c :: t, by rw [ht]; rfl⟩
  | case4 => simp at h
  | case5 consumed c ps a as ih =>
    obtain ⟨t, ht⟩ := ih (by simpa using h)
    exact ⟨_, by rw [ht]; rfl⟩

/-- With fewer arguments than placeholders all of them are used up. -/
theorem fill_eq_exhausted (h : as.length < holes ps) :
    fill consumed ps as = .error (.exhausted (consumed + as.length)) := by
  fun_induction fill consumed ps as with
  | case1 => simp [holes] at h
  | case2 => simp [holes] at h
  | case3 consumed c ps as ih =>
    rw [holes_plain] at h
    rw [ih h]
    rfl
  | case4 => rfl
  | case5 consumed c ps a as ih =>
    rw [holes_hole, List.length_cons, Nat.add_lt_add_iff_right] at h
    rw [ih h, List.length_cons, Nat.add_right_comm, Nat.add_assoc]
    rfl

/-- With more arguments than placeholders those at the end are left. -/
theorem fill_eq_unconsumed (h : holes ps < as.length) :
    fill consumed ps as = .error (.unconsumed (as.length - holes ps)) := by
  fun_induction fill consumed ps as with
  | case1 => simp at h
  | case2 => rfl
  | case3 consumed c ps as ih =>
    rw [holes_plain] at h ⊢
    rw [ih h]
    rfl
  | case4 => simp at h
  | case5 consumed c ps a as ih =>
    rw [holes_hole, List.length_cons, Nat.add_lt_add_iff_right] at h
    rw [ih h, holes_hole, List.length_cons, Nat.add_sub_add_right]
    rfl

theorem of_map_eq_ok {ε α β : Type} {e : Except ε α} {f : α → β} {b : β} (h : e.map f = .ok b) :
    ∃ a, e = .ok a ∧ f a = b := by
  cases e with
  | error => cases h
  | ok a => exact ⟨a, rfl, Except.ok.inj h⟩

theorem fill_nil_eq_ok (h : fill consumed [] as = .ok t) : as = [] ∧ t = [] := by
  cases as with
  | nil => exact ⟨rfl, (Except.ok.inj h).symm⟩
  | cons a as => cases h

theorem fill_plain_eq_ok {c : Char} (h : fill consumed (.plain c :: ps) as = .ok t) :
    ∃ u, fill consumed ps as = .ok u ∧ t = c :: u := by
  obtain ⟨u, hu, rfl⟩ := of_map_eq_ok h
  exact ⟨u, hu, rfl⟩

theorem fill_hole_eq_ok {c : Char} (h : fill consumed (.hole c :: ps) as = .ok t) :
    ∃ a others u, as = a :: others ∧ fill (consumed + 1) ps others = .ok u ∧ t = '\x7b' :: (a ++ '\x7d' :: u) := by
  cases as with
  | nil => cases h
  | cons a others =>
    obtain ⟨u, hu, rfl⟩ := of_map_eq_ok h
    exact ⟨a, others, u, rfl, hu, rfl⟩

/-- What it takes for two characters to be a placeholder. -/
theorem isHole_iff {c d : Char} : (c = '%' && isConversion d && !behindPercent) = true ↔
    (c = '%' ∧ isConversion d = true) ∧ behindPercent = false := by
  simp

theorem filled_of_fill (hwords : ∀ a ∈ as, ∀ c ∈ a, isContinue c = true)
    (h : fill consumed (ofText behindPercent s) as = .ok t) : Filled s t := by
  fun_induction ofText behindPercent s generalizing consumed as t with
  | case1 =>
    obtain ⟨-, rfl⟩ := fill_nil_eq_ok h
    exact .nil
  | case2 behindPercent c =>
    obtain ⟨u, hu, rfl⟩ := fill_plain_eq_ok h
    obtain ⟨-, rfl⟩ := fill_nil_eq_ok hu
    exact .plain c .nil
  | case3 behindPercent c d s hhole ih =>
    obtain ⟨⟨rfl, hd⟩, -⟩ := isHole_iff.1 hhole
    obtain ⟨a, as, u, rfl, hu, rfl⟩ := fill_hole_eq_ok h
    rw [List.forall_mem_cons] at hwords
    exact .hole hd hwords.1 (ih hwords.2 hu)
  | case4 behindPercent c d s _ ih =>
    obtain ⟨u, hu, rfl⟩ := fill_plain_eq_ok h
    exact .plain c (ih hwords hu)

/-- A conversion letter is a single byte. -/
theorem lt_of_isConversion {c : Char} (h : isConversion c = true) : c.toNat < 128 := by
  simp only [isConversion, Bool.or_eq_true, decide_eq_true_eq] at h
  rcases h with (rfl | rfl) | rfl <;> decide

/-- A placeholder takes as many bytes as the braces that replace it. -/
theorem utf8Size_of_fill (h : fill consumed (ofText behindPercent s) as = .ok t) :
    t.utf8Size = s.utf8Size + (as.map Text.utf8Size).sum := by
  fun_induction ofText behindPercent s generalizing consumed as t with
  | case1 =>
    obtain ⟨rfl, rfl⟩ := fill_nil_eq_ok h
    rfl
  | case2 behindPercent c =>
    obtain ⟨u, hu, rfl⟩ := fill_plain_eq_ok h
    obtain ⟨rfl, rfl⟩ := fill_nil_eq_ok hu
    rfl
  | case3 behindPercent c d s hhole ih =>
    obtain ⟨⟨rfl, hd⟩, -⟩ := isHole_iff.1 hhole
    obtain ⟨a, as, u, rfl, hu, rfl⟩ := fill_hole_eq_ok h
    have hrest := ih hu
    have hsize := utf8Size_of_lt (lt_of_isConversion hd)
    have hbraces : ('\x7b' : Char).utf8Size = 1 ∧ ('\x7d' : Char).utf8Size = 1 ∧ ('%' : Char).utf8Size = 1 := by decide
    simp only [Text.utf8Size, Text.utf8Size_append, List.map_cons, List.sum_cons]
    omega
  | case4 behindPercent c d s _ ih =>
    obtain ⟨u, hu, rfl⟩ := fill_plain_eq_ok h
    rw [Text.utf8Size, Text.utf8Size, ih hu, Nat.add_assoc]

/-- The first character is kept, or a brace takes its place. -/
theorem head?_of_fill (h : fill consumed (ofText behindPercent s) as = .ok t) :
    t.head? = s.head? ∨ t.head? = some '\x7b' := by
  fun_cases ofText behindPercent s with
  | case1 =>
    obtain ⟨-, rfl⟩ := fill_nil_eq_ok h
    exact .inl rfl
  | case2 c =>
    obtain ⟨u, -, rfl⟩ := fill_plain_eq_ok h
    exact .inl rfl
  | case3 c d s hhole =>
    rw [ofText, if_pos hhole] at h
    obtain ⟨a, as, u, -, -, rfl⟩ := fill_hole_eq_ok h
    exact .inr rfl
  | case4 c d s hhole =>
    rw [ofText, if_neg hhole] at h
    obtain ⟨u, -, rfl⟩ := fill_plain_eq_ok h
    exact .inl rfl

/-- Behind a placeholder that is filled, and behind a character that is kept, no placeholder comes up. -/
theorem holes_of_fill (hplain : ∀ a ∈ as, '%' ∉ a) (h : fill consumed (ofText behindPercent s) as = .ok t) :
    holes (ofText behindPercent t) = 0 := by
  fun_induction ofText behindPercent s generalizing consumed as t with
  | case1 =>
    obtain ⟨-, rfl⟩ := fill_nil_eq_ok h
    rfl
  | case2 behindPercent c =>
    obtain ⟨u, hu, rfl⟩ := fill_plain_eq_ok h
    obtain ⟨-, rfl⟩ := fill_nil_eq_ok hu
    rfl
  | case3 behindPercent c d s hhole ih =>
    obtain ⟨⟨rfl, hd⟩, -⟩ := isHole_iff.1 hhole
    obtain ⟨a, as, u, rfl, hu, rfl⟩ := fill_hole_eq_ok h
    rw [List.forall_mem_cons] at hplain
    show holes (ofText behindPercent ('\x7b' :: (a ++ '\x7d' :: u))) = 0
    rw [ofText_cons (by decide), holes_plain, holes_ofText_append hplain.1, ofText_cons (by decide), holes_plain,
      ih hplain.2 hu]
  | case4 behindPercent c d s hhole ih =>
    obtain ⟨u, hu, rfl⟩ := fill_plain_eq_ok h
    rw [ofText_plain, holes_plain, ih hplain hu]
    intro e he
    -- What is next is what was next, or a brace.
    rcases head?_of_fill hu with hhead | hhead
    · obtain rfl := Option.some.inj (hhead.symm.trans he)
      simpa using hhole
    · obtain rfl := Option.some.inj (hhead.symm.trans he)
      simp [isConversion]

end Piece

theorem exists_substitute_eq_ok {s : Text} {arguments : List Text} (h : placeholderCount s = arguments.length) :
    ∃ t, substitute s arguments = .ok t := Piece.exists_fill_eq_ok h

/-- Filling placeholders adds the arguments, byte for byte. -/
theorem utf8Size_of_substitute {s t : Text} {arguments : List Text} (h : substitute s arguments = .ok t) :
    t.utf8Size = s.utf8Size + (arguments.map Text.utf8Size).sum := Piece.utf8Size_of_fill h

/-- A character that starts no placeholder stays in front. -/
theorem exists_of_substitute {c : Char} {s t : Text} {arguments : List Text} (hc : c ≠ '%')
    (h : substitute (c :: s) arguments = .ok t) : ∃ u, t = c :: u := by
  rw [substitute, Piece.ofText_cons hc] at h
  obtain ⟨u, -, rfl⟩ := Piece.fill_plain_eq_ok h
  exact ⟨u, rfl⟩

theorem filled_of_substitute {s t : Text} {arguments : List Text} (hwords : ∀ a ∈ arguments, ∀ c ∈ a, isContinue c = true)
    (h : substitute s arguments = .ok t) : Filled s t := Piece.filled_of_fill hwords h

theorem placeholderCount_of_substitute {s t : Text} {arguments : List Text}
    (hwords : ∀ a ∈ arguments, ∀ c ∈ a, isContinue c = true) (h : substitute s arguments = .ok t) :
    placeholderCount t = 0 := by
  refine Piece.holes_of_fill (fun a ha hmem => ?_) h
  exact absurd (hwords a ha _ hmem) (by decide)

/-- Letters and marks in front of a text do not matter to its placeholders. -/
theorem placeholderCount_append {s t : Text} (hs : '%' ∉ s) : placeholderCount (s ++ t) = placeholderCount t :=
  Piece.holes_ofText_append hs

end Interpolation

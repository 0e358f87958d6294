import Interpolation.Text.Basic
import Mathlib.Tactic.Common

/-!
# Replacements in a text

* `Replacement` — a stretch of a text and what is to stand in its place;
* `Replacement.InOrder` — stretches that lie one behind the other, none of which reaches into the next;
* `Replacement.apply` — the text with all replacements made and everything else kept;
* `Replacement.Yields` — replacements that lie within a text, and the text that they make of it.

`Replacement.Yields.append` is the law of two texts that stand side by side.
-/

namespace Interpolation

/-- A stretch of a text, from one character up to another, and what is to stand in its place. -/
structure Replacement where
  start : Nat
  stop : Nat
  text : Text
  deriving DecidableEq, Repr

namespace Replacement

/-- The same replacement behind `n` more characters. -/
def shift (n : Nat) (r : Replacement) : Replacement := ⟨n + r.start, n + r.stop, r.text⟩

/-- The stretches lie one behind the other between two places. -/
def InOrder (first last : Nat) : List Replacement → Prop
  | [] => first ≤ last
  | r :: rs => first ≤ r.start ∧ r.start ≤ r.stop ∧ InOrder r.stop last rs

/-- A text whose first character is the character `first`, with the replacements made. -/
def apply (first : Nat) : List Replacement → Text → Text
  | [], t => t
  | r :: rs, t => t.take (r.start - first) ++ (r.text ++ apply r.stop rs (t.drop (r.stop - first)))

variable {first last : Nat} {rs ss : List Replacement} {t u : Text}

theorem InOrder.le (h : InOrder first last rs) : first ≤ last := by
  induction rs generalizing first with
  | nil => exact h
  | cons r rs ih =>
    obtain ⟨h1, h2, h3⟩ := h
    have := ih h3
    omega

theorem InOrder.of_le {first' : Nat} (hle : first' ≤ first) (h : InOrder first last rs) : InOrder first' last rs := by
  cases rs with
  | nil => exact Nat.le_trans hle h
  | cons r rs => exact ⟨Nat.le_trans hle h.1, h.2⟩

theorem InOrder.append {mid : Nat} (hr : InOrder first mid rs) (hs : InOrder mid last ss) :
    InOrder first last (rs ++ ss) := by
  induction rs generalizing first with
  | nil => exact hs.of_le hr
  | cons r rs ih => exact ⟨hr.1, hr.2.1, ih hr.2.2⟩

theorem InOrder.shift (n : Nat) (h : InOrder first last rs) : InOrder (n + first) (n + last) (rs.map (shift n)) := by
  induction rs generalizing first with
  | nil => exact Nat.add_le_add_left h n
  | cons r rs ih =>
    exact ⟨Nat.add_le_add_left h.1 n, Nat.add_le_add_left h.2.1 n, ih h.2.2⟩

theorem InOrder.bounds (h : InOrder first last rs) : ∀ r ∈ rs, first ≤ r.start ∧ r.start ≤ r.stop ∧ r.stop ≤ last := by
  induction rs generalizing first with
  | nil => simp
  | cons r rs ih =>
    obtain ⟨h1, h2, h3⟩ := h
    intro s hs
    rcases List.mem_cons.1 hs with rfl | hs
    · exact ⟨h1, h2, h3.le⟩
    · obtain ⟨h4, h5, h6⟩ := ih h3 s hs
      exact ⟨by omega, h5, h6⟩

/-- No stretch reaches into a later one. -/
theorem InOrder.pairwise (h : InOrder first last rs) : rs.Pairwise fun r s => r.stop ≤ s.start := by
  induction rs generalizing first with
  | nil => exact .nil
  | cons r rs ih => exact .cons (fun s hs => (h.2.2.bounds s hs).1) (ih h.2.2)

/-- Text in front of all replacements is kept. -/
theorem apply_append_left (h : InOrder (first + t.length) last ss) :
    apply first ss (t ++ u) = t ++ apply (first + t.length) ss u := by
  cases ss with
  | nil => rfl
  | cons s ss =>
    obtain ⟨h1, h2, _⟩ := h
    have hstart : s.start - first = t.length + (s.start - (first + t.length)) := by omega
    have hstop : s.stop - first = t.length + (s.stop - (first + t.length)) := by omega
    rw [apply, apply, hstart, hstop, List.take_length_add_append, List.drop_length_add_append, List.append_assoc]

/-- Replacements in two texts that stand side by side. -/
theorem apply_append (hr : InOrder first (first + t.length) rs) (hs : InOrder (first + t.length) last ss) :
    apply first (rs ++ ss) (t ++ u) = apply first rs t ++ apply (first + t.length) ss u := by
  induction rs generalizing first t with
  | nil => exact apply_append_left hs
  | cons r rs ih =>
    obtain ⟨h1, h2, h3⟩ := hr
    have h4 := h3.le
    have hlength : r.stop + (t.drop (r.stop - first)).length = first + t.length := by
      rw [List.length_drop]
      omega
    have hrest : apply r.stop (rs ++ ss) (t.drop (r.stop - first) ++ u) =
        apply r.stop rs (t.drop (r.stop - first)) ++ apply (r.stop + (t.drop (r.stop - first)).length) ss u :=
      ih (by rwa [hlength]) (by rwa [hlength])
    rw [List.cons_append, apply, apply, List.take_append_of_le_length (by omega),
      List.drop_append_of_le_length (by omega), hrest, hlength]
    simp only [List.append_assoc]

theorem apply_shift (n : Nat) : apply (n + first) (rs.map (shift n)) t = apply first rs t := by
  induction rs generalizing first t with
  | nil => rfl
  | cons r rs ih =>
    rw [List.map_cons, apply, apply]
    simp only [shift, Nat.add_sub_add_left]
    rw [ih]

/-- The replacements lie in order within the text `before`, whose first character is the character `first`, and make it
the text `after`. -/
structure Yields (first : Nat) (rs : List Replacement) (before after : Text) : Prop where
  inOrder : InOrder first (first + before.length) rs
  apply_eq : apply first rs before = after

namespace Yields

variable {before after before' after' : Text}

theorem nil (first : Nat) (t : Text) : Yields first [] t t := ⟨Nat.le_add_right _ _, rfl⟩

/-- A single replacement. -/
theorem single (stretch text : Text) (first : Nat) (left right : Text) :
    Yields first [⟨first + left.length, first + (left ++ stretch).length, text⟩] (left ++ stretch ++ right)
      (left ++ text ++ right) := by
  constructor
  · refine ⟨by simp, by simp, ?_⟩
    show first + _ ≤ first + _
    simp
  · simp [apply]

theorem append (h : Yields first rs before after) (h' : Yields (first + before.length) ss before' after') :
    Yields first (rs ++ ss) (before ++ before') (after ++ after') := by
  constructor
  · rw [List.length_append, ← Nat.add_assoc]
    exact h.inOrder.append h'.inOrder
  · rw [apply_append h.inOrder h'.inOrder, h.apply_eq, h'.apply_eq]

theorem shift (n : Nat) (h : Yields first rs before after) : Yields (n + first) (rs.map (shift n)) before after := by
  constructor
  · rw [Nat.add_assoc]
    exact h.inOrder.shift n
  · rw [apply_shift, h.apply_eq]

end Yields

end Replacement

end Interpolation

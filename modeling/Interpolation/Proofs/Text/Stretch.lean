import Mathlib.Algebra.Order.Sub.Basic
import Mathlib.Tactic.Common

/-!
# Stretches of a list

`l.extract i j` is the stretch of `l` from the index `i` up to the index `j`. Stretches that meet make up a longer one
(`extract_append_extract`), and a stretch within the list has the length that its ends say (`length_extract`).
-/

namespace Interpolation

variable {α : Type} {l : List α} {a : α} {i j k : Nat}

theorem extract_append_extract (hij : i ≤ j) (hjk : j ≤ k) : l.extract i j ++ l.extract j k = l.extract i k := by
  have hdrop : l.drop j = (l.drop i).drop (j - i) := by rw [List.drop_drop, Nat.add_sub_cancel' hij]
  have hlength : k - i = (j - i) + (k - j) := by omega
  simp only [List.extract_eq_take_drop]
  rw [hlength, List.take_add, hdrop]

theorem extract_append_drop (hij : i ≤ j) : l.extract i j ++ l.drop j = l.drop i := by
  rw [List.extract_eq_take_drop, ← Nat.add_sub_cancel' hij, ← List.drop_drop, Nat.add_sub_cancel_left,
    List.take_append_drop]

theorem extract_self (l : List α) (i : Nat) : l.extract i i = [] := by simp [List.extract_eq_take_drop]

theorem extract_length (l : List α) : l.extract 0 l.length = l := by simp [List.extract_eq_take_drop]

theorem length_extract (hk : k ≤ l.length) : (l.extract i k).length = k - i := by
  rw [List.extract_eq_take_drop, List.length_take, List.length_drop]
  omega

theorem extract_succ (h : l[i]? = some a) : l.extract i (i + 1) = [a] := by
  obtain ⟨hi, rfl⟩ := List.getElem?_eq_some_iff.1 h
  rw [List.extract_eq_take_drop, Nat.add_sub_cancel_left, List.drop_eq_getElem_cons hi]
  rfl

theorem eq_of_extract_eq_nil (hij : i ≤ j) (hj : j ≤ l.length) (h : l.extract i j = []) : j = i := by
  have hlength := length_extract (i := i) hj
  rw [h, List.length_nil] at hlength
  omega

theorem of_extract_eq_singleton (hj : j ≤ l.length) (h : l.extract i j = [a]) : j = i + 1 ∧ l[i]? = some a := by
  have hlength := length_extract (i := i) hj
  rw [h, List.length_singleton] at hlength
  have hstop : j = i + 1 := by omega
  have hi : i < l.length := by omega
  rw [hstop, extract_succ (List.getElem?_eq_getElem hi), List.singleton_inj] at h
  exact ⟨hstop, by rw [List.getElem?_eq_getElem hi, h]⟩

end Interpolation

import Interpolation.Diff.Hunk
import Mathlib.Tactic.Common

/-!
# Where the hunks lie

* `Hunk.Apart` — ranges one behind the other, with something between them;
* `Hunk.apart_ranges`, `Hunk.covered_of_change` — the ranges of the hunks are such, and every change lies in one;
* `Hunk.Cut` — a script cut into hunks and the kept lines around them;
* `Hunk.cut_all` — the hunks of a script cut it in this way.
-/

namespace Interpolation.Hunk

variable {α : Type}

/-- Ranges that are not empty and lie one behind the other, from `start` up to `stop`. No two of them touch. -/
def Apart (start stop : Nat) : List (Nat × Nat) → Prop
  | [] => True
  | (first, last) :: rest => start ≤ first ∧ first < last ∧ last ≤ stop ∧ Apart (last + 1) stop rest

theorem Apart.of_le {start start' stop : Nat} {ranges : List (Nat × Nat)} (hle : start ≤ start')
    (h : Apart start' stop ranges) : Apart start stop ranges := by
  cases ranges with
  | nil => trivial
  | cons r rest => exact ⟨Nat.le_trans hle h.1, h.2⟩

theorem Apart.le_first {start stop : Nat} {ranges : List (Nat × Nat)} (h : Apart start stop ranges) :
    ∀ r ∈ ranges, start ≤ r.1 := by
  induction ranges generalizing start with
  | nil => simp
  | cons r rest ih =>
    obtain ⟨h1, h2, -, h4⟩ := h
    intro s hs
    rcases List.mem_cons.1 hs with rfl | hs
    · exact h1
    · have := ih h4 s hs
      omega

/-- A place lies in one of some ranges. -/
def Covered (ranges : List (Nat × Nat)) (k : Nat) : Prop := ∃ r ∈ ranges, r.1 ≤ k ∧ k < r.2

/-- The ranges around changes that stand in order: the first begins in front of the first change, and behind every
change its range goes on. -/
theorem exists_rangesAround {length i : Nat} {is : List Nat} (horder : (i :: is).Pairwise (· < ·))
    (hlength : ∀ k ∈ i :: is, k < length) :
    ∃ last rest, rangesAround length (i :: is) = (i - context, last) :: rest ∧ i < last ∧ last ≤ length ∧
      Apart (last + 1) length rest ∧ ∀ k ∈ i :: is, Covered ((i - context, last) :: rest) k := by
  have hi : i < length := hlength i List.mem_cons_self
  induction is generalizing i with
  | nil =>
    refine ⟨min (i + 1 + context) length, [], rfl, by omega, by omega, trivial, ?_⟩
    rintro k hk
    obtain rfl := List.mem_singleton.1 hk
    exact ⟨_, List.mem_cons_self, Nat.sub_le _ _, by simp only; omega⟩
  | cons j is ih =>
    obtain ⟨hfirst, hrest⟩ := List.pairwise_cons.1 horder
    have hij : i < j := hfirst j List.mem_cons_self
    obtain ⟨last, rest, heq, hj, hlast, hapart, hcovered⟩ :=
      ih hrest (fun k hk => hlength k (List.mem_cons_of_mem i hk)) (hlength j (by simp))
    by_cases hjoin : j - context ≤ min (i + 1 + context) length
    · refine ⟨last, rest, by rw [rangesAround, heq]; simp only [if_pos hjoin], by omega, hlast, hapart, ?_⟩
      intro k hk
      rcases List.mem_cons.1 hk with rfl | hk
      · exact ⟨_, List.mem_cons_self, Nat.sub_le _ _, Nat.lt_trans hij hj⟩
      · obtain ⟨r, hr, hle, hlt⟩ := hcovered k hk
        rcases List.mem_cons.1 hr with rfl | hr
        · exact ⟨_, List.mem_cons_self, by simp only at hle ⊢; omega, hlt⟩
        · exact ⟨r, List.mem_cons_of_mem _ hr, hle, hlt⟩
    · refine ⟨min (i + 1 + context) length, (j - context, last) :: rest, ?_, by omega, by omega, ?_, ?_⟩
      · rw [rangesAround, heq]
        simp only [if_neg hjoin]
      · exact ⟨by omega, by omega, hlast, hapart⟩
      · intro k hk
        rcases List.mem_cons.1 hk with rfl | hk
        · exact ⟨_, List.mem_cons_self, Nat.sub_le _ _, by simp only; omega⟩
        · obtain ⟨r, hr, hin⟩ := hcovered k hk
          exact ⟨r, List.mem_cons_of_mem _ hr, hin⟩

/-! ## The changes of a script -/

theorem mem_changes {script : List (Edit α)} {k : Nat} :
    k ∈ changes script ↔ ∃ e, script[k]? = some e ∧ e.op ≠ .keep := by
  simp only [changes, List.mem_filterMap, Prod.exists]
  constructor
  · rintro ⟨e, i, hmem, hif⟩
    rw [List.mk_mem_zipIdx_iff_getElem?] at hmem
    by_cases hkeep : e.op = .keep
    · simp [hkeep] at hif
    · obtain rfl : i = k := by simpa [hkeep] using hif
      exact ⟨e, hmem, hkeep⟩
  · rintro ⟨e, hget, hne⟩
    exact ⟨e, k, List.mk_mem_zipIdx_iff_getElem?.2 hget, by simp [hne]⟩

theorem lt_of_mem_changes {script : List (Edit α)} {k : Nat} (h : k ∈ changes script) : k < script.length := by
  obtain ⟨e, hget, -⟩ := mem_changes.1 h
  exact (List.getElem?_eq_some_iff.1 hget).1

theorem pairwise_changes (script : List (Edit α)) : (changes script).Pairwise (· < ·) := by
  have hplaces : script.zipIdx.Pairwise (·.2 < ·.2) := by
    rw [← List.pairwise_map (R := (· < ·)) (f := Prod.snd), List.zipIdx_map_snd]
    exact List.pairwise_lt_range'
  refine hplaces.filterMap _ ?_
  intro a a' hlt b hb b' hb'
  have h (c : Edit α × Nat) (n : Nat) (hn : (if c.1.op = .keep then none else some c.2) = some n) : n = c.2 := by
    split at hn
    · cases hn
    · exact (Option.some.inj hn).symm
  rw [h a b hb, h a' b' hb']
  exact hlt

/-- The ranges of the hunks lie apart from each other within the script. -/
theorem apart_ranges (script : List (Edit α)) : Apart 0 script.length (ranges script) := by
  unfold ranges
  cases hchanges : changes script with
  | nil => trivial
  | cons i is =>
    obtain ⟨last, rest, heq, hi, hlast, hapart, -⟩ := exists_rangesAround (hchanges ▸ pairwise_changes script)
      (fun k hk => lt_of_mem_changes (show k ∈ changes script from hchanges ▸ hk))
    rw [heq]
    exact ⟨Nat.zero_le _, by omega, hlast, hapart⟩

/-- Every change of a script lies in one of its hunks. -/
theorem covered_of_change {script : List (Edit α)} {k : Nat} {e : Edit α} (hget : script[k]? = some e)
    (hne : e.op ≠ .keep) : Covered (ranges script) k := by
  have hmem : k ∈ changes script := mem_changes.2 ⟨e, hget, hne⟩
  unfold ranges
  cases hchanges : changes script with
  | nil => simp [hchanges] at hmem
  | cons i is =>
    obtain ⟨last, rest, heq, -, -, -, hcovered⟩ := exists_rangesAround (hchanges ▸ pairwise_changes script)
      (fun k hk => lt_of_mem_changes (show k ∈ changes script from hchanges ▸ hk))
    rw [heq]
    exact hcovered k (hchanges ▸ hmem)

/-! ## Hunks and gaps -/

/-- A script cut into hunks: in front of each of them and behind the last nothing is changed. -/
inductive Cut : List (Edit α) → List (List (Edit α)) → Prop
  | last {gap : List (Edit α)} (kept : ∀ e ∈ gap, e.op = .keep) : Cut gap []
  | hunk {gap hunk rest : List (Edit α)} {hunks : List (List (Edit α))} (kept : ∀ e ∈ gap, e.op = .keep)
      (ne : hunk ≠ []) (next : Cut rest hunks) : Cut (gap ++ (hunk ++ rest)) (hunk :: hunks)

/-- The lines of a hunk are lines of the script. -/
theorem Cut.mem {script : List (Edit α)} {hunks : List (List (Edit α))} (h : Cut script hunks) {hunk : List (Edit α)}
    (hhunk : hunk ∈ hunks) {e : Edit α} (he : e ∈ hunk) : e ∈ script := by
  induction h with
  | last => simp at hhunk
  | hunk kept ne next ih =>
    rcases List.mem_cons.1 hhunk with rfl | hhunk
    · simp [he]
    · simp [ih hhunk]

theorem cut_drop {script : List (Edit α)} {start : Nat} {ranges : List (Nat × Nat)}
    (hapart : Apart start script.length ranges)
    (hcovered : ∀ k e, start ≤ k → script[k]? = some e → e.op ≠ .keep → Covered ranges k) :
    Cut (script.drop start) (ranges.map fun (first, stop) => (script.drop first).take (stop - first)) := by
  induction ranges generalizing start with
  | nil =>
    refine .last fun e he => ?_
    obtain ⟨k, hk⟩ := List.getElem?_of_mem he
    by_contra hne
    obtain ⟨r, hr, -⟩ := hcovered (start + k) e (Nat.le_add_right _ _) (by rwa [← List.getElem?_drop]) hne
    simp at hr
  | cons r rest ih =>
    obtain ⟨first, last⟩ := r
    obtain ⟨hstart, hlt, hlast, hrest⟩ := hapart
    have hsplit : script.drop start = (script.drop start).take (first - start) ++
        ((script.drop first).take (last - first) ++ script.drop last) := by
      have hgap : (script.drop start).drop (first - start) = script.drop first := by
        rw [List.drop_drop, Nat.add_sub_cancel' hstart]
      have hhunk : (script.drop first).drop (last - first) = script.drop last := by
        rw [List.drop_drop, Nat.add_sub_cancel' (Nat.le_of_lt hlt)]
      rw [← hhunk, List.take_append_drop, ← hgap, List.take_append_drop]
    rw [hsplit, List.map_cons]
    refine .hunk ?_ ?_ (ih (hrest.of_le (Nat.le_succ last)) ?_)
    · intro e he
      by_contra hne
      obtain ⟨k, hk⟩ := List.getElem?_of_mem he
      rw [List.getElem?_take, Option.ite_none_right_eq_some, List.getElem?_drop] at hk
      obtain ⟨hk, hget⟩ := hk
      obtain ⟨r, hr, hle, -⟩ := hcovered (start + k) e (Nat.le_add_right _ _) hget hne
      rcases List.mem_cons.1 hr with rfl | hr
      · simp only at hle
        omega
      · have := hrest.le_first r hr
        omega
    · refine List.ne_nil_of_length_pos ?_
      rw [List.length_take, List.length_drop]
      omega
    · intro k e hle hget hne
      obtain ⟨r, hr, hin⟩ := hcovered k e (by omega) hget hne
      rcases List.mem_cons.1 hr with rfl | hr
      · simp only at hin
        omega
      · exact ⟨r, hr, hin⟩

/-- The hunks of a script, with the kept lines around them, make it up. -/
theorem cut_all (script : List (Edit α)) : Cut script (all script) :=
  (cut_drop (apart_ranges script) fun _ _ _ => covered_of_change : Cut (script.drop 0) _)

end Interpolation.Hunk

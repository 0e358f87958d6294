import Interpolation.Proofs.Diff.Hunks

/-!
# How far a hunk goes

* `Hunk.Encloses` — a range around some of the changes, from a first to a last one: it goes on for `context` entries on
  both sides, no other change comes near it, and inside it no two neighbouring changes are far from each other;
* `Hunk.exists_encloses` — the ranges around changes are such, by induction on the changes;
* `Hunk.Framed` — the same of a range in a script: which entries are kept in front of its first and behind its last
  change;
* `Hunk.ranges_framed` — what the ranges of a script are.
-/

namespace Interpolation.Hunk

/-- A place lies in a range. -/
def Within (r : Nat × Nat) (k : Nat) : Prop := r.1 ≤ k ∧ k < r.2

/-- The range `r` in a script of `length` entries encloses the changes from `first` to `last`. -/
structure Encloses (length : Nat) (changes : List Nat) (first last : Nat) (r : Nat × Nat) : Prop where
  first_mem : first ∈ changes
  last_mem : last ∈ changes
  first_le : first ≤ last
  start_eq : r.1 = first - context
  stop_eq : r.2 = min (last + 1 + context) length
  before : ∀ k ∈ changes, k < first → k + 1 + 2 * context < first
  after : ∀ k ∈ changes, last < k → last + 1 + 2 * context < k
  close : ∀ k ∈ changes, first ≤ k → k < last → ∃ l ∈ changes, k < l ∧ l ≤ k + 1 + 2 * context

/-- Where changes stand in order, none is in front of the first. -/
theorem head_le {i : Nat} {is : List Nat} (horder : (i :: is).Pairwise (· < ·)) : ∀ k ∈ i :: is, i ≤ k :=
  List.forall_mem_cons.2 ⟨Nat.le_refl i, fun k hk => Nat.le_of_lt ((List.pairwise_cons.1 horder).1 k hk)⟩

namespace Encloses

variable {length first last i j : Nat} {is : List Nat} {r : Nat × Nat}

/-- A change that is far from all others has a range of its own. -/
theorem alone (horder : (i :: is).Pairwise (· < ·)) (hfar : ∀ k ∈ is, i + 1 + 2 * context < k) :
    Encloses length (i :: is) i i (i - context, min (i + 1 + context) length) where
  first_mem := List.mem_cons_self
  last_mem := List.mem_cons_self
  first_le := Nat.le_refl i
  start_eq := rfl
  stop_eq := rfl
  before := fun k hk hlt => absurd (head_le horder k hk) (Nat.not_le.2 hlt)
  after := List.forall_mem_cons.2 ⟨fun hlt => absurd hlt (Nat.lt_irrefl i), fun k hk _ => hfar k hk⟩
  close := fun _ _ hle hlt => absurd hlt (Nat.not_lt.2 hle)

/-- A change that is too far in front makes no difference. -/
theorem cons (h : Encloses length is first last r) (hfar : i + 1 + 2 * context < first) :
    Encloses length (i :: is) first last r where
  first_mem := List.mem_cons_of_mem i h.first_mem
  last_mem := List.mem_cons_of_mem i h.last_mem
  first_le := h.first_le
  start_eq := h.start_eq
  stop_eq := h.stop_eq
  before := List.forall_mem_cons.2 ⟨fun _ => hfar, h.before⟩
  after := List.forall_mem_cons.2 ⟨fun hlast => by have := h.first_le; omega, h.after⟩
  close := by
    refine List.forall_mem_cons.2 ⟨fun hfirst => by omega, fun k hk hfirst hlast => ?_⟩
    obtain ⟨l, hl, hclose⟩ := h.close k hk hfirst hlast
    exact ⟨l, List.mem_cons_of_mem i hl, hclose⟩

/-- A change that is near enough in front joins the others. -/
theorem join {stop : Nat} (h : Encloses length (j :: is) j last (j - context, stop))
    (horder : (i :: j :: is).Pairwise (· < ·)) (hnear : j ≤ i + 1 + 2 * context) :
    Encloses length (i :: j :: is) i last (i - context, stop) := by
  obtain ⟨hi, hj⟩ := List.pairwise_cons.1 horder
  have hij : i < j := hi j List.mem_cons_self
  have hle := h.first_le
  constructor
  case first_mem => exact List.mem_cons_self
  case last_mem => exact List.mem_cons_of_mem i h.last_mem
  case first_le => omega
  case start_eq => rfl
  case stop_eq => exact h.stop_eq
  case before => exact fun k hk hlt => absurd (head_le horder k hk) (Nat.not_le.2 hlt)
  case after => exact List.forall_mem_cons.2 ⟨fun hlast => by omega, h.after⟩
  case close =>
    refine List.forall_mem_cons.2 ⟨fun _ _ => ⟨j, by simp, hij, hnear⟩, fun k hk _ hlast => ?_⟩
    obtain ⟨l, hl, hclose⟩ := h.close k hk (head_le hj k hk) hlast
    exact ⟨l, List.mem_cons_of_mem i hl, hclose⟩

/-- The changes in the range are those from the first to the last. -/
theorem within_iff (h : Encloses length is first last r) {k : Nat} (hk : k ∈ is) (hlength : k < length) :
    Within r k ↔ first ≤ k ∧ k ≤ last := by
  have hstart := h.start_eq
  have hstop := h.stop_eq
  constructor
  · rintro ⟨hle, hlt⟩
    constructor
    · by_contra hfirst
      have := h.before k hk (by omega)
      omega
    · by_contra hlast
      have := h.after k hk (by omega)
      omega
  · rintro ⟨hfirst, hlast⟩
    exact ⟨by omega, by omega⟩

end Encloses

/-- Each range around changes that stand in order encloses some of them, the first range the first of them. -/
theorem exists_encloses {length i : Nat} {is : List Nat} (horder : (i :: is).Pairwise (· < ·))
    (hlength : ∀ k ∈ i :: is, k < length) :
    ∃ last stop rest, rangesAround length (i :: is) = (i - context, stop) :: rest ∧
      Encloses length (i :: is) i last (i - context, stop) ∧
      ∀ r ∈ rest, ∃ first last, i < first ∧ Encloses length (i :: is) first last r := by
  induction is generalizing i with
  | nil => exact ⟨i, min (i + 1 + context) length, [], rfl, .alone horder (by simp), by simp⟩
  | cons j is ih =>
    obtain ⟨hi, hj⟩ := List.pairwise_cons.1 horder
    have hij : i < j := hi j List.mem_cons_self
    have hjlength : j < length := hlength j (by simp)
    obtain ⟨last, stop, rest, heq, hfirst, hrest⟩ := ih hj fun k hk => hlength k (List.mem_cons_of_mem i hk)
    by_cases hjoin : j - context ≤ min (i + 1 + context) length
    · refine ⟨last, stop, rest, by rw [rangesAround, heq]; simp only [if_pos hjoin], ?_, fun r hr => ?_⟩
      · exact hfirst.join horder (by omega)
      · obtain ⟨first, last, hlt, hr⟩ := hrest r hr
        have := hr.before j List.mem_cons_self hlt
        exact ⟨first, last, by omega, hr.cons (by omega)⟩
    · have hfar : i + 1 + 2 * context < j := by omega
      refine ⟨i, min (i + 1 + context) length, (j - context, stop) :: rest, ?_, ?_, ?_⟩
      · rw [rangesAround, heq]
        simp only [if_neg hjoin]
      · refine .alone horder fun k hk => ?_
        have := head_le hj k hk
        omega
      · refine List.forall_mem_cons.2 ⟨⟨j, last, hij, hfirst.cons hfar⟩, fun r hr => ?_⟩
        obtain ⟨first, last, hlt, hr⟩ := hrest r hr
        exact ⟨first, last, by omega, hr.cons (by omega)⟩

variable {α : Type}

/-- Each range of a script encloses changes of the script. -/
theorem encloses_of_mem_ranges {script : List (Edit α)} {r : Nat × Nat} (hr : r ∈ ranges script) :
    ∃ first last, Encloses script.length (changes script) first last r := by
  unfold ranges at hr
  cases hchanges : changes script with
  | nil => simp [hchanges, rangesAround] at hr
  | cons i is =>
    obtain ⟨last, stop, rest, heq, hfirst, hrest⟩ := exists_encloses (hchanges ▸ pairwise_changes script)
      (fun k hk => lt_of_mem_changes (show k ∈ changes script from hchanges ▸ hk))
    rw [hchanges, heq] at hr
    rcases List.mem_cons.1 hr with rfl | hr
    · exact ⟨i, last, hfirst⟩
    · obtain ⟨first, last, -, hr⟩ := hrest r hr
      exact ⟨first, last, hr⟩

/-! ## The ranges of a script -/

/-- Ranges that lie apart are not empty, end within the script, and have something between them. -/
theorem Apart.pairwise {start stop : Nat} {ranges : List (Nat × Nat)} (h : Apart start stop ranges) :
    (∀ r ∈ ranges, r.1 < r.2 ∧ r.2 ≤ stop) ∧ ranges.Pairwise (fun r s => r.2 < s.1) := by
  induction ranges generalizing start with
  | nil => exact ⟨by simp, .nil⟩
  | cons r rest ih =>
    obtain ⟨-, hlt, hle, hrest⟩ := h
    obtain ⟨hnonempty, hpairwise⟩ := ih hrest
    exact ⟨List.forall_mem_cons.2 ⟨⟨hlt, hle⟩, hnonempty⟩, List.pairwise_cons.2 ⟨hrest.le_first, hpairwise⟩⟩

/-- No place lies in two ranges that lie apart. -/
theorem eq_of_within {ranges : List (Nat × Nat)} (h : ranges.Pairwise (fun r s => r.2 < s.1)) {r s : Nat × Nat}
    (hr : r ∈ ranges) (hs : s ∈ ranges) {k : Nat} (hrk : Within r k) (hsk : Within s k) : r = s := by
  obtain ⟨hrk, hrk'⟩ := hrk
  obtain ⟨hsk, hsk'⟩ := hsk
  induction h with
  | nil => contradiction
  | cons hfirst _ ih =>
    rcases List.mem_cons.1 hr with rfl | hr' <;> rcases List.mem_cons.1 hs with rfl | hs'
    · rfl
    · have := hfirst s hs'
      omega
    · have := hfirst r hr'
      omega
    · exact ih hr' hs'

/-- Whether an entry of a script is a change. -/
def IsChange (script : List (Edit α)) (k : Nat) : Prop := ∃ e, script[k]? = some e ∧ e.op ≠ .keep

/-- The range `r` of a script encloses its changes from `first` to `last`: in front of the first and behind the last it
has `context` entries, or all that there are, and none of these is a change. -/
structure Framed (script : List (Edit α)) (first last : Nat) (r : Nat × Nat) : Prop where
  first_change : IsChange script first
  last_change : IsChange script last
  first_le : first ≤ last
  front : first = r.1 + min context first
  behind : r.2 = last + 1 + min context (script.length - (last + 1))
  kept_front : ∀ k, r.1 ≤ k → k < first → ¬IsChange script k
  kept_behind : ∀ k, last < k → k < r.2 → ¬IsChange script k

theorem Encloses.framed {script : List (Edit α)} {first last : Nat} {r : Nat × Nat}
    (h : Encloses script.length (changes script) first last r) : Framed script first last r := by
  have hle := h.first_le
  have hlast := lt_of_mem_changes h.last_mem
  have hstart := h.start_eq
  have hstop := h.stop_eq
  have hchange {k : Nat} (hk : Within r k) (hchange : IsChange script k) : first ≤ k ∧ k ≤ last :=
    (h.within_iff (mem_changes.2 hchange) (lt_of_mem_changes (mem_changes.2 hchange))).1 hk
  constructor
  case first_change => exact mem_changes.1 h.first_mem
  case last_change => exact mem_changes.1 h.last_mem
  case first_le => exact hle
  case front => omega
  case behind => omega
  case kept_front =>
    intro k hk hlt hkchange
    have := hchange ⟨hk, by omega⟩ hkchange
    omega
  case kept_behind =>
    intro k hlt hk hkchange
    have := hchange ⟨by omega, hk⟩ hkchange
    omega

/-- The ranges of the hunks of a script are not empty and lie in order, with something between them. Every change lies in
exactly one of them, and outside of them nothing is changed. In front of its first change and behind its last each has
`context` kept entries, or all that there are. Two changes with none between them are in one range exactly if no more
than `2 * context` entries stand between them. -/
theorem ranges_framed (script : List (Edit α)) :
    (∀ r ∈ ranges script, r.1 < r.2 ∧ r.2 ≤ script.length) ∧
    (ranges script).Pairwise (fun r s => r.2 < s.1) ∧
    (∀ k, IsChange script k → ∃! r, r ∈ ranges script ∧ Within r k) ∧
    (∀ k e, script[k]? = some e → (∀ r ∈ ranges script, ¬Within r k) → e.op = .keep) ∧
    (∀ r ∈ ranges script, ∃ first last, Framed script first last r) ∧
    ∀ i j, i < j → IsChange script i → IsChange script j → (∀ k, i < k → k < j → ¬IsChange script k) →
      ((∃ r ∈ ranges script, Within r i ∧ Within r j) ↔ j - (i + 1) ≤ 2 * context) := by
  obtain ⟨hnonempty, hpairwise⟩ := (apart_ranges script).pairwise
  refine ⟨hnonempty, hpairwise, ?_, ?_, ?_, ?_⟩
  · rintro k ⟨e, hget, hne⟩
    obtain ⟨r, hr, hk⟩ := covered_of_change hget hne
    exact ⟨r, ⟨hr, hk⟩, fun s ⟨hs, hsk⟩ => eq_of_within hpairwise hs hr hsk hk⟩
  · intro k e hget hnone
    by_contra hne
    obtain ⟨r, hr, hk⟩ := covered_of_change hget hne
    exact hnone r hr hk
  · intro r hr
    obtain ⟨first, last, hencloses⟩ := encloses_of_mem_ranges hr
    exact ⟨first, last, hencloses.framed⟩
  · intro i j hij hi hj hbetween
    have himem := mem_changes.2 hi
    have hjmem := mem_changes.2 hj
    have hilength := lt_of_mem_changes himem
    have hjlength := lt_of_mem_changes hjmem
    constructor
    · rintro ⟨r, hr, hri, hrj⟩
      obtain ⟨first, last, h⟩ := encloses_of_mem_ranges hr
      have hi' := (h.within_iff himem hilength).1 hri
      have hj' := (h.within_iff hjmem hjlength).1 hrj
      -- The next change behind `i` is near, and it is not in front of `j`.
      obtain ⟨l, hl, hil, hnear⟩ := h.close i himem hi'.1 (by omega)
      have hjl : j ≤ l := Nat.not_lt.1 fun hlj => hbetween l hil hlj (mem_changes.1 hl)
      omega
    · intro hnear
      obtain ⟨e, hget, hne⟩ := hi
      obtain ⟨r, hr, hri⟩ := covered_of_change hget hne
      obtain ⟨first, last, h⟩ := encloses_of_mem_ranges hr
      have hi' := (h.within_iff himem hilength).1 hri
      refine ⟨r, hr, hri, (h.within_iff hjmem hjlength).2 ⟨by omega, ?_⟩⟩
      by_contra hlast
      have hafter := h.after j hjmem (by omega)
      -- Then `i` is the last change of the range, as `last` is not between `i` and `j`.
      have : last ≤ i := Nat.not_lt.1 fun hlt => hbetween last hlt (by omega) (mem_changes.1 h.last_mem)
      omega

/-- Two changes with six entries between them share a range, with seven they do not. -/
example : rangesAround 9 [0, 7] = [(0, 9)] ∧ rangesAround 9 [0, 8] = [(0, 4), (5, 9)] := by decide

end Interpolation.Hunk

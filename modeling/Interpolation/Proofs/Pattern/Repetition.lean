import Interpolation.Proofs.Pattern.Derivation

/-!
# A repetition and the repetitions written out

A repetition is made of runs that are not empty, while the parts of a sequence can be empty. So a pattern repeated `n`
times and `n` copies of it in a row stop at the same siblings unless the pattern matches without taking a sibling.

* `Pattern.Stops` — where a pattern can stop that starts at a sibling;
* `Pattern.stops_sequence_cons_iff`, `Pattern.stops_repeated_iff` — one part more, and one run more;
* `Pattern.Stops.empty` — a pattern that takes no sibling at one place takes none at any other;
* `Pattern.stops_repeated_exactly` — the repetition against the copies.
-/

namespace Interpolation.Pattern

/-- The pattern can start at the index `i` among the siblings and stop at the index `j`. -/
def Stops (p : Pattern) (pathOf : Nat → Path) (siblings : List Tree) (i j : Nat) : Prop :=
  ∃ w ∈ p.ways pathOf siblings i, w.stop = j

variable {p : Pattern} {pathOf : Nat → Path} {siblings : List Tree} {i j n : Nat}

theorem stops_iff_derives : p.Stops pathOf siblings i j ↔ ∃ b, Derives pathOf siblings p i j b := by
  constructor
  · rintro ⟨w, hw, rfl⟩
    exact ⟨w.bindings, derives_of_mem_ways pathOf siblings i p w hw⟩
  · rintro ⟨b, hb⟩
    exact exists_mem_ways pathOf siblings i p j b hb

theorem Stops.le (h : p.Stops pathOf siblings i j) : i ≤ j := by
  obtain ⟨b, hb⟩ := stops_iff_derives.1 h
  exact hb.le

/-! ## One part more, one run more -/

theorem stops_sequence_nil_iff : (sequence []).Stops pathOf siblings i j ↔ j = i := by
  rw [stops_iff_derives]
  constructor
  · rintro ⟨b, _ | _⟩
    rfl
  · rintro rfl
    exact ⟨[], .sequenceNil⟩

theorem stops_sequence_cons_iff {ps : List Pattern} : (sequence (p :: ps)).Stops pathOf siblings i j ↔
    ∃ k, p.Stops pathOf siblings i k ∧ (sequence ps).Stops pathOf siblings k j := by
  simp only [stops_iff_derives]
  constructor
  · rintro ⟨b, h⟩
    cases h with
    | sequenceCons first others => exact ⟨_, ⟨_, first⟩, ⟨_, others⟩⟩
  · rintro ⟨k, ⟨b, first⟩, ⟨c, others⟩⟩
    exact ⟨c ++ b, .sequenceCons first others⟩

theorem stops_repeated_iff {min : Nat} {max : Option Nat} : (repeated p min max).Stops pathOf siblings i j ↔
    (min = 0 ∧ j = i) ∨ (max ≠ some 0 ∧ ∃ k, i < k ∧ p.Stops pathOf siblings i k ∧
      (repeated p (min - 1) (max.map (· - 1))).Stops pathOf siblings k j) := by
  simp only [stops_iff_derives]
  constructor
  · rintro ⟨b, h⟩
    cases h with
    | repeatedNone => exact .inl ⟨rfl, rfl⟩
    | repeatedMore room first moves others => exact .inr ⟨room, _, moves, ⟨_, first⟩, ⟨_, others⟩⟩
  · rintro (⟨rfl, rfl⟩ | ⟨room, k, moves, ⟨b, first⟩, ⟨c, others⟩⟩)
    · exact ⟨[], .repeatedNone⟩
    · exact ⟨c ++ b, .repeatedMore room first moves others⟩

theorem stops_repeated_zero_iff : (repeated p 0 (some 0)).Stops pathOf siblings i j ↔ j = i := by
  rw [stops_repeated_iff]
  constructor
  · rintro (⟨-, rfl⟩ | ⟨room, -⟩)
    · rfl
    · exact absurd rfl room
  · exact fun h => .inl ⟨rfl, h⟩

/-! ## No sibling taken -/

/-- A derivation that takes no sibling can be made at every place: no leaf and no node is part of it. -/
theorem Derives.exists_empty {b : Bindings} (h : Derives pathOf siblings p i j b) (hij : i = j) (k : Nat) :
    ∃ c, Derives pathOf siblings p k k c := by
  induction h with
  | leaf | node => omega
  | sequenceNil => exact ⟨[], .sequenceNil⟩
  | sequenceCons first others ihfirst ihothers =>
    have hfirst := first.le
    have hothers := others.le
    obtain ⟨b, hb⟩ := ihfirst (by omega)
    obtain ⟨c, hc⟩ := ihothers (by omega)
    exact ⟨c ++ b, .sequenceCons hb hc⟩
  | repeatedNone => exact ⟨[], .repeatedNone⟩
  | repeatedMore _ _ moves others =>
    have hothers := others.le
    omega
  | anyOf choice _ ih =>
    obtain ⟨c, hc⟩ := ih hij
    exact ⟨c, .anyOf choice hc⟩
  | capture _ ih =>
    obtain ⟨c, hc⟩ := ih hij
    exact ⟨_, .capture hc⟩

/-- A pattern that takes no sibling at one place takes none at any other. -/
theorem Stops.empty (h : p.Stops pathOf siblings i i) (k : Nat) : p.Stops pathOf siblings k k := by
  obtain ⟨b, hb⟩ := stops_iff_derives.1 h
  exact stops_iff_derives.2 (hb.exists_empty rfl k)

/-! ## So many runs, so many copies -/

/-- Places in a row, each of them related to the next: none but the first. -/
theorem exists_places_zero_iff {r : Nat → Nat → Prop} :
    (∃ f : Nat → Nat, f 0 = i ∧ f 0 = j ∧ ∀ m < 0, r (f m) (f (m + 1))) ↔ j = i := by
  constructor
  · rintro ⟨f, rfl, rfl, -⟩
    rfl
  · rintro rfl
    exact ⟨fun _ => j, rfl, rfl, fun m hm => absurd hm (Nat.not_lt_zero m)⟩

theorem exists_places_succ_iff {r : Nat → Nat → Prop} :
    (∃ f : Nat → Nat, f 0 = i ∧ f (n + 1) = j ∧ ∀ m < n + 1, r (f m) (f (m + 1))) ↔
      ∃ k, r i k ∧ ∃ f : Nat → Nat, f 0 = k ∧ f n = j ∧ ∀ m < n, r (f m) (f (m + 1)) := by
  constructor
  · rintro ⟨f, rfl, rfl, hsteps⟩
    exact ⟨f 1, hsteps 0 (by omega), fun m => f (m + 1), rfl, rfl, fun m hm => hsteps (m + 1) (by omega)⟩
  · rintro ⟨k, hfirst, f, rfl, rfl, hsteps⟩
    refine ⟨fun m => m.casesOn i f, rfl, rfl, fun m hm => ?_⟩
    cases m with
    | zero => exact hfirst
    | succ m => exact hsteps m (by omega)

/-- A pattern repeated exactly `n` times makes `n` runs in a row, none of them empty. -/
theorem stops_repeated_exactly_iff : (repeated p n (some n)).Stops pathOf siblings i j ↔
    ∃ f : Nat → Nat, f 0 = i ∧ f n = j ∧ ∀ m < n, f m < f (m + 1) ∧ p.Stops pathOf siblings (f m) (f (m + 1)) := by
  induction n generalizing i with
  | zero =>
    rw [stops_repeated_zero_iff, exists_places_zero_iff (r := fun a b => a < b ∧ p.Stops pathOf siblings a b)]
  | succ n ih =>
    rw [stops_repeated_iff, exists_places_succ_iff (r := fun a b => a < b ∧ p.Stops pathOf siblings a b)]
    simp [ih, and_assoc]

/-- `n` copies of a pattern make `n` runs in a row. -/
theorem stops_replicate_iff : (sequence (List.replicate n p)).Stops pathOf siblings i j ↔
    ∃ f : Nat → Nat, f 0 = i ∧ f n = j ∧ ∀ m < n, p.Stops pathOf siblings (f m) (f (m + 1)) := by
  induction n generalizing i with
  | zero =>
    rw [List.replicate_zero, stops_sequence_nil_iff]
    exact exists_places_zero_iff.symm
  | succ n ih =>
    rw [List.replicate_succ, stops_sequence_cons_iff, exists_places_succ_iff]
    simp [ih]

/-- At most `n` runs are at most `n + 1` runs. -/
theorem Stops.repeated_succ (h : (repeated p 0 (some n)).Stops pathOf siblings i j) :
    (repeated p 0 (some (n + 1))).Stops pathOf siblings i j := by
  induction n generalizing i with
  | zero => exact stops_repeated_iff.2 (.inl ⟨rfl, stops_repeated_zero_iff.1 h⟩)
  | succ n ih =>
    rcases stops_repeated_iff.1 h with hnone | ⟨-, k, hmoves, hfirst, hothers⟩
    · exact stops_repeated_iff.2 (.inl hnone)
    · exact stops_repeated_iff.2 (.inr ⟨by simp, k, hmoves, hfirst, ih hothers⟩)

/-- Of copies that can be empty only those matter that are not. -/
theorem stops_replicate_of_empty (hempty : p.Stops pathOf siblings i i) :
    (sequence (List.replicate n p)).Stops pathOf siblings i j ↔ (repeated p 0 (some n)).Stops pathOf siblings i j := by
  induction n generalizing i with
  | zero => rw [List.replicate_zero, stops_sequence_nil_iff, stops_repeated_zero_iff]
  | succ n ih =>
    rw [List.replicate_succ, stops_sequence_cons_iff]
    constructor
    · rintro ⟨k, hfirst, hothers⟩
      have hrest := (ih (hempty.empty k)).1 hothers
      rcases Nat.lt_or_eq_of_le hfirst.le with hmoves | rfl
      · exact stops_repeated_iff.2 (.inr ⟨by simp, k, hmoves, hfirst, hrest⟩)
      · exact hrest.repeated_succ
    · intro h
      rcases stops_repeated_iff.1 h with ⟨-, rfl⟩ | ⟨-, k, -, hfirst, hothers⟩
      · exact ⟨j, hempty, (ih hempty).2 (stops_repeated_iff.2 (.inl ⟨rfl, rfl⟩))⟩
      · exact ⟨k, hfirst, (ih (hempty.empty k)).2 hothers⟩

/-- A pattern repeated exactly `n` times stops where `n` copies of it stop none of which is empty. So it stops nowhere else
than `n` copies do, and it stops wherever they do if and only if `n` is zero or the pattern takes a sibling at least;
if it need not take one, the copies stop where at most `n` repetitions do. -/
theorem stops_repeated_exactly (p : Pattern) (pathOf : Nat → Path) (siblings : List Tree) (start n : Nat) :
    (∀ stop, (repeated p n (some n)).Stops pathOf siblings start stop ↔ ∃ f : Nat → Nat, f 0 = start ∧ f n = stop ∧
      ∀ m < n, f m < f (m + 1) ∧ p.Stops pathOf siblings (f m) (f (m + 1))) ∧
    (∀ stop, (repeated p n (some n)).Stops pathOf siblings start stop →
      (sequence (List.replicate n p)).Stops pathOf siblings start stop) ∧
    ((∀ stop, (repeated p n (some n)).Stops pathOf siblings start stop ↔
        (sequence (List.replicate n p)).Stops pathOf siblings start stop) ↔
      n = 0 ∨ ¬p.Stops pathOf siblings start start) ∧
    (p.Stops pathOf siblings start start → ∀ stop, (sequence (List.replicate n p)).Stops pathOf siblings start stop ↔
      (repeated p 0 (some n)).Stops pathOf siblings start stop) := by
  have hsubset (stop : Nat) (h : (repeated p n (some n)).Stops pathOf siblings start stop) :
      (sequence (List.replicate n p)).Stops pathOf siblings start stop := by
    obtain ⟨f, hstart, hstop, hruns⟩ := stops_repeated_exactly_iff.1 h
    exact stops_replicate_iff.2 ⟨f, hstart, hstop, fun m hm => (hruns m hm).2⟩
  refine ⟨fun _ => stops_repeated_exactly_iff, hsubset, ⟨fun hsame => ?_, fun h stop => ⟨hsubset stop, ?_⟩⟩,
    fun hempty _ => stops_replicate_of_empty hempty⟩
  · -- Empty copies stop where they start; runs that are not empty have moved on by then.
    by_contra! hn
    obtain ⟨hpos, hempty⟩ := hn
    have hcopies : (sequence (List.replicate n p)).Stops pathOf siblings start start :=
      stops_replicate_iff.2 ⟨fun _ => start, rfl, rfl, fun _ _ => hempty⟩
    obtain ⟨n, rfl⟩ := Nat.exists_eq_succ_of_ne_zero hpos
    rcases stops_repeated_iff.1 ((hsame start).2 hcopies) with ⟨hzero, -⟩ | ⟨-, k, hmoves, -, hothers⟩
    · omega
    · have hle := hothers.le
      omega
  · intro hcopies
    obtain ⟨f, hstart, hstop, hruns⟩ := stops_replicate_iff.1 hcopies
    refine stops_repeated_exactly_iff.2 ⟨f, hstart, hstop, fun m hm => ⟨?_, hruns m hm⟩⟩
    refine Nat.lt_of_le_of_ne (hruns m hm).le fun hstays => ?_
    have hempty : p.Stops pathOf siblings (f m) (f m) := by
      have hrun := hruns m hm
      rwa [← hstays] at hrun
    rcases h with hzero | hfull
    · omega
    · exact hfull (hempty.empty start)

/-- Between round brackets with nothing in them one copy of a comma that may be missing stops at once, and one repetition
of it stops nowhere. -/
theorem stops_repeated_optional_comma :
    let siblings := [Tree.leaf ⟨.operator, [], ['(']⟩, .leaf ⟨.operator, [], [')']⟩]
    let comma := optional (operator [','])
    ¬∀ stop, (repeated comma 1 (some 1)).Stops (fun i => [i]) siblings 1 stop ↔
      (sequence (List.replicate 1 comma)).Stops (fun i => [i]) siblings 1 stop := by
  intro siblings comma hsame
  have hcopies : (sequence (List.replicate 1 comma)).Stops (fun i => [i]) siblings 1 1 := by
    unfold Stops
    decide +kernel
  have hrepeated : ¬(repeated comma 1 (some 1)).Stops (fun i => [i]) siblings 1 1 := by
    unfold Stops
    decide +kernel
  exact hrepeated ((hsame 1).2 hcopies)

end Interpolation.Pattern

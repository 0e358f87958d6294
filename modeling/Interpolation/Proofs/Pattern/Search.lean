import Interpolation.Pattern.Search
import Interpolation.Proofs.Pattern.Derivation
import Mathlib.Data.List.Basic

/-!
# Matching comes to an end

Each round of a repetition goes on from places that are further behind than those of the round before, and no place is
behind the last sibling. So a repetition runs out of places after as many rounds as there are siblings left, and one.

* `Pattern.le_stop_of_mem_ways`, `Pattern.stop_le_of_mem_ways` — where a way stops;
* `Loop.Short` — a repetition that has made no more rounds than that;
* `Pattern.ends_repeatedly` — the rounds of a repetition whose part comes to an end;
* `Pattern.ends_search` — the search for a pattern finds the ways that `Pattern.ways` gives;
* `Pattern.exists_search_eq` — both together, from any sibling on.
-/

namespace Interpolation

/-- The repetition has started among the siblings or right behind them, and has made no more rounds than there were
siblings left, and one. -/
structure Loop.Short (l : Loop) : Prop where
  start_le : l.start ≤ l.siblings
  rounds_le : l.rounds ≤ l.siblings - l.start + 1

namespace Pattern

open Account (Ends ends_pure ends_enter ends_mapM)

variable {pathOf : Nat → Path} {siblings : List Tree} {start : Nat} {p : Pattern} {w : Way}

/-! ## Where a way stops -/

theorem le_stop_of_mem_ways (h : w ∈ ways pathOf siblings start p) : start ≤ w.stop :=
  (derives_of_mem_ways pathOf siblings start p w h).le

theorem stop_le_of_mem_ways (h : w ∈ ways pathOf siblings start p) (hstart : start ≤ siblings.length) :
    w.stop ≤ siblings.length := by
  have hderives := derives_of_mem_ways pathOf siblings start p w h
  rcases Nat.lt_or_eq_of_le hderives.le with hlt | heq
  · exact hderives.le_length hlt
  · exact heq ▸ hstart

/-! ## The rounds of a repetition -/

section Rounds

variable {step : Nat → Search (List Way)} {step' : Nat → List Way} {n count : Nat} {front : List Way}

theorem mem_advance_iff : w ∈ advance step' front ↔ ∃ v ∈ front, ∃ u ∈ step' v.stop, v.stop < u.stop ∧ v.before u = w := by
  simp only [advance, List.mem_flatMap, List.mem_map, List.mem_filter, decide_eq_true_eq, and_assoc]

/-- Whatever goes on has moved on. -/
theorem advance_stops (hstop : ∀ i ≤ n, ∀ w ∈ step' i, w.stop ≤ n)
    (hfront : ∀ w ∈ front, start + count ≤ w.stop ∧ w.stop ≤ n) :
    ∀ w ∈ advance step' front, start + (count + 1) ≤ w.stop ∧ w.stop ≤ n := by
  intro w hw
  obtain ⟨v, hv, u, hu, hmoves, rfl⟩ := mem_advance_iff.1 hw
  obtain ⟨hlow, hhigh⟩ := hfront v hv
  have hle := hstop v.stop hhigh u hu
  exact ⟨by simp only [Way.before]; omega, hle⟩

theorem ends_advance (hstep : ∀ i ≤ n, Ends Loop.Short (step i) (step' i)) (hfront : ∀ w ∈ front, w.stop ≤ n) :
    Ends Loop.Short (front.mapM fun w => return ((← step w.stop).filter (w.stop < ·.stop)).map w.before)
      (front.map fun w => ((step' w.stop).filter (w.stop < ·.stop)).map w.before) :=
  ends_mapM fun w hw => (hstep w.stop (hfront w hw)).bind (ends_pure _ _)

/-- In the round `count` every place is at least `count` siblings behind the first, so that the rounds run out in time. They
end with what `rounds` ends with. -/
theorem ends_repeatedly (hstep : ∀ i ≤ n, Ends Loop.Short (step i) (step' i))
    (hstop : ∀ i ≤ n, ∀ w ∈ step' i, w.stop ≤ n) (min : Nat) (max : Option Nat) {fuel : Nat}
    (hfuel : fuel + count = n - start + 2) (hcount : count ≤ n - start + 1)
    (hfront : ∀ w ∈ front, start + count ≤ w.stop ∧ w.stop ≤ n) : ∃ made ≤ n - start + 1,
      Ends Loop.Short (repeatedly step min max (count, front)) (rounds step' min max fuel count front, made) := by
  induction fuel generalizing count front with
  | zero => omega
  | succ fuel ih =>
    rw [repeatedly, rounds]
    cases front with
    | nil => exact ⟨count, hcount, ends_pure _ _⟩
    | cons v front =>
      have hroom : start + count ≤ n := by
        have := hfront v List.mem_cons_self
        omega
      simp only [List.isEmpty_cons, Bool.false_eq_true, if_false]
      by_cases hmax : max.any (· ≤ count)
      · rw [if_pos hmax, if_pos hmax, List.append_nil]
        exact ⟨count + 1, by omega, ends_pure _ _⟩
      · rw [if_neg hmax, if_neg hmax]
        obtain ⟨made, hmade, hothers⟩ := ih (by omega) (by omega) (advance_stops hstop hfront)
        refine ⟨made, hmade, (ends_advance hstep fun w hw => (hfront w hw).2).bind ?_⟩
        rw [← List.flatMap_def]
        exact hothers.bind (ends_pure _ _)

end Rounds

/-! ## The search -/

@[simp]
theorem map_before_nil (i : Nat) (ws : List Way) : ws.map (Way.before ⟨i, []⟩) = ws := by
  induction ws with
  | nil => rfl
  | cons w ws ih => rw [List.map_cons, ih, Way.before, List.append_nil]

theorem before_before (u v w : Way) : (u.before v).before w = u.before (v.before w) := by
  simp [Way.before]

/-- To go on with a pattern and then with others is to go on from all ways with the pattern. -/
theorem flatMap_waysInTurn_cons (pathOf : Nat → Path) (siblings : List Tree) (p : Pattern) (ps : List Pattern)
    (front : List Way) :
    (front.flatMap fun w => (waysInTurn pathOf siblings w.stop (p :: ps)).map w.before) =
      (front.flatMap fun w => (ways pathOf siblings w.stop p).map w.before).flatMap fun w =>
        (waysInTurn pathOf siblings w.stop ps).map w.before := by
  rw [List.flatMap_assoc]
  refine List.flatMap_congr fun w _ => ?_
  rw [waysInTurn, List.map_flatMap, List.flatMap_map]
  refine List.flatMap_congr fun v _ => ?_
  rw [List.map_map]
  exact List.map_congr_left fun u _ => (before_before w v u).symm

mutual
/-- The search for a pattern from a sibling on, or from behind the last one, finds its ways. -/
theorem ends_search (pathOf : Nat → Path) (siblings : List Tree) {start : Nat} (hstart : start ≤ siblings.length) :
    (p : Pattern) → Ends Loop.Short (search pathOf siblings start p) (ways pathOf siblings start p)
  | .leaf kind text => by
    rw [search, ways]
    rcases siblings[start]? with _ | t | ⟨k, cs⟩ <;> exact ends_pure _ _
  | .node kind parts => by
    rw [search, ways]
    rcases siblings[start]? with _ | t | ⟨k, cs⟩
    · exact ends_pure _ _
    · exact ends_pure _ _
    · by_cases hk : k = kind
      · have hfront : ∀ w ∈ [(⟨0, []⟩ : Way)], w.stop ≤ cs.length := by simp
        have hparts := ends_searchInTurn (fun i => pathOf start ++ [i]) cs parts hfront
        simp only [List.flatMap_singleton, map_before_nil] at hparts
        simp only [hk, if_true]
        refine hparts.bind ?_
        split
        · next w hfirst =>
          rw [hfirst]
          exact ends_pure _ _
        · next hnone =>
          rw [hnone]
          exact ends_pure _ _
      · simp only [hk, if_false]
        exact ends_pure _ _
  | .sequence parts => by
    rw [search, ways]
    have hfront : ∀ w ∈ [(⟨start, []⟩ : Way)], w.stop ≤ siblings.length := by simpa using hstart
    simpa using ends_searchInTurn pathOf siblings parts hfront
  | .repeated part min max => by
    rw [search, ways]
    have hfuel : siblings.length - start + 2 + 0 = siblings.length - start + 2 := rfl
    have hfront : ∀ w ∈ [(⟨start, []⟩ : Way)], start + 0 ≤ w.stop ∧ w.stop ≤ siblings.length := by simpa using hstart
    obtain ⟨made, hmade, hrounds⟩ := ends_repeatedly (fun i hi => ends_search pathOf siblings hi part)
      (fun i hi w hw => stop_le_of_mem_ways hw hi) min max hfuel (Nat.zero_le _) hfront
    exact hrounds.bind ((ends_enter ⟨hstart, hmade⟩).bind (ends_pure _ _))
  | .anyOf choices => by
    rw [search, ways]
    exact ends_searchOfAny pathOf siblings hstart choices
  | .capture name part => by
    rw [search, ways]
    exact (ends_search pathOf siblings hstart part).bind (ends_pure _ _)
/-- Going on from several ways finds what each of them goes on with. -/
theorem ends_searchInTurn (pathOf : Nat → Path) (siblings : List Tree) :
    (ps : List Pattern) → {front : List Way} → (∀ w ∈ front, w.stop ≤ siblings.length) →
      Ends Loop.Short (searchInTurn pathOf siblings front ps)
        (front.flatMap fun w => (waysInTurn pathOf siblings w.stop ps).map w.before)
  | [], front, _ => by
    rw [searchInTurn]
    simpa [waysInTurn, Way.before] using ends_pure Loop.Short front
  | p :: ps, front, hfront => by
    have hfirst : Ends Loop.Short (front.mapM fun w => return (← search pathOf siblings w.stop p).map w.before)
        (front.map fun w => (ways pathOf siblings w.stop p).map w.before) :=
      ends_mapM fun w hw => (ends_search pathOf siblings (hfront w hw) p).bind (ends_pure _ _)
    have hstop : ∀ v ∈ front.flatMap (fun w => (ways pathOf siblings w.stop p).map w.before), v.stop ≤ siblings.length := by
      intro v hv
      obtain ⟨w, hw, hv⟩ := List.mem_flatMap.1 hv
      obtain ⟨u, hu, rfl⟩ := List.mem_map.1 hv
      have hle := stop_le_of_mem_ways hu (hfront w hw)
      exact hle
    rw [searchInTurn, flatMap_waysInTurn_cons]
    refine hfirst.bind ?_
    rw [← List.flatMap_def]
    split
    · next hempty =>
      rw [List.isEmpty_iff.1 hempty]
      exact ends_pure _ _
    · exact ends_searchInTurn pathOf siblings ps hstop
theorem ends_searchOfAny (pathOf : Nat → Path) (siblings : List Tree) {start : Nat} (hstart : start ≤ siblings.length) :
    (ps : List Pattern) → Ends Loop.Short (searchOfAny pathOf siblings start ps) (waysOfAny pathOf siblings start ps)
  | [] => ends_pure _ _
  | p :: ps =>
    (ends_search pathOf siblings hstart p).bind ((ends_searchOfAny pathOf siblings hstart ps).bind (ends_pure _ _))
end

/-- From any sibling on, or from behind the last one, the search for a pattern comes to an end and finds the ways that `ways`
gives. Each of them stops where the search starts or further behind, and not behind the last sibling. No repetition on the
way makes more rounds than there are siblings left for it, and one, whatever its bounds and its part are; if the pattern is
a repetition, that is one of them. -/
theorem exists_search_eq (p : Pattern) (pathOf : Nat → Path) {siblings : List Tree} {start : Nat}
    (hstart : start ≤ siblings.length) : ∃ loops,
      (search pathOf siblings start p).run [] = some (ways pathOf siblings start p, loops) ∧
      (∀ w ∈ ways pathOf siblings start p, start ≤ w.stop ∧ w.stop ≤ siblings.length) ∧
      (∀ l ∈ loops, l.start ≤ l.siblings ∧ l.rounds ≤ l.siblings - l.start + 1) ∧
      ∀ part min max, p = .repeated part min max → ∃ l ∈ loops, l.siblings = siblings.length ∧ l.start = start := by
  obtain ⟨loops, hrun, hshort⟩ := ends_search pathOf siblings hstart p []
  refine ⟨loops, hrun, fun w hw => ⟨le_stop_of_mem_ways hw, stop_le_of_mem_ways hw hstart⟩,
    fun l hl => ⟨(hshort l hl).start_le, (hshort l hl).rounds_le⟩, ?_⟩
  rintro part min max rfl
  rw [search, StateT.run_bind] at hrun
  obtain ⟨⟨⟨found, rounds⟩, made⟩, -, hrest⟩ := Option.bind_eq_some_iff.1 hrun
  obtain ⟨-, rfl⟩ := Prod.mk.inj (Option.some.inj hrest)
  exact ⟨_, List.mem_append_right made List.mem_cons_self, rfl, rfl⟩

/-- At least two and at most five runs of any number of commas that may be missing. -/
theorem exists_search_eq_commas :
    let comma : Tree := .leaf ⟨.operator, [], [',']⟩
    let siblings := [comma, comma, .leaf ⟨.operator, [], [')']⟩]
    let commas := repeated (repeated (optional (operator [','])) 0 none) 2 (some 5)
    0 ≤ siblings.length ∧ (ways (fun i => [i]) siblings 0 commas).map (·.stop) = [2] ∧
      ∃ loops, (search (fun i => [i]) siblings 0 commas).run [] = some (ways (fun i => [i]) siblings 0 commas, loops) ∧
        (∀ w ∈ ways (fun i => [i]) siblings 0 commas, 0 ≤ w.stop ∧ w.stop ≤ siblings.length) ∧
        (∀ l ∈ loops, l.start ≤ l.siblings ∧ l.rounds ≤ l.siblings - l.start + 1) ∧
        ∀ part min max, commas = .repeated part min max →
          ∃ l ∈ loops, l.siblings = siblings.length ∧ l.start = 0 := by
  intro comma siblings commas
  have hstart : 0 ≤ siblings.length := Nat.zero_le _
  have hways : (ways (fun i => [i]) siblings 0 commas).map (·.stop) = [2] := by decide +kernel
  exact ⟨hstart, hways, exists_search_eq commas (fun i => [i]) hstart⟩

end Pattern

end Interpolation

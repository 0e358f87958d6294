import Interpolation.Pattern.Match
import Mathlib.Tactic.ByContra

/-!
# What a pattern means

`Derives pathOf siblings p i j b` says that the pattern `p` matches the siblings from `i` up to `j` with the captures
`b`. The matcher finds nothing else (`derives_of_mem_ways`), and it finds a way to every end that can be derived
(`exists_mem_ways`), although it keeps only the first way through the children of a node.
-/

namespace Interpolation.Pattern

/-- What is captured of the siblings from `i` up to `j`. -/
def captured (pathOf : Nat → Path) (part : Pattern) (i j : Nat) : Captured :=
  if part.isRun then .sequence ((List.range' i (j - i)).map pathOf) else .single (pathOf i)

/-- The pattern matches the siblings from one index up to another, with some captures. -/
inductive Derives : (Nat → Path) → List Tree → Pattern → Nat → Nat → Bindings → Prop
  | leaf {pathOf : Nat → Path} {siblings : List Tree} {kind : TokenKind} {text : Option Text} {i : Nat} {t : Token}
      (here : siblings[i]? = some (.leaf t)) (same : t.kind = kind) (spelled : ∀ u ∈ text, t.text = u) :
      Derives pathOf siblings (.leaf kind text) i (i + 1) []
  | node {pathOf : Nat → Path} {siblings cs : List Tree} {kind : NodeKind} {parts : List Pattern} {i : Nat}
      {b : Bindings} (here : siblings[i]? = some (.node kind cs))
      (children : Derives (fun j => pathOf i ++ [j]) cs (.sequence parts) 0 cs.length b) :
      Derives pathOf siblings (.node kind parts) i (i + 1) b
  | sequenceNil {pathOf : Nat → Path} {siblings : List Tree} {i : Nat} : Derives pathOf siblings (.sequence []) i i []
  | sequenceCons {pathOf : Nat → Path} {siblings : List Tree} {p : Pattern} {ps : List Pattern} {i j k : Nat}
      {b c : Bindings} (first : Derives pathOf siblings p i j b) (others : Derives pathOf siblings (.sequence ps) j k c) :
      Derives pathOf siblings (.sequence (p :: ps)) i k (c ++ b)
  | repeatedNone {pathOf : Nat → Path} {siblings : List Tree} {part : Pattern} {max : Option Nat} {i : Nat} :
      Derives pathOf siblings (.repeated part 0 max) i i []
  | repeatedMore {pathOf : Nat → Path} {siblings : List Tree} {part : Pattern} {min : Nat} {max : Option Nat}
      {i j k : Nat} {b c : Bindings} (room : max ≠ some 0) (first : Derives pathOf siblings part i j b) (moves : i < j)
      (others : Derives pathOf siblings (.repeated part (min - 1) (max.map (· - 1))) j k c) :
      Derives pathOf siblings (.repeated part min max) i k (c ++ b)
  | anyOf {pathOf : Nat → Path} {siblings : List Tree} {choices : List Pattern} {p : Pattern} {i j : Nat}
      {b : Bindings} (choice : p ∈ choices) (part : Derives pathOf siblings p i j b) :
      Derives pathOf siblings (.anyOf choices) i j b
  | capture {pathOf : Nat → Path} {siblings : List Tree} {name : String} {p : Pattern} {i j : Nat} {b : Bindings}
      (part : Derives pathOf siblings p i j b) :
      Derives pathOf siblings (.capture name p) i j ((name, captured pathOf p i j) :: b)

theorem Derives.le {pathOf : Nat → Path} {siblings : List Tree} {p : Pattern} {i j : Nat} {b : Bindings}
    (h : Derives pathOf siblings p i j b) : i ≤ j := by
  induction h with
  | leaf | node => omega
  | sequenceNil | repeatedNone => exact Nat.le_refl _
  | sequenceCons _ _ ih ih' => exact Nat.le_trans ih ih'
  | repeatedMore _ _ _ _ ih ih' => exact Nat.le_trans ih ih'
  | anyOf _ _ ih => exact ih
  | capture _ ih => exact ih

/-- A match that is not empty lies within the siblings. -/
theorem Derives.le_length {pathOf : Nat → Path} {siblings : List Tree} {p : Pattern} {i j : Nat} {b : Bindings}
    (h : Derives pathOf siblings p i j b) : i < j → j ≤ siblings.length := by
  induction h with
  | leaf here | node here =>
    intro _
    have := (List.getElem?_eq_some_iff.1 here).1
    omega
  | sequenceNil | repeatedNone => omega
  | @sequenceCons _ _ _ _ i j k _ _ hfirst hothers ih ih' =>
    intro _
    have := hfirst.le
    have := hothers.le
    by_cases hjk : j < k
    · exact ih' hjk
    · have := ih (by omega)
      omega
  | @repeatedMore _ _ _ _ _ i j k _ _ _ hfirst hmoves hothers ih ih' =>
    intro _
    have := hothers.le
    by_cases hjk : j < k
    · exact ih' hjk
    · have := ih hmoves
      omega
  | anyOf _ _ ih => exact ih
  | capture _ ih => exact ih

/-! ## Repetitions -/

section Rounds

variable {pathOf : Nat → Path} {siblings : List Tree} {part : Pattern} {step : Nat → List Way}

/-- Every way that the rounds end with goes on from one in the front. -/
theorem derives_of_mem_rounds (hstep : ∀ i, ∀ w ∈ step i, Derives pathOf siblings part i w.stop w.bindings)
    {min : Nat} {max : Option Nat} {fuel count : Nat} {front : List Way} {w : Way}
    (hw : w ∈ rounds step min max fuel count front) :
    ∃ v ∈ front, ∃ b, w.bindings = b ++ v.bindings ∧
      Derives pathOf siblings (.repeated part (min - count) (max.map (· - count))) v.stop w.stop b := by
  induction fuel generalizing count front with
  | zero => simp [rounds] at hw
  | succ fuel ih =>
    simp only [rounds] at hw
    split at hw
    · simp at hw
    · rcases List.mem_append.1 hw with hw | hw
      · split at hw
        · next hmin =>
          refine ⟨w, hw, [], rfl, ?_⟩
          rw [Nat.sub_eq_zero_of_le hmin]
          exact .repeatedNone
        · simp at hw
      · split at hw
        · simp at hw
        · next hmax =>
          obtain ⟨v, hv, b, hb, hrest⟩ := ih hw
          simp only [advance, List.mem_flatMap, List.mem_map, List.mem_filter, decide_eq_true_eq] at hv
          obtain ⟨u, hu, x, ⟨hx, hmoves⟩, rfl⟩ := hv
          refine ⟨u, hu, b ++ x.bindings, by rw [hb]; simp [Way.before], ?_⟩
          have hroom : max.map (· - count) ≠ some 0 := by
            cases max with
            | none => simp
            | some m =>
              simp only [Option.any_some, decide_eq_true_eq, Nat.not_le] at hmax
              simp only [Option.map_some, ne_eq, Option.some.injEq]
              omega
          refine .repeatedMore hroom (hstep _ x hx) hmoves ?_
          rw [Nat.sub_sub, Option.map_map]
          simpa [Function.comp_def, Nat.sub_sub, Way.before] using hrest

/-- The rounds end with a way to every end that can be derived from one in the front. -/
theorem exists_mem_rounds
    (hstep : ∀ i j b, Derives pathOf siblings part i j b → ∃ w ∈ step i, w.stop = j)
    {min : Nat} {max : Option Nat} {fuel count j : Nat} {front : List Way} {v : Way} {b : Bindings} (hv : v ∈ front)
    (hb : Derives pathOf siblings (.repeated part (min - count) (max.map (· - count))) v.stop j b)
    (hfuel : j - v.stop < fuel) : ∃ w ∈ rounds step min max fuel count front, w.stop = j := by
  induction fuel generalizing count front v b with
  | zero => omega
  | succ fuel ih =>
    have hfront : front.isEmpty = false := by
      cases front with
      | nil => simp at hv
      | cons => rfl
    simp only [rounds, hfront, Bool.false_eq_true, if_false]
    generalize hmin : min - count = min' at hb
    generalize hmax : max.map (· - count) = max' at hb
    cases hb with
    | repeatedNone =>
      refine ⟨v, List.mem_append_left _ ?_, rfl⟩
      rw [if_pos (by omega)]
      exact hv
    | @repeatedMore _ _ _ _ _ _ j' _ c d hroom hfirst hmoves hothers =>
      obtain ⟨u, hu, rfl⟩ := hstep _ _ _ hfirst
      have hadvance : v.before u ∈ advance step front := by
        simp only [advance, List.mem_flatMap, List.mem_map, List.mem_filter, decide_eq_true_eq]
        exact ⟨v, hv, u, ⟨hu, hmoves⟩, rfl⟩
      have hmore : max.any (· ≤ count) = false := by
        cases max with
        | none => rfl
        | some m =>
          simp only [Option.map_some] at hmax
          subst hmax
          simp only [ne_eq, Option.some.injEq] at hroom
          simp only [Option.any_some, decide_eq_false_iff_not]
          omega
      rw [← hmin, ← hmax, Nat.sub_sub, Option.map_map] at hothers
      have hothers' : Derives pathOf siblings (.repeated part (min - (count + 1)) (max.map (· - (count + 1))))
          (v.before u).stop j d := by
        simpa [Function.comp_def, Nat.sub_sub, Way.before] using hothers
      have hle := hothers.le
      obtain ⟨w, hw, rfl⟩ := ih hadvance hothers' (by simp only [Way.before]; omega)
      refine ⟨w, List.mem_append_right _ ?_, rfl⟩
      rw [hmore, if_neg (by simp)]
      exact hw

end Rounds

/-! ## The matcher -/

mutual
/-- A way that is found is a derivation. -/
theorem derives_of_mem_ways (pathOf : Nat → Path) (siblings : List Tree) (start : Nat) :
    (p : Pattern) → ∀ w ∈ ways pathOf siblings start p, Derives pathOf siblings p start w.stop w.bindings
  | .leaf kind text => by
    intro w hw
    simp only [ways] at hw
    split at hw
    · next t hhere =>
      split at hw
      · next h =>
        simp only [Bool.and_eq_true, decide_eq_true_eq] at h
        rw [List.mem_singleton.1 hw]
        exact .leaf hhere h.1 (by simpa [Option.all_eq_true] using h.2)
      · simp at hw
    · simp at hw
  | .node kind parts => by
    intro w hw
    simp only [ways] at hw
    split at hw
    · next k cs hhere =>
      split at hw
      · next h =>
        subst h
        split at hw
        · next v hv =>
          have hstop : v.stop = cs.length := by simpa using List.find?_some hv
          have hparts := derives_of_mem_waysInTurn (fun i => pathOf start ++ [i]) cs 0 parts v
            (List.mem_of_find?_eq_some hv)
          rw [List.mem_singleton.1 hw]
          exact .node hhere (hstop ▸ hparts)
        · simp at hw
      · simp at hw
    · simp at hw
  | .sequence parts => by
    simp only [ways]
    exact derives_of_mem_waysInTurn pathOf siblings start parts
  | .repeated part min max => by
    intro w hw
    simp only [ways] at hw
    obtain ⟨v, hv, b, hb, h⟩ :=
      derives_of_mem_rounds (fun i => derives_of_mem_ways pathOf siblings i part) hw
    rw [List.mem_singleton.1 hv] at hb h
    rw [hb, List.append_nil]
    simpa using h
  | .anyOf choices => by
    simp only [ways]
    exact derives_of_mem_waysOfAny pathOf siblings start choices
  | .capture name part => by
    intro w hw
    simp only [ways, List.mem_map] at hw
    obtain ⟨v, hv, rfl⟩ := hw
    exact .capture (derives_of_mem_ways pathOf siblings start part v hv)
theorem derives_of_mem_waysInTurn (pathOf : Nat → Path) (siblings : List Tree) (start : Nat) :
    (ps : List Pattern) → ∀ w ∈ waysInTurn pathOf siblings start ps,
      Derives pathOf siblings (.sequence ps) start w.stop w.bindings
  | [] => by
    intro w hw
    rw [waysInTurn, List.mem_singleton] at hw
    rw [hw]
    exact .sequenceNil
  | p :: ps => by
    intro w hw
    simp only [waysInTurn, List.mem_flatMap, List.mem_map] at hw
    obtain ⟨u, hu, v, hv, rfl⟩ := hw
    exact .sequenceCons (derives_of_mem_ways pathOf siblings start p u hu)
      (derives_of_mem_waysInTurn pathOf siblings u.stop ps v hv)
theorem derives_of_mem_waysOfAny (pathOf : Nat → Path) (siblings : List Tree) (start : Nat) :
    (ps : List Pattern) → ∀ w ∈ waysOfAny pathOf siblings start ps,
      Derives pathOf siblings (.anyOf ps) start w.stop w.bindings
  | [] => by simp [waysOfAny]
  | p :: ps => by
    intro w hw
    rw [waysOfAny, List.mem_append] at hw
    rcases hw with hw | hw
    · exact .anyOf (by simp) (derives_of_mem_ways pathOf siblings start p w hw)
    · cases derives_of_mem_waysOfAny pathOf siblings start ps w hw with
      | anyOf hchoice hpart => exact .anyOf (List.mem_cons_of_mem _ hchoice) hpart
end

mutual
/-- The matcher finds a way to every end that can be derived. -/
theorem exists_mem_ways (pathOf : Nat → Path) (siblings : List Tree) (start : Nat) :
    (p : Pattern) → ∀ stop b, Derives pathOf siblings p start stop b →
      ∃ w ∈ ways pathOf siblings start p, w.stop = stop
  | .leaf kind text => by
    intro stop b h
    cases h with
    | @leaf _ _ _ _ _ t hhere hsame hspelled =>
      refine ⟨⟨start + 1, []⟩, ?_, rfl⟩
      simp only [ways, hhere, hsame, decide_true, Bool.true_and]
      rw [if_pos (by simpa [Option.all_eq_true] using hspelled)]
      exact List.mem_singleton_self _
  | .node kind parts => by
    intro stop b h
    cases h with
    | @node _ _ cs _ _ _ _ hhere hchildren =>
      obtain ⟨w, hw, hstop⟩ := exists_mem_waysInTurn (fun j => pathOf start ++ [j]) cs 0 parts _ _ hchildren
      obtain ⟨v, hv⟩ : ∃ v, (waysInTurn (fun j => pathOf start ++ [j]) cs 0 parts).find? (·.stop = cs.length) = some v :=
        Option.isSome_iff_exists.1 (List.find?_isSome.2 ⟨w, hw, by simpa using hstop⟩)
      exact ⟨⟨start + 1, v.bindings⟩, by simp [ways, hhere, hv], rfl⟩
  | .sequence parts => by
    simp only [ways]
    exact exists_mem_waysInTurn pathOf siblings start parts
  | .repeated part min max => by
    intro stop b h
    simp only [ways]
    have hlength := h.le_length
    refine exists_mem_rounds (v := ⟨start, []⟩) (fun i => exists_mem_ways pathOf siblings i part)
      (List.mem_singleton_self _) (by simpa using h) ?_
    show stop - start < siblings.length - start + 2
    omega
  | .anyOf choices => by
    intro stop b h
    simp only [ways]
    cases h with
    | anyOf hchoice hpart => exact exists_mem_waysOfAny pathOf siblings start choices _ hchoice _ _ hpart
  | .capture name part => by
    intro stop b h
    cases h with
    | capture hpart =>
      obtain ⟨w, hw, rfl⟩ := exists_mem_ways pathOf siblings start part _ _ hpart
      simp only [ways, List.mem_map]
      exact ⟨_, ⟨w, hw, rfl⟩, rfl⟩
theorem exists_mem_waysInTurn (pathOf : Nat → Path) (siblings : List Tree) (start : Nat) :
    (ps : List Pattern) → ∀ stop b, Derives pathOf siblings (.sequence ps) start stop b →
      ∃ w ∈ waysInTurn pathOf siblings start ps, w.stop = stop
  | [] => by
    intro stop b h
    cases h with
    | sequenceNil => exact ⟨_, List.mem_singleton_self _, rfl⟩
  | p :: ps => by
    intro stop b h
    cases h with
    | sequenceCons hfirst hothers =>
      obtain ⟨u, hu, rfl⟩ := exists_mem_ways pathOf siblings start p _ _ hfirst
      obtain ⟨v, hv, rfl⟩ := exists_mem_waysInTurn pathOf siblings u.stop ps _ _ hothers
      simp only [waysInTurn, List.mem_flatMap, List.mem_map]
      exact ⟨_, ⟨u, hu, v, hv, rfl⟩, rfl⟩
theorem exists_mem_waysOfAny (pathOf : Nat → Path) (siblings : List Tree) (start : Nat) :
    (ps : List Pattern) → ∀ p ∈ ps, ∀ stop b, Derives pathOf siblings p start stop b →
      ∃ w ∈ waysOfAny pathOf siblings start ps, w.stop = stop
  | [] => by simp
  | p :: ps => by
    intro q hq stop b h
    simp only [waysOfAny, List.mem_append]
    rcases List.mem_cons.1 hq with hp | hq
    · obtain ⟨w, hw, hstop⟩ := exists_mem_ways pathOf siblings start p _ _ (hp ▸ h)
      exact ⟨w, .inl hw, hstop⟩
    · obtain ⟨w, hw, hstop⟩ := exists_mem_waysOfAny pathOf siblings start ps q hq _ _ h
      exact ⟨w, .inr hw, hstop⟩
end

/-- The captures of a match of a single element come from a derivation. -/
theorem derives_of_match? {p : Pattern} {t : Tree} {b : Bindings} (h : p.match? t = some b) :
    Derives (fun _ => []) [t] p 0 1 b := by
  obtain ⟨w, hw, rfl⟩ := Option.map_eq_some_iff.1 h
  have hstop : w.stop = 1 := by simpa using List.find?_some hw
  exact hstop ▸ derives_of_mem_ways _ _ _ p w (List.mem_of_find?_eq_some hw)

/-- A single element matches if that can be derived. -/
theorem exists_match? {p : Pattern} {t : Tree} {b : Bindings} (h : Derives (fun _ => []) [t] p 0 1 b) :
    ∃ c, p.match? t = some c := by
  obtain ⟨w, hw, hstop⟩ := exists_mem_ways _ _ _ p _ _ h
  obtain ⟨v, hv⟩ : ∃ v, (p.ways (fun _ => []) [t] 0).find? (·.stop = 1) = some v :=
    Option.isSome_iff_exists.1 (List.find?_isSome.2 ⟨w, hw, by simpa using hstop⟩)
  exact ⟨v.bindings, by simp [match?, hv]⟩

end Interpolation.Pattern

import Interpolation.Proofs.Pattern.Derivation
import Interpolation.Proofs.Text.Stretch
import Mathlib.Computability.Language
import Mathlib.Logic.Function.Basic

/-!
# The language of a pattern

A pattern stands for a set of runs of siblings, built from smaller ones by concatenation, union and powers. The matcher
stops where a run of the language stops, and nowhere else.

* `Pattern.language` — the runs of siblings that a pattern matches;
* `Pattern.Derives.mem_language`, `Pattern.exists_derives` — what is derived is the language, and all of it is derived;
* `Bindings.made` — what each name stands for after some captures, made one after the other;
* `Pattern.ways_language` — the matcher against the language.
-/

namespace Interpolation

/-- What each name stands for after some captures, made one after the other: of several captures of a name a later one
takes the place of an earlier one. -/
def Bindings.made (captures : List (String × Captured)) : String → Option Captured :=
  captures.foldl (fun bound capture => Function.update bound capture.1 (some capture.2)) fun _ => none

/-- The captures are kept the latest first, so that looking a name up finds the latest. -/
theorem Bindings.lookup_eq_made (b : Bindings) (name : String) : b.lookup name = Bindings.made b.reverse name := by
  induction b with
  | nil => rfl
  | cons capture b ih =>
    rw [made, List.reverse_cons, List.foldl_append, ← made, List.foldl_cons, List.foldl_nil, Function.update_apply,
      List.lookup_cons, ih]
    by_cases h : name = capture.1
    · rw [if_pos h, beq_iff_eq.2 h]
    · rw [if_neg h, beq_eq_false_iff_ne.2 h]

namespace Pattern

mutual
/-- The runs of siblings that a pattern matches. A repetition is made of runs that are not empty. -/
def language : Pattern → Language Tree
  | .leaf kind text => {ts | ∃ t : Token, ts = [.leaf t] ∧ t.kind = kind ∧ ∀ u ∈ text, t.text = u}
  | .node kind parts => {ts | ∃ cs ∈ languageInTurn parts, ts = [.node kind cs]}
  | .sequence parts => languageInTurn parts
  | .repeated part min max => {ts | ∃ k, min ≤ k ∧ (∀ m ∈ max, k ≤ m) ∧ ts ∈ (language part - 1) ^ k}
  | .anyOf choices => languageOfAny choices
  | .capture _ part => language part
/-- The runs that are made of runs of all patterns, one after the other. -/
def languageInTurn : List Pattern → Language Tree
  | [] => 1
  | p :: ps => language p * languageInTurn ps
/-- The runs of one of several patterns. -/
def languageOfAny : List Pattern → Language Tree
  | [] => 0
  | p :: ps => language p + languageOfAny ps
end

/-- A stretch is made of two runs where it can be cut between them. -/
theorem extract_mem_mul_iff {α : Type} {l : List α} {m n : Language α} {i k : Nat} (hik : i ≤ k) (hk : k ≤ l.length) :
    l.extract i k ∈ m * n ↔ ∃ j, i ≤ j ∧ j ≤ k ∧ l.extract i j ∈ m ∧ l.extract j k ∈ n := by
  constructor
  · rintro ⟨u, hu, v, hv, huv⟩
    have hlength := congrArg List.length huv
    rw [length_extract hk, List.length_append] at hlength
    have hcut : l.extract i (i + u.length) ++ l.extract (i + u.length) k = u ++ v := by
      rw [extract_append_extract (by omega) (by omega)]
      exact huv.symm
    obtain ⟨hleft, hright⟩ := List.append_inj hcut (by rw [length_extract (by omega)]; omega)
    exact ⟨i + u.length, by omega, by omega, by rwa [hleft], by rwa [hright]⟩
  · rintro ⟨j, hij, hjk, hm, hn⟩
    rw [← extract_append_extract hij hjk]
    exact Language.append_mem_mul hm hn

/-! ## The language and the derivations -/

section Derivations

variable {pathOf : Nat → Path} {siblings : List Tree} {p : Pattern} {i j : Nat} {b : Bindings}

theorem mem_languageOfAny {ps : List Pattern} {ts : List Tree} :
    ts ∈ languageOfAny ps ↔ ∃ p ∈ ps, ts ∈ p.language := by
  induction ps with
  | nil => simp [languageOfAny]
  | cons p ps ih => simp [languageOfAny, Language.mem_add, ih]

/-- What is derived is a run of the language. -/
theorem Derives.mem_language (h : Derives pathOf siblings p i j b) : siblings.extract i j ∈ p.language := by
  induction h with
  | leaf here same spelled => exact ⟨_, extract_succ here, same, spelled⟩
  | @node _ _ cs _ _ _ _ here _ ih =>
    rw [extract_length] at ih
    exact ⟨cs, ih, extract_succ here⟩
  | sequenceNil => exact extract_self _ _
  | sequenceCons first others ih ih' =>
    rw [← extract_append_extract first.le others.le]
    exact Language.append_mem_mul ih ih'
  | repeatedNone => exact ⟨0, Nat.le_refl 0, fun _ _ => Nat.zero_le _, extract_self _ _⟩
  | @repeatedMore _ _ _ min max i j k _ _ room first moves others ih ih' =>
    obtain ⟨n, hmin, hmax, hrun⟩ := ih'
    refine ⟨n + 1, by omega, fun m hm => ?_, ?_⟩
    · obtain rfl := Option.mem_def.1 hm
      have hroom : m ≠ 0 := by simpa using room
      have := hmax (m - 1) rfl
      omega
    · have hfull : _ ∉ (1 : Language Tree) := fun hnil =>
        absurd (eq_of_extract_eq_nil first.le (first.le_length moves) hnil) (by omega)
      rw [pow_succ', ← extract_append_extract first.le others.le]
      exact Language.append_mem_mul ⟨ih, hfull⟩ hrun
  | anyOf choice _ ih => exact mem_languageOfAny.2 ⟨_, choice, ih⟩
  | capture _ ih => exact ih

/-- So many runs of a part are a repetition of it. -/
theorem exists_derives_repeated {part : Pattern} (hpart : ∀ i j, i ≤ j → j ≤ siblings.length →
    siblings.extract i j ∈ part.language → ∃ b, Derives pathOf siblings part i j b) {n min : Nat} {max : Option Nat}
    (hmin : min ≤ n) (hmax : ∀ m ∈ max, n ≤ m) (hij : i ≤ j) (hj : j ≤ siblings.length)
    (h : siblings.extract i j ∈ (part.language - 1) ^ n) :
    ∃ b, Derives pathOf siblings (.repeated part min max) i j b := by
  induction n generalizing min max i with
  | zero =>
    obtain rfl := eq_of_extract_eq_nil hij hj h
    obtain rfl := Nat.le_zero.1 hmin
    exact ⟨[], .repeatedNone⟩
  | succ n ih =>
    rw [pow_succ', extract_mem_mul_iff hij hj] at h
    obtain ⟨k, hik, hkj, ⟨hfirst, hfull⟩, hothers⟩ := h
    obtain ⟨b, hb⟩ := hpart i k hik (by omega) hfirst
    have hmoves : i < k := by
      refine Nat.lt_of_le_of_ne hik ?_
      rintro rfl
      exact hfull (extract_self siblings i)
    have hroom : max ≠ some 0 := by
      rintro rfl
      exact absurd (hmax 0 rfl) (by omega)
    obtain ⟨c, hc⟩ : ∃ c, Derives pathOf siblings (.repeated part (min - 1) (max.map (· - 1))) k j c := by
      refine ih (by omega) (fun m hm => ?_) hkj hothers
      obtain ⟨m', hm', rfl⟩ := Option.map_eq_some_iff.1 hm
      have := hmax m' hm'
      omega
    exact ⟨c ++ b, .repeatedMore hroom hb hmoves hc⟩

mutual
/-- Every run of the language is derived. -/
theorem exists_derives (pathOf : Nat → Path) (siblings : List Tree) : (p : Pattern) → ∀ i j, i ≤ j →
    j ≤ siblings.length → siblings.extract i j ∈ p.language → ∃ b, Derives pathOf siblings p i j b
  | .leaf kind text => by
    rintro i j - hj ⟨t, hrun, hkind, htext⟩
    obtain ⟨rfl, hhere⟩ := of_extract_eq_singleton hj hrun
    exact ⟨[], .leaf hhere hkind htext⟩
  | .node kind parts => by
    rintro i j - hj ⟨cs, hchildren, hrun⟩
    obtain ⟨rfl, hhere⟩ := of_extract_eq_singleton hj hrun
    obtain ⟨b, hb⟩ := exists_derives_inTurn (fun k => pathOf i ++ [k]) cs parts 0 cs.length (Nat.zero_le _)
      (Nat.le_refl _) (by rwa [extract_length])
    exact ⟨b, .node hhere hb⟩
  | .sequence parts => exists_derives_inTurn pathOf siblings parts
  | .repeated part min max => by
    rintro i j hij hj ⟨n, hmin, hmax, hruns⟩
    exact exists_derives_repeated (exists_derives pathOf siblings part) hmin hmax hij hj hruns
  | .anyOf choices => exists_derives_ofAny pathOf siblings choices
  | .capture name part => by
    intro i j hij hj h
    obtain ⟨b, hb⟩ := exists_derives pathOf siblings part i j hij hj h
    exact ⟨_, .capture hb⟩
theorem exists_derives_inTurn (pathOf : Nat → Path) (siblings : List Tree) : (ps : List Pattern) → ∀ i j, i ≤ j →
    j ≤ siblings.length → siblings.extract i j ∈ languageInTurn ps → ∃ b, Derives pathOf siblings (.sequence ps) i j b
  | [] => by
    intro i j hij hj h
    obtain rfl := eq_of_extract_eq_nil hij hj h
    exact ⟨[], .sequenceNil⟩
  | p :: ps => by
    intro i k hik hk h
    obtain ⟨j, hij, hjk, hfirst, hothers⟩ := (extract_mem_mul_iff hik hk).1 h
    obtain ⟨b, hb⟩ := exists_derives pathOf siblings p i j hij (by omega) hfirst
    obtain ⟨c, hc⟩ := exists_derives_inTurn pathOf siblings ps j k hjk hk hothers
    exact ⟨c ++ b, .sequenceCons hb hc⟩
theorem exists_derives_ofAny (pathOf : Nat → Path) (siblings : List Tree) : (ps : List Pattern) → ∀ i j, i ≤ j →
    j ≤ siblings.length → siblings.extract i j ∈ languageOfAny ps → ∃ b, Derives pathOf siblings (.anyOf ps) i j b
  | [] => fun _ _ _ _ h => absurd h (Language.notMem_zero _)
  | p :: ps => by
    intro i j hij hj h
    rcases h with h | h
    · obtain ⟨b, hb⟩ := exists_derives pathOf siblings p i j hij hj h
      exact ⟨b, .anyOf List.mem_cons_self hb⟩
    · obtain ⟨b, hb⟩ := exists_derives_ofAny pathOf siblings ps i j hij hj h
      cases hb with
      | anyOf choice part => exact ⟨b, .anyOf (List.mem_cons_of_mem _ choice) part⟩
end

end Derivations

/-! ## The matcher -/

/-- The matcher stops where a run of the language stops, and nowhere else; what it binds is captured along a derivation,
a later capture of a name taking the place of an earlier one; and a single element matches if and only if it is a run of
the language. -/
theorem ways_language (p : Pattern) (pathOf : Nat → Path) {siblings : List Tree} {start : Nat}
    (hstart : start ≤ siblings.length) :
    (∀ stop, (∃ w ∈ p.ways pathOf siblings start, w.stop = stop) ↔
      start ≤ stop ∧ stop ≤ siblings.length ∧ siblings.extract start stop ∈ p.language) ∧
    (∀ w ∈ p.ways pathOf siblings start, Derives pathOf siblings p start w.stop w.bindings ∧
      ∀ name, w.bindings.lookup name = Bindings.made w.bindings.reverse name) ∧
    ∀ t, (p.match? t).isSome = true ↔ [t] ∈ p.language := by
  refine ⟨fun stop => ⟨?_, ?_⟩, fun w hw => ⟨derives_of_mem_ways pathOf siblings start p w hw,
    Bindings.lookup_eq_made w.bindings⟩, fun t => ⟨fun h => ?_, fun h => ?_⟩⟩
  · rintro ⟨w, hw, rfl⟩
    have hderives := derives_of_mem_ways pathOf siblings start p w hw
    have hle := hderives.le
    refine ⟨hle, ?_, hderives.mem_language⟩
    by_cases hmoves : start < w.stop
    · exact hderives.le_length hmoves
    · omega
  · rintro ⟨hle, hstop, hrun⟩
    obtain ⟨b, hb⟩ := exists_derives pathOf siblings p start stop hle hstop hrun
    exact exists_mem_ways pathOf siblings start p stop b hb
  · obtain ⟨b, hb⟩ := Option.isSome_iff_exists.1 h
    exact (derives_of_match? hb).mem_language
  · obtain ⟨b, hb⟩ := exists_derives (fun _ => []) [t] p 0 1 (Nat.zero_le 1) (Nat.le_refl 1) h
    obtain ⟨c, hc⟩ := exists_match? hb
    rw [hc]
    rfl

/-- Names with a comma behind each of them: the matcher can stop behind every comma, and behind no name. -/
theorem ways_language_pairs :
    let name (c : Char) : Tree := .leaf ⟨.name, [], [c]⟩
    let comma : Tree := .leaf ⟨.operator, [], [',']⟩
    let siblings := [name 'x', comma, name 'y', comma, name 'z']
    let pairs := capture "head" (repeated (sequence [token .name, operator [',']]) 1 none)
    0 ≤ siblings.length ∧ (∃ w ∈ pairs.ways (fun i => [i]) siblings 0, w.stop = 4) ∧
      siblings.extract 0 4 ∈ pairs.language ∧ siblings.extract 0 3 ∉ pairs.language := by
  intro name comma siblings pairs
  have hstart : 0 ≤ siblings.length := Nat.zero_le _
  have hstops := (ways_language pairs (fun i => [i]) hstart).1
  have hpairs : ∃ w ∈ pairs.ways (fun i => [i]) siblings 0, w.stop = 4 := by decide +kernel
  have hname : ¬ ∃ w ∈ pairs.ways (fun i => [i]) siblings 0, w.stop = 3 := by decide +kernel
  exact ⟨hstart, hpairs, ((hstops 4).1 hpairs).2.2, fun hrun => hname ((hstops 3).2 ⟨by decide, by decide, hrun⟩)⟩

end Pattern

end Interpolation

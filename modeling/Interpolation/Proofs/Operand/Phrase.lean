import Interpolation.Tree.Operand
import Mathlib.Data.List.TakeWhile
import Mathlib.Tactic.ByContra

/-!
# The phrases of an operand

The grammar of operands as relations between a run of siblings and what it is grouped into, one relation for each
rule, and the readers of `Interpolation.Tree.Operand` measured by it.

* `AtomPhrase`, `TrailerPhrases`, `PrimaryPhrase`, `FactorPhrase`, `ProductPhrases`, `TermPhrase` — the rules;
* `startsFactor`, `startsTrailer`, `startsOperator` — what can start a factor, and what can go on behind an operand;
* `atom?_sound`, …, `term?_sound` — a reader takes a phrase of its rule, and nothing that could go on is left behind it;
* `factor?_eq_none_iff`, `term?_eq_none_iff` — a reader fails only where no factor starts;
* `IsSimple`, `TermPhrase.eq_singleton` — trees that no phrase puts together.
-/

namespace Interpolation.Tree

/-! ## The rules -/

/-- One element of a rule `atom`, or strings that stand side by side. -/
inductive AtomPhrase : List Tree → Tree → Prop
  | single {t : Tree} (atom : t.isAtom) (other : t.isToken .string = false) : AtomPhrase [t] t
  | strings {t : Tree} {ts : List Tree} (all : ∀ s ∈ t :: ts, s.isToken .string) :
      AtomPhrase (t :: ts) (collapse .atom (t :: ts))

/-- A call, a subscript or a dotted name. -/
inductive TrailerPhrase : List Tree → Tree → Prop
  | group {t : Tree} (group : t.isCallOrSubscript) : TrailerPhrase [t] t.asTrailer
  | member {dot name : Tree} (dotted : dot.isOperator ['.']) (named : name.isToken .name) :
      TrailerPhrase [dot, name] (.node .trailer [dot, name])

/-- Any number of trailers. -/
inductive TrailerPhrases : List Tree → List Tree → Prop
  | nil : TrailerPhrases [] []
  | cons {us vs ts : List Tree} {t : Tree} (first : TrailerPhrase us t) (others : TrailerPhrases vs ts) :
      TrailerPhrases (us ++ vs) (t :: ts)

/-- An atom with its trailers, `await` in front of it or not. -/
inductive PrimaryPhrase : List Tree → List Tree → Prop
  | plain {us vs ts : List Tree} {a : Tree} (atom : AtomPhrase us a) (trailers : TrailerPhrases vs ts) :
      PrimaryPhrase (us ++ vs) (a :: ts)
  | awaited {us vs ts : List Tree} {w a : Tree} (await : w.isAwait) (atom : AtomPhrase us a)
      (trailers : TrailerPhrases vs ts) : PrimaryPhrase (w :: (us ++ vs)) (w :: a :: ts)

/-- A factor: signs, a primary and perhaps an exponent. -/
inductive FactorPhrase : List Tree → Tree → Prop
  | signed {us : List Tree} {s t : Tree} (sign : s.isSign) (operand : FactorPhrase us t) :
      FactorPhrase (s :: us) (.node .factor [s, t])
  | primary {us ts : List Tree} (primary : PrimaryPhrase us ts) : FactorPhrase us (collapse .power ts)
  | power {us vs ts : List Tree} {op t : Tree} (base : PrimaryPhrase us ts) (power : op.isPower)
      (exponent : FactorPhrase vs t) : FactorPhrase (us ++ op :: vs) (.node .power (ts ++ [op, t]))

/-- Multiplicative operators, each with its right operand. -/
inductive ProductPhrases : List Tree → List Tree → Prop
  | nil : ProductPhrases [] []
  | cons {us vs ts : List Tree} {op f : Tree} (multiplicative : op.isMultiplicative) (right : FactorPhrase us f)
      (others : ProductPhrases vs ts) : ProductPhrases (op :: (us ++ vs)) (op :: f :: ts)

/-- A term. -/
inductive TermPhrase : List Tree → Tree → Prop
  | intro {us vs ts : List Tree} {f : Tree} (first : FactorPhrase us f) (others : ProductPhrases vs ts) :
      TermPhrase (us ++ vs) (collapse .term (f :: ts))

/-! ## What can go on behind an operand -/

/-- Whether a factor starts here: signs, and then an atom or `await` with an atom. -/
def startsFactor : List Tree → Bool
  | [] => false
  | t :: ts => if t.isSign then startsFactor ts else if t.isAwait then ts.head?.any isAtom else t.isAtom

/-- Whether a trailer starts here. -/
def startsTrailer : List Tree → Bool
  | [] => false
  | t :: ts => t.isCallOrSubscript || (t.isOperator ['.'] && ts.head?.any (isToken .name))

/-- Whether an operator of the class `p` with a right operand stands here. -/
def startsOperator (p : Tree → Bool) : List Tree → Bool
  | [] => false
  | t :: ts => p t && startsFactor ts

/-- Whether the last sibling is of the class `p`. -/
def endsWith (p : Tree → Bool) (ts : List Tree) : Bool := ts.getLast?.any p

/-- The siblings `ts` are a whole primary in front of `rest`: neither a string nor a trailer goes on with it. -/
structure PrimaryEnds (ts rest : List Tree) : Prop where
  string : endsWith (isToken .string) ts → rest.head?.any (isToken .string) = false
  trailer : startsTrailer rest = false

/-- The siblings `ts` are a whole factor in front of `rest`: no exponent goes on with it either. -/
structure FactorEnds (ts rest : List Tree) : Prop extends PrimaryEnds ts rest where
  power : startsOperator isPower rest = false

/-- The siblings `ts` are a whole term in front of `rest`: no multiplication goes on with it either. -/
structure TermEnds (ts rest : List Tree) : Prop extends FactorEnds ts rest where
  product : startsOperator isMultiplicative rest = false

theorem endsWith_append {p : Tree → Bool} {us : List Tree} (vs : List Tree) (h : us ≠ []) :
    endsWith p (vs ++ us) = endsWith p us := by
  obtain ⟨u, hu⟩ := List.getLast?_isSome.2 h |> Option.isSome_iff_exists.1
  simp [endsWith, List.getLast?_append, hu]

/-! ## The classes of siblings exclude each other -/

theorem isAtom_of_isString {t : Tree} (h : t.isToken .string = true) : t.isAtom = true := by
  cases t with
  | leaf t => simp_all [isToken, isAtom]
  | node k cs => simp [isToken] at h

theorem isAtom_of_isCallOrSubscript {t : Tree} (h : t.isCallOrSubscript = true) : t.isAtom = true := by
  unfold isCallOrSubscript at h
  split at h
  · simp [isAtom]
  · simp at h

theorem not_isAtom_of_isOperator {t : Tree} {op : Text} (h : t.isOperator op = true) (hop : op ≠ ['.', '.', '.']) :
    t.isAtom = false := by
  cases t with
  | leaf t =>
    simp only [isOperator, Token.isOperator, Bool.and_eq_true, decide_eq_true_eq] at h
    simp [isAtom, Token.isOperator, h, hop]
  | node k cs => simp [isOperator] at h

theorem not_isAtom_of_isSign {t : Tree} (h : t.isSign = true) : t.isAtom = false := by
  simp only [isSign, List.any_cons, List.any_nil, Bool.or_false, Bool.or_eq_true] at h
  rcases h with h | h | h <;> exact not_isAtom_of_isOperator h (by decide)

theorem not_isAtom_of_isMultiplicative {t : Tree} (h : t.isMultiplicative = true) : t.isAtom = false := by
  simp only [isMultiplicative, List.any_cons, List.any_nil, Bool.or_false, Bool.or_eq_true] at h
  rcases h with h | h | h | h | h <;> exact not_isAtom_of_isOperator h (by decide)

theorem not_isAtom_of_isPower {t : Tree} (h : t.isPower = true) : t.isAtom = false :=
  not_isAtom_of_isOperator h (by decide)

theorem not_isAtom_of_isAwait {t : Tree} (h : t.isAwait = true) : t.isAtom = false := by
  cases t with
  | leaf t =>
    simp only [isAwait, isKeyword, Bool.and_eq_true, decide_eq_true_eq] at h
    simp [isAtom, Token.isOperator, h.1]
  | node k cs => simp [isAwait, isKeyword] at h

theorem isSign_eq_false_of_isAtom {t : Tree} (h : t.isAtom = true) : t.isSign = false := by
  by_contra hs
  simp [not_isAtom_of_isSign (by simpa using hs)] at h

theorem isAwait_eq_false_of_isAtom {t : Tree} (h : t.isAtom = true) : t.isAwait = false := by
  by_contra hw
  simp [not_isAtom_of_isAwait (by simpa using hw)] at h

theorem startsFactor_cons_of_isAtom {t : Tree} (h : t.isAtom = true) (ts : List Tree) :
    startsFactor (t :: ts) = true := by
  simp [startsFactor, isSign_eq_false_of_isAtom h, isAwait_eq_false_of_isAtom h, h]

/-! ## What the readers take -/

theorem atom?_eq_none_iff {ts : List Tree} : atom? ts = none ↔ ts.head?.any isAtom = false := by
  cases ts with
  | nil => simp [atom?]
  | cons t ts =>
    by_cases h : t.isAtom
    · by_cases hs : t.isToken .string <;> simp [atom?, h, hs]
    · simp [atom?, h]

theorem atom?_sound {ts rest : List Tree} {a : Tree} (h : atom? ts = some (a, rest)) :
    ∃ us, ts = us ++ rest ∧ AtomPhrase us a ∧
      (endsWith (isToken .string) us → rest.head?.any (isToken .string) = false) := by
  cases ts with
  | nil => simp [atom?] at h
  | cons t ts =>
    simp only [atom?] at h
    split at h
    · simp at h
    · next hatom =>
      split at h
      · next hstring =>
        simp only [Option.some.injEq, Prod.mk.injEq] at h
        obtain ⟨rfl, rfl⟩ := h
        refine ⟨t :: ts.takeWhile (isToken .string), by simp [List.takeWhile_append_dropWhile], .strings ?_, ?_⟩
        · intro s hs
          rcases List.mem_cons.1 hs with rfl | hs
          · exact hstring
          · exact List.mem_takeWhile_imp hs
        · intro _
          have := List.head?_dropWhile_not (isToken .string) ts
          cases hd : (ts.dropWhile (isToken .string)).head? with
          | none => rfl
          | some u => simpa [hd] using this
      · next hstring =>
        simp only [Option.some.injEq, Prod.mk.injEq] at h
        obtain ⟨rfl, rfl⟩ := h
        exact ⟨[t], rfl, .single (by simpa using hatom) (by simpa using hstring), fun he => by
          simp [endsWith] at he; exact absurd he hstring⟩

theorem trailers_sound (ts : List Tree) :
    ∃ us, ts = us ++ (trailers ts).2 ∧ TrailerPhrases us (trailers ts).1 ∧ startsTrailer (trailers ts).2 = false := by
  fun_induction trailers ts with
  | case1 => exact ⟨[], rfl, .nil, rfl⟩
  | case2 t ts hgroup ih =>
    obtain ⟨us, hus, htrailers, hends⟩ := ih
    refine ⟨t :: us, by simp [← hus], ?_, hends⟩
    exact TrailerPhrases.cons (.group hgroup) htrailers
  | case3 t hgroup => exact ⟨[], rfl, .nil, by simp [startsTrailer, hgroup]⟩
  | case4 t hgroup n ts hdotted ih =>
    obtain ⟨us, hus, htrailers, hends⟩ := ih
    simp only [Bool.and_eq_true] at hdotted
    refine ⟨t :: n :: us, by simp [← hus], ?_, hends⟩
    exact TrailerPhrases.cons (.member hdotted.1 hdotted.2) htrailers
  | case5 t hgroup n ts hdotted =>
    exact ⟨[], rfl, .nil, by simpa [startsTrailer, hgroup] using hdotted⟩

/-! ## How a phrase ends -/

theorem AtomPhrase.ne_nil {us : List Tree} {a : Tree} (h : AtomPhrase us a) : us ≠ [] := by
  cases h <;> simp

theorem AtomPhrase.endsWith_isAtom {us : List Tree} {a : Tree} (h : AtomPhrase us a) : endsWith isAtom us = true := by
  cases h with
  | single hatom _ => simpa [endsWith] using hatom
  | @strings t ts all =>
    have hlast := List.getLast_mem (List.cons_ne_nil t ts)
    rw [endsWith, List.getLast?_eq_some_getLast (List.cons_ne_nil t ts)]
    exact isAtom_of_isString (all _ hlast)

theorem TrailerPhrase.endsWith_isAtom {us : List Tree} {t : Tree} (h : TrailerPhrase us t) :
    endsWith isAtom us = true := by
  cases h with
  | group hgroup => exact isAtom_of_isCallOrSubscript hgroup
  | @member dot name hdotted hnamed =>
    cases name with
    | leaf t => simp_all [endsWith, isToken, isAtom]
    | node k cs => simp [isToken] at hnamed

theorem TrailerPhrase.not_endsWith_string {us : List Tree} {t : Tree} (h : TrailerPhrase us t) :
    endsWith (isToken .string) us = false := by
  cases h with
  | @group t hgroup =>
    cases t with
    | leaf t => simp [isCallOrSubscript] at hgroup
    | node k cs => rfl
  | @member dot name hdotted hnamed =>
    cases name with
    | leaf t => simp_all [endsWith, isToken]
    | node k cs => simp [isToken] at hnamed

theorem TrailerPhrases.ends {us ts : List Tree} (h : TrailerPhrases us ts) :
    us = [] ∨ (endsWith isAtom us = true ∧ endsWith (isToken .string) us = false) := by
  induction h with
  | nil => exact .inl rfl
  | @cons us vs ts t hfirst _ ih =>
    right
    rcases ih with rfl | ⟨hatom, hstring⟩
    · simpa using ⟨hfirst.endsWith_isAtom, hfirst.not_endsWith_string⟩
    · have hvs : vs ≠ [] := by
        rintro rfl
        simp [endsWith] at hatom
      exact ⟨by rw [endsWith_append _ hvs, hatom], by rw [endsWith_append _ hvs, hstring]⟩

theorem endsWith_cons {p : Tree → Bool} {us : List Tree} (u : Tree) (h : us ≠ []) :
    endsWith p (u :: us) = endsWith p us := endsWith_append [u] h

theorem PrimaryPhrase.endsWith_isAtom {us ts : List Tree} (h : PrimaryPhrase us ts) : endsWith isAtom us = true := by
  have key : ∀ {us vs ts : List Tree} {a : Tree}, AtomPhrase us a → TrailerPhrases vs ts →
      endsWith isAtom (us ++ vs) = true := by
    intro us vs ts a hatom htrailers
    rcases htrailers.ends with rfl | ⟨hvs, _⟩
    · rw [List.append_nil]
      exact hatom.endsWith_isAtom
    · rw [endsWith_append _ (by rintro rfl; simp [endsWith] at hvs), hvs]
  cases h with
  | plain hatom htrailers => exact key hatom htrailers
  | awaited _ hatom htrailers =>
    rw [endsWith_cons _ (by simp [hatom.ne_nil])]
    exact key hatom htrailers

theorem ne_nil_of_endsWith {p : Tree → Bool} {us : List Tree} (h : endsWith p us = true) : us ≠ [] := by
  rintro rfl
  simp [endsWith] at h

theorem FactorPhrase.endsWith_isAtom {us : List Tree} {t : Tree} (h : FactorPhrase us t) :
    endsWith isAtom us = true := by
  induction h with
  | signed _ _ ih => rw [endsWith_cons _ (ne_nil_of_endsWith ih), ih]
  | primary hprimary => exact hprimary.endsWith_isAtom
  | power _ _ _ ih => rw [endsWith_append _ (by simp), endsWith_cons _ (ne_nil_of_endsWith ih), ih]

theorem ProductPhrases.endsWith_isAtom {us ts : List Tree} (h : ProductPhrases us ts) :
    us = [] ∨ endsWith isAtom us = true := by
  induction h with
  | nil => exact .inl rfl
  | @cons us vs ts op f _ hright _ ih =>
    right
    rw [endsWith_cons _ (by simp [ne_nil_of_endsWith hright.endsWith_isAtom])]
    rcases ih with rfl | hvs
    · rw [List.append_nil]
      exact hright.endsWith_isAtom
    · rw [endsWith_append _ (ne_nil_of_endsWith hvs), hvs]

theorem TermPhrase.endsWith_isAtom {us : List Tree} {t : Tree} (h : TermPhrase us t) : endsWith isAtom us = true := by
  obtain ⟨hfirst, hothers⟩ := h
  rcases hothers.endsWith_isAtom with rfl | hvs
  · rw [List.append_nil]
    exact hfirst.endsWith_isAtom
  · rw [endsWith_append _ (ne_nil_of_endsWith hvs), hvs]

/-! ## Primaries, factors and terms -/

theorem primary?_sound {ts rest ps : List Tree} (h : primary? ts = some (ps, rest)) :
    ∃ us, ts = us ++ rest ∧ PrimaryPhrase us ps ∧ PrimaryEnds us rest := by
  -- An atom with its trailers ends like its last trailer, or like the atom if there is none.
  have key : ∀ {ts r : List Tree} {a : Tree}, atom? ts = some (a, r) → ∃ us vs, ts = (us ++ vs) ++ (trailers r).2 ∧
      AtomPhrase us a ∧ TrailerPhrases vs (trailers r).1 ∧ PrimaryEnds (us ++ vs) (trailers r).2 := by
    intro ts r a ha
    obtain ⟨us, rfl, hatom, hstring⟩ := atom?_sound ha
    obtain ⟨vs, hvs, htrailers, hends⟩ := trailers_sound r
    refine ⟨us, vs, by rw [List.append_assoc, ← hvs], hatom, htrailers, ⟨?_, hends⟩⟩
    intro he
    rcases htrailers.ends with rfl | ⟨hlast, hno⟩
    · rw [List.append_nil] at he
      rw [List.nil_append] at hvs
      rw [← hvs]
      exact hstring he
    · rw [endsWith_append _ (ne_nil_of_endsWith hlast), hno] at he
      exact absurd he (by simp)
  cases ts with
  | nil => simp [primary?] at h
  | cons t ts =>
    simp only [primary?] at h
    split at h
    · next hawait =>
      obtain ⟨⟨a, r⟩, ha, h⟩ := Option.map_eq_some_iff.1 h
      simp only [Prod.mk.injEq] at h
      obtain ⟨rfl, rfl⟩ := h
      obtain ⟨us, vs, hts, hatom, htrailers, hstring, htrailer⟩ := key ha
      refine ⟨t :: (us ++ vs), by rw [hts]; rfl, .awaited hawait hatom htrailers, ⟨?_, htrailer⟩⟩
      rwa [endsWith_cons _ (by simp [hatom.ne_nil])]
    · obtain ⟨⟨a, r⟩, ha, h⟩ := Option.map_eq_some_iff.1 h
      simp only [Prod.mk.injEq] at h
      obtain ⟨rfl, rfl⟩ := h
      obtain ⟨us, vs, hts, hatom, htrailers, hends⟩ := key ha
      exact ⟨us ++ vs, hts, .plain hatom htrailers, hends⟩

theorem primary?_eq_none_iff {t : Tree} {ts : List Tree} (hsign : t.isSign = false) :
    primary? (t :: ts) = none ↔ startsFactor (t :: ts) = false := by
  by_cases hawait : t.isAwait
  · simp [primary?, hawait, startsFactor, hsign, atom?_eq_none_iff]
  · simp [primary?, hawait, startsFactor, hsign, atom?_eq_none_iff]

theorem factor?_eq_none_iff {ts : List Tree} : factor? ts = none ↔ startsFactor ts = false := by
  fun_induction factor? ts with
  | case1 => simp [startsFactor]
  | case2 t ts hsign ih => simp [startsFactor, hsign, ih]
  | case3 t ts hsign h => simpa using (primary?_eq_none_iff (by simpa using hsign)).1 h
  | case4 t ts hsign parts h =>
    simp only [reduceCtorEq, false_iff, Bool.not_eq_false]
    by_contra hf
    simp [(primary?_eq_none_iff (by simpa using hsign)).2 (by simpa using hf)] at h
  | case5 t ts hsign parts op r h exponent r' hf _ =>
    simp only [reduceCtorEq, false_iff, Bool.not_eq_false]
    by_contra hf
    simp [(primary?_eq_none_iff (by simpa using hsign)).2 (by simpa using hf)] at h
  | case6 t ts hsign parts op r h hf _ =>
    simp only [reduceCtorEq, false_iff, Bool.not_eq_false]
    by_contra hf
    simp [(primary?_eq_none_iff (by simpa using hsign)).2 (by simpa using hf)] at h

theorem factor?_sound {ts rest : List Tree} {t : Tree} (h : factor? ts = some (t, rest)) :
    ∃ us, ts = us ++ rest ∧ FactorPhrase us t ∧ FactorEnds us rest := by
  fun_induction factor? ts generalizing t rest with
  | case1 => simp at h
  | case2 s ts hsign ih =>
    obtain ⟨⟨operand, r⟩, hf, h⟩ := Option.map_eq_some_iff.1 h
    simp only [Prod.mk.injEq] at h
    obtain ⟨rfl, rfl⟩ := h
    obtain ⟨us, rfl, hoperand, ⟨hstring, htrailer⟩, hpower⟩ := ih hf
    refine ⟨s :: us, rfl, .signed hsign hoperand, ⟨?_, htrailer⟩, hpower⟩
    rwa [endsWith_cons _ (ne_nil_of_endsWith hoperand.endsWith_isAtom)]
  | case3 => simp at h
  | case4 s ts _ parts hp =>
    simp only [Option.some.injEq, Prod.mk.injEq] at h
    obtain ⟨rfl, rfl⟩ := h
    obtain ⟨us, hts, hprimary, hends⟩ := primary?_sound hp
    exact ⟨us, hts, .primary hprimary, hends, rfl⟩
  | case5 s ts _ parts op r hp exponent r' hf ih =>
    simp only [Option.some.injEq, Prod.mk.injEq] at h
    obtain ⟨rfl, rfl⟩ := h
    obtain ⟨us, hts, hprimary, _⟩ := primary?_sound hp
    split at hf
    · next hpower =>
      obtain ⟨vs, rfl, hexponent, ⟨hstring, htrailer⟩, hno⟩ := ih hf
      refine ⟨us ++ op :: vs, by rw [hts]; simp, .power hprimary hpower hexponent, ⟨?_, htrailer⟩, hno⟩
      rwa [endsWith_append _ (by simp), endsWith_cons _ (ne_nil_of_endsWith hexponent.endsWith_isAtom)]
    · simp at hf
  | case6 s ts _ parts op r hp hf _ =>
    simp only [Option.some.injEq, Prod.mk.injEq] at h
    obtain ⟨rfl, rfl⟩ := h
    obtain ⟨us, hts, hprimary, hends⟩ := primary?_sound hp
    refine ⟨us, hts, .primary hprimary, hends, ?_⟩
    by_cases hpower : op.isPower
    · simp only [hpower] at hf
      simp [startsOperator, factor?_eq_none_iff.1 hf]
    · simp [startsOperator, hpower]

theorem multiplied_sound (ts : List Tree) :
    ∃ us, ts = us ++ (multiplied ts).2 ∧ ProductPhrases us (multiplied ts).1 ∧
      startsOperator isMultiplicative (multiplied ts).2 = false ∧
      (us ≠ [] → FactorEnds us (multiplied ts).2) := by
  fun_induction multiplied ts with
  | case1 => exact ⟨[], rfl, .nil, rfl, by simp⟩
  | case2 op ts f rest h ih =>
    obtain ⟨vs, hvs, hothers, hproduct, hends⟩ := ih
    split at h
    · next hop =>
      obtain ⟨us, rfl, hright, ⟨hstring, htrailer⟩, hpower⟩ := factor?_sound h
      have hus := ne_nil_of_endsWith hright.endsWith_isAtom
      refine ⟨op :: (us ++ vs), by rw [List.cons_append, List.append_assoc, ← hvs], .cons hop hright hothers,
        hproduct, fun _ => ?_⟩
      by_cases hempty : vs = []
      · subst hempty
        rw [List.nil_append] at hvs
        rw [← hvs]
        refine ⟨⟨?_, htrailer⟩, hpower⟩
        rwa [List.append_nil, endsWith_cons _ hus]
      · obtain ⟨⟨hstring', htrailer'⟩, hpower'⟩ := hends hempty
        refine ⟨⟨?_, htrailer'⟩, hpower'⟩
        rwa [endsWith_cons _ (by simp [hus]), endsWith_append _ hempty]
    · simp at h
  | case3 op ts h =>
    refine ⟨[], rfl, .nil, ?_, by simp⟩
    by_cases hop : op.isMultiplicative
    · simp only [hop] at h
      simp [startsOperator, factor?_eq_none_iff.1 h]
    · simp [startsOperator, hop]

theorem term?_eq_none_iff {ts : List Tree} : term? ts = none ↔ startsFactor ts = false := by
  simp [term?, factor?_eq_none_iff]

theorem term?_sound {ts rest : List Tree} {t : Tree} (h : term? ts = some (t, rest)) :
    ∃ us, ts = us ++ rest ∧ TermPhrase us t ∧ TermEnds us rest := by
  obtain ⟨⟨f, r⟩, hf, h⟩ := Option.map_eq_some_iff.1 h
  simp only [Prod.mk.injEq] at h
  obtain ⟨rfl, rfl⟩ := h
  obtain ⟨us, rfl, hfirst, hends⟩ := factor?_sound hf
  obtain ⟨vs, hvs, hothers, hproduct, hends'⟩ := multiplied_sound r
  refine ⟨us ++ vs, by rw [List.append_assoc, ← hvs], .intro hfirst hothers, ?_, hproduct⟩
  by_cases hempty : vs = []
  · subst hempty
    rw [List.nil_append] at hvs
    rw [List.append_nil, ← hvs]
    exact hends
  · obtain ⟨⟨hstring, htrailer⟩, hpower⟩ := hends' hempty
    exact ⟨⟨by rwa [endsWith_append _ hempty], htrailer⟩, hpower⟩

/-! ## What is not put together -/

/-- A tree that is not put together by grouping. -/
structure IsSimple (t : Tree) : Prop where
  kind : t.kind? ≠ some .factor ∧ t.kind? ≠ some .power ∧ t.kind? ≠ some .term
  string : t.children.head?.any (isToken .string) = false

theorem isSimple_leaf (u : Token) : IsSimple (leaf u) := ⟨by simp [kind?], rfl⟩

theorem collapse_eq {k : NodeKind} {ts : List Tree} {t : Tree} (h : collapse k ts = t) (hk : t.kind? ≠ some k) :
    ts = [t] := by
  unfold collapse at h
  split at h
  · rw [h]
  · rw [← h] at hk
    exact absurd rfl hk

theorem AtomPhrase.eq_singleton {us : List Tree} {t : Tree} (h : AtomPhrase us t) (ht : IsSimple t) : us = [t] := by
  cases h with
  | single => rfl
  | @strings u us hall =>
    match us with
    | [] => rfl
    | v :: us =>
      have hstring := ht.string
      simp only [collapse, children, List.head?_cons, Option.any_some, hall u List.mem_cons_self] at hstring
      contradiction

theorem FactorPhrase.eq_singleton {us : List Tree} {t : Tree} (h : FactorPhrase us t) (ht : IsSimple t) :
    us = [t] := by
  generalize hn : t = n at h
  cases h with
  | signed => exact absurd (by rw [hn]; rfl) ht.kind.1
  | power => exact absurd (by rw [hn]; rfl) ht.kind.2.1
  | @primary us ts hprimary =>
    have hts : ts = [t] := collapse_eq hn.symm ht.kind.2.1
    subst hts
    generalize hps : [t] = ps at hprimary
    cases hprimary with
    | plain hatom htrailers =>
      cases hps
      cases htrailers
      rw [List.append_nil, ← hn]
      exact hatom.eq_singleton ht
    | awaited => simp at hps

theorem TermPhrase.eq_singleton {us : List Tree} {t : Tree} (h : TermPhrase us t) (ht : IsSimple t) : us = [t] := by
  generalize hn : t = n at h
  obtain ⟨hf, hts⟩ := h
  obtain ⟨rfl, rfl⟩ := List.cons.inj (collapse_eq hn.symm ht.kind.2.2)
  cases hts
  rw [List.append_nil, ← hn]
  exact hf.eq_singleton ht

end Interpolation.Tree

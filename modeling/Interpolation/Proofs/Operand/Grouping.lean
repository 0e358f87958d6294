import Interpolation.Proofs.Operand.Phrase

/-!
# The grouping of a list of siblings

`Grouping before ts us` says what the siblings `ts` behind the siblings `before` are grouped into: whole terms, each of
which goes as far as it can, and single siblings that no term starts with. A sign behind an operand is such a single
sibling. `grouping_groupOperands` measures `groupOperands` by it. What a phrase keeps of its siblings is said once for
every relation that cannot tell a node from its children (`Transparent`, `TermPhrase.exists_related`); with the tokens
for that relation, grouping moves none (`Grouping.tokens`).
-/

namespace Interpolation.Tree

/-- What the siblings behind `before` are grouped into. -/
inductive Grouping : List Tree → List Tree → List Tree → Prop
  | nil {before : List Tree} : Grouping before [] []
  | operand {before us rest ts : List Tree} {t : Tree}
      (free : endsWith isAtom before → us.head?.any isSign = false) (reads : term? (us ++ rest) = some (t, rest))
      (term : TermPhrase us t) (ends : TermEnds us rest) (others : Grouping (before ++ us) rest ts) :
      Grouping before (us ++ rest) (t :: ts)
  | other {before rest ts : List Tree} {u : Tree}
      (alone : (endsWith isAtom before = true ∧ u.isSign = true) ∨ startsFactor (u :: rest) = false)
      (others : Grouping (before ++ [u]) rest ts) : Grouping before (u :: rest) (u :: ts)

theorem grouping_groupOperands (before ts : List Tree) :
    Grouping before ts (groupOperands (endsWith isAtom before) ts) := by
  generalize hb : endsWith isAtom before = behindOperand
  fun_induction groupOperands behindOperand ts generalizing before with
  | case1 => exact .nil
  | case2 behindOperand t ts operand rest h ih =>
    split at h
    · simp at h
    · next hsign =>
      obtain ⟨us, hts, hterm, hends⟩ := term?_sound h
      have hus := ne_nil_of_endsWith hterm.endsWith_isAtom
      rw [hts] at h ⊢
      refine .operand ?_ h hterm hends (ih (before ++ us) ?_)
      · intro hbefore
        obtain ⟨u, us, rfl⟩ := List.exists_cons_of_ne_nil hus
        rw [List.cons_append, List.cons.injEq] at hts
        simp only [← hb, hbefore, ← hts.1, Bool.true_and, Bool.not_eq_true] at hsign ⊢
        simpa using hsign
      · rw [endsWith_append _ hus, hterm.endsWith_isAtom]
  | case3 behindOperand t ts h ih =>
    have halone : (endsWith isAtom before = true ∧ t.isSign = true) ∨ startsFactor (t :: ts) = false := by
      split at h
      · next hsign =>
        rw [← hb, Bool.and_eq_true] at hsign
        exact .inl hsign
      · exact .inr (term?_eq_none_iff.1 h)
    refine .other halone (ih (before ++ [t]) ?_)
    rw [endsWith_append _ (by simp)]
    show t.isAtom = false
    rcases halone with ⟨_, hsign⟩ | hstarts
    · exact not_isAtom_of_isSign hsign
    · by_contra hatom
      simp [startsFactor_cons_of_isAtom (by simpa using hatom) ts] at hstarts

theorem groupOperands_of_term? {behindOperand : Bool} {t operand : Tree} {ts rest : List Tree}
    (hsign : t.isSign = false) (h : term? (t :: ts) = some (operand, rest)) :
    groupOperands behindOperand (t :: ts) = operand :: groupOperands true rest := by
  rw [groupOperands]
  split
  · next operand' rest' h' =>
    rw [hsign, Bool.and_false, if_neg (by simp), h, Option.some.injEq, Prod.mk.injEq] at h'
    rw [h'.1, h'.2]
  · next h' =>
    rw [hsign, Bool.and_false, if_neg (by simp), h] at h'
    contradiction

theorem groupOperands_of_term?_eq_none {behindOperand : Bool} {t : Tree} {ts : List Tree}
    (h : term? (t :: ts) = none) : groupOperands behindOperand (t :: ts) = t :: groupOperands false ts := by
  rw [groupOperands]
  split
  · next h' => simp [h] at h'
  · rfl

/-! ## What a phrase keeps of its siblings -/

/-- A relation between lists of siblings that cannot tell a node from its children, unless the node is a term. -/
structure Transparent (R : List Tree → List Tree → Prop) : Prop where
  equivalence : Equivalence R
  append : ∀ {us us' vs vs' : List Tree}, R us us' → R vs vs' → R (us ++ vs) (us' ++ vs')
  node : ∀ {k : NodeKind} (cs : List Tree), k ≠ .term → R [.node k cs] cs

section Transparent

variable {R : List Tree → List Tree → Prop} {us ts : List Tree} {t : Tree}

theorem Transparent.collapse (hR : Transparent R) {k : NodeKind} (hk : k ≠ .term) (ts : List Tree) :
    R [Tree.collapse k ts] ts := by
  unfold Tree.collapse
  split
  · exact hR.equivalence.refl _
  · exact hR.node _ hk

theorem Transparent.asTrailer (hR : Transparent R) (h : t.isCallOrSubscript = true) : R [t.asTrailer] [t] := by
  unfold isCallOrSubscript at h
  split at h
  · exact hR.equivalence.trans (hR.node _ (by decide)) (hR.equivalence.symm (hR.node _ (by decide)))
  · contradiction

theorem Transparent.cons (hR : Transparent R) (t : Tree) (h : R ts us) : R (t :: ts) (t :: us) :=
  hR.append (hR.equivalence.refl [t]) h

theorem AtomPhrase.related (h : AtomPhrase us t) (hR : Transparent R) : R [t] us := by
  cases h with
  | single => exact hR.equivalence.refl _
  | strings => exact hR.collapse (by decide) _

theorem TrailerPhrases.related (h : TrailerPhrases us ts) (hR : Transparent R) : R ts us := by
  induction h with
  | nil => exact hR.equivalence.refl _
  | cons hfirst _ ih =>
    cases hfirst with
    | group hgroup => exact hR.append (hR.asTrailer hgroup) ih
    | member => exact hR.append (hR.node _ (by decide)) ih

theorem PrimaryPhrase.related (h : PrimaryPhrase us ts) (hR : Transparent R) : R ts us := by
  cases h with
  | plain hatom htrailers => exact hR.append (hatom.related hR) (htrailers.related hR)
  | awaited _ hatom htrailers => exact hR.cons _ (hR.append (hatom.related hR) (htrailers.related hR))

theorem FactorPhrase.related (h : FactorPhrase us t) (hR : Transparent R) : R [t] us := by
  induction h with
  | signed _ _ ih => exact hR.equivalence.trans (hR.node _ (by decide)) (hR.cons _ ih)
  | primary hprimary => exact hR.equivalence.trans (hR.collapse (by decide) _) (hprimary.related hR)
  | power hbase _ _ ih =>
    exact hR.equivalence.trans (hR.node _ (by decide)) (hR.append (hbase.related hR) (hR.cons _ ih))

theorem ProductPhrases.related (h : ProductPhrases us ts) (hR : Transparent R) : R ts us := by
  induction h with
  | nil => exact hR.equivalence.refl _
  | cons _ hright _ ih => exact hR.cons _ (hR.append (hright.related hR) ih)

/-- The factors and operators of a term are related to its siblings, whatever becomes of the term itself. -/
theorem TermPhrase.exists_related (h : TermPhrase us t) (hR : Transparent R) :
    ∃ ts, t = Tree.collapse .term ts ∧ R ts us := by
  obtain ⟨hfirst, hothers⟩ := h
  exact ⟨_, rfl, hR.append (hfirst.related hR) (hothers.related hR)⟩

end Transparent

/-! ## Grouping moves no token -/

theorem transparent_tokensAll : Transparent fun us vs => tokensAll us = tokensAll vs where
  equivalence := ⟨fun _ => rfl, Eq.symm, Eq.trans⟩
  append h h' := by rw [tokensAll_append, tokensAll_append, h, h']
  node cs _ := by simp

theorem tokens_collapse (k : NodeKind) (ts : List Tree) : (collapse k ts).tokens = tokensAll ts := by
  match ts with
  | [] => rfl
  | [t] => simp [collapse]
  | t :: u :: ts => rfl

theorem AtomPhrase.tokens {us : List Tree} {t : Tree} (h : AtomPhrase us t) : t.tokens = tokensAll us := by
  simpa using h.related transparent_tokensAll

theorem FactorPhrase.tokens {us : List Tree} {t : Tree} (h : FactorPhrase us t) : t.tokens = tokensAll us := by
  simpa using h.related transparent_tokensAll

theorem TermPhrase.tokens {us : List Tree} {t : Tree} (h : TermPhrase us t) : t.tokens = tokensAll us := by
  obtain ⟨ts, rfl, hts⟩ := h.exists_related transparent_tokensAll
  rw [tokens_collapse, hts]

theorem Grouping.tokens {before ts us : List Tree} (h : Grouping before ts us) : tokensAll us = tokensAll ts := by
  induction h with
  | nil => rfl
  | operand _ _ hterm _ _ ih => rw [tokensAll_cons, tokensAll_append, hterm.tokens, ih]
  | other _ _ ih => rw [tokensAll_cons, tokensAll_cons, ih]

@[simp]
theorem tokensAll_groupOperands (ts : List Tree) : tokensAll (groupOperands false ts) = tokensAll ts :=
  (grouping_groupOperands [] ts).tokens

end Interpolation.Tree

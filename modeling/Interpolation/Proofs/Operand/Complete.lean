import Interpolation.Proofs.Operand.Regrouping
import Mathlib.Data.List.Basic

/-!
# Nothing is left to group

The siblings that a list of tokens and bracket groups is grouped into contain no phrase that could be made longer, and none
that could still be made.

* `Tree.isPhrase`, `Tree.startsPhrase`, `Tree.BeginsWithAtom` — operands among grouped siblings;
* `Tree.FullyGrouped` — what can no longer stand side by side;
* `Tree.IsUngrouped` — what the siblings are before they are grouped;
* `Grouping.of_phrase`, `Grouping.of_other` — where a grouped sibling comes from, and where any of them does
  (`Grouping.exists_split`);
* `Grouping.startsFactor`, `Grouping.startsTrailer` — what starts among grouped siblings started before they were grouped;
* `Grouping.fullyGrouped` — grouped siblings are fully grouped.
-/

namespace Interpolation.Tree

/-! ## Operands among grouped siblings -/

/-- Whether the tree is an operand: an atom, a power, a factor or a term. -/
def isPhrase (t : Tree) : Bool := t.isOperand || t.kind? = some .term

/-- Whether any number of signs start here, and then an operand. -/
def startsPhrase : List Tree → Bool
  | [] => false
  | t :: ts => if t.isSign then startsPhrase ts else t.isPhrase

/-- An operand that is an atom or begins with one: no sign and no `await` stands in front of it. -/
inductive BeginsWithAtom : Tree → Prop
  | atom {t : Tree} (atom : t.isAtom = true) : BeginsWithAtom t
  | inside {k : NodeKind} {c : Tree} {cs : List Tree} (kind : k = .power ∨ k = .factor ∨ k = .term)
      (first : BeginsWithAtom c) : BeginsWithAtom (.node k (c :: cs))

/-- Whether the tree is a string, or an atom of strings. -/
def isStrings : Tree → Bool
  | .leaf t => t.kind = .string
  | .node k cs => k = .atom && cs.all (isToken .string)

/-- Siblings among which nothing is left to group. -/
structure FullyGrouped (ts : List Tree) : Prop where
  /-- No call, subscript or member stands behind an operand. -/
  trailer {pre post : List Tree} {a : Tree} : ts = pre ++ a :: post → a.isPhrase = true → startsTrailer post = false
  /-- No multiplicative operator and no `**` has operands on both sides. -/
  operator {pre post : List Tree} {a op : Tree} : ts = pre ++ a :: op :: post → a.isPhrase = true →
    (op.isMultiplicative || op.isPower) = true → startsPhrase post = false
  /-- No string stands behind strings. -/
  string {pre post : List Tree} {a b : Tree} : ts = pre ++ a :: b :: post → a.isStrings = true →
    b.isToken .string = false
  /-- No atom, and no operand that begins with one, stands behind `await`. -/
  await {pre post : List Tree} {w a : Tree} : ts = pre ++ w :: a :: post → w.isAwait = true → ¬BeginsWithAtom a
  /-- No operand stands behind a sign, unless another stands in front of the sign. -/
  sign {pre post : List Tree} {s : Tree} : ts = pre ++ s :: post → s.isSign = true → endsWith isPhrase pre = false →
    startsPhrase post = false

theorem isPhrase_of_isAtom {t : Tree} (h : t.isAtom = true) : t.isPhrase = true := by
  simp [isPhrase, isOperand_of_isAtom h]

theorem BeginsWithAtom.isPhrase {t : Tree} (h : BeginsWithAtom t) : t.isPhrase = true := by
  cases h with
  | atom atom => exact isPhrase_of_isAtom atom
  | inside kind _ => rcases kind with rfl | rfl | rfl <;> rfl

theorem isPhrase_eq_false_of_leaf {t : Tree} (hleaf : t.kind? = none) (h : t.isAtom = false) : t.isPhrase = false := by
  simp [Tree.isPhrase, isOperand, hleaf, h]

theorem kind?_of_isOperator {t : Tree} {op : Text} (h : t.isOperator op = true) : t.kind? = none := by
  cases t with
  | leaf u => rfl
  | node => simp [isOperator] at h

theorem kind?_of_isOperation {t : Tree} (h : (t.isMultiplicative || t.isPower) = true) : t.kind? = none := by
  rcases Bool.or_eq_true_iff.1 h with h | h
  · obtain ⟨op, -, hop⟩ := List.any_eq_true.1 h
    exact kind?_of_isOperator hop
  · exact kind?_of_isOperator h

theorem not_isPhrase_of_isSign {t : Tree} (h : t.isSign = true) : t.isPhrase = false := by
  obtain ⟨op, -, hop⟩ := List.any_eq_true.1 h
  exact isPhrase_eq_false_of_leaf (kind?_of_isOperator hop) (not_isAtom_of_isSign h)

theorem not_isPhrase_of_isAwait {t : Tree} (h : t.isAwait = true) : t.isPhrase = false := by
  cases t with
  | leaf u => exact isPhrase_eq_false_of_leaf rfl (not_isAtom_of_isAwait h)
  | node => simp [isAwait, isKeyword] at h

theorem isSign_eq_false_of_isAwait {t : Tree} (h : t.isAwait = true) : t.isSign = false := by
  cases t with
  | leaf u => simp_all [isAwait, isKeyword, isSign, isOperator, Token.isOperator]
  | node => simp [isAwait, isKeyword] at h

theorem kind?_of_isToken {t : Tree} {k : TokenKind} (h : t.isToken k = true) : t.kind? = none := by
  cases t with
  | leaf u => rfl
  | node => simp [isToken] at h

theorem isOperator_eq_false_of_isString {t : Tree} (h : t.isToken .string = true) (op : Text) :
    t.isOperator op = false := by
  cases t with
  | leaf u => simp_all [isToken, isOperator, Token.isOperator]
  | node => rfl

/-! ## What a phrase is, if it is an atom -/

theorem PrimaryPhrase.atomPhrase {us : List Tree} {t : Tree} (h : PrimaryPhrase us [t]) : AtomPhrase us t := by
  cases h with
  | plain atom trailers =>
    cases trailers with
    | nil =>
      rw [List.append_nil]
      exact atom

theorem FactorPhrase.atomPhrase {us : List Tree} {t : Tree} (h : FactorPhrase us t) (ht : t.isAtom = true) :
    AtomPhrase us t := by
  cases h with
  | signed => simp [isAtom] at ht
  | primary primary =>
    obtain ⟨a, ts, rfl⟩ := List.exists_cons_of_ne_nil primary.primary.ne_nil
    cases ts with
    | nil => exact primary.atomPhrase
    | cons => simp [collapse, isAtom] at ht
  | power => simp [isAtom] at ht

theorem TermPhrase.atomPhrase {us : List Tree} {t : Tree} (h : TermPhrase us t) (ht : t.isAtom = true) :
    AtomPhrase us t := by
  obtain ⟨first, others⟩ := h
  cases others with
  | nil =>
    rw [List.append_nil]
    exact first.atomPhrase ht
  | cons => simp [collapse, isAtom] at ht

theorem TermPhrase.isPhrase {us : List Tree} {t : Tree} (h : TermPhrase us t) : t.isPhrase = true := by
  simpa [Tree.isPhrase] using h.isOperand_or

/-! ## How a phrase begins -/

theorem AtomPhrase.head?_isAtom {us : List Tree} {t : Tree} (h : AtomPhrase us t) : us.head?.any Tree.isAtom = true := by
  cases h with
  | single atom _ => exact atom
  | strings all => exact isAtom_of_isString (all _ List.mem_cons_self)

theorem not_beginsWithAtom_of_isSign {s : Tree} (h : s.isSign = true) : ¬BeginsWithAtom s := by
  intro hs
  simpa [not_isPhrase_of_isSign h] using hs.isPhrase

theorem not_beginsWithAtom_of_isAwait {w : Tree} (h : w.isAwait = true) : ¬BeginsWithAtom w := by
  intro hw
  simpa [not_isPhrase_of_isAwait h] using hw.isPhrase

/-- A primary that does not begin with `await` begins with an atom. -/
theorem PrimaryPhrase.head?_isAtom {us ts : List Tree} (h : PrimaryPhrase us ts)
    (hts : ∀ t ∈ ts.head?, BeginsWithAtom t) : us.head?.any Tree.isAtom = true := by
  cases h with
  | plain atom _ =>
    rw [List.head?_append_of_ne_nil _ atom.ne_nil]
    exact atom.head?_isAtom
  | awaited isAwait => exact absurd (hts _ rfl) (not_beginsWithAtom_of_isAwait isAwait)

theorem BeginsWithAtom.of_head? {k : NodeKind} {cs : List Tree} (h : BeginsWithAtom (.node k cs)) (hk : k ≠ .atom) :
    ∀ c ∈ cs.head?, BeginsWithAtom c := by
  cases h with
  | atom atom => simp [Tree.isAtom, hk] at atom
  | inside _ first => simpa using first

theorem FactorPhrase.head?_isAtom {us : List Tree} {t : Tree} (h : FactorPhrase us t) (ht : BeginsWithAtom t) :
    us.head?.any Tree.isAtom = true := by
  cases h with
  | signed sign => exact absurd (ht.of_head? (by decide) _ rfl) (not_beginsWithAtom_of_isSign sign)
  | primary primary =>
    obtain ⟨a, ts, rfl⟩ := List.exists_cons_of_ne_nil primary.primary.ne_nil
    cases ts with
    | nil => exact primary.atomPhrase.head?_isAtom
    | cons => exact primary.head?_isAtom (ht.of_head? (by decide))
  | @power vs ws ts op t base =>
    rw [List.head?_append_of_ne_nil _ (ne_nil_of_endsWith base.endsWith_isAtom)]
    refine base.head?_isAtom ?_
    rw [← List.head?_append_of_ne_nil ts base.primary.ne_nil]
    exact ht.of_head? (by decide)

/-- The siblings of an operand that begins with an atom begin with one too. -/
theorem TermPhrase.head?_isAtom {us : List Tree} {t : Tree} (h : TermPhrase us t) (ht : BeginsWithAtom t) :
    us.head?.any Tree.isAtom = true := by
  obtain ⟨first, others⟩ := h
  rw [List.head?_append_of_ne_nil _ (ne_nil_of_endsWith first.endsWith_isAtom)]
  cases others with
  | nil => exact first.head?_isAtom ht
  | cons => exact first.head?_isAtom (ht.of_head? (by decide) _ rfl)

/-! ## What is not grouped yet -/

/-- A token or a bracket group. -/
def IsUngrouped (t : Tree) : Prop := t.kind? = none ∨ t.kind? = some .atom ∧ t.brackets?.isSome = true

namespace IsUngrouped

variable {t : Tree}

theorem isPhrase_eq (h : IsUngrouped t) : t.isPhrase = t.isAtom := by
  rcases h with hleaf | ⟨hatom, -⟩
  · simp [Tree.isPhrase, isOperand, hleaf]
  · simp [Tree.isPhrase, isOperand, hatom]

/-- Strings that are not grouped yet are one string. -/
theorem isToken_of_isStrings (h : IsUngrouped t) (ht : t.isStrings = true) : t.isToken .string = true := by
  cases t with
  | leaf u => simpa [isStrings, isToken] using ht
  | node k cs =>
    simp only [isStrings, Bool.and_eq_true, decide_eq_true_eq, List.all_eq_true] at ht
    obtain ⟨rfl, hall⟩ := ht
    rcases h with h | ⟨-, h⟩
    · simp [kind?] at h
    · simp [brackets?_strings hall] at h

end IsUngrouped

theorem isAtom_of_isStrings {t : Tree} (h : t.isStrings = true) : t.isAtom = true := by
  cases t with
  | leaf u => simp_all [isStrings, isAtom]
  | node k cs => simp_all [isStrings, isAtom]

/-- Strings are grouped out of strings. -/
theorem TermPhrase.endsWith_isString {us : List Tree} {t : Tree} (h : TermPhrase us t) (hus : ∀ u ∈ us, IsUngrouped u)
    (ht : t.isStrings = true) : endsWith (isToken .string) us = true := by
  cases h.atomPhrase (isAtom_of_isStrings ht) with
  | single _ other => simp [(hus t (by simp)).isToken_of_isStrings ht] at other
  | @strings u us all =>
    rw [endsWith, List.getLast?_eq_some_getLast (List.cons_ne_nil u us)]
    exact all _ (List.getLast_mem _)

theorem isSimple_of_kind? {t : Tree} (h : t.kind? = none) : IsSimple t := by
  cases t with
  | leaf u => exact isSimple_leaf u
  | node => simp [kind?] at h

theorem isSimple_of_isCallOrSubscript {t : Tree} (h : t.isCallOrSubscript = true) : IsSimple t := by
  unfold isCallOrSubscript at h
  split at h
  · next opening cs =>
    refine ⟨by simp [kind?], ?_⟩
    by_contra hstring
    have hopening := isOperator_eq_false_of_isString (t := opening) (by simpa [children] using hstring)
    simp [hopening] at h
  · contradiction

/-! ## Where a grouped sibling comes from -/

namespace Grouping

variable {before ts us : List Tree} {t : Tree}

/-- An operand among grouped siblings is a whole term. -/
theorem of_phrase (h : Grouping before ts (t :: us)) (hts : ∀ u ∈ ts, IsUngrouped u) (ht : t.isPhrase = true) :
    ∃ ws rest, ts = ws ++ rest ∧ TermPhrase ws t ∧ TermEnds ws rest ∧ Grouping (before ++ ws) rest us := by
  cases h with
  | operand _ _ term ends others => exact ⟨_, _, rfl, term, ends, others⟩
  | other alone others =>
    rw [(hts t (by simp)).isPhrase_eq] at ht
    rcases alone with ⟨-, hsign⟩ | hstarts
    · simp [not_isAtom_of_isSign hsign] at ht
    · simp [startsFactor_cons_of_isAtom ht] at hstarts

/-- What is no operand among grouped siblings stood there before. -/
theorem of_other (h : Grouping before ts (t :: us)) (ht : t.isPhrase = false) :
    ∃ rest, ts = t :: rest ∧ ((endsWith isAtom before = true ∧ t.isSign = true) ∨ startsFactor (t :: rest) = false) ∧
      Grouping (before ++ [t]) rest us := by
  cases h with
  | operand _ _ term => simp [term.isPhrase] at ht
  | other alone others => exact ⟨_, rfl, alone, others⟩

/-- What is not put together stood there before. -/
theorem of_simple (h : Grouping before ts (t :: us)) (ht : IsSimple t) :
    ∃ rest, ts = t :: rest ∧ Grouping (before ++ [t]) rest us := by
  cases h with
  | operand _ _ term _ others =>
    obtain rfl := term.eq_singleton ht
    exact ⟨_, rfl, others⟩
  | other _ others => exact ⟨_, rfl, others⟩

/-- What was grouped into the siblings behind `us` is a list of siblings of its own, and stands behind an operand if and
only if these do. -/
theorem exists_split {vs : List Tree} (h : Grouping before ts (us ++ vs)) (hts : ∀ u ∈ ts, IsUngrouped u)
    (outs : List Tree) (houts : endsWith isAtom before = endsWith isPhrase outs) :
    ∃ ws rest, ts = ws ++ rest ∧ Grouping (before ++ ws) rest vs ∧
      endsWith isAtom (before ++ ws) = endsWith isPhrase (outs ++ us) := by
  induction us generalizing before ts outs with
  | nil => exact ⟨[], ts, rfl, by simpa using h, by simpa using houts⟩
  | cons t us ih =>
    obtain ⟨ws, rest, rfl, hothers, hends⟩ : ∃ ws rest, ts = ws ++ rest ∧ Grouping (before ++ ws) rest (us ++ vs) ∧
        endsWith isAtom (before ++ ws) = endsWith isPhrase (outs ++ [t]) := by
      -- The siblings of an operand end with an atom, and what is no operand is no atom either.
      have houts : endsWith isPhrase (outs ++ [t]) = t.isPhrase := endsWith_append outs (by simp)
      rw [houts]
      cases ht : t.isPhrase with
      | true =>
        obtain ⟨ws, rest, rfl, term, -, hothers⟩ := h.of_phrase hts ht
        have hws := term.endsWith_isAtom
        exact ⟨ws, rest, rfl, hothers, by rw [endsWith_append _ (ne_nil_of_endsWith hws), hws]⟩
      | false =>
        obtain ⟨rest, rfl, -, hothers⟩ := h.of_other ht
        refine ⟨[t], rest, rfl, hothers, ?_⟩
        rw [endsWith_append _ (by simp), ← ht, (hts t (by simp)).isPhrase_eq]
        rfl
    obtain ⟨ws', rest', rfl, hrest, hends'⟩ :=
      ih hothers (fun u hu => hts u (by simp [hu])) (outs ++ [t]) hends
    refine ⟨ws ++ ws', rest', by simp, by simpa using hrest, by simpa using hends'⟩

/-- An operand anywhere among grouped siblings is a whole term in front of what was grouped into the siblings behind it. -/
theorem exists_phrase {pre post : List Tree} {a : Tree} (h : Grouping before ts (pre ++ a :: post))
    (hts : ∀ u ∈ ts, IsUngrouped u) (outs : List Tree) (houts : endsWith isAtom before = endsWith isPhrase outs)
    (ha : a.isPhrase = true) :
    ∃ ws rest, TermPhrase ws a ∧ TermEnds ws rest ∧ (∃ before, Grouping before rest post) ∧
      (∀ u ∈ ws, IsUngrouped u) ∧ ∀ u ∈ rest, IsUngrouped u := by
  obtain ⟨us, rest, rfl, hrest, -⟩ := h.exists_split hts outs houts
  have hus := (List.forall_mem_append.1 hts).2
  obtain ⟨ws, rest, rfl, term, ends, hpost⟩ := hrest.of_phrase hus ha
  exact ⟨ws, rest, term, ends, ⟨_, hpost⟩, List.forall_mem_append.1 hus⟩

/-! ## What starts among grouped siblings -/

/-- A factor starts where one starts among grouped siblings. -/
theorem startsFactor (h : Grouping before ts us) (hts : ∀ u ∈ ts, IsUngrouped u) (hus : startsPhrase us = true) :
    startsFactor ts = true := by
  induction h with
  | nil => simp [startsPhrase] at hus
  | operand _ reads =>
    by_contra hstarts
    simp [term?_eq_none_iff.2 (by simpa using hstarts)] at reads
  | @other _ rest us u _ _ ih =>
    by_cases hsign : u.isSign = true
    · simp only [startsPhrase, hsign, if_true] at hus
      simp [Tree.startsFactor, hsign, ih (fun u hu => hts u (by simp [hu])) hus]
    · simp only [startsPhrase, hsign] at hus
      refine startsFactor_cons_of_isAtom ?_ _
      rw [← (hts u (by simp)).isPhrase_eq]
      exact hus

/-- A trailer starts where one starts among grouped siblings. -/
theorem startsTrailer (h : Grouping before ts us) (hus : startsTrailer us = true) : startsTrailer ts = true := by
  cases us with
  | nil => simp [Tree.startsTrailer] at hus
  | cons t us =>
    simp only [Tree.startsTrailer, Bool.or_eq_true, Bool.and_eq_true] at hus ⊢
    rcases hus with hgroup | ⟨hdot, hname⟩
    · obtain ⟨rest, rfl, -⟩ := h.of_simple (isSimple_of_isCallOrSubscript hgroup)
      simp [hgroup]
    · obtain ⟨rest, rfl, hothers⟩ := h.of_simple (isSimple_of_kind? (kind?_of_isOperator hdot))
      cases us with
      | nil => simp at hname
      | cons name us =>
        obtain ⟨rest, rfl, -⟩ := hothers.of_simple (isSimple_of_kind? (kind?_of_isToken hname))
        simpa [hdot] using .inr hname

/-- Siblings begin with an atom if what they are grouped into begins with one. -/
theorem head?_isAtom (h : Grouping before ts (t :: us)) (hts : ∀ u ∈ ts, IsUngrouped u) (ht : BeginsWithAtom t) :
    ts.head?.any isAtom = true := by
  obtain ⟨ws, rest, rfl, term, -, -⟩ := h.of_phrase hts ht.isPhrase
  rw [List.head?_append_of_ne_nil _ (ne_nil_of_endsWith term.endsWith_isAtom)]
  exact term.head?_isAtom ht

/-! ## Nothing is left -/

/-- Tokens and bracket groups are grouped until nothing is left to group. -/
theorem fullyGrouped (h : Grouping [] ts us) (hts : ∀ u ∈ ts, IsUngrouped u) : FullyGrouped us where
  trailer {pre post a} hus ha := by
    subst hus
    obtain ⟨ws, rest, -, ends, ⟨_, hpost⟩, -⟩ := h.exists_phrase hts [] rfl ha
    simpa [ends.trailer] using mt hpost.startsTrailer
  operator {pre post a op} hus ha hop := by
    subst hus
    obtain ⟨ws, rest, -, ends, ⟨_, hpost⟩, -, hrest⟩ := h.exists_phrase hts [] rfl ha
    obtain ⟨rest, rfl, hothers⟩ := hpost.of_simple (isSimple_of_kind? (kind?_of_isOperation hop))
    have hstarts : Tree.startsFactor rest = false := by
      rcases Bool.or_eq_true_iff.1 hop with hop | hop
      · simpa [startsOperator, hop] using ends.product
      · simpa [startsOperator, hop] using ends.power
    simpa [hstarts] using mt (hothers.startsFactor (List.forall_mem_cons.1 hrest).2)
  string {pre post a b} hus ha := by
    subst hus
    obtain ⟨ws, rest, term, ends, ⟨_, hpost⟩, hws, -⟩ :=
      h.exists_phrase hts [] rfl (isPhrase_of_isAtom (isAtom_of_isStrings ha))
    cases hb : b.isToken .string with
    | false => rfl
    | true =>
      obtain ⟨rest, rfl, -⟩ := hpost.of_simple (isSimple_of_kind? (kind?_of_isToken hb))
      simpa [hb] using ends.string (term.endsWith_isString hws ha)
  await {pre post w a} hus hw ha := by
    subst hus
    obtain ⟨ws, rest, rfl, hrest, -⟩ := h.exists_split hts [] rfl
    obtain ⟨rest, rfl, ⟨-, hsign⟩ | hstarts, hpost⟩ := hrest.of_other (not_isPhrase_of_isAwait hw)
    · simp [isSign_eq_false_of_isAwait hw] at hsign
    · -- An atom behind `await` would have started a factor there.
      have hatom := hpost.head?_isAtom (fun u hu => hts u (by simp [hu])) ha
      simp [Tree.startsFactor, isSign_eq_false_of_isAwait hw, hw, hatom] at hstarts
  sign {pre post s} hus hs hpre := by
    subst hus
    obtain ⟨ws, rest, rfl, hrest, hends⟩ := h.exists_split hts [] rfl
    rw [List.nil_append, List.nil_append, hpre] at hends
    obtain ⟨rest, rfl, ⟨hbefore, -⟩ | hstarts, hpost⟩ := hrest.of_other (not_isPhrase_of_isSign hs)
    · simp [hends] at hbefore
    · rw [Tree.startsFactor, if_pos hs] at hstarts
      simpa [hstarts] using mt (hpost.startsFactor fun u hu => hts u (by simp [hu]))

end Grouping

end Interpolation.Tree

import Interpolation.Proofs.Selection.Places

/-!
# Where an expression can stand

Whether a string, a percent sign and an operand are an expression is a matter of the siblings next to them.

* `Tree.LeftFree`, `Tree.RightFree` — nothing on the left takes the string away, and nothing on the right goes on with
  the operand;
* `Tree.Boundary` — what is known where the grouping has come to the end of one sibling or term;
* `Tree.Linked`, `Tree.Inner` — no string in a run of siblings, or none but the first, is free on its left;
* `TermPhrase.inner` — the strings inside a term are not free;
* `Grouping.mem_placesAll_iff` — grouping adds the places of the expressions that are free on both sides.
-/

namespace Interpolation.Tree

/-- A string behind the siblings `before` belongs to nothing in front of it. -/
structure LeftFree (before : List Tree) : Prop where
  string : endsWith (isToken .string) before = false
  await : endsWith isAwait before = false
  operator : endsWith (fun t => t.isMultiplicative || t.isPower) before = true →
    endsWith isAtom before.dropLast = false
  sign : endsWith isSign before = true → endsWith isAtom before.dropLast = true

/-- Nothing at the start of `rest` goes on with an operand in front of it. -/
structure RightFree (rest : List Tree) : Prop where
  trailer : startsTrailer rest = false
  power : startsOperator isPower rest = false
  product : startsOperator isMultiplicative rest = false

theorem TermEnds.rightFree {us rest : List Tree} (h : TermEnds us rest) : RightFree rest :=
  ⟨h.trailer, h.power, h.product⟩

theorem endsWith_concat (p : Tree → Bool) (before : List Tree) (u : Tree) : endsWith p (before ++ [u]) = p u := by
  simp [endsWith]

/-! ## Between terms -/

/-- Nothing at the end of `before` takes what follows, where the grouping has come to the end of a term or of a sibling
that is none. -/
structure Boundary (before rest : List Tree) : Prop where
  string : endsWith (isToken .string) before = true → rest.head?.any (isToken .string) = false
  await : endsWith isAwait before = true → rest.head?.any isAtom = false
  operator : endsWith (fun t => t.isMultiplicative || t.isPower) before = true →
    endsWith isAtom before.dropLast = true → startsFactor rest = false
  sign : endsWith isSign before = true → endsWith isAtom before.dropLast = false → startsFactor rest = false
  operand : endsWith isAtom before = true →
    startsOperator isPower rest = false ∧ startsOperator isMultiplicative rest = false

namespace Boundary

variable {before rest us : List Tree} {t u : Tree}

theorem nil (rest : List Tree) : Boundary [] rest := by
  constructor <;> simp [endsWith]

/-- What ends with an atom ends with no operator and no `await`. -/
theorem not_endsWith_of_isAtom {p : Tree → Bool} (hp : ∀ u, p u = true → u.isAtom = false)
    (h : endsWith isAtom before = true) : endsWith p before = false := by
  obtain ⟨us, u, rfl⟩ := List.eq_nil_or_concat before |>.resolve_left (ne_nil_of_endsWith h)
  rw [List.concat_eq_append, endsWith_concat] at h ⊢
  by_contra hu
  rw [hp u (by simpa using hu)] at h
  contradiction

theorem not_isAtom_of_operator {u : Tree} (h : (u.isMultiplicative || u.isPower) = true) : u.isAtom = false := by
  rcases Bool.or_eq_true _ _ ▸ h with h | h
  · exact not_isAtom_of_isMultiplicative h
  · exact not_isAtom_of_isPower h

theorem behind_term (hterm : TermPhrase us t) (hends : TermEnds us rest) (before : List Tree) :
    Boundary (before ++ us) rest := by
  have hlast : endsWith isAtom (before ++ us) = true := by
    rw [endsWith_append _ (ne_nil_of_endsWith hterm.endsWith_isAtom), hterm.endsWith_isAtom]
  constructor
  · intro h
    rw [endsWith_append _ (ne_nil_of_endsWith hterm.endsWith_isAtom)] at h
    exact hends.string h
  · intro h
    rw [not_endsWith_of_isAtom (fun _ => not_isAtom_of_isAwait) hlast] at h
    contradiction
  · intro h
    rw [not_endsWith_of_isAtom (fun _ => not_isAtom_of_operator) hlast] at h
    contradiction
  · intro h
    rw [not_endsWith_of_isAtom (fun _ => not_isAtom_of_isSign) hlast] at h
    contradiction
  · intro _
    exact ⟨hends.power, hends.product⟩

theorem behind_other (h : Boundary before (u :: rest))
    (halone : (endsWith isAtom before = true ∧ u.isSign = true) ∨ startsFactor (u :: rest) = false) :
    Boundary (before ++ [u]) rest := by
  have hatom : u.isAtom = false := by
    rcases halone with ⟨_, hsign⟩ | hstarts
    · exact not_isAtom_of_isSign hsign
    · by_contra hatom
      rw [startsFactor_cons_of_isAtom (by simpa using hatom)] at hstarts
      contradiction
  constructor
  · rw [endsWith_concat]
    intro hstring
    rw [isAtom_of_isString hstring] at hatom
    contradiction
  · rw [endsWith_concat]
    intro hawait
    have hsign : u.isSign = false := by
      cases u with
      | leaf u =>
        simp only [isAwait, isKeyword, Bool.and_eq_true, decide_eq_true_eq] at hawait
        simp [isSign, isOperator, Token.isOperator, hawait.1]
      | node k cs => rfl
    rcases halone with ⟨_, hsign'⟩ | hstarts
    · rw [hsign] at hsign'
      contradiction
    · simpa [startsFactor, hsign, hawait] using hstarts
  · rw [endsWith_concat, List.dropLast_concat]
    intro hoperator hbefore
    obtain ⟨hpower, hproduct⟩ := h.operand hbefore
    rcases Bool.or_eq_true _ _ ▸ hoperator with hop | hop
    · simpa [startsOperator, hop] using hproduct
    · simpa [startsOperator, hop] using hpower
  · rw [endsWith_concat, List.dropLast_concat]
    intro hsign hbefore
    rcases halone with ⟨hbefore', _⟩ | hstarts
    · rw [hbefore] at hbefore'
      contradiction
    · simpa [startsFactor, hsign] using hstarts
  · rw [endsWith_concat, hatom]
    intro h
    contradiction

/-- A string that a term starts with is free on its left. -/
theorem leftFree (h : Boundary before (u :: rest)) (hstring : u.isToken .string = true) : LeftFree before := by
  have hatom := isAtom_of_isString hstring
  have hstarts := startsFactor_cons_of_isAtom hatom rest
  constructor
  · by_contra hlast
    have := h.string (by simpa using hlast)
    simp [hstring] at this
  · by_contra hlast
    have := h.await (by simpa using hlast)
    simp [hatom] at this
  · intro hlast
    by_contra hbefore
    rw [h.operator hlast (by simpa using hbefore)] at hstarts
    contradiction
  · intro hlast
    by_contra hbefore
    rw [h.sign hlast (by simpa using hbefore)] at hstarts
    contradiction

end Boundary

/-! ## Inside a term -/

/-- No string among the siblings behind `before` is free on its left. -/
def Linked (before : List Tree) : List Tree → Prop
  | [] => True
  | s :: ts => (s.isToken .string = true → ¬ LeftFree before) ∧ Linked (before ++ [s]) ts

/-- No string among the siblings behind `before` is free on its left, but for the first of them. -/
def Inner (before : List Tree) : List Tree → Prop
  | [] => True
  | s :: ts => Linked (before ++ [s]) ts

variable {before us vs ts : List Tree} {t : Tree}

theorem linked_append : Linked before (us ++ vs) ↔ Linked before us ∧ Linked (before ++ us) vs := by
  induction us generalizing before with
  | nil => simp [Linked]
  | cons u us ih => simp [Linked, ih, and_assoc]

theorem inner_append (h : us ≠ []) : Inner before (us ++ vs) ↔ Inner before us ∧ Linked (before ++ us) vs := by
  obtain ⟨u, us, rfl⟩ := List.exists_cons_of_ne_nil h
  simp [Inner, linked_append]

theorem Inner.linked (h : Inner before us)
    (hfirst : us.head?.any (isToken .string) = true → ¬ LeftFree before) : Linked before us := by
  cases us with
  | nil => trivial
  | cons u us => exact ⟨by simpa using hfirst, h⟩

theorem linked_of_no_string (h : ∀ u ∈ us, u.isToken .string = false) : Linked before us := by
  induction us generalizing before with
  | nil => trivial
  | cons u us ih =>
    rw [List.forall_mem_cons] at h
    exact ⟨by simp [h.1], ih h.2⟩

theorem AtomPhrase.inner (h : AtomPhrase us t) (before : List Tree) : Inner before us := by
  -- A string behind a string is not free.
  have key : ∀ (ts before : List Tree), endsWith (isToken .string) before = true →
      (∀ s ∈ ts, s.isToken .string = true) → Linked before ts := by
    intro ts
    induction ts with
    | nil => intros; trivial
    | cons t ts ih =>
      intro before hlast hall
      rw [List.forall_mem_cons] at hall
      refine ⟨fun _ hfree => ?_, ih _ (by rw [endsWith_concat, hall.1]) hall.2⟩
      rw [hfree.string] at hlast
      contradiction
  cases h with
  | single => trivial
  | @strings t ts hall =>
    rw [List.forall_mem_cons] at hall
    exact key ts _ (by rw [endsWith_concat, hall.1]) hall.2

theorem TrailerPhrases.linked (h : TrailerPhrases us ts) (before : List Tree) : Linked before us := by
  refine linked_of_no_string ?_
  induction h with
  | nil => simp
  | cons hfirst _ ih =>
    refine List.forall_mem_append.2 ⟨?_, ih⟩
    cases hfirst with
    | @group t hgroup =>
      cases t with
      | leaf u => simp [isCallOrSubscript] at hgroup
      | node k cs => simp [isToken]
    | @member dot name hdotted hnamed =>
      cases dot <;> cases name <;> simp_all [isToken, isOperator, Token.isOperator]

theorem PrimaryPhrase.inner (h : PrimaryPhrase us ts) (before : List Tree) : Inner before us := by
  cases h with
  | plain hatom htrailers => exact (inner_append hatom.ne_nil).2 ⟨hatom.inner before, htrailers.linked _⟩
  | @awaited us vs _ w _ hawait hatom htrailers =>
    show Linked (before ++ [w]) (us ++ vs)
    refine linked_append.2 ⟨(hatom.inner _).linked fun _ hfree => ?_, htrailers.linked _⟩
    have := hfree.await
    rw [endsWith_concat, hawait] at this
    contradiction

/-- A string right behind a sign that is no binary operator is not free. -/
theorem not_leftFree_sign {s : Tree} (hs : s.isSign = true) (hbefore : endsWith isAtom before = false) :
    ¬ LeftFree (before ++ [s]) := by
  intro hfree
  have := hfree.sign (by rw [endsWith_concat, hs])
  rw [List.dropLast_concat, hbefore] at this
  contradiction

/-- A string right behind an operator with a left operand is not free. -/
theorem not_leftFree_operator {op : Tree} (hop : (op.isMultiplicative || op.isPower) = true)
    (hbefore : endsWith isAtom before = true) : ¬ LeftFree (before ++ [op]) := by
  intro hfree
  have := hfree.operator (by rw [endsWith_concat, hop])
  rw [List.dropLast_concat, hbefore] at this
  contradiction

theorem FactorPhrase.inner (h : FactorPhrase us t) (before : List Tree)
    (hsign : endsWith isAtom before = true → us.head?.any isSign = false) : Inner before us := by
  induction h generalizing before with
  | @signed us s t hs _ ih =>
    have hlast : endsWith isAtom (before ++ [s]) = false := by rw [endsWith_concat, not_isAtom_of_isSign hs]
    refine (ih (before ++ [s]) (by simp [hlast])).linked fun _ => not_leftFree_sign hs ?_
    by_contra hbefore
    simpa [hs] using hsign (by simpa using hbefore)
  | primary hprimary => exact hprimary.inner before
  | @power us vs _ op t hbase hop _ ih =>
    have hus := ne_nil_of_endsWith hbase.endsWith_isAtom
    have hlast : endsWith isAtom (before ++ us ++ [op]) = false := by rw [endsWith_concat, not_isAtom_of_isPower hop]
    refine (inner_append hus).2 ⟨hbase.inner before, fun hstring => ?_, ?_⟩
    · have := isAtom_of_isString hstring
      rw [not_isAtom_of_isPower hop] at this
      contradiction
    · refine (ih _ (by rw [hlast]; simp)).linked fun _ => not_leftFree_operator (by simp [hop]) ?_
      rw [endsWith_append _ hus, hbase.endsWith_isAtom]

theorem ProductPhrases.linked (h : ProductPhrases us ts) (before : List Tree)
    (hbefore : endsWith isAtom before = true) : Linked before us := by
  induction h generalizing before with
  | nil => trivial
  | @cons us vs ts op f hop hright _ ih =>
    have hlast : endsWith isAtom (before ++ [op]) = false := by
      rw [endsWith_concat, not_isAtom_of_isMultiplicative hop]
    have hus := hright.endsWith_isAtom
    refine ⟨fun hstring => ?_, linked_append.2 ⟨?_, ih _ ?_⟩⟩
    · have := isAtom_of_isString hstring
      rw [not_isAtom_of_isMultiplicative hop] at this
      contradiction
    · exact (hright.inner _ (by simp [hlast])).linked fun _ => not_leftFree_operator (by simp [hop]) hbefore
    · rw [endsWith_append _ (ne_nil_of_endsWith hus), hus]

/-- A string inside a term is not free. -/
theorem TermPhrase.inner (h : TermPhrase us t) (before : List Tree)
    (hsign : endsWith isAtom before = true → us.head?.any isSign = false) : Inner before us := by
  cases h with
  | intro hfirst hothers =>
    have hus := hfirst.endsWith_isAtom
    have hne := ne_nil_of_endsWith hus
    refine (inner_append hne).2 ⟨hfirst.inner before fun h => ?_, hothers.linked _ (by rw [endsWith_append _ hne, hus])⟩
    obtain ⟨u, us', heq⟩ := List.exists_cons_of_ne_nil hne
    rw [heq] at hsign ⊢
    exact hsign h

/-- A string that stands in a term, but not at its start, is not free. -/
theorem TermPhrase.not_leftFree {pre post : List Tree} {s : Tree} (h : TermPhrase (pre ++ s :: post) t)
    (hsign : endsWith isAtom before = true → (pre ++ s :: post).head?.any isSign = false) (hpre : pre ≠ [])
    (hs : s.isToken .string = true) : ¬ LeftFree (before ++ pre) :=
  ((inner_append hpre).1 (h.inner before hsign)).2.1 hs

/-! ## The term of an expression -/

/-- The three siblings make up an expression. -/
def IsExpression (s op operand : Tree) : Prop := ∃ c, Interpolates (.node .term [s, op, operand]) c

section Expression

variable {s op operand : Tree} {rest : List Tree}

theorem IsExpression.parts (h : IsExpression s op operand) : s.isToken .string = true ∧ op.isOperator ['%'] = true ∧
    operand.isToken .string = false ∧ operand.isAtom = true ∧ IsSimple s ∧ IsSimple operand := by
  obtain ⟨c, hc⟩ := h
  cases hc with
  | name string percent name => exact ⟨by simpa [isToken] using string, percent, by simp [isToken, name],
      by simp [isAtom, name], isSimple_leaf _, isSimple_leaf _⟩
  | tuple string percent opens closes listed =>
    have hopening := opens
    simp only [Token.isOperator, Bool.and_eq_true, decide_eq_true_eq] at hopening
    exact ⟨by simpa [isToken] using string, percent, rfl, rfl, isSimple_leaf _,
      by simp [kind?], by simp [children, isToken, hopening.1]⟩

/-- Where grouping gives no more than simple trees, it has done nothing. -/
theorem Grouping.eq_of_isSimple {before ts us : List Tree} (h : Grouping before ts us) (hus : ∀ u ∈ us, IsSimple u) :
    us = ts := by
  induction h with
  | nil => rfl
  | operand _ _ hterm _ _ ih =>
    rw [List.forall_mem_cons] at hus
    rw [hterm.eq_singleton hus.1, ih hus.2]
    rfl
  | other _ _ ih => rw [ih (List.forall_mem_cons.1 hus).2]

theorem mem_places_collapse_iff {ts : List Tree} {k : Nat} : k ∈ (collapse .term ts).places ↔
    k ∈ placesAll ts ∨ (k = 0 ∧ ∃ s op operand, ts = [s, op, operand] ∧ IsExpression s op operand) := by
  unfold collapse
  split
  · next t =>
    simp
  · rw [mem_places_term_iff, or_comm]
    refine or_congr_right (and_congr_right fun _ => ?_)
    constructor
    · rintro ⟨c, hc⟩
      obtain ⟨_, _, _, heq, _⟩ := hc.exists_eq
      obtain rfl := (Tree.node.inj heq).2
      exact ⟨_, _, _, rfl, c, hc⟩
    · rintro ⟨s, op, operand, rfl, c, hc⟩
      exact ⟨c, hc⟩

/-- A term keeps the places that its siblings have. -/
theorem TermPhrase.mem_places {us : List Tree} {t : Tree} {k : Nat} (h : TermPhrase us t) (hk : k ∈ placesAll us) :
    k ∈ t.places := by
  obtain ⟨ts, rfl, -, hplaces⟩ := h.exists_related transparent_placesAll
  rw [mem_places_collapse_iff, hplaces]
  exact .inl hk

/-- Factors that make up an expression are the siblings that they are read from. -/
theorem FactorPhrase.eq_of_isExpression {us vs ts : List Tree} {f s op operand : Tree} (hf : FactorPhrase us f)
    (hts : ProductPhrases vs ts) (heq : f :: ts = [s, op, operand]) (hexpression : IsExpression s op operand) :
    us ++ vs = [s, op, operand] := by
  obtain ⟨_, _, _, _, hs, hoperand⟩ := hexpression.parts
  obtain ⟨rfl, rfl⟩ := List.cons.inj heq
  cases hts with
  | cons _ hright hothers =>
    cases hothers
    obtain rfl := hf.eq_singleton hs
    obtain rfl := hright.eq_singleton hoperand
    rfl

/-- A term adds a place only if its siblings make up an expression. -/
theorem TermPhrase.mem_places_or {us : List Tree} {t : Tree} {k : Nat} (h : TermPhrase us t) (hk : k ∈ t.places) :
    k ∈ placesAll us ∨ (k = 0 ∧ ∃ s op operand, us = [s, op, operand] ∧ IsExpression s op operand) := by
  obtain @⟨us, vs, ts, f, hf, hts⟩ := h
  have hplaces : placesAll (f :: ts) = placesAll (us ++ vs) :=
    (transparent_placesAll.append (hf.related transparent_placesAll) (hts.related transparent_placesAll)).2
  rw [mem_places_collapse_iff, hplaces] at hk
  exact hk.imp_right fun ⟨hzero, s, op, operand, heq, hexpression⟩ =>
    ⟨hzero, s, op, operand, hf.eq_of_isExpression hts heq hexpression, hexpression⟩

theorem trailers_eq_nil (h : startsTrailer rest = false) : trailers rest = ([], rest) := by
  fun_cases trailers rest with
  | case1 => rfl
  | case2 t ts hgroup => simp [startsTrailer, hgroup] at h
  | case3 => rfl
  | case4 t hgroup n ts hdotted => simp [startsTrailer, hdotted] at h
  | case5 => rfl

theorem multiplied_eq_nil (h : startsOperator isMultiplicative rest = false) : multiplied rest = ([], rest) := by
  fun_cases multiplied rest with
  | case1 => rfl
  | case2 t ts f rest' hf =>
    split at hf
    · next ht =>
      have hnone : factor? ts = none := factor?_eq_none_iff.2 (by simpa [startsOperator, ht] using h)
      rw [hnone] at hf
      contradiction
    · contradiction
  | case3 => rfl

/-- An atom that nothing goes on with is a factor of its own. -/
theorem factor?_atom {t : Tree} (hatom : t.isAtom = true) (htrailer : startsTrailer rest = false)
    (hpower : startsOperator isPower rest = false)
    (hstring : t.isToken .string = true → rest.head?.any (isToken .string) = false) :
    factor? (t :: rest) = some (t, rest) := by
  have hread : atom? (t :: rest) = some (t, rest) := by
    by_cases ht : t.isToken .string = true
    · have hnext := hstring ht
      cases rest with
      | nil => simp [atom?, hatom, ht, collapse]
      | cons u rest =>
        have hu : u.isToken .string = false := by simpa using hnext
        simp [atom?, hatom, ht, hu, collapse]
    · simp [atom?, hatom, ht]
  have hprimary : primary? (t :: rest) = some ([t], rest) := by
    simp [primary?, isAwait_eq_false_of_isAtom hatom, hread, trailers_eq_nil htrailer]
  rw [factor?]
  simp only [isSign_eq_false_of_isAtom hatom, Bool.false_eq_true, if_false]
  split
  · next h => simp [hprimary] at h
  · next h =>
    simp only [hprimary, Option.some.injEq, Prod.mk.injEq] at h
    obtain ⟨rfl, rfl⟩ := h
    rfl
  · next parts op r h =>
    simp only [hprimary, Option.some.injEq, Prod.mk.injEq] at h
    obtain ⟨rfl, rfl⟩ := h
    have hnone : (if op.isPower then factor? r else none) = none := by
      by_cases hop : op.isPower = true
      · rw [if_pos hop, factor?_eq_none_iff]
        simpa [startsOperator, hop] using hpower
      · rw [if_neg hop]
    rw [hnone]
    rfl

/-- An atom that nothing goes on with is a term of its own. -/
theorem term?_atom {t : Tree} (hatom : t.isAtom = true) (hrest : RightFree rest)
    (hstring : t.isToken .string = true → rest.head?.any (isToken .string) = false) :
    term? (t :: rest) = some (t, rest) := by
  rw [term?, factor?_atom hatom hrest.trailer hrest.power hstring]
  simp [multiplied_eq_nil hrest.product, collapse]

/-- An expression that nothing goes on with is read as a term of its own. -/
theorem term?_expression (h : IsExpression s op operand) (hrest : RightFree rest) :
    term? (s :: op :: operand :: rest) = some (.node .term [s, op, operand], rest) := by
  obtain ⟨hstring, hpercent, hother, hatom, _, _⟩ := h.parts
  obtain ⟨u, rfl⟩ : ∃ u, op = leaf u := by
    cases op with
    | leaf u => exact ⟨u, rfl⟩
    | node k cs => simp [isOperator] at hpercent
  simp only [isOperator, Token.isOperator, Bool.and_eq_true, decide_eq_true_eq] at hpercent
  have hs : factor? (s :: leaf u :: operand :: rest) = some (s, leaf u :: operand :: rest) := by
    refine factor?_atom (isAtom_of_isString hstring) ?_ ?_ fun _ => ?_
    · simp [startsTrailer, isCallOrSubscript, isOperator, Token.isOperator, hpercent]
    · simp [startsOperator, isPower, isOperator, Token.isOperator, hpercent]
    · simp [isToken, hpercent]
  have hoperand : factor? (operand :: rest) = some (operand, rest) :=
    factor?_atom hatom hrest.trailer hrest.power (by simp [hother])
  have hop : (leaf u).isMultiplicative = true := by
    simp [isMultiplicative, isOperator, Token.isOperator, hpercent]
  have hmultiplied : multiplied (leaf u :: operand :: rest) = ([leaf u, operand], rest) := by
    rw [multiplied]
    split
    · next f r hf =>
      obtain ⟨rfl, rfl⟩ : operand = f ∧ rest = r := by simpa [hop, hoperand] using hf
      rw [multiplied_eq_nil hrest.product]
    · next hf => simp [hop, hoperand] at hf
  rw [term?, hs]
  simp [hmultiplied, collapse]

end Expression

/-! ## All siblings -/

/-- Grouping the siblings behind `before` adds the places of the expressions that are free on both sides. -/
theorem Grouping.mem_placesAll_iff {before ts us : List Tree} {k : Nat} (h : Grouping before ts us)
    (hbefore : Boundary before ts) : k ∈ placesAll us ↔ k ∈ placesAll ts ∨
      ∃ pre s op operand post, ts = pre ++ s :: op :: operand :: post ∧ IsExpression s op operand ∧
        LeftFree (before ++ pre) ∧ RightFree post ∧ k = (tokensAll pre).length := by
  induction h generalizing k with
  | nil => simp
  | @operand before us rest ts t hfree hreads hterm hends hothers ih =>
    have hrest := fun j => ih (k := j) (Boundary.behind_term hterm hends before)
    have hus := ne_nil_of_endsWith hterm.endsWith_isAtom
    simp only [placesAll_cons, placesAll_append, List.mem_append, List.mem_map, hterm.tokens, hrest]
    constructor
    · rintro (hk | ⟨j, hj | ⟨pre, s, op, operand, post, rfl, hexpression, hleft, hright, rfl⟩, rfl⟩)
      · rcases hterm.mem_places_or hk with hk | ⟨rfl, s, op, operand, rfl, hexpression⟩
        · exact .inl (.inl hk)
        · refine .inr ⟨[], s, op, operand, rest, rfl, hexpression, ?_, hends.rightFree, rfl⟩
          rw [List.append_nil]
          exact hbefore.leftFree hexpression.parts.1
      · exact .inl (.inr ⟨j, hj, rfl⟩)
      · exact .inr ⟨us ++ pre, s, op, operand, post, by simp, hexpression, by simpa using hleft, hright, by simp⟩
    · rintro ((hk | ⟨j, hj, rfl⟩) | ⟨pre, s, op, operand, post, heq, hexpression, hleft, hright, rfl⟩)
      · exact .inl (hterm.mem_places hk)
      · exact .inr ⟨j, .inl hj, rfl⟩
      · -- The expression starts behind the term, within it, or with it.
        obtain ⟨ms, rfl, hms⟩ | ⟨ms, rfl, hms⟩ := List.append_eq_append_iff.1 heq
        · exact .inr ⟨(tokensAll ms).length, .inr ⟨ms, s, op, operand, post, hms, hexpression, by simpa using hleft,
            hright, rfl⟩, by simp⟩
        · cases ms with
          | nil =>
            exact .inr ⟨0, .inr ⟨[], s, op, operand, post, hms.symm, hexpression, by simpa using hleft, hright, rfl⟩,
              by simp⟩
          | cons m ms =>
            obtain ⟨rfl, hms⟩ := List.cons.inj hms
            by_cases hpre : pre = []
            · subst hpre
              rw [heq, List.nil_append, term?_expression hexpression hright, Option.some.injEq, Prod.mk.injEq] at hreads
              rw [← hreads.1]
              exact .inl (mem_places_term_iff.2 (.inl ⟨rfl, hexpression⟩))
            · exact absurd hleft (hterm.not_leftFree hfree hpre hexpression.parts.1)
  | @other before rest ts u halone hothers ih =>
    have hrest := fun j => ih (k := j) (hbefore.behind_other halone)
    simp only [placesAll_cons, List.mem_append, List.mem_map, hrest]
    constructor
    · rintro (hk | ⟨j, hj | ⟨pre, s, op, operand, post, rfl, hexpression, hleft, hright, rfl⟩, rfl⟩)
      · exact .inl (.inl hk)
      · exact .inl (.inr ⟨j, hj, rfl⟩)
      · exact .inr ⟨u :: pre, s, op, operand, post, rfl, hexpression, by simpa using hleft, hright, by simp⟩
    · rintro ((hk | ⟨j, hj, rfl⟩) | ⟨pre, s, op, operand, post, heq, hexpression, hleft, hright, rfl⟩)
      · exact .inl hk
      · exact .inr ⟨j, .inl hj, rfl⟩
      · cases pre with
        | nil =>
          -- An expression starts a term, so its string does not stand alone.
          obtain ⟨rfl, rfl⟩ := List.cons.inj heq
          have hatom := isAtom_of_isString hexpression.parts.1
          rcases halone with ⟨_, hsign⟩ | hstarts
          · rw [isSign_eq_false_of_isAtom hatom] at hsign
            contradiction
          · rw [startsFactor_cons_of_isAtom hatom] at hstarts
            contradiction
        | cons p pre =>
          obtain ⟨rfl, rfl⟩ := List.cons.inj heq
          exact .inr ⟨(tokensAll pre).length, .inr ⟨pre, s, op, operand, post, rfl, hexpression, by simpa using hleft,
            hright, rfl⟩, by simp⟩

theorem mem_placesAll_groupOperands_iff {ts : List Tree} {k : Nat} : k ∈ placesAll (groupOperands false ts) ↔
    k ∈ placesAll ts ∨ ∃ pre s op operand post, ts = pre ++ s :: op :: operand :: post ∧ IsExpression s op operand ∧
      LeftFree pre ∧ RightFree post ∧ k = (tokensAll pre).length :=
  (grouping_groupOperands [] ts).mem_placesAll_iff (.nil ts)

end Interpolation.Tree

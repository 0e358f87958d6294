import Interpolation.Bracketed
import Interpolation.Proofs.Operand.Grouping

/-!
# What grouping makes of siblings

Grouping puts runs of siblings under nodes, each of the shape of its kind, and turns bracket groups into trailers. It
does nothing else.

* `Tree.Shape` — what the children of a node of each kind can be;
* `Tree.brackets?` — the brackets of a bracket group;
* `Tree.Regroups` — nodes of their shapes, none of them a bracket group, are made around runs of siblings;
* `TermPhrase.regroups` — a phrase is grouped so;
* `Groups`, `Grouping.groups` — the same for a whole list of siblings, term by term.
-/

namespace Interpolation.Tree

/-! ## The shapes of nodes -/

/-- Whether a sign, an exponent or a multiplicative operator can apply to the tree. -/
def isOperand (t : Tree) : Bool := t.isAtom || t.kind? = some .power || t.kind? = some .factor

/-- Whether the tree can stand for itself in a list or between brackets: it is a token that neither ends a line nor the
source, an operand or a term. -/
def isItem : Tree → Bool
  | .leaf t => t.kind ≠ .newline && t.kind ≠ .endMarker
  | .node k _ => k = .atom || k = .power || k = .factor || k = .term

/-- Multiplicative operators, each with an operand behind it. -/
inductive Factors : List Tree → Prop
  | nil : Factors []
  | cons {op operand : Tree} {ts : List Tree} (operator : op.isMultiplicative = true) (right : operand.isOperand = true)
      (others : Factors ts) : Factors (op :: operand :: ts)

/-- An atom with trailers, perhaps behind `await`. -/
inductive Primary : List Tree → Prop
  | plain {atom : Tree} {trailers : List Tree} (isAtom : atom.isAtom = true)
      (trailing : ∀ t ∈ trailers, t.kind? = some .trailer) : Primary (atom :: trailers)
  | awaited {await atom : Tree} {trailers : List Tree} (isAwait : await.isAwait = true) (isAtom : atom.isAtom = true)
      (trailing : ∀ t ∈ trailers, t.kind? = some .trailer) : Primary (await :: atom :: trailers)

/-- What stands between the brackets of a group: items, or a list of items in round brackets that has a comma. -/
inductive Contents (opening : Token) : List Tree → Prop
  | items {ts : List Tree} (items : ∀ t ∈ ts, t.isItem = true)
      (noComma : opening.text = ['('] → ts.any (isOperator [',']) = false) : Contents opening ts
  | listed {ts : List Tree} (round : opening.text = ['(']) : Contents opening [.node .exprList ts]

/-- What the children of a node can be. -/
inductive Shape : NodeKind → List Tree → Prop
  | file {ts : List Tree} {marker : Token} (items : ∀ t ∈ ts, t.isItem = true ∨ t.isToken .newline = true)
      (ends : marker.kind = .endMarker) : Shape .file (ts ++ [.leaf marker])
  | list {ts : List Tree} (items : ∀ t ∈ ts, t.isItem = true) (comma : ts.any (isOperator [',']) = true) :
      Shape .exprList ts
  | term {first : Tree} {ts : List Tree} (operand : first.isOperand = true) (others : Factors ts) (some : ts ≠ []) :
      Shape .term (first :: ts)
  | factor {sign operand : Tree} (isSign : sign.isSign = true) (isOperand : operand.isOperand = true) :
      Shape .factor [sign, operand]
  | primary {ts : List Tree} (primary : Primary ts) (some : 2 ≤ ts.length) : Shape .power ts
  | power {ts : List Tree} {op exponent : Tree} (base : Primary ts) (isPower : op.isPower = true)
      (isOperand : exponent.isOperand = true) : Shape .power (ts ++ [op, exponent])
  | member {dot name : Tree} (dotted : dot.isOperator ['.'] = true) (named : name.isToken .name = true) :
      Shape .trailer [dot, name]
  | strings {ts : List Tree} (all : ∀ t ∈ ts, t.isToken .string = true) (some : 2 ≤ ts.length) : Shape .atom ts
  | group {k : NodeKind} {opening closing : Token} {ts : List Tree}
      (kind : k = .atom ∨ (k = .trailer ∧ opening.text ≠ ['\x7b'])) (opens : opening.kind = .operator)
      (closes : closing.kind = .operator) (paired : opening.pairsWith closing = true) (contents : Contents opening ts) :
      Shape k (.leaf opening :: (ts ++ [.leaf closing]))

/-! ## Bracket groups -/

/-- The brackets of a bracket group, which are its first and its last child. -/
def brackets? : Tree → Option (Token × Token)
  | .node k (.leaf u :: cs) =>
    match cs.getLast? with
    | some (.leaf v) =>
      if (k = .atom || k = .trailer) && u.kind = .operator && v.kind = .operator then some (u, v) else none
    | _ => none
  | _ => none

theorem brackets?_eq_some_iff {t : Tree} {u v : Token} : t.brackets? = some (u, v) ↔
    ∃ k ts, t = .node k (.leaf u :: (ts ++ [.leaf v])) ∧ (k = .atom ∨ k = .trailer) ∧ u.kind = .operator ∧
      v.kind = .operator := by
  constructor
  · intro h
    unfold brackets? at h
    split at h
    · next k u' cs =>
      split at h
      · next v' hlast =>
        obtain ⟨ts, rfl⟩ := List.getLast?_eq_some_iff.1 hlast
        obtain ⟨hkinds, huv⟩ := Option.ite_none_right_eq_some.1 h
        obtain ⟨rfl, rfl⟩ := Prod.mk.inj (Option.some.inj huv)
        exact ⟨k, ts, rfl, by simpa [and_assoc] using hkinds⟩
      · contradiction
    · contradiction
  · rintro ⟨k, ts, rfl, hk, hu, hv⟩
    simp [brackets?, hu, hv, hk]

/-- Only atoms and trailers are bracket groups. -/
theorem brackets?_of_kind {k : NodeKind} (hatom : k ≠ .atom) (htrailer : k ≠ .trailer) (cs : List Tree) :
    (node k cs).brackets? = none := by
  refine Option.eq_none_iff_forall_ne_some.2 fun ⟨u, v⟩ h => ?_
  obtain ⟨l, ts, hnode, hl, -⟩ := brackets?_eq_some_iff.1 h
  rw [(Tree.node.inj hnode).1] at hatom htrailer
  exact hl.elim hatom htrailer

theorem brackets?_member {dot name : Tree} (named : name.isToken .name = true) :
    (node .trailer [dot, name]).brackets? = none := by
  refine Option.eq_none_iff_forall_ne_some.2 fun ⟨u, v⟩ h => ?_
  obtain ⟨k, ts, hnode, -, -, hv⟩ := brackets?_eq_some_iff.1 h
  obtain rfl : name = .leaf v := by
    have hlast := congrArg List.getLast? (Tree.node.inj hnode).2
    rw [← List.cons_append, List.getLast?_concat] at hlast
    exact Option.some.inj hlast
  simp [isToken, hv] at named

theorem brackets?_strings {ts : List Tree} (all : ∀ t ∈ ts, t.isToken .string = true) :
    (node .atom ts).brackets? = none := by
  refine Option.eq_none_iff_forall_ne_some.2 fun ⟨u, v⟩ h => ?_
  obtain ⟨k, us, hnode, -, hu, -⟩ := brackets?_eq_some_iff.1 h
  obtain ⟨-, rfl⟩ := Tree.node.inj hnode
  simpa [isToken, hu] using all (.leaf u) (by simp)

theorem brackets?_asTrailer {t : Tree} (group : t.isCallOrSubscript = true) : t.asTrailer.brackets? = t.brackets? := by
  unfold isCallOrSubscript at group
  split at group
  · next opening cs => cases opening <;> simp [asTrailer, brackets?]
  · contradiction

/-! ## Regrouping -/

/-- The second list is the first with nodes made around some runs of siblings, and some groups turned into trailers. -/
inductive Regroups : List Tree → List Tree → Prop
  | refl (ts : List Tree) : Regroups ts ts
  | trans {us ts vs : List Tree} (first : Regroups us ts) (second : Regroups ts vs) : Regroups us vs
  | append {us us' vs vs' : List Tree} (left : Regroups us us') (right : Regroups vs vs') :
      Regroups (us ++ vs) (us' ++ vs')
  | node {k : NodeKind} {cs : List Tree} (shape : Shape k cs) (noGroup : (Tree.node k cs).brackets? = none) :
      Regroups cs [.node k cs]
  | trailer {t : Tree} (group : t.isCallOrSubscript = true) : Regroups [t] [t.asTrailer]

namespace Regroups

variable {us ts : List Tree}

theorem cons (t : Tree) (h : Regroups us ts) : Regroups (t :: us) (t :: ts) := append (refl [t]) h

/-- Siblings that are grouped under a node, if there are several. -/
theorem collapse {k : NodeKind} (h : Regroups us ts) (hshape : 2 ≤ ts.length → Shape k ts)
    (noGroup : (Tree.node k ts).brackets? = none) (hts : ts ≠ []) : Regroups us [Tree.collapse k ts] := by
  match ts with
  | [] => contradiction
  | [t] => exact h
  | t :: u :: ts => exact h.trans (node (hshape (by simp)) noGroup)

end Regroups

/-! ## What the phrases are -/

theorem isOperand_of_isAtom {t : Tree} (h : t.isAtom = true) : t.isOperand = true := by simp [isOperand, h]

theorem AtomPhrase.isAtom {us : List Tree} {t : Tree} (h : AtomPhrase us t) : t.isAtom = true := by
  cases h with
  | single atom _ => exact atom
  | @strings t ts all =>
    cases ts with
    | nil => exact isAtom_of_isString (all t (by simp))
    | cons u ts => rfl

theorem TrailerPhrases.kind? {us ts : List Tree} (h : TrailerPhrases us ts) : ∀ t ∈ ts, t.kind? = some .trailer := by
  induction h with
  | nil => simp
  | cons first _ ih =>
    refine List.forall_mem_cons.2 ⟨?_, ih⟩
    cases first with
    | @group t group =>
      unfold isCallOrSubscript at group
      split at group
      · rfl
      · contradiction
    | member => rfl

theorem PrimaryPhrase.primary {us ts : List Tree} (h : PrimaryPhrase us ts) : Primary ts := by
  cases h with
  | plain atom trailers => exact .plain atom.isAtom trailers.kind?
  | awaited await atom trailers => exact .awaited await atom.isAtom trailers.kind?

theorem Primary.ne_nil {ts : List Tree} (h : Primary ts) : ts ≠ [] := by
  cases h <;> simp

theorem Primary.isOperand_collapse {ts : List Tree} (h : Primary ts) : (collapse .power ts).isOperand = true := by
  cases h with
  | @plain atom trailers isAtom _ =>
    cases trailers with
    | nil => exact isOperand_of_isAtom isAtom
    | cons t ts => rfl
  | awaited => rfl

theorem FactorPhrase.isOperand {us : List Tree} {t : Tree} (h : FactorPhrase us t) : t.isOperand = true := by
  cases h with
  | signed => rfl
  | primary primary => exact primary.primary.isOperand_collapse
  | power => rfl

theorem ProductPhrases.factors {us ts : List Tree} (h : ProductPhrases us ts) : Factors ts := by
  induction h with
  | nil => exact .nil
  | cons multiplicative right _ ih => exact .cons multiplicative right.isOperand ih

theorem TermPhrase.isOperand_or {us : List Tree} {t : Tree} (h : TermPhrase us t) :
    t.isOperand = true ∨ t.kind? = some .term := by
  obtain ⟨first, others⟩ := h
  cases others with
  | nil => exact .inl first.isOperand
  | cons => exact .inr rfl

/-! ## How the phrases are grouped -/

theorem AtomPhrase.regroups {us : List Tree} {t : Tree} (h : AtomPhrase us t) : Regroups us [t] := by
  cases h with
  | single => exact .refl _
  | strings all => exact (Regroups.refl _).collapse (.strings all) (brackets?_strings all) (by simp)

theorem TrailerPhrases.regroups {us ts : List Tree} (h : TrailerPhrases us ts) : Regroups us ts := by
  induction h with
  | nil => exact .refl _
  | cons first _ ih =>
    cases first with
    | group group => exact .append (.trailer group) ih
    | member dotted named => exact .append (.node (.member dotted named) (brackets?_member named)) ih

theorem PrimaryPhrase.regroups {us ts : List Tree} (h : PrimaryPhrase us ts) : Regroups us ts := by
  cases h with
  | plain atom trailers => exact .append atom.regroups trailers.regroups
  | awaited await atom trailers => exact (Regroups.append atom.regroups trailers.regroups).cons _

theorem FactorPhrase.regroups {us : List Tree} {t : Tree} (h : FactorPhrase us t) : Regroups us [t] := by
  induction h with
  | signed sign operand ih =>
    exact (ih.cons _).trans
      (.node (.factor sign operand.isOperand) (brackets?_of_kind (by decide) (by decide) _))
  | primary primary =>
    exact primary.regroups.collapse (.primary primary.primary) (brackets?_of_kind (by decide) (by decide) _)
      primary.primary.ne_nil
  | power base power exponent ih =>
    exact (Regroups.append base.regroups (ih.cons _)).trans
      (.node (.power base.primary power exponent.isOperand) (brackets?_of_kind (by decide) (by decide) _))

theorem ProductPhrases.regroups {us ts : List Tree} (h : ProductPhrases us ts) : Regroups us ts := by
  induction h with
  | nil => exact .refl _
  | cons _ right _ ih => exact (Regroups.append right.regroups ih).cons _

theorem TermPhrase.regroups {us : List Tree} {t : Tree} (h : TermPhrase us t) : Regroups us [t] := by
  obtain ⟨first, others⟩ := h
  refine (Regroups.append first.regroups others.regroups).collapse (fun hlength => ?_)
    (brackets?_of_kind (by decide) (by decide) _) (by simp)
  exact .term first.isOperand others.factors (by rintro rfl; simp at hlength)

/-! ## Whole lists of siblings -/

/-- Some runs of siblings are grouped as terms, and the others are kept. -/
inductive Groups : List Tree → List Tree → Prop
  | nil : Groups [] []
  | term {us rest ts : List Tree} {t : Tree} (term : TermPhrase us t) (others : Groups rest ts) :
      Groups (us ++ rest) (t :: ts)
  | other {rest ts : List Tree} (u : Tree) (others : Groups rest ts) : Groups (u :: rest) (u :: ts)

theorem Grouping.groups {before ts us : List Tree} (h : Grouping before ts us) : Groups ts us := by
  induction h with
  | nil => exact .nil
  | operand _ _ term _ _ ih => exact .term term ih
  | other _ _ ih => exact .other _ ih

theorem groups_groupOperands (ts : List Tree) : Groups ts (groupOperands false ts) :=
  (grouping_groupOperands [] ts).groups

namespace Groups

variable {us ts : List Tree}

theorem regroups (h : Groups us ts) : Regroups us ts := by
  induction h with
  | nil => exact .refl _
  | term term _ ih => exact .append term.regroups ih
  | other u _ ih => exact ih.cons u

theorem mem_or {t : Tree} (h : Groups us ts) (ht : t ∈ ts) : t ∈ us ∨ t.isOperand = true ∨ t.kind? = some .term := by
  induction h with
  | nil => simp at ht
  | term term _ ih =>
    rcases List.mem_cons.1 ht with rfl | ht
    · exact .inr term.isOperand_or
    · exact (ih ht).imp_left fun h => List.mem_append_right _ h
  | other u _ ih =>
    rcases List.mem_cons.1 ht with rfl | ht
    · exact .inl (by simp)
    · exact (ih ht).imp_left fun h => List.mem_cons_of_mem _ h

theorem eq_nil (h : Groups us ts) (hus : us = []) : ts = [] := by
  cases h with
  | nil => rfl
  | term term _ => exact absurd (List.append_eq_nil_iff.1 hus).1 (ne_nil_of_endsWith term.endsWith_isAtom)
  | other => contradiction

/-- What is no atom at the end of the siblings stays there. -/
theorem exists_concat {u : Tree} (hu : u.isAtom = false) (h : Groups (us ++ [u]) ts) :
    ∃ vs, ts = vs ++ [u] ∧ Groups us vs := by
  generalize hall : us ++ [u] = all at h
  induction h generalizing us with
  | nil => simp at hall
  | @term ws rest ts t term others ih =>
    rcases List.append_eq_append_iff.1 hall with ⟨vs, rfl, hrest⟩ | ⟨vs, rfl, hrest⟩
    · -- A term ends with an atom, so that it ends in front of the last sibling.
      cases vs with
      | nil =>
        obtain ⟨vs, rfl, hvs⟩ := @ih [] hrest
        have hterm := Groups.term term hvs
        rw [List.append_nil, List.append_nil] at hterm
        exact ⟨t :: vs, rfl, hterm⟩
      | cons v vs =>
        obtain ⟨rfl, hnil⟩ := List.cons.inj hrest
        obtain ⟨rfl, rfl⟩ := List.append_eq_nil_iff.1 hnil.symm
        have hlast := term.endsWith_isAtom
        rw [endsWith_append _ (by simp)] at hlast
        simp [endsWith, hu] at hlast
    · obtain ⟨vs', rfl, hvs⟩ := ih hrest.symm
      exact ⟨t :: vs', rfl, .term term hvs⟩
  | @other rest ts v others ih =>
    cases us with
    | nil =>
      obtain ⟨rfl, rfl⟩ := List.cons.inj hall
      exact ⟨[], by rw [others.eq_nil rfl]; rfl, .nil⟩
    | cons w us =>
      obtain ⟨rfl, hrest⟩ := List.cons.inj hall
      obtain ⟨vs, rfl, hvs⟩ := ih hrest
      exact ⟨w :: vs, rfl, .other w hvs⟩

end Groups

end Interpolation.Tree

import Interpolation.Tree.Queue
import Interpolation.Proofs.Operand.Grouping

/-!
# Nothing is lost off the queue

Every rule is called where what it reads is known to stand in front, or looks there before it takes anything. So no rule
fails with something in its hands, and the siblings are grouped as `Tree.groupOperands` groups them.

* `Rule.starts`, `Call.Sound` — where a rule finds what it reads, and what a call of it is to come to;
* `Reader.Reads` — what a reader comes to, all calls on the way being sound, with a lemma for each way to put readers
  together;
* `Reader.reads_atom`, …, `Reader.reads_term` — each rule reads what the function of that name reads off a list;
* `Reader.exists_group_eq` — the grouping of any list of siblings.
-/

namespace Interpolation

open Interpolation.Tree

/-- Whether what a rule reads stands in front. -/
def Rule.starts : Rule → List Tree → Bool
  | .sibling, ts => !ts.isEmpty
  | .term, ts => Tree.startsFactor ts
  | .factor, ts => Tree.startsFactor ts
  | .power, ts => Tree.startsFactor ts && !ts.head?.any isSign
  | .atom, ts => ts.head?.any isAtom
  | .trailer, ts => startsTrailer ts

/-- What a call is to come to. -/
structure Call.Sound (c : Call) : Prop where
  /-- A rule is called where what it reads stands in front. Only trailers are asked for until there is none. -/
  starts : c.rule ≠ .trailer → c.rule.starts c.before = true
  /-- It fails nowhere else. -/
  isSome_result : c.result.isSome = c.rule.starts c.before
  /-- Where it fails it has taken nothing. -/
  kept : c.result = none → c.after = c.before
  /-- What it has read has the tokens of what it has taken, which is one sibling at least. -/
  taken : ∀ t ∈ c.result, ∃ us ≠ [], c.before = us ++ c.after ∧ t.tokens = tokensAll us

theorem Call.Sound.of_eq_append {rule : Rule} {ts us rest : List Tree} {t : Tree} (hts : ts = us ++ rest)
    (starts : rule.starts ts = true) (hus : us ≠ []) (tokens : t.tokens = tokensAll us) :
    Call.Sound ⟨rule, ts, some t, rest⟩ where
  starts _ := starts
  isSome_result := starts.symm
  kept h := nomatch h
  taken _ ht := ⟨us, hus, hts, Option.some.inj ht ▸ tokens⟩

theorem Call.Sound.no_trailer {ts : List Tree} (h : startsTrailer ts = false) :
    Call.Sound ⟨.trailer, ts, none, ts⟩ where
  starts h := absurd rfl h
  isSome_result := h.symm
  kept _ := rfl
  taken _ ht := nomatch ht

theorem startsFactorAt_eq (ts : List Tree) (i : Nat) : startsFactorAt ts i = Tree.startsFactor (ts.drop i) := by
  fun_induction startsFactorAt ts i with
  | case1 i h =>
    rw [List.drop_eq_nil_of_le (List.getElem?_eq_none_iff.1 h)]
    rfl
  | case2 i t h hsign ih =>
    obtain ⟨hi, rfl⟩ := List.getElem?_eq_some_iff.1 h
    rw [List.drop_eq_getElem_cons hi, Tree.startsFactor, if_pos hsign, ih]
  | case3 i t h hsign hawait =>
    obtain ⟨hi, rfl⟩ := List.getElem?_eq_some_iff.1 h
    rw [List.drop_eq_getElem_cons hi, Tree.startsFactor, if_neg hsign, if_pos hawait, List.head?_drop]
  | case4 i t h hsign hawait =>
    obtain ⟨hi, rfl⟩ := List.getElem?_eq_some_iff.1 h
    rw [List.drop_eq_getElem_cons hi, Tree.startsFactor, if_neg hsign, if_neg hawait]

namespace Reader

/-! ## What a reader comes to -/

/-- With the siblings `ts` waiting the reader ends with the result `a` and leaves the siblings `rest`; all calls that it
makes are sound. -/
def Reads {α : Type} (read : Reader α) (ts : List Tree) (a : α) (rest : List Tree) : Prop :=
  Account.Ends Call.Sound (read.run ts) (a, rest)

section Reads

variable {α β : Type} {read : Reader α} {next : α → Reader β} {ts us rest : List Tree} {a : α} {b : β}

theorem reads_pure (a : α) (ts : List Tree) : Reads (pure a) ts a ts := Account.ends_pure _ (a, ts)

theorem Reads.bind (h : Reads read ts a us) (hnext : Reads (next a) us b rest) : Reads (read >>= next) ts b rest := by
  unfold Reads
  rw [StateT.run_bind]
  exact Account.Ends.bind h hnext

theorem Reads.ifTrue {c : Bool} {other : Reader α} (hc : c = true) (h : Reads read ts a rest) :
    Reads (if c then read else other) ts a rest := by
  rwa [if_pos hc]

theorem Reads.ifFalse {c : Bool} {other : Reader α} (hc : c = false) (h : Reads read ts a rest) :
    Reads (if c then other else read) ts a rest := by
  rwa [if_neg (by simp [hc])]

theorem reads_get (ts : List Tree) : Reads get ts ts ts := Account.ends_pure _ (ts, ts)

theorem reads_front (p : Tree → Bool) (ts : List Tree) : Reads (front p) ts (ts.head?.any p) ts :=
  (reads_get ts).bind (reads_pure _ ts)

theorem reads_startsFactor (i : Nat) (ts : List Tree) :
    Reads (startsFactor i) ts (Tree.startsFactor (ts.drop i)) ts :=
  (reads_get ts).bind (startsFactorAt_eq ts i ▸ reads_pure _ ts)

theorem reads_pop (t : Tree) (ts : List Tree) : Reads pop (t :: ts) (some t) ts := Account.ends_pure _ (some t, ts)

theorem Reads.called {rule : Rule} {read : Reader (Option Tree)} {result : Option Tree}
    (h : Reads read ts result rest) (hcall : Call.Sound ⟨rule, ts, result, rest⟩) :
    Reads (called rule read) ts result rest := by
  have henter : Reads (liftM (Account.enter (Call.mk rule ts result rest))) rest () rest := by
    unfold Reads
    rw [StateT.run_monadLift]
    exact (Account.ends_enter hcall).bind (Account.ends_pure _ _)
  exact (reads_get ts).bind (h.bind ((reads_get rest).bind (henter.bind (reads_pure result rest))))

end Reads

/-! ## Atoms and trailers -/

theorem reads_strings (ts : List Tree) :
    Reads strings ts (some (ts.takeWhile (isToken .string))) (ts.dropWhile (isToken .string)) := by
  induction ts with
  | nil =>
    rw [strings]
    exact (reads_front _ _).bind (.ifFalse rfl (reads_pure _ _))
  | cons t ts ih =>
    rw [strings]
    by_cases h : t.isToken .string
    · rw [List.takeWhile_cons_of_pos h, List.dropWhile_cons_of_pos h]
      exact (reads_front _ _).bind (.ifTrue h ((reads_pop t ts).bind (ih.bind (reads_pure _ _))))
    · rw [List.takeWhile_cons_of_neg h, List.dropWhile_cons_of_neg h]
      exact (reads_front _ _).bind (.ifFalse (by simpa using h) (reads_pure _ _))

theorem reads_atom {ts rest : List Tree} {a : Tree} (h : atom? ts = some (a, rest)) : Reads atom ts (some a) rest := by
  obtain ⟨us, hts, hatom, -⟩ := atom?_sound h
  have hstarts : ts.head?.any isAtom = true := by
    by_contra hno
    simp [atom?_eq_none_iff.2 (by simpa using hno)] at h
  refine Reads.called ?_ (.of_eq_append hts hstarts hatom.ne_nil hatom.tokens)
  cases ts with
  | nil => contradiction
  | cons t ts =>
    simp only [atom?] at h
    split at h
    · contradiction
    · split at h
      · next hstring =>
        obtain ⟨rfl, rfl⟩ := Prod.mk.inj (Option.some.inj h)
        exact (reads_pop t ts).bind (.ifTrue hstring ((reads_strings ts).bind (reads_pure _ _)))
      · next hstring =>
        obtain ⟨rfl, rfl⟩ := Prod.mk.inj (Option.some.inj h)
        exact (reads_pop t ts).bind (.ifFalse (by simpa using hstring) (reads_pure _ _))

theorem startsTrailer_eq (ts : List Tree) : startsTrailer ts =
    (ts.head?.any isCallOrSubscript || (ts.head?.any (isOperator ['.']) && ts[1]?.any (isToken .name))) := by
  cases ts with
  | nil => rfl
  | cons t ts => simp [startsTrailer, List.head?_eq_getElem?]

/-- Where no trailer starts nothing is taken. -/
theorem reads_trailer_of_not {ts : List Tree} (h : startsTrailer ts = false) : Reads trailer ts none ts := by
  refine Reads.called ?_ (.no_trailer h)
  rw [startsTrailer_eq, Bool.or_eq_false_iff] at h
  refine (reads_front _ _).bind (.ifFalse h.1 ?_)
  exact (reads_front _ _).bind ((reads_get _).bind (.ifFalse h.2 (reads_pure _ _)))

theorem reads_trailer_group {t : Tree} (h : t.isCallOrSubscript = true) (ts : List Tree) :
    Reads trailer (t :: ts) (some t.asTrailer) ts := by
  have htokens : t.asTrailer.tokens = tokensAll [t] := by simpa using transparent_tokensAll.asTrailer h
  refine Reads.called ?_ (.of_eq_append rfl (by simp [Rule.starts, startsTrailer, h]) (by simp) htokens)
  refine (reads_front _ _).bind (.ifTrue h ((reads_pop t ts).bind ?_))
  cases t with
  | leaf u => simp [isCallOrSubscript] at h
  | node k cs => exact reads_pure _ _

theorem reads_trailer_member {dot name : Tree} (hgroup : dot.isCallOrSubscript = false)
    (h : (dot.isOperator ['.'] && name.isToken .name) = true) (ts : List Tree) :
    Reads trailer (dot :: name :: ts) (some (node .trailer [dot, name])) ts := by
  have hts : dot :: name :: ts = [dot, name] ++ ts := rfl
  refine Reads.called ?_ (.of_eq_append hts (by simp [Rule.starts, startsTrailer, h]) (by simp) rfl)
  refine (reads_front _ _).bind (.ifFalse hgroup ((reads_front _ _).bind ((reads_get _).bind (.ifTrue h ?_))))
  exact (reads_pop dot _).bind ((reads_pop name ts).bind (reads_pure _ _))

theorem reads_trailers (ts : List Tree) : Reads trailers ts (Tree.trailers ts).1 (Tree.trailers ts).2 := by
  fun_induction Tree.trailers ts with
  | case1 =>
    rw [trailers]
    exact (reads_trailer_of_not rfl).bind (reads_pure _ _)
  | case2 t ts hgroup ih =>
    rw [trailers]
    exact (reads_trailer_group hgroup ts).bind (ih.bind (reads_pure _ _))
  | case3 t hgroup =>
    rw [trailers]
    exact (reads_trailer_of_not (by simp [startsTrailer, hgroup])).bind (reads_pure _ _)
  | case4 t hgroup n ts hdotted ih =>
    rw [trailers]
    exact (reads_trailer_member (by simpa using hgroup) hdotted ts).bind (ih.bind (reads_pure _ _))
  | case5 t hgroup n ts hdotted =>
    rw [trailers]
    exact (reads_trailer_of_not (by simpa [startsTrailer, hgroup] using hdotted)).bind (reads_pure _ _)

theorem reads_trailed {ts rest : List Tree} {a : Tree} (h : atom? ts = some (a, rest)) :
    Reads trailed ts (some (a :: (Tree.trailers rest).1)) (Tree.trailers rest).2 :=
  (reads_atom h).bind ((reads_trailers rest).bind (reads_pure _ _))

theorem reads_primary {ts ps rest : List Tree} (h : primary? ts = some (ps, rest)) :
    Reads primary ts (some ps) rest := by
  cases ts with
  | nil => contradiction
  | cons t ts =>
    simp only [primary?] at h
    split at h
    · next hawait =>
      obtain ⟨⟨a, r⟩, ha, h⟩ := Option.map_eq_some_iff.1 h
      obtain ⟨rfl, rfl⟩ := Prod.mk.inj h
      exact (reads_front _ _).bind (.ifTrue hawait ((reads_pop t ts).bind ((reads_trailed ha).bind (reads_pure _ _))))
    · next hawait =>
      obtain ⟨⟨a, r⟩, ha, h⟩ := Option.map_eq_some_iff.1 h
      obtain ⟨rfl, rfl⟩ := Prod.mk.inj h
      exact (reads_front _ _).bind (.ifFalse (by simpa using hawait) (reads_trailed ha))

/-! ## Powers, factors and terms -/

section Factors

variable {ts rest : List Tree} {t : Tree}

theorem startsFactor_of_factor? (h : factor? ts = some (t, rest)) : Tree.startsFactor ts = true := by
  by_contra hno
  simp [factor?_eq_none_iff.2 (by simpa using hno)] at h

theorem sound_factor (h : factor? ts = some (t, rest)) : Call.Sound ⟨.factor, ts, some t, rest⟩ := by
  obtain ⟨us, hts, hphrase, -⟩ := factor?_sound h
  exact .of_eq_append hts (startsFactor_of_factor? h) (ne_nil_of_endsWith hphrase.endsWith_isAtom) hphrase.tokens

theorem sound_power (h : factor? ts = some (t, rest)) (hsign : ts.head?.any isSign = false) :
    Call.Sound ⟨.power, ts, some t, rest⟩ := by
  obtain ⟨us, hts, hphrase, -⟩ := factor?_sound h
  have hstarts : Rule.power.starts ts = true := by simp [Rule.starts, startsFactor_of_factor? h, hsign]
  exact .of_eq_append hts hstarts (ne_nil_of_endsWith hphrase.endsWith_isAtom) hphrase.tokens

/-- Looking ahead for an operator of the class `p` with a right operand. -/
theorem head?_any_and_startsFactor (p : Tree → Bool) (ts : List Tree) :
    (ts.head?.any p && Tree.startsFactor (ts.drop 1)) = startsOperator p ts := by
  cases ts <;> rfl

theorem startsOperator_cons {p : Tree → Bool} {op : Tree} (hop : p op = true) (h : factor? ts = some (t, rest)) :
    startsOperator p (op :: ts) = true := by
  simp [startsOperator, hop, startsFactor_of_factor? h]

theorem not_startsOperator_cons {p : Tree → Bool} {op : Tree} (h : (if p op then factor? ts else none) = none) :
    startsOperator p (op :: ts) = false := by
  by_cases hop : p op
  · rw [if_pos hop] at h
    simp [startsOperator, factor?_eq_none_iff.1 h]
  · simp [startsOperator, hop]

theorem collapse_concat_pair (k : NodeKind) (ts : List Tree) (u v : Tree) :
    collapse k (ts ++ [u, v]) = .node k (ts ++ [u, v]) := by
  match ts with
  | [] | [_] | _ :: _ :: _ => rfl

theorem reads_power_plain {parts : List Tree} (h : primary? ts = some (parts, rest))
    (hends : startsOperator isPower rest = false)
    (hsound : Call.Sound ⟨.power, ts, some (collapse .power parts), rest⟩) :
    Reads (power factor primary) ts (some (collapse .power parts)) rest := by
  refine Reads.called ?_ hsound
  refine (reads_primary h).bind ((reads_front _ _).bind ((reads_startsFactor _ _).bind (.ifFalse ?_ (reads_pure _ _))))
  rw [head?_any_and_startsFactor, hends]

theorem reads_power_raised {parts us : List Tree} {op exponent : Tree} (h : primary? ts = some (parts, op :: us))
    (hop : startsOperator isPower (op :: us) = true) (hexponent : Reads factor us (some exponent) rest)
    (hsound : Call.Sound ⟨.power, ts, some (.node .power (parts ++ [op, exponent])), rest⟩) :
    Reads (power factor primary) ts (some (.node .power (parts ++ [op, exponent]))) rest := by
  refine Reads.called ?_ hsound
  refine (reads_primary h).bind ((reads_front _ _).bind ((reads_startsFactor _ _).bind (.ifTrue hop ?_)))
  rw [← collapse_concat_pair]
  exact (reads_pop op us).bind (hexponent.bind (reads_pure _ _))

theorem reads_factor_unsigned (hsign : ts.head?.any isSign = false) (h : Reads (power factor primary) ts (some t) rest)
    (hsound : Call.Sound ⟨.factor, ts, some t, rest⟩) : Reads factor ts (some t) rest := by
  rw [factor]
  exact Reads.called ((reads_front _ _).bind (.ifFalse hsign h)) hsound

theorem reads_factor (h : factor? ts = some (t, rest)) : Reads factor ts (some t) rest := by
  have hfactor := sound_factor h
  have hpower := sound_power h
  fun_induction factor? ts generalizing t rest with
  | case1 => contradiction
  | case2 s ts hsign ih =>
    obtain ⟨⟨operand, r⟩, hf, h⟩ := Option.map_eq_some_iff.1 h
    obtain ⟨rfl, rfl⟩ := Prod.mk.inj h
    have hoperand := ih hf (sound_factor hf) (sound_power hf)
    rw [factor]
    refine Reads.called ?_ hfactor
    exact (reads_front _ _).bind (.ifTrue hsign ((reads_pop s ts).bind (hoperand.bind (reads_pure _ _))))
  | case3 => contradiction
  | case4 s ts hsign parts hp =>
    obtain ⟨rfl, rfl⟩ := Prod.mk.inj (Option.some.inj h)
    have hunsigned : (s :: ts).head?.any isSign = false := by simpa using hsign
    exact reads_factor_unsigned hunsigned (reads_power_plain hp rfl (hpower hunsigned)) hfactor
  | case5 s ts hsign parts op us hp exponent r hf ih =>
    obtain ⟨rfl, rfl⟩ := Prod.mk.inj (Option.some.inj h)
    have hunsigned : (s :: ts).head?.any isSign = false := by simpa using hsign
    split at hf
    · next hop =>
      have hexponent := ih hf (sound_factor hf) (sound_power hf)
      exact reads_factor_unsigned hunsigned
        (reads_power_raised hp (startsOperator_cons hop hf) hexponent (hpower hunsigned)) hfactor
    · contradiction
  | case6 s ts hsign parts op us hp hf _ =>
    obtain ⟨rfl, rfl⟩ := Prod.mk.inj (Option.some.inj h)
    have hunsigned : (s :: ts).head?.any isSign = false := by simpa using hsign
    exact reads_factor_unsigned hunsigned (reads_power_plain hp (not_startsOperator_cons hf) (hpower hunsigned)) hfactor

theorem reads_products_nil (h : startsOperator isMultiplicative ts = false) : Reads products ts (some []) ts := by
  rw [products]
  refine (reads_front _ _).bind ((reads_startsFactor _ _).bind (.ifFalse ?_ (reads_pure _ _)))
  rw [head?_any_and_startsFactor, h]

theorem reads_products (ts : List Tree) : Reads products ts (some (multiplied ts).1) (multiplied ts).2 := by
  fun_induction multiplied ts with
  | case1 => exact reads_products_nil rfl
  | case2 op ts f rest h ih =>
    split at h
    · next hop =>
      rw [products]
      refine (reads_front _ _).bind ((reads_startsFactor _ _).bind (.ifTrue (startsOperator_cons hop h) ?_))
      exact (reads_pop op ts).bind ((reads_factor h).bind (ih.bind (reads_pure _ _)))
    · contradiction
  | case3 op ts h => exact reads_products_nil (not_startsOperator_cons h)

theorem reads_term (h : term? ts = some (t, rest)) : Reads term ts (some t) rest := by
  obtain ⟨us, hts, hphrase, -⟩ := term?_sound h
  obtain ⟨⟨f, r⟩, hf, h⟩ := Option.map_eq_some_iff.1 h
  obtain ⟨rfl, rfl⟩ := Prod.mk.inj h
  have hus := ne_nil_of_endsWith hphrase.endsWith_isAtom
  refine Reads.called ?_ (.of_eq_append hts (startsFactor_of_factor? hf) hus hphrase.tokens)
  exact (reads_factor hf).bind ((reads_products r).bind (reads_pure _ _))

end Factors

/-! ## All siblings -/

/-- One sibling of the result is read, and then the others. -/
theorem Reads.group {behindOperand operand : Bool} {ts rest us : List Tree} {t : Tree} (hts : ts ≠ [])
    (hoperand : (!(ts.head?.any isSign && behindOperand) && Tree.startsFactor ts) = operand)
    (hfirst : Reads (Reader.called .sibling (if operand then term else pop)) ts (some t) rest)
    (hothers : Reads (Reader.group operand) rest us []) : Reads (Reader.group behindOperand) ts (t :: us) [] := by
  subst hoperand
  rw [Reader.group]
  refine (reads_get _).bind (.ifFalse (by simpa using hts) ?_)
  exact (reads_front _ _).bind ((reads_startsFactor 0 ts).bind (hfirst.bind (hothers.bind (reads_pure _ _))))

theorem reads_group (behindOperand : Bool) (ts : List Tree) :
    Reads (group behindOperand) ts (groupOperands behindOperand ts) [] := by
  fun_induction groupOperands behindOperand ts with
  | case1 behindOperand =>
    rw [group]
    exact (reads_get _).bind (.ifTrue rfl (reads_pure _ _))
  | case2 behindOperand t ts operand rest h ih =>
    split at h
    · contradiction
    · next hsign =>
      obtain ⟨us, hts, hphrase, -⟩ := term?_sound h
      have hus := ne_nil_of_endsWith hphrase.endsWith_isAtom
      have hsound : Call.Sound ⟨.sibling, t :: ts, some operand, rest⟩ := .of_eq_append hts rfl hus hphrase.tokens
      have hoperand : (!(t.isSign && behindOperand) && Tree.startsFactor (t :: ts)) = true := by
        have hstarts : Tree.startsFactor (t :: ts) = true := by
          by_contra hno
          simp [term?_eq_none_iff.2 (by simpa using hno)] at h
        rw [hstarts, Bool.and_comm t.isSign, Bool.eq_false_iff.2 hsign]
        rfl
      exact Reads.group (by simp) hoperand (Reads.called (.ifTrue rfl (reads_term h)) hsound) ih
  | case3 behindOperand t ts h ih =>
    have hts : t :: ts = [t] ++ ts := rfl
    have hsound : Call.Sound ⟨.sibling, t :: ts, some t, ts⟩ := .of_eq_append hts rfl (by simp) (by simp)
    have hoperand : (!(t.isSign && behindOperand) && Tree.startsFactor (t :: ts)) = false := by
      split at h
      · next hsign => simp [Bool.and_comm t.isSign, hsign]
      · simp [term?_eq_none_iff.1 h]
    exact Reads.group (by simp) hoperand (Reads.called (.ifFalse rfl (reads_pop t ts)) hsound) ih

/-- Whatever the siblings are, reading them off the queue comes to an end with nothing left on it. Their operands are
grouped, their tokens kept in order, and all calls on the way are sound. -/
theorem exists_group_eq (ts : List Tree) : ∃ calls,
    ((group false).run ts).run [] = some ((groupOperands false ts, []), calls) ∧
    tokensAll (groupOperands false ts) = tokensAll ts ∧ ∀ c ∈ calls, c.Sound := by
  obtain ⟨calls, hrun, hsound⟩ := reads_group false ts []
  exact ⟨calls, hrun, tokensAll_groupOperands ts, hsound⟩

end Reader

end Interpolation

import Interpolation.Proofs.Run.Totals
import Mathlib.Data.List.Infix

/-!
# Agreeing to all changes

* `replies` — all that the user says: the lines that are understood, up to the first that is no text;
* `Assent` — replies that agree to a number of changes, be it to each of them or to all further ones;
* `Fate.unasked` — a fate, but for the question to the user;
* `World.Alike` — worlds with the same files, in which the output takes everything and nothing else touches the files;
* `World.Visited.exists_alike`, `World.Course.exists_alike` — a visit, and then a course, at which nobody is asked can be
  followed in a world in which the user is asked and agrees;
* `World.run_agreed` — it makes no difference whether nobody is asked or the user agrees to everything.

No path is replaced while the runs go on: only the one with questions would ever notice.
-/

namespace Interpolation

open Pattern (interpolation)

/-! ## Replies -/

/-- All replies that some lines give. Behind a line that is no text there are none. -/
def replies : List Bytes → List Reply
  | [] => []
  | line :: rest =>
    match line.text? with
    | none => []
    | some t =>
      match Reply.ofLine? t with
      | none => replies rest
      | some reply => reply :: replies rest

/-- The replies agree to `n` changes: to one after the other, up to one that agrees to all that follow. -/
inductive Assent : Nat → List Reply → Prop
  | done (rs : List Reply) : Assent 0 rs
  | yes {n : Nat} {rs : List Reply} (others : Assent n rs) : Assent (n + 1) (.yes :: rs)
  | all (n : Nat) (rs : List Reply) : Assent n (.all :: rs)

theorem assent_of_yes {n : Nat} {rs : List Reply} (h : List.replicate n .yes <+: rs) : Assent n rs := by
  induction n generalizing rs with
  | zero => exact .done rs
  | succ n ih =>
    obtain ⟨rest, rfl⟩ := h
    exact .yes (ih (List.prefix_append _ _))

theorem assent_of_all {k n : Nat} {rs : List Reply} (h : List.replicate k .yes ++ [.all] <+: rs) : Assent n rs := by
  obtain ⟨rest, rfl⟩ := h
  induction k generalizing n with
  | zero => exact .all n rest
  | succ k ih =>
    cases n with
    | zero => exact .done _
    | succ n => exact .yes ih

/-! ## Fates without questions -/

/-- The fate, but for the question to the user. -/
def Fate.unasked : Fate → Fate
  | .accepted t _ writing => .accepted t none writing
  | f => f

theorem Fate.failure?_unasked (f : Fate) : f.unasked.failure? = f.failure? := by
  cases f <;> rfl

theorem Fate.Stopped.of_unasked {f : Fate} (h : f.unasked.Stopped) : f.Stopped := by
  cases f with
  | accepted => cases h
  | _ => exact h

/-- The visit, but for the question to the user. -/
def Visit.unasked (v : Visit) : Visit := { v with fate := v.fate.unasked }

theorem Visit.summary_unasked (v : Visit) : v.unasked.summary = v.summary := by
  obtain ⟨path, fate⟩ := v
  cases fate with
  | accepted t talk writing => cases writing <;> rfl
  | _ => rfl

theorem Report.summary_unasked (visits : List Visit) (failure failure' : Option Failure) :
    Report.summary ⟨visits.map Visit.unasked, failure⟩ = Report.summary ⟨visits, failure'⟩ := by
  simp only [summary, List.foldl_map, Visit.summary_unasked]

namespace World

/-! ## Asking a user who answers -/

theorem beginReading_eq {w : World} (h : w.replaced = []) : w.beginReading = w := by
  obtain ⟨store, input, output, room, replaced⟩ := w
  obtain rfl : replaced = [] := h
  rfl

/-- A question is settled by the next reply, and nothing but the input and the output changes. -/
theorem exists_ask {w : World} (hroom : w.room = none) (hreplaced : w.replaced = []) {r : Reply} {rs : List Reply}
    (h : replies w.input = r :: rs) (question : Text) : ∃ ignored input output,
    w.ask question = (⟨ignored, .answered r⟩, { w with input, output }) ∧ replies input = rs := by
  rw [ask]
  generalize w.input = lines at h ⊢
  induction lines generalizing w with
  | nil => contradiction
  | cons line rest ih =>
    rw [replies] at h
    cases htext : line.text? with
    | none =>
      rw [htext] at h
      contradiction
    | some t =>
      cases hreply : Reply.ofLine? t with
      | none =>
        simp only [htext, hreply] at h
        obtain ⟨ignored, input, output, hask, hrest⟩ :=
          ih (w := { w with output := w.output ++ question.utf8 }) hroom hreplaced h
        refine ⟨normalizeAnswer t :: ignored, input, output, ?_, hrest⟩
        rw [askFrom_of_ignored hroom htext hreply, beginReading_eq hreplaced, hask]
      | some reply =>
        simp only [htext, hreply, List.cons.injEq] at h
        obtain ⟨rfl, hrest⟩ := h
        refine ⟨[], rest, w.output ++ question.utf8, ?_, hrest⟩
        rw [askFrom_of_reply hroom htext hreply, beginReading_eq hreplaced]

/-! ## Following a run at which nobody is asked -/

/-- The worlds have the same files, their outputs take everything, and nothing else touches the files. -/
structure Alike (w x : World) : Prop where
  store : x.store = w.store
  left_room : w.room = none
  room : x.room = none
  left_replaced : w.replaced = []
  replaced : x.replaced = []

variable {options options' : Options} {asking : Bool} {path : Text} {w x u : World} {fate : Fate}

/-- What is proposed where nobody is asked is proposed and agreed to where the user is asked, if there is need to. -/
theorem Proposed.exists_alike {source : Text} {v : World} {n : Nat} {talk : Option Exchange}
    (proposed : Proposed path source w v) (consented : Consented false path v talk u) (h : Alike w x)
    (hassent : asking = true → Assent (n + 1) (replies x.input)) : ∃ y talk' z, Proposed path source x y ∧
      Consented asking path y talk' z ∧ talk = none ∧ Alike u z ∧
        ((asking && !talk'.any Exchange.acceptsAll) = true → Assent n (replies z.input)) := by
  cases consented with
  | asked asks => contradiction
  | unasked =>
    obtain ⟨-, rfl⟩ := Prod.mk.inj ((print_of_room h.left_room _).symm.trans proposed.print)
    obtain ⟨o, proposed'⟩ := exists_proposed h.room (h.store ▸ proposed.read) proposed.changed
    have halike (input : List Bytes) (output output' : Bytes) :
        Alike { w with output } { x with input, output := output' } :=
      ⟨h.store, h.left_room, h.room, h.left_replaced, h.replaced⟩
    cases asking with
    | false => exact ⟨_, none, _, proposed', .unasked rfl, rfl, halike _ _ _, nofun⟩
    | true =>
      generalize hreplies : replies x.input = rs at hassent
      cases hassent rfl with
      | yes others =>
        obtain ⟨ignored, input, output, hask, rfl⟩ :=
          exists_ask (w := { x with output := o }) h.room h.replaced hreplies (questionFor path)
        exact ⟨_, _, _, proposed', .asked rfl hask rfl, rfl, halike _ _ _, fun _ => others⟩
      | all =>
        obtain ⟨ignored, input, output, hask, -⟩ :=
          exists_ask (w := { x with output := o }) h.room h.replaced hreplies (questionFor path)
        exact ⟨_, _, _, proposed', .asked rfl hask rfl, rfl, halike _ _ _, nofun⟩

/-- A visit at which nobody is asked can be followed where the user agrees, if there is need to ask. -/
theorem Visited.exists_alike {n : Nat} (h : Visited options false path w fate u) (hwrite : options.write = true)
    (hwrite' : options'.write = true) (halike : Alike w x)
    (hassent : asking = true → Assent (n + fate.isChanged.toNat) (replies x.input)) : ∃ fate' u',
    x.visit options' asking path = (fate', u') ∧ fate'.unasked = fate ∧ fate'.stops = false ∧ Alike u u' ∧
      ((asking && !fate'.settlesAll) = true → Assent n (replies u'.input)) := by
  have hstore := halike.store
  cases h with
  | unreadable read =>
    exact ⟨_, x, visit_eq_iff.2 (.unreadable (hstore ▸ read)), rfl, rfl, halike,
      fun hasking => hassent (Bool.and_eq_true_iff.1 hasking).1⟩
  | unchanged read same =>
    exact ⟨_, x, visit_eq_iff.2 (.unchanged (hstore ▸ read) same), rfl, rfl, halike,
      fun hasking => hassent (Bool.and_eq_true_iff.1 hasking).1⟩
  | unprintable _ _ print =>
    rw [print_of_room halike.left_room] at print
    simp at print
  | shown _ keeps =>
    rw [hwrite] at keeps
    contradiction
  | refused _ _ asks => contradiction
  | accepted proposed _ consented write =>
    obtain ⟨y, talk, z, proposed', consented', rfl, halike', hothers⟩ := proposed.exists_alike consented halike hassent
    have hvisited := Visited.accepted proposed' hwrite' consented' (halike'.store ▸ write)
    exact ⟨_, _, hvisited.eq_visit, rfl, Bool.eq_false_iff.2 (mt hvisited.stops_iff.1 nofun),
      ⟨rfl, halike'.left_room, halike'.room, halike'.left_replaced, halike'.replaced⟩, hothers⟩

theorem countP_isChanged_cons (v : Visit) (visits : List Visit) : (v :: visits).countP (·.fate.isChanged) =
    visits.countP (·.fate.isChanged) + v.fate.isChanged.toNat := by
  rw [List.countP_cons]
  cases v.fate.isChanged <;> rfl

/-- A run at which nobody is asked can be followed where the user agrees to everything. -/
theorem Course.exists_alike {paths : List Text} {visits : List Visit} (h : Course options false w paths visits u)
    (hwrite : options.write = true) (hwrite' : options'.write = true) (halike : Alike w x)
    (hassent : asking = true → Assent (visits.countP (·.fate.isChanged)) (replies x.input)) : ∃ visits' u',
    Course options' asking x paths visits' u' ∧ visits'.map Visit.unasked = visits ∧ Alike u u' ∧
      ∀ v ∈ visits', v.fate.failure? = none := by
  generalize hsilent : false = silent at h
  induction h generalizing asking x with
  | done => exact ⟨[], x, .done asking x, rfl, halike, by simp⟩
  | stopped visit stops rest =>
    subst hsilent
    rw [countP_isChanged_cons] at hassent
    have hvisited := visit_eq_iff.1 visit
    obtain ⟨fate', x', hvisit, rfl, hgoes, -⟩ := hvisited.exists_alike hwrite hwrite' halike hassent
    -- Neither of the two visits can stop a run.
    have hstopped := (hvisited.stops_iff.1 stops).of_unasked
    rw [← (visit_eq_iff.1 hvisit).stops_iff, hgoes] at hstopped
    contradiction
  | next visit goes others ih =>
    subst hsilent
    rw [countP_isChanged_cons] at hassent
    obtain ⟨fate', x', hvisit, rfl, hgoes, halike, hothers⟩ :=
      (visit_eq_iff.1 visit).exists_alike hwrite hwrite' halike hassent
    obtain ⟨visits', u', hcourse, rfl, halike', hfailure⟩ := ih halike hothers rfl
    exact ⟨_, u', .next hvisit hgoes hcourse, rfl, halike',
      List.forall_mem_cons.2 ⟨Fate.failure?_eq_none hgoes, hfailure⟩⟩

/-! ## A run -/

/-- It makes no difference to the files and to the totals whether nobody is asked, or the user says yes to each change, or
says yes to some changes and then agrees to all that follow. Lines that are not understood do not count, and what follows
the last answer that is needed is no matter. -/
theorem run_agreed {w : World} (hroom : w.room = none) (hreplaced : w.replaced = []) {paths sources : List Text}
    (hsources : w.store.sources paths = .ok sources) {input : List Bytes}
    (hreplies : List.replicate (w.run ⟨false, true⟩ paths).1.summary.changed .yes <+: replies input ∨
      ∃ n, List.replicate n .yes ++ [.all] <+: replies input) :
    let unasked := w.run ⟨false, true⟩ paths
    let asked := { w with input }.run ⟨true, true⟩ paths
    asked.2.store = unasked.2.store ∧ asked.1.summary = unasked.1.summary ∧ asked.1.failure = none ∧
      unasked.1.failure = none := by
  intro unasked asked
  obtain ⟨visits, u, hrun, hcourse⟩ := exists_run_eq hsources ⟨false, true⟩
  have hassent : Assent (visits.countP (·.fate.isChanged)) (replies input) := by
    rcases hreplies with hyes | ⟨n, hall⟩
    · rw [Report.changed_eq, hrun] at hyes
      exact assent_of_yes hyes
    · exact assent_of_all hall
  have halike : Alike w { w with input } := ⟨rfl, hroom, hroom, hreplaced, hreplaced⟩
  have hwrite : Options.write ⟨true, true⟩ = true := rfl
  obtain ⟨visits', u', hcourse', rfl, halike', hfailure⟩ := hcourse.exists_alike rfl hwrite halike fun _ => hassent
  have hrun' := hcourse'.run_eq (w := { w with input }) hsources
  have hunasked : unasked = _ := hrun
  have hasked : asked = _ := hrun'
  rw [hunasked, hasked]
  refine ⟨halike'.store, (Report.summary_unasked ..).symm, List.findSome?_eq_none_iff.2 hfailure, ?_⟩
  refine List.findSome?_eq_none_iff.2 (List.forall_mem_map.2 fun v hv => ?_)
  exact v.fate.failure?_unasked.trans (hfailure v hv)

/-- A file is visited twice, through a link and by its name. Two replies are enough, or one that agrees to everything. -/
theorem run_agreed_agreeing :
    agreeing.room = none ∧ agreeing.replaced = [] ∧ agreeing.store.sources [['b'], ['a']] = .ok [['b'], ['a']] ∧
    replies [Text.utf8 "yes".toList, Text.utf8 "why".toList, Text.utf8 "Y".toList, [0xff]] = [.yes, .yes] ∧
    replies [Text.utf8 "why".toList, Text.utf8 "all".toList, [0xff]] = [.all] ∧
    let unasked := agreeing.run ⟨false, true⟩ [['b'], ['a']]
    let yes := { agreeing with
      input := [Text.utf8 "yes".toList, Text.utf8 "why".toList, Text.utf8 "Y".toList, [0xff]] }.run ⟨true, true⟩
      [['b'], ['a']]
    let all := { agreeing with
      input := [Text.utf8 "why".toList, Text.utf8 "all".toList, [0xff]] }.run ⟨true, true⟩ [['b'], ['a']]
    yes.2.store = unasked.2.store ∧ yes.1.summary = unasked.1.summary ∧
      all.2.store = unasked.2.store ∧ all.1.summary = unasked.1.summary := by
  have hsources : agreeing.store.sources [['b'], ['a']] = .ok [['b'], ['a']] := by
    have ha : agreeing.store.locate ['a'] = .ok [['a']] :=
      Store.locate_name rfl rfl (by decide) entry_agreeing (by simp)
    simp [Store.sources, Store.sourcesAt, locate_agreeing, ha, Store.isDirectory, entry_agreeing, Except.map]
  have hyes : replies [Text.utf8 "yes".toList, Text.utf8 "why".toList, Text.utf8 "Y".toList, [0xff]] = [.yes, .yes] := by
    decide +kernel
  have hall : replies [Text.utf8 "why".toList, Text.utf8 "all".toList, [0xff]] = [.all] := by decide +kernel
  have hchanged : (agreeing.run ⟨false, true⟩ [['b'], ['a']]).1.summary.changed ≤ 2 := by
    rw [Report.changed_eq, run, hsources]
    refine List.countP_le_length.trans ?_
    simpa using (visitAll_paths agreeing ⟨false, true⟩ false [['b'], ['a']]).length_le
  have hprefix : List.replicate (agreeing.run ⟨false, true⟩ [['b'], ['a']]).1.summary.changed .yes <+:
      [Reply.yes, .yes] :=
    ⟨List.replicate (2 - _) .yes, by rw [List.replicate_append_replicate, Nat.add_sub_cancel' hchanged]; rfl⟩
  obtain ⟨hstore, hsummary, -⟩ := run_agreed rfl rfl hsources (.inl (hyes ▸ hprefix))
  obtain ⟨hstore', hsummary', -⟩ := run_agreed rfl rfl hsources (.inr ⟨0, hall.symm ▸ List.prefix_refl [Reply.all]⟩)
  exact ⟨rfl, rfl, hsources, hyes, hall, hstore, hsummary, hstore', hsummary'⟩

end World

end Interpolation

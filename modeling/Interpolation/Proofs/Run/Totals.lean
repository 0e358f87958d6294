import Interpolation.CommandLine
import Interpolation.Proofs.Run.Stop
import Interpolation.Proofs.Transform.Counts
import Mathlib.Algebra.BigOperators.Group.List.Basic
import Mathlib.Algebra.GroupWithZero.Nat

/-!
# The totals of a run

* `Report.number` — the number of sources with a certain fate;
* `Report.summary_eq` — every total is the sum of its values for the single visits;
* `Topic` — what events are counted for; `Event.message_eq_iff` and `Event.level_eq_error_iff` say how it is seen in
  the log, and `Report.countP_log` how often it occurs there;
* `Report.Accounts` — the totals, the numbers of sources and the log agree;
* `World.Course.accounts` — they do after a course that did not fail, and `World.run_accounts` after a run, together with
  the exit code of the command.
-/

namespace Interpolation

open Pattern (interpolation)

/-! ## Kinds of fates -/

namespace Fate

def isUnreadable : Fate → Bool
  | .unreadable _ => true
  | _ => false

def isUnchanged : Fate → Bool
  | .unchanged _ => true
  | _ => false

/-- The user said no. -/
def isDeclined : Fate → Bool
  | .refused _ talk => talk.ending = .answered .no
  | _ => false

/-- The source was to be written and could not be. -/
def isUnwritten : Fate → Bool
  | .accepted _ _ writing => writing.cause?.isSome
  | _ => false

/-- The user wanted no more. -/
def isQuit : Fate → Bool
  | .refused _ talk => talk.quits
  | _ => false

theorem isUnreadable_add_isUnchanged_add_isChanged (f : Fate) :
    f.isUnreadable.toNat + f.isUnchanged.toNat + f.isChanged.toNat = 1 := by
  cases f <;> rfl

theorem isSome_fileFailure? (f : Fate) (path : Text) :
    (f.fileFailure? path).isSome.toNat = f.isUnreadable.toNat + f.isUnwritten.toNat := by
  cases f with
  | accepted t talk writing => cases writing <;> rfl
  | _ => rfl

theorem stops_of_isQuit {f : Fate} (h : f.isQuit = true) : f.stops = true := by
  cases f with
  | refused t talk => simp only [stops, talk?, Option.any_some, show talk.quits = true from h, Bool.or_true]
  | _ => contradiction

/-- What stops the run without failing is that the user wants no more. -/
theorem Stopped.isQuit {f : Fate} (h : f.Stopped) (hfailure : f.failure? = none) : f.isQuit = true := by
  cases h with
  | unprintable => contradiction
  | quit ending => simp [Fate.isQuit, Exchange.quits, ending]
  | inputEnded ending => simp [Fate.isQuit, Exchange.quits, ending]
  | broken ending => simp [failure?, Exchange.failure?, ending] at hfailure

end Fate

/-- Who does not agree says no or wants no more. -/
theorem Exchange.declined_add_quits {x : Exchange} (hdeclines : x.accepts = false) (hfailure : x.failure? = none) :
    (decide (x.ending = .answered .no)).toNat + x.quits.toNat = 1 := by
  obtain ⟨ignored, ending⟩ := x
  cases ending with
  | answered reply =>
    cases reply with
    | yes => contradiction
    | all => contradiction
    | no => rfl
    | quit => rfl
  | inputEnded => rfl
  | broken e => contradiction

/-! ## Sums over visits -/

theorem sum_map_toNat {α : Type} (p : α → Bool) (as : List α) : (as.map fun a => (p a).toNat).sum = as.countP p := by
  induction as with
  | nil => rfl
  | cons a as ih =>
    rw [List.map_cons, List.sum_cons, ih, List.countP_cons, Nat.add_comm]
    cases p a <;> rfl

/-- A sum over the visits to sources that could be read is one over their transformations. -/
theorem sum_map_transformation (f : Transformation → Nat) (visits : List Visit) :
    (visits.map fun v => v.fate.transformation?.elim 0 f).sum =
      ((visits.filterMap (·.fate.transformation?)).map f).sum := by
  induction visits with
  | nil => rfl
  | cons v visits ih =>
    rw [List.map_cons, List.sum_cons, ih]
    cases ht : v.fate.transformation? with
    | none => simp [ht]
    | some t => simp [ht]

namespace Report

/-- The number of sources with a certain fate. -/
def number (r : Report) (p : Fate → Bool) : Nat := r.visits.countP (p ·.fate)

/-- The transformations of all sources that could be read. -/
def transformations (r : Report) : List Transformation := r.visits.filterMap (·.fate.transformation?)

/-- A total is the sum of its values for the single visits. -/
theorem summary_eq (r : Report) (total : Summary → Nat) (hzero : total {} = 0)
    (hadd : ∀ a b, total (a.add b) = total a + total b) : total r.summary = (r.visits.map (total ·.summary)).sum := by
  have hfold (visits : List Visit) (s : Summary) :
      total (visits.foldl (fun s v => s.add v.summary) s) = total s + (visits.map (total ·.summary)).sum := by
    induction visits generalizing s with
    | nil => rfl
    | cons v visits ih => rw [List.foldl_cons, ih, hadd, List.map_cons, List.sum_cons, Nat.add_assoc]
  rw [summary, hfold, hzero, Nat.zero_add]

variable (r : Report)

theorem files_eq : r.summary.files = r.visits.length := by
  rw [r.summary_eq Summary.files rfl fun _ _ => rfl]
  simp [Visit.summary]

theorem changed_eq : r.summary.changed = r.number Fate.isChanged := by
  rw [r.summary_eq Summary.changed rfl fun _ _ => rfl]
  exact sum_map_toNat _ _

theorem written_eq : r.summary.written = r.number Fate.isWritten := by
  rw [r.summary_eq Summary.written rfl fun _ _ => rfl]
  exact sum_map_toNat _ _

theorem interpolated_eq : r.summary.interpolated = (r.transformations.map (·.interpolated)).sum := by
  rw [r.summary_eq Summary.interpolated rfl fun _ _ => rfl]
  exact sum_map_transformation _ _

theorem skipped_eq : r.summary.skipped = (r.transformations.map (·.skipped)).sum := by
  rw [r.summary_eq Summary.skipped rfl fun _ _ => rfl]
  exact sum_map_transformation _ _

theorem errors_eq : r.summary.errors =
    r.number Fate.isUnreadable + r.number Fate.isUnwritten + (r.transformations.map (·.failed)).sum := by
  rw [r.summary_eq Summary.errors rfl fun _ _ => rfl]
  simp only [Visit.summary, Fate.isSome_fileFailure?, List.sum_map_add, sum_map_toNat, sum_map_transformation]
  rfl

end Report

/-! ## The log -/

/-- What events are counted for. -/
inductive Topic where
  | selected
  | unchanged
  | wrote
  | failure
  deriving DecidableEq, Repr

/-- The text of the events on a topic, if they all have the same. -/
def Topic.notice? : Topic → Option Text
  | .selected => some "selected expression".toList
  | .unchanged => some "no changes".toList
  | .wrote => some "wrote changes".toList
  | .failure => none

/-- What an event is counted for, if it is counted. -/
def Event.topic? : Event → Option Topic
  | .selected _ _ => some .selected
  | .unchanged _ => some .unchanged
  | .wrote _ _ => some .wrote
  | .aborted _ _ | .failed _ => some .failure
  | _ => none

theorem Failure.head?_message (f : Failure) : f.message.head? = some 'f' := by
  cases f <;> rfl

namespace Event

/-- The first letter tells most events apart. -/
theorem head?_message (e : Event) : e.message.head? = match e with
    | .selected _ _ | .searched _ | .skipped _ | .stopped => some 's'
    | .mismatched _ _ _ => some 'p'
    | .interpolated _ | .aborted _ _ => some 'r'
    | .lost _ => some 'm'
    | .failed _ => some 'f'
    | .unchanged _ => some 'n'
    | .unrecognised _ => some 'u'
    | .wrote _ _ => some 'w' := by
  cases e with
  | failed failure => exact failure.head?_message
  | _ => rfl

theorem message_eq_iff {e : Event} {k : Topic} {text : Text} (h : k.notice? = some text) :
    e.message = text ↔ e.topic? = some k := by
  constructor
  · intro hmessage
    have hhead := e.head?_message
    rw [hmessage] at hhead
    cases k with
    | selected =>
      obtain rfl := Option.some.inj h
      have hsearched : "selected expressions".toList ≠ "selected expression".toList := by decide
      have hskipped : "skipped expression".toList ≠ "selected expression".toList := by decide
      have hstopped : "stopping at user request".toList ≠ "selected expression".toList := by decide
      cases e with
      | selected => rfl
      | searched => exact absurd hmessage hsearched
      | skipped => exact absurd hmessage hskipped
      | stopped => exact absurd hmessage hstopped
      | _ => simp at hhead
    | unchanged =>
      obtain rfl := Option.some.inj h
      cases e with
      | unchanged => rfl
      | _ => simp at hhead
    | wrote =>
      obtain rfl := Option.some.inj h
      cases e with
      | wrote => rfl
      | _ => simp at hhead
    | failure => contradiction
  · intro htopic
    cases e with
    | selected => obtain rfl := Option.some.inj htopic; exact Option.some.inj h
    | unchanged => obtain rfl := Option.some.inj htopic; exact Option.some.inj h
    | wrote => obtain rfl := Option.some.inj htopic; exact Option.some.inj h
    | aborted => obtain rfl := Option.some.inj htopic; contradiction
    | failed => obtain rfl := Option.some.inj htopic; contradiction
    | _ => contradiction

theorem level_eq_error_iff {e : Event} : e.level = .error ↔ e.topic? = some .failure := by
  cases e <;> simp [level, topic?]

end Event

/-- Only an attempt that fails is counted; what was selected is logged before all attempts. -/
theorem Attempt.countP_events (as : List Attempt) (k : Topic) :
    (as.flatMap events).countP (·.topic? = some k) = if k = .failure then as.countP isFailed else 0 := by
  have hone (a : Attempt) : a.events.countP (·.topic? = some k) = if k = .failure then a.isFailed.toNat else 0 := by
    obtain ⟨m, _ | ⟨expression, _ | ⟨_ | _⟩ | _⟩⟩ := a <;> cases k <;> rfl
  rw [List.countP_flatMap]
  simp only [Function.comp_def, hone]
  split
  · exact sum_map_toNat _ _
  · simp

theorem Exchange.countP_events (x : Exchange) (k : Topic) : x.events.countP (·.topic? = some k) = 0 := by
  rw [List.countP_eq_zero]
  intro e he
  simp only [events, List.mem_append, List.mem_map] at he
  rcases he with ⟨answer, _, rfl⟩ | he
  · simp [Event.topic?]
  · split at he
    · obtain rfl := List.mem_singleton.1 he
      simp [Event.topic?]
    · contradiction

/-- What a transformation adds to a topic. -/
def Transformation.share (t : Transformation) : Topic → Nat
  | .selected => t.attempts.length
  | .failure => t.failed
  | _ => 0

theorem Transformation.countP_log (t : Transformation) (k : Topic) : t.log.countP (·.topic? = some k) = t.share k := by
  rw [log, List.countP_append, List.countP_cons, List.countP_map, Attempt.countP_events]
  cases k <;> simp [Event.topic?, Function.comp_def, share, failed]

/-- What a visit adds to a topic beside its transformation. -/
def Fate.share (f : Fate) : Topic → Nat
  | .selected => 0
  | .unchanged => f.isUnchanged.toNat
  | .wrote => f.isWritten.toNat
  | .failure => f.isUnreadable.toNat + f.isUnwritten.toNat

theorem Visit.countP_events (v : Visit) (k : Topic) :
    v.events.countP (·.topic? = some k) = v.fate.transformation?.elim 0 (·.share k) + v.fate.share k := by
  have htransformation : (v.fate.transformation?.elim [] Transformation.log).countP (·.topic? = some k) =
      v.fate.transformation?.elim 0 (·.share k) := by
    cases v.fate.transformation? with
    | none => rfl
    | some t => exact t.countP_log k
  have htalk : (v.fate.talk?.elim [] Exchange.events).countP (·.topic? = some k) = 0 := by
    cases v.fate.talk? with
    | none => rfl
    | some x => exact x.countP_events k
  rw [events, List.countP_append, List.countP_append, htransformation, htalk, Nat.add_zero]
  congr 1
  obtain ⟨path, fate⟩ := v
  cases fate with
  | accepted t talk writing => cases writing <;> cases k <;> rfl
  | _ => cases k <;> rfl

theorem Report.countP_log (r : Report) (k : Topic) : r.log.countP (·.topic? = some k) =
    (r.transformations.map (·.share k)).sum + (r.visits.map (·.fate.share k)).sum := by
  rw [log, List.countP_flatMap]
  simp only [Function.comp_def, Visit.countP_events, List.sum_map_add, sum_map_transformation]
  rfl

namespace Report

variable (r : Report)

theorem log_errors_eq : r.log.countP (·.level = .error) = r.summary.errors := by
  simp only [Event.level_eq_error_iff, countP_log]
  show (r.transformations.map (·.failed)).sum +
    (r.visits.map fun v => v.fate.isUnreadable.toNat + v.fate.isUnwritten.toNat).sum = _
  rw [List.sum_map_add, sum_map_toNat, sum_map_toNat, errors_eq, Nat.add_comm]
  rfl

theorem log_wrote_eq : r.log.countP (·.message = "wrote changes".toList) = r.summary.written := by
  simp only [Event.message_eq_iff (k := .wrote) rfl, countP_log]
  show (r.transformations.map fun _ => 0).sum + (r.visits.map (·.fate.isWritten.toNat)).sum = _
  rw [sum_map_toNat, written_eq]
  simp [number]

theorem log_unchanged_eq : r.log.countP (·.message = "no changes".toList) = r.number Fate.isUnchanged := by
  simp only [Event.message_eq_iff (k := .unchanged) rfl, countP_log]
  show (r.transformations.map fun _ => 0).sum + (r.visits.map (·.fate.isUnchanged.toNat)).sum = _
  rw [sum_map_toNat]
  simp [number]

theorem log_selected_eq : r.log.countP (·.message = "selected expression".toList) =
    (r.transformations.map (·.attempts.length)).sum := by
  simp only [Event.message_eq_iff (k := .selected) rfl, countP_log]
  show (r.transformations.map (·.attempts.length)).sum + (r.visits.map fun _ => 0).sum = _
  simp

end Report

/-! ## Totals, numbers of sources and log -/

/-- A report that did not fail, on the visits to some sources. -/
structure Report.Accounts (r : Report) (options : Options) (sources : List Text) : Prop where
  /-- Every source that was visited is counted once. -/
  files : r.number Fate.isUnreadable + r.number Fate.isUnchanged + r.summary.changed = r.summary.files
  /-- All sources are visited, unless the user wants no more. -/
  all : r.number Fate.isQuit = 0 → r.visits.map Visit.path = sources ∧ r.summary.files = sources.length
  /-- In that case, the source at which the user said so is the last that was visited. -/
  quit : r.number Fate.isQuit ≠ 0 → r.number Fate.isQuit = 1 ∧ ∃ earlier v rest, r.visits = earlier ++ [v] ∧
    v.fate.isQuit = true ∧ sources = earlier.map Visit.path ++ v.path :: rest ∧ r.summary.files = earlier.length + 1
  changed : options.write = true →
    r.summary.written + r.number Fate.isDeclined + r.number Fate.isUnwritten + r.number Fate.isQuit = r.summary.changed
  written : options.write = false → r.summary.written = 0
  errors : r.summary.errors = r.number Fate.isUnreadable + r.number Fate.isUnwritten
  interpolated : r.summary.interpolated = (r.transformations.map (·.interpolated)).sum
  skipped : r.summary.skipped = (r.transformations.map (·.skipped)).sum
  log_errors : r.log.countP (·.level = .error) = r.summary.errors
  log_wrote : r.log.countP (·.message = "wrote changes".toList) = r.summary.written
  log_unchanged : r.log.countP (·.message = "no changes".toList) = r.number Fate.isUnchanged
  log_selected : r.log.countP (·.message = "selected expression".toList) = r.summary.interpolated + r.summary.skipped

namespace World

variable {options : Options} {asking : Bool} {path : Text} {w u : World} {fate : Fate}

/-- What is to be changed is written, or the user declines, or it cannot be written, or the user wants no more. -/
theorem Visited.changed_eq (h : Visited options asking path w fate u) (hfailure : fate.failure? = none)
    (hwrite : options.write = true) : fate.isWritten.toNat + fate.isDeclined.toNat + fate.isUnwritten.toNat +
      fate.isQuit.toNat = fate.isChanged.toNat := by
  cases h with
  | unreadable | unchanged => rfl
  | @accepted _ _ _ _ writing => cases writing <;> rfl
  | unprintable => contradiction
  | shown _ keeps =>
    rw [hwrite] at keeps
    contradiction
  | refused _ _ _ _ declines =>
    have htalk := Exchange.declined_add_quits declines hfailure
    simpa [Fate.isWritten, Fate.isDeclined, Fate.isUnwritten, Fate.isQuit, Fate.isChanged] using htalk

theorem Visited.isWritten_of_not_write (h : Visited options asking path w fate u) (hwrite : options.write = false) :
    fate.isWritten = false := by
  cases h with
  | accepted _ writes =>
    rw [hwrite] at writes
    contradiction
  | _ => rfl

namespace Course

variable {sources : List Text} {visits : List Visit}

theorem exists_transformation (h : Course options asking w sources visits u) {t : Transformation}
    (ht : t ∈ visits.filterMap (·.fate.transformation?)) : ∃ source, t = interpolation.transform source := by
  obtain ⟨v, hv, hvt⟩ := List.mem_filterMap.1 ht
  obtain ⟨_, _, _, hvisited⟩ := h.exists_visited hv
  obtain ⟨source, -, rfl⟩ := hvisited.exists_transformation hvt
  exact ⟨source, rfl⟩

/-- Where the user does not quit, nothing stops the run. -/
theorem paths_eq_of_not_isQuit (h : Course options asking w sources visits u)
    (hfailure : ∀ v ∈ visits, v.fate.failure? = none) (hquit : ∀ v ∈ visits, ¬v.fate.isQuit = true) :
    visits.map Visit.path = sources := by
  refine h.paths_eq fun v hv => ?_
  obtain ⟨_, _, _, hvisited⟩ := h.exists_visited hv
  by_contra hstops
  rw [Bool.not_eq_false] at hstops
  exact hquit v hv ((hvisited.stops_iff.1 hstops).isQuit (hfailure v hv))

/-- The source at which the user quits is the last. -/
theorem exists_append_of_isQuit (h : Course options asking w sources visits u) {v : Visit} (hv : v ∈ visits)
    (hquit : v.fate.isQuit = true) : ∃ earlier rest, visits = earlier ++ [v] ∧
      (∀ x ∈ earlier, ¬x.fate.isQuit = true) ∧ sources = earlier.map Visit.path ++ v.path :: rest := by
  obtain ⟨earlier, later, rfl⟩ := List.append_of_mem hv
  obtain ⟨rest, _, _, hsources, -, hgoes, -, hlast, -⟩ := h.split
  obtain ⟨rfl, -⟩ := hlast (Fate.stops_of_isQuit hquit)
  refine ⟨earlier, rest, rfl, fun x hx hxquit => ?_, hsources⟩
  have hstops := Fate.stops_of_isQuit hxquit
  rw [hgoes x hx] at hstops
  contradiction

/-- No attempt at an expression fails in a run. -/
theorem sum_failed (h : Course options asking w sources visits u) :
    ((visits.filterMap (·.fate.transformation?)).map (·.failed)).sum = 0 := by
  refine List.sum_eq_zero fun n hn => ?_
  obtain ⟨t, ht, rfl⟩ := List.mem_map.1 hn
  obtain ⟨source, rfl⟩ := h.exists_transformation ht
  exact Tree.countP_isFailed_interpolateAll _ _

theorem sum_attempts (h : Course options asking w sources visits u) :
    ((visits.filterMap (·.fate.transformation?)).map (·.attempts.length)).sum =
      ((visits.filterMap (·.fate.transformation?)).map (·.interpolated)).sum +
        ((visits.filterMap (·.fate.transformation?)).map (·.skipped)).sum := by
  have hall : (visits.filterMap (·.fate.transformation?)).map (·.attempts.length) =
      (visits.filterMap (·.fate.transformation?)).map fun t => t.interpolated + t.skipped + t.failed :=
    List.map_congr_left fun t _ => (Attempt.countP_add_countP_add_countP t.attempts).symm
  rw [hall, List.sum_map_add, List.sum_map_add, h.sum_failed, Nat.add_zero]

/-- Totals, numbers of sources and log agree. -/
theorem accounts {failure : Option Failure} (h : Course options asking w sources visits u)
    (hfailure : visits.findSome? (·.fate.failure?) = none) : Report.Accounts ⟨visits, failure⟩ options sources := by
  have hnone : ∀ v ∈ visits, v.fate.failure? = none := List.findSome?_eq_none_iff.1 hfailure
  have hnumber (p : Fate → Bool) : Report.number ⟨visits, failure⟩ p = (visits.map fun v => (p v.fate).toNat).sum :=
    (sum_map_toNat _ _).symm
  have herrors : Report.number ⟨visits, failure⟩ Fate.isUnreadable + Report.number ⟨visits, failure⟩ Fate.isUnwritten =
      (Report.summary ⟨visits, failure⟩).errors := by
    rw [Report.errors_eq, Report.transformations, h.sum_failed, Nat.add_zero]
  refine ⟨?_, fun hquit => ?_, fun hquit => ?_, fun hwrite => ?_, fun hwrite => ?_, herrors.symm, Report.interpolated_eq _,
    Report.skipped_eq _, Report.log_errors_eq _, Report.log_wrote_eq _, Report.log_unchanged_eq _, ?_⟩
  · rw [Report.changed_eq, Report.files_eq, hnumber, hnumber, hnumber, ← List.sum_map_add, ← List.sum_map_add]
    simp [Fate.isUnreadable_add_isUnchanged_add_isChanged]
  · have hpaths := h.paths_eq_of_not_isQuit hnone (List.countP_eq_zero.1 hquit)
    refine ⟨hpaths, ?_⟩
    rw [Report.files_eq, ← hpaths, List.length_map]
  · obtain ⟨v, hv, hvquit⟩ := List.countP_pos_iff.1 (Nat.pos_of_ne_zero hquit)
    obtain ⟨earlier, rest, rfl, hearlier, hsources⟩ := h.exists_append_of_isQuit hv hvquit
    refine ⟨?_, earlier, v, rest, rfl, hvquit, hsources, ?_⟩
    · rw [Report.number, List.countP_append, List.countP_eq_zero.2 hearlier, List.countP_singleton, if_pos hvquit]
    · rw [Report.files_eq, List.length_append, List.length_singleton]
  · rw [Report.changed_eq, Report.written_eq, hnumber, hnumber, hnumber, hnumber, hnumber, ← List.sum_map_add,
      ← List.sum_map_add, ← List.sum_map_add]
    refine congrArg List.sum (List.map_congr_left fun v hv => ?_)
    obtain ⟨_, _, _, hvisited⟩ := h.exists_visited hv
    exact hvisited.changed_eq (hnone v hv) hwrite
  · rw [Report.written_eq]
    refine List.countP_eq_zero.2 fun v hv => ?_
    obtain ⟨_, _, _, hvisited⟩ := h.exists_visited hv
    simp [hvisited.isWritten_of_not_write hwrite]
  · rw [Report.log_selected_eq, Report.interpolated_eq, Report.skipped_eq]
    exact h.sum_attempts

end Course

end World

namespace CommandLine

theorem exitCode_eq_zero_iff {r : Report} : exitCode r = 0 ↔ r.failure = none ∧ r.summary.errors = 0 := by
  rw [exitCode]
  split
  · next h => simpa using h
  · next h => simpa using h

theorem execute_exitCode {arguments : List Text} {options : Options} {paths : List Text}
    (h : Invocation.ofArguments arguments = .run options paths) (w : World) :
    (execute arguments w).1.exitCode = exitCode (w.run options paths).1 := by
  rw [execute, h]

end CommandLine

/-- After a run that did not fail, the totals, the numbers of sources with certain fates and the log agree; and every
source that was visited was so in its turn. The command for a run exits with zero if and only if the run did not fail
and there were no errors, and with one otherwise. -/
theorem World.run_accounts (w : World) (options : Options) (paths : List Text) :
    let r := (w.run options paths).1
    (r.failure = none → ∃ sources, w.store.sources paths = .ok sources ∧ r.Accounts options sources ∧
      ∀ earlier v later, r.visits = earlier ++ v :: later → ∃ u u',
        w.visitAll options (options.interactive && options.write) (earlier.map Visit.path) = (earlier, u) ∧
        Visited options (stillAsking (options.interactive && options.write) earlier) v.path u v.fate u') ∧
    ∀ arguments, Invocation.ofArguments arguments = .run options paths →
      ((CommandLine.execute arguments w).1.exitCode = 0 ↔ r.failure = none ∧ r.summary.errors = 0) ∧
      ((CommandLine.execute arguments w).1.exitCode = 0 ∨ (CommandLine.execute arguments w).1.exitCode = 1) := by
  intro r
  refine ⟨fun hfailure => ?_, fun arguments harguments => ?_⟩
  · cases hsources : w.store.sources paths with
    | error failure =>
      have hrun : w.run options paths = (⟨[], some failure⟩, w) := by rw [run, hsources]
      rw [show r.failure = some failure from congrArg (·.1.failure) hrun] at hfailure
      contradiction
    | ok sources =>
      obtain ⟨visits, u, hrun, hcourse⟩ := exists_run_eq hsources options
      have hr : r = ⟨visits, visits.findSome? (·.fate.failure?)⟩ := congrArg Prod.fst hrun
      rw [hr] at hfailure ⊢
      refine ⟨sources, rfl, hcourse.accounts hfailure, ?_⟩
      rintro earlier v later rfl
      obtain ⟨rest, u, u', -, hbefore, -, hvisit, -⟩ := hcourse.split
      exact ⟨u, u', hbefore.eq_visitAll, visit_eq_iff.1 hvisit⟩
  · rw [CommandLine.execute_exitCode harguments]
    refine ⟨CommandLine.exitCode_eq_zero_iff, ?_⟩
    rw [CommandLine.exitCode]
    split
    · exact .inl rfl
    · exact .inr rfl

/-- Of three sources one cannot be read and one cannot be written, and both are errors; the user quits at the third. -/
theorem World.run_accounts_interrupted :
    (interrupted.run {} [['a'], ['b'], ['c']]).1.failure = none ∧
    Invocation.ofArguments [['a'], ['b'], ['c']] = .run {} [['a'], ['b'], ['c']] ∧
    (interrupted.run {} [['a'], ['b'], ['c']]).1.Accounts {} [['a'], ['b'], ['c']] ∧
    (interrupted.run {} [['a'], ['b'], ['c']]).1.summary.errors = 2 ∧
    (CommandLine.execute [['a'], ['b'], ['c']] interrupted).1.exitCode = 1 := by
  have harguments : Invocation.ofArguments [['a'], ['b'], ['c']] = .run {} [['a'], ['b'], ['c']] := by decide
  obtain ⟨t, t', v, hcourse⟩ := course_interrupted
  have hrun := hcourse.run_eq sources_interrupted
  have hfailure : (interrupted.run {} [['a'], ['b'], ['c']]).1.failure = none := by
    rw [hrun]
    rfl
  obtain ⟨htotals, hexit⟩ := run_accounts interrupted {} [['a'], ['b'], ['c']]
  obtain ⟨sources, hsources, haccounts, -⟩ := htotals hfailure
  obtain rfl := Except.ok.inj (sources_interrupted.symm.trans hsources)
  have herrors : (interrupted.run {} [['a'], ['b'], ['c']]).1.summary.errors = 2 := by
    rw [haccounts.errors, hrun]
    rfl
  obtain ⟨hzero, hcode⟩ := hexit _ harguments
  refine ⟨hfailure, harguments, haccounts, herrors, hcode.resolve_left fun hcode => ?_⟩
  have hnone := (hzero.1 hcode).2
  rw [herrors] at hnone
  contradiction

end Interpolation

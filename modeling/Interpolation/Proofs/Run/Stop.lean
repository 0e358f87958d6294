import Interpolation.Proofs.Run.Course

/-!
# What stops a run

* `Fate.Stopped` — the ways in which a visit stops the run, as `World.Visited.stops_iff` says;
* `World.Untouched` — the files as they were, or as they were found when the input was looked at for the first time;
* `World.Visited.untouched` — a visit leaves the files untouched unless a change was accepted, whether it stops the run
  or not;
* `World.Turn` — one visit in a run, and what it leaves;
* `World.run_in_turn` — a run that is stopped leaves what a run over the sources in front leaves, and nothing else
  stops a run;
* `World.run_unwritten` — a file that cannot be written need not be as it was.
-/

namespace Interpolation

open Pattern (interpolation)

/-- The ways in which a visit stops the run. -/
inductive Fate.Stopped : Fate → Prop
  /-- The difference could not be printed. -/
  | unprintable (t : Transformation) (e : IoError) : Stopped (.unprintable t e)
  /-- The user wants no more. -/
  | quit {t : Transformation} {talk : Exchange} (ending : talk.ending = .answered .quit) : Stopped (.refused t talk)
  /-- The input has ended. -/
  | inputEnded {t : Transformation} {talk : Exchange} (ending : talk.ending = .inputEnded) : Stopped (.refused t talk)
  /-- The question could not be printed, or an answer is no text. -/
  | broken {t : Transformation} {talk : Exchange} {e : IoError} (ending : talk.ending = .broken e) :
      Stopped (.refused t talk)

/-- Whether the change of a source was accepted. -/
def Fate.isAccepted : Fate → Bool
  | .accepted _ _ _ => true
  | _ => false

/-- At a visit that stops the run no change is accepted. -/
theorem Fate.Stopped.not_isAccepted {fate : Fate} (h : fate.Stopped) : fate.isAccepted = false := by
  cases h <;> rfl

theorem Fate.failure?_eq_none {fate : Fate} (h : fate.stops = false) : fate.failure? = none := by
  simp only [stops, Bool.or_eq_false_iff, Option.isSome_eq_false_iff, Option.isNone_iff_eq_none] at h
  exact h.1

namespace World

variable {options : Options} {asking : Bool} {path : Text} {w u : World} {fate : Fate}

/-! ## What a visit does to the files -/

/-- The files are as they were, or as they were found when the input was looked at. -/
def Untouched (w u : World) : Prop := u.store = w.store ∨ u.store = w.beginReading.store

theorem beginReading_congr (h : SameFiles w u) : SameFiles w.beginReading u.beginReading := by
  simp [SameFiles, beginReading, h.1, h.2]

theorem SameFiles.untouched {v : World} (h : SameFiles w u) (hv : Untouched u v) : Untouched w v :=
  hv.imp (·.trans h.1) (·.trans (beginReading_congr h).1)

/-- Where nothing is to be replaced, untouched files are the same files. -/
theorem Untouched.store_eq (h : Untouched w u) (hreplaced : w.replaced = []) : u.store = w.store :=
  h.elim id (·.trans (sameFiles_beginReading hreplaced).1)

theorem sameFiles_of_print {t : Text} {failed : Option IoError} (h : w.print t = (failed, u)) : SameFiles w u := by
  have hprint := sameFiles_print w t
  rwa [h] at hprint

theorem untouched_askFrom (w : World) (question : Text) (input : List Bytes) :
    Untouched w (w.askFrom question input).2 := by
  fun_induction w.askFrom question input with
  | case1 input w e u hprint => exact .inl (sameFiles_of_print hprint).1
  | case2 w u hprint => exact .inr (beginReading_congr (sameFiles_of_print hprint)).1
  | case3 w u hprint => exact .inr (beginReading_congr (sameFiles_of_print hprint)).1
  | case4 w u hprint => exact .inr (beginReading_congr (sameFiles_of_print hprint)).1
  | case5 w u hprint line rest t htext hreply x v hask ih =>
    rw [hask] at ih
    -- Once the input was looked at, nothing is left to be replaced.
    exact .inr ((ih.store_eq rfl).trans (beginReading_congr (sameFiles_of_print hprint)).1)

theorem untouched_ask {talk : Exchange} {question : Text} (h : w.ask question = (talk, u)) : Untouched w u := by
  have hask := untouched_askFrom w question w.input
  rwa [show w.askFrom question w.input = _ from h] at hask

theorem Consented.untouched {talk : Option Exchange} (h : Consented asking path w talk u) : Untouched w u := by
  cases h with
  | unasked => exact .inl rfl
  | asked _ ask _ => exact untouched_ask ask

theorem Proposed.sameFiles {source : Text} (h : Proposed path source w u) : SameFiles w u := sameFiles_of_print h.print

/-- A visit leaves the files untouched unless a change was accepted. -/
theorem Visited.untouched (h : Visited options asking path w fate u) (hdeclined : fate.isAccepted = false) :
    Untouched w u := by
  cases h with
  | unreadable => exact .inl rfl
  | unchanged => exact .inl rfl
  | unprintable _ _ print => exact .inl (sameFiles_of_print print).1
  | shown proposed => exact .inl proposed.sameFiles.1
  | refused proposed _ _ ask => exact proposed.sameFiles.untouched (untouched_ask ask)
  | accepted => simp [Fate.isAccepted] at hdeclined

/-- Where a change was accepted its file is written, all files being untouched up to then. -/
theorem Visited.exists_write {t : Transformation} {talk : Option Exchange} {writing : Writing}
    (h : Visited options asking path w (.accepted t talk writing) u) :
    ∃ found, Untouched w found ∧ found.store.write path t.output.utf8 = (writing, u.store) := by
  cases h with
  | accepted proposed _ consented write => exact ⟨_, proposed.sameFiles.untouched consented.untouched, write⟩

theorem Course.replaced {paths : List Text} {visits : List Visit} (h : Course options asking w paths visits u)
    (hw : w.replaced = []) : u.replaced = [] := by
  have hvisit {asking : Bool} {w u : World} {path : Text} {fate : Fate} (hw : w.replaced = [])
      (visit : w.visit options asking path = (fate, u)) : u.replaced = [] := by
    have hreplaced := (handles_visit hw options asking path).2
    rw [visit] at hreplaced
    exact hreplaced.trans hw
  induction h with
  | done => exact hw
  | stopped visit _ _ => exact hvisit hw visit
  | next visit _ _ ih => exact ih (hvisit hw visit)

/-! ## What stops a run -/

theorem Visited.stops_iff (h : Visited options asking path w fate u) : fate.stops = true ↔ fate.Stopped := by
  have hnot {f : Fate} (hgoes : f.stops = false) (hstopped : ¬f.Stopped) : f.stops = true ↔ f.Stopped :=
    iff_of_false (hgoes ▸ Bool.false_ne_true) hstopped
  have haccepted {t : Transformation} {talk : Option Exchange} {writing : Writing} {v v' : World}
      (consented : Consented asking path v talk v') :
      (Fate.accepted t talk writing).stops = true ↔ (Fate.accepted t talk writing).Stopped := by
    have hgoes : (Fate.accepted t talk writing).stops = false := by
      cases consented with
      | unasked => rfl
      | asked _ _ agrees =>
        simp only [Exchange.accepts, Bool.or_eq_true, decide_eq_true_eq] at agrees
        rcases agrees with agrees | agrees <;>
          simp [Fate.stops, Fate.failure?, Fate.talk?, Exchange.quits, agrees]
    refine hnot hgoes fun hstopped => ?_
    cases hstopped
  cases h with
  | unreadable | unchanged | shown =>
    refine hnot rfl fun hstopped => ?_
    cases hstopped
  | unprintable => exact iff_of_true rfl (.unprintable _ _)
  | @refused _ _ _ talk _ _ _ _ declines =>
    constructor
    · intro hstops
      cases hending : talk.ending with
      | answered reply =>
        cases reply with
        | quit => exact .quit hending
        | yes => simp [Exchange.accepts, hending] at declines
        | all => simp [Exchange.accepts, hending] at declines
        | no => simp [Fate.stops, Fate.failure?, Fate.talk?, Exchange.failure?, Exchange.quits, hending] at hstops
      | inputEnded => exact .inputEnded hending
      | broken e => exact .broken hending
    · intro hstopped
      cases hstopped with
      | quit hending => simp [Fate.stops, Fate.talk?, Exchange.quits, hending]
      | inputEnded hending => simp [Fate.stops, Fate.talk?, Exchange.quits, hending]
      | broken hending => simp [Fate.stops, Fate.failure?, Exchange.failure?, hending]
  | accepted _ _ consented => exact haccepted consented

/-- Only one visit makes a run fail, the last. -/
theorem Course.findSome?_failure? {paths : List Text} {visits : List Visit} (h : Course options asking w paths visits u) :
    visits.findSome? (·.fate.failure?) = visits.getLast?.bind (·.fate.failure?) := by
  induction h with
  | done => rfl
  | @stopped _ _ _ _ fate => cases hfailure : fate.failure? <;> simp [hfailure]
  | @next _ _ _ _ path fate _ visits _ goes _ ih =>
    have hnone := Fate.failure?_eq_none goes
    rw [List.findSome?_cons, hnone]
    cases visits with
    | nil => simp [hnone]
    | cons v visits => rw [ih, List.getLast?_cons_cons]

/-! ## A run -/

/-- The visit `v` in a run over some sources: `earlier` and `later` are the visits in front of it and behind it, `u` and
`u'` the worlds before and after it, `rest` the sources behind, and `after` the world at the end. -/
structure Turn (w : World) (options : Options) (sources : List Text) (earlier : List Visit) (v : Visit)
    (later : List Visit) (rest : List Text) (u u' after : World) : Prop where
  /-- The sources are visited in their order. -/
  sources_eq : sources = earlier.map Visit.path ++ v.path :: rest
  /-- The visit starts where a run over the sources in front ends, all else being the same. -/
  before : w.visitAll options (options.interactive && options.write) (earlier.map Visit.path) = (earlier, u)
  visit : u.visit options (stillAsking (options.interactive && options.write) earlier) v.path = (v.fate, u')
  /-- It can stop the run in some ways only. -/
  stops_iff : v.fate.stops = true ↔ v.fate.Stopped
  /-- If it does, it is the last, and no change was accepted. -/
  last : v.fate.stops = true → later = [] ∧ after = u' ∧ v.fate.isAccepted = false
  /-- If not, all later sources are visited from there on. -/
  next : v.fate.stops = false →
    u'.visitAll options (stillAsking (options.interactive && options.write) (earlier ++ [v])) rest = (later, after)
  /-- A file that cannot be read or written does not stop the run. -/
  goes : ∀ failure, v.fate.fileFailure? v.path = some failure → v.fate.stops = false ∧ v.fate.isWritten = false
  /-- Where no change was accepted the files are as the visit has found them. -/
  untouched : v.fate.isAccepted = false → Untouched u u'
  /-- Where one was, the file was written from there. -/
  write : ∀ t talk writing, v.fate = .accepted t talk writing →
    ∃ found, Untouched u found ∧ found.store.write v.path t.output.utf8 = (writing, u'.store)
  /-- If nothing else touches the files they are the same where no change was accepted. -/
  store_eq : v.fate.isAccepted = false → w.replaced = [] → u'.store = u.store
  /-- They also are where the file could not be opened. -/
  closed : v.fate.opens = false → w.replaced = [] → u.store.SameEntries u'.store
  /-- A file that was opened holds its new content then, or the beginning of it, and all others are as they were. -/
  opened : ∀ t talk writing, v.fate = .accepted t talk writing → writing.opens = true → w.replaced = [] →
    ∃ l new, u.store.locate v.path = .ok l ∧ writing.Leaves t.output.utf8 new ∧ u.store.Rewrote l new u'.store

theorem Course.exists_turn {sources : List Text} {earlier later : List Visit} {v : Visit} {after : World}
    (h : Course options (options.interactive && options.write) w sources (earlier ++ v :: later) after) :
    ∃ rest u u', Turn w options sources earlier v later rest u u' after := by
  obtain ⟨rest, u, u', hsources, hearlier, _, hvisit, hlast, hnext⟩ := h.split
  have hvisited := visit_eq_iff.1 hvisit
  have hstops := hvisited.stops_iff
  have hhandles (hreplaced : w.replaced = []) : Handles options
      (stillAsking (options.interactive && options.write) earlier) v.path u v.fate u'.store := by
    have hhandles := (handles_visit (hearlier.replaced hreplaced) options
      (stillAsking (options.interactive && options.write) earlier) v.path).1
    rwa [hvisit] at hhandles
  exact ⟨rest, u, u', {
    sources_eq := hsources
    before := hearlier.eq_visitAll
    visit := hvisit
    stops_iff := hstops
    last := fun h => ⟨(hlast h).1, (hlast h).2, (hstops.1 h).not_isAccepted⟩
    next := fun h => (hnext h).eq_visitAll
    goes := by
      intro failure hfailure
      rw [← Bool.not_eq_true, hstops]
      generalize v.fate = fate at hfailure
      cases fate with
      | unreadable => exact ⟨nofun, rfl⟩
      | accepted _ _ writing =>
        cases writing with
        | whole => cases hfailure
        | refused | cut => exact ⟨nofun, rfl⟩
      | _ => cases hfailure
    untouched := hvisited.untouched
    write := fun t talk writing hfate => (hfate ▸ hvisited).exists_write
    store_eq := fun hdeclined hreplaced => (hvisited.untouched hdeclined).store_eq (hearlier.replaced hreplaced)
    closed := by
      intro hclosed hreplaced
      have hhandles := hhandles hreplaced
      generalize v.fate = fate at hclosed hhandles
      cases hhandles with
      | kept _ same => exact same
      | opened _ _ _ _ leaves _ => simp [Fate.opens, leaves.opens] at hclosed
    opened := by
      intro t talk writing hfate hopens hreplaced
      have hhandles := hhandles hreplaced
      rw [hfate] at hhandles
      cases hhandles with
      | kept closed => simp [Fate.opens, hopens] at closed
      | opened _ leads _ _ leaves rewrote => exact ⟨_, _, leads, leaves, rewrote⟩ }⟩

/-- Where one of the paths leads nowhere, the run fails with the first of them, and nothing happens. Otherwise the
sources are visited in turn, all of them unless a visit stops the run. A visit that stops the run leaves the files as
the visits in front have left them; what any other leaves depends on how its file was written. -/
theorem run_in_turn (w : World) (options : Options) (paths : List Text) :
    let r := (w.run options paths).1
    let after := (w.run options paths).2
    (∀ p ∈ paths, ∀ e, w.store.locate p = .error e → ∃ before q behind d, paths = before ++ q :: behind ∧
      (∀ p ∈ before, ∃ l, w.store.locate p = .ok l) ∧ w.store.locate q = .error d ∧
      w.run options paths = (⟨[], some (.read q d)⟩, w)) ∧
    ((∀ p ∈ paths, ∃ l, w.store.locate p = .ok l) → ∃ sources, w.store.sources paths = .ok sources ∧
      ((∀ v ∈ r.visits, v.fate.stops = false) → r.visits.map Visit.path = sources) ∧
      r.failure = r.visits.getLast?.bind (·.fate.failure?) ∧
      ∀ earlier v later, r.visits = earlier ++ v :: later →
        ∃ rest u u', Turn w options sources earlier v later rest u u' after) := by
  intro r after
  refine ⟨fun p hp e he => ?_, fun hlocate => ?_⟩
  · cases hsources : w.store.sources paths with
    | error failure =>
      obtain ⟨before, q, behind, d, hpaths, hbefore, hq, rfl⟩ := Store.sources_eq_error_iff.1 hsources
      exact ⟨before, q, behind, d, hpaths, hbefore, hq, by rw [run, hsources]⟩
    | ok sources =>
      obtain ⟨failure, hfailure⟩ := Store.exists_sources_eq_error hp he
      rw [hsources] at hfailure
      contradiction
  · cases hsources : w.store.sources paths with
    | error failure =>
      obtain ⟨before, q, behind, d, rfl, -, hq, -⟩ := Store.sources_eq_error_iff.1 hsources
      obtain ⟨l, hl⟩ := hlocate q (by simp)
      rw [hq] at hl
      contradiction
    | ok sources =>
      obtain ⟨visits, u, hrun, hcourse⟩ := exists_run_eq hsources options
      have hvisits : r.visits = visits := congrArg (·.1.visits) hrun
      have hfailure : r.failure = visits.findSome? (·.fate.failure?) := congrArg (·.1.failure) hrun
      have hafter : after = u := congrArg (·.2) hrun
      rw [← hvisits, ← hafter] at hcourse
      refine ⟨sources, rfl, hcourse.paths_eq, ?_, fun earlier v later heq => ?_⟩
      · rw [hfailure, ← hvisits, hcourse.findSome?_failure?]
      · rw [heq] at hcourse
        exact hcourse.exists_turn

/-- The write of a source fails, no other process touches the files, and they are not what they were. -/
theorem run_unwritten :
    cramped.replaced = [] ∧ ∃ t,
      (cramped.run ⟨false, true⟩ [['a']]).1.visits = [⟨['a'], .accepted t none (.cut 2 diskFull)⟩] ∧
      Fate.fileFailure? ['a'] (.accepted t none (.cut 2 diskFull)) = some (.write ['a'] diskFull) ∧
      cramped.store.entry? [['a']] = some (.file (Text.utf8 "'%s' % x".toList)) ∧
      Store.entry? (cramped.run ⟨false, true⟩ [['a']]).2.store [['a']] = some (.file (Text.utf8 "f'".toList)) ∧
      ¬cramped.store.SameEntries (cramped.run ⟨false, true⟩ [['a']]).2.store := by
  obtain ⟨u, hrun, hentry⟩ := run_cramped
  have hne : Text.utf8 "'%s' % x".toList ≠ Text.utf8 "f'".toList := by decide +kernel
  rw [hrun]
  refine ⟨rfl, _, rfl, rfl, entry_cramped, hentry, fun hsame => hne ?_⟩
  have heq := hsame.entry?_eq [['a']]
  rw [hentry, entry_cramped, Option.some.injEq, Entry.file.injEq] at heq
  exact heq.symm

/-- A file that is no text and two with an expression; as soon as the input is looked at, a directory takes the place of
the second one. The user agrees to its change and wants no more then. -/
def interrupted : World where
  store := (((Store.empty []).insert [['a']] (.file [0xff])).insert [['b']] (.file (Text.utf8 "'%s' % x".toList))).insert
    [['c']] (.file (Text.utf8 "'%s' % y".toList))
  input := [Text.utf8 "yes".toList, Text.utf8 "q".toList]
  output := []
  room := none
  replaced := [['b']]

theorem locate_interrupted {n : Text} (hn : n ∈ [['a'], ['b'], ['c']]) : interrupted.store.locate n = .ok [n] := by
  simp only [List.mem_cons, List.not_mem_nil, or_false] at hn
  rcases hn with rfl | rfl | rfl
  · exact Store.locate_name (e := .file [0xff]) rfl rfl (by decide) rfl (by simp)
  · exact Store.locate_name (e := .file (Text.utf8 "'%s' % x".toList)) rfl rfl (by decide) rfl (by simp)
  · exact Store.locate_name (e := .file (Text.utf8 "'%s' % y".toList)) rfl rfl (by decide) rfl (by simp)

theorem sources_interrupted : interrupted.store.sources [['a'], ['b'], ['c']] = .ok [['a'], ['b'], ['c']] := by
  have hfile {n : Text} (hn : n ∈ [['a'], ['b'], ['c']]) : interrupted.store.isDirectory [n] = false := by
    simp only [List.mem_cons, List.not_mem_nil, or_false] at hn
    rcases hn with rfl | rfl | rfl <;> rfl
  simp [Store.sources, Store.sourcesAt, locate_interrupted, hfile, Except.map]

theorem visit_interrupted : ∃ u, interrupted.visit {} true ['b'] =
      (.accepted (interpolation.transform "'%s' % x".toList) (some ⟨[], .answered .yes⟩) (.refused .isDirectory), u) ∧
    u.store = interrupted.beginReading.store ∧ u.input = [Text.utf8 "q".toList] ∧ u.room = none := by
  have hread : interrupted.store.read ['b'] = .ok "'%s' % x".toList := by
    have hfile : interrupted.store.entry? [['b']] = some (.file (Text.utf8 "'%s' % x".toList)) := rfl
    simp [Store.read, Store.readBytes, locate_interrupted, hfile]
  have hchanged : (interpolation.transform "'%s' % x".toList).isChanged = true := by decide +kernel
  have hyes : Reply.ofLine? "yes".toList = some .yes := by decide
  have hdirectory : interrupted.beginReading.store.entry? [['b']] = some .directory := by decide +kernel
  have hlocate : interrupted.beginReading.store.locate ['b'] = .ok [['b']] :=
    Store.locate_name rfl rfl (by decide) hdirectory (by simp)
  obtain ⟨o, proposed⟩ := exists_proposed rfl hread hchanged
  have hask := ask_of_reply (w := { interrupted with output := o }) rfl rfl (Bytes.text?_utf8 _) hyes (questionFor ['b'])
  exact ⟨_, visit_eq_iff.2 (.accepted proposed rfl (.asked rfl hask rfl)
    (Store.write_of_directory hlocate hdirectory _)), rfl, rfl, rfl⟩

theorem visit_of_quit {u : World} (hstore : u.store = interrupted.beginReading.store)
    (hinput : u.input = [Text.utf8 "q".toList]) (hroom : u.room = none) :
    ∃ v, u.visit {} true ['c'] =
      (.refused (interpolation.transform "'%s' % y".toList) ⟨[], .answered .quit⟩, v) := by
  have hfile : interrupted.beginReading.store.entry? [['c']] = some (.file (Text.utf8 "'%s' % y".toList)) := by
    decide +kernel
  have hlocate : interrupted.beginReading.store.locate ['c'] = .ok [['c']] :=
    Store.locate_name rfl rfl (by decide) hfile (by simp)
  have hread : u.store.read ['c'] = .ok "'%s' % y".toList := by
    simp [hstore, Store.read, Store.readBytes, hlocate, hfile]
  have hchanged : (interpolation.transform "'%s' % y".toList).isChanged = true := by decide +kernel
  have hquit : Reply.ofLine? "q".toList = some .quit := by decide
  obtain ⟨o, proposed⟩ := exists_proposed hroom hread hchanged
  have hask := ask_of_reply (w := { u with output := o }) hroom hinput (Bytes.text?_utf8 _) hquit (questionFor ['c'])
  exact ⟨_, visit_eq_iff.2 (.refused proposed rfl rfl hask rfl)⟩

/-- The first source cannot be read, the second cannot be written, and at the third the user quits. -/
theorem course_interrupted : ∃ t t' u, Course {} true interrupted [['a'], ['b'], ['c']]
    [⟨['a'], .unreadable .invalidText⟩, ⟨['b'], .accepted t (some ⟨[], .answered .yes⟩) (.refused .isDirectory)⟩,
      ⟨['c'], .refused t' ⟨[], .answered .quit⟩⟩] u := by
  have ha : interrupted.visit {} true ['a'] = (.unreadable .invalidText, interrupted) := by
    have hfile : interrupted.store.entry? [['a']] = some (.file [0xff]) := rfl
    have htext : Bytes.text? [0xff] = none := by decide +kernel
    exact visit_eq_iff.2 (.unreadable (by simp [Store.read, Store.readBytes, locate_interrupted, hfile, htext]))
  obtain ⟨u, hb, hstore, hinput, hroom⟩ := visit_interrupted
  obtain ⟨v, hc⟩ := visit_of_quit hstore hinput hroom
  exact ⟨_, _, v, .next ha rfl (.next hb rfl (.stopped hc rfl []))⟩

/-- The second of three sources is refused, since a directory stands there by then, and at the third the user quits; a
source alone is cut off. -/
theorem run_in_turn_interrupted :
    (∀ p ∈ [['a'], ['b'], ['c']], ∃ l, interrupted.store.locate p = .ok l) ∧
    interrupted.store.locate [] = .error .notFound ∧
    interrupted.run {} [['a'], []] = (⟨[], some (.read [] .notFound)⟩, interrupted) ∧
    (∃ t t' u u' after, interrupted.run {} [['a'], ['b'], ['c']] =
        (⟨[⟨['a'], .unreadable .invalidText⟩, ⟨['b'], .accepted t (some ⟨[], .answered .yes⟩) (.refused .isDirectory)⟩,
          ⟨['c'], .refused t' ⟨[], .answered .quit⟩⟩], none⟩, after) ∧
      Turn interrupted {} [['a'], ['b'], ['c']]
        [⟨['a'], .unreadable .invalidText⟩, ⟨['b'], .accepted t (some ⟨[], .answered .yes⟩) (.refused .isDirectory)⟩]
        ⟨['c'], .refused t' ⟨[], .answered .quit⟩⟩ [] [] u u' after) ∧
    cramped.store.locate ['a'] = .ok [['a']] ∧
    ∃ t u u' after, cramped.run ⟨false, true⟩ [['a']] =
        (⟨[⟨['a'], .accepted t none (.cut 2 diskFull)⟩], none⟩, after) ∧
      Turn cramped ⟨false, true⟩ [['a']] [] ⟨['a'], .accepted t none (.cut 2 diskFull)⟩ [] [] u u' after := by
  have hlocate : ∀ p ∈ [['a'], ['b'], ['c']], ∃ l, interrupted.store.locate p = .ok l :=
    fun p hp => ⟨_, locate_interrupted hp⟩
  have hnowhere : interrupted.store.locate [] = .error .notFound := rfl
  refine ⟨hlocate, hnowhere, ?_, ?_, locate_cramped, ?_⟩
  · obtain ⟨before, q, behind, d, hpaths, hbefore, hq, hrun⟩ :=
      (run_in_turn interrupted {} [['a'], []]).1 [] (by simp) .notFound hnowhere
    rcases before with _ | ⟨p, _ | ⟨p', before⟩⟩
    · obtain ⟨rfl, -⟩ := List.cons.inj hpaths
      rw [locate_interrupted (by simp)] at hq
      contradiction
    · obtain ⟨-, hpaths⟩ := List.cons.inj hpaths
      obtain ⟨rfl, -⟩ := List.cons.inj hpaths
      rw [hrun, Except.error.inj (hq.symm.trans hnowhere)]
    · simp at hpaths
  · obtain ⟨t, t', v, hcourse⟩ := course_interrupted
    have hrun := hcourse.run_eq sources_interrupted
    obtain ⟨sources, hsources, -, -, hturn⟩ := (run_in_turn interrupted {} [['a'], ['b'], ['c']]).2 hlocate
    rw [sources_interrupted] at hsources
    obtain rfl := Except.ok.inj hsources
    rw [hrun] at hturn
    obtain ⟨rest, u, u', hturn⟩ := hturn [_, _] _ [] rfl
    obtain rfl : rest = [] := by simpa using hturn.sources_eq
    exact ⟨_, _, u, u', v, hrun, hturn⟩
  · obtain ⟨after, hrun, -⟩ := run_cramped
    obtain ⟨sources, hsources, -, -, hturn⟩ :=
      (run_in_turn cramped ⟨false, true⟩ [['a']]).2 (List.forall_mem_singleton.2 ⟨_, locate_cramped⟩)
    obtain rfl := Except.ok.inj (sources_cramped.symm.trans hsources)
    rw [hrun] at hturn
    obtain ⟨rest, u, u', hturn⟩ := hturn [] _ [] rfl
    obtain rfl : rest = [] := by simpa using hturn.sources_eq
    exact ⟨_, u, u', after, hrun, hturn⟩

end World

end Interpolation

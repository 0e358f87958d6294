import Interpolation.Run.Report
import Interpolation.Proofs.Store.Content

/-!
# Which files a run writes

* `firstReply?` — what the user says next: the first line that is understood;
* `World.Handles` — what one visit can do to the files: nothing, or open the one file that was read, with consent;
* `World.handles_visit` — every visit does one of these;
* `World.Kept`, `World.Rewritten` — a file that no visit opened, and one with the visit that opened it last;
* `World.visitAll_rewritten` — after some visits every file is as before or was rewritten;
* `World.run_kept_or_rewritten` — the same for a whole run, which neither makes nor removes anything;
* `World.run_cut` — a file that is rewritten need not hold all that it was to hold.

All of this is about worlds in which nothing but the run touches the files: no path is replaced while it goes on.
-/

namespace Interpolation

open Pattern (interpolation)

/-- Whether the change of a source was accepted and its file was opened then. -/
def Fate.opens : Fate → Bool
  | .accepted _ _ writing => writing.opens
  | _ => false

/-- The reply that the first of some lines gives which is understood. No line in front of it may fail to be a text. -/
def firstReply? : List Bytes → Option Reply
  | [] => none
  | line :: rest => line.text?.bind fun t => (Reply.ofLine? t).or (firstReply? rest)

namespace World

/-! ## Printing and asking leave the files alone -/

/-- The files are the same, and so are the paths that are still to be replaced. -/
def SameFiles (w u : World) : Prop := u.store = w.store ∧ u.replaced = w.replaced

theorem SameFiles.trans {w u v : World} (h : SameFiles w u) (h' : SameFiles u v) : SameFiles w v :=
  ⟨h'.1.trans h.1, h'.2.trans h.2⟩

theorem sameFiles_print (w : World) (t : Text) : SameFiles w (w.print t).2 := by
  unfold print
  split
  · exact ⟨rfl, rfl⟩
  · split <;> exact ⟨rfl, rfl⟩

theorem print_input (w : World) (t : Text) : (w.print t).2.input = w.input := by
  unfold print
  split
  · rfl
  · split <;> rfl

theorem sameFiles_beginReading {w : World} (h : w.replaced = []) : SameFiles w w.beginReading := by
  simp [SameFiles, beginReading, h]

theorem sameFiles_askFrom {w : World} (h : w.replaced = []) (question : Text) (input : List Bytes) :
    SameFiles w (w.askFrom question input).2 := by
  fun_induction w.askFrom question input with
  | case1 input w e u hprint =>
    have hu := sameFiles_print w question
    rw [hprint] at hu
    exact hu
  | case2 w u hprint =>
    have hu := sameFiles_print w question
    rw [hprint] at hu
    exact hu.trans (sameFiles_beginReading (hu.2.trans h))
  | case3 w u hprint line rest htext =>
    have hu := sameFiles_print w question
    rw [hprint] at hu
    exact hu.trans (sameFiles_beginReading (hu.2.trans h))
  | case4 w u hprint line rest t htext reply hreply =>
    have hu := sameFiles_print w question
    rw [hprint] at hu
    exact hu.trans (sameFiles_beginReading (hu.2.trans h))
  | case5 w u hprint line rest t htext hreply x v hask ih =>
    have hu := sameFiles_print w question
    rw [hprint] at hu
    have hbegin := sameFiles_beginReading (hu.2.trans h)
    have hrest := ih (hbegin.2.trans (hu.2.trans h))
    rw [hask] at hrest
    exact (hu.trans hbegin).trans hrest

/-- An answer is the first line that is understood. -/
theorem firstReply?_of_askFrom {w : World} {question : Text} {input : List Bytes} {r : Reply}
    (h : (w.askFrom question input).1.ending = .answered r) : firstReply? input = some r := by
  fun_induction w.askFrom question input with
  | case1 => simp at h
  | case2 => simp at h
  | case3 => simp at h
  | case4 w u hprint line rest t htext reply hreply =>
    obtain rfl : reply = r := by simpa using h
    simp [firstReply?, htext, hreply]
  | case5 w u hprint line rest t htext hreply x v hask ih =>
    have hrest := ih (by rw [hask]; exact h)
    simp [firstReply?, htext, hreply, hrest]

/-! ## One visit -/

/-- The user agreed to a change, if there was need to ask: `talk` is the question, if it was put, and `input` what was
left of the input then. -/
def Agreed (asking : Bool) (input : List Bytes) (talk : Option Exchange) : Prop :=
  asking = false ∨ ∃ x r, talk = some x ∧ x.ending = .answered r ∧ firstReply? input = some r ∧ (r = .yes ∨ r = .all)

/-- What a visit can do to the files: nothing at all, or open a file that was read and give it its new content, as far
as the disk takes it. -/
inductive Handles (options : Options) (asking : Bool) (path : Text) (w : World) : Fate → Store → Prop
  | kept {fate : Fate} {s : Store} (closed : fate.opens = false) (same : w.store.SameEntries s) :
      Handles options asking path w fate s
  | opened {source : Text} {l : Location} {talk : Option Exchange} {writing : Writing} {new : Bytes} {s : Store}
      (read : w.store.read path = .ok source) (leads : w.store.locate path = .ok l) (write : options.write = true)
      (agreed : Agreed asking w.input talk) (leaves : writing.Leaves (interpolation.transform source).output.utf8 new)
      (rewrote : w.store.Rewrote l new s) :
      Handles options asking path w (.accepted (interpolation.transform source) talk writing) s

theorem agreed_of_accepts {w : World} {question : Text} (h : (w.ask question).1.accepts = true) (asking : Bool) :
    Agreed asking w.input (some (w.ask question).1) := by
  simp only [Exchange.accepts, Bool.or_eq_true, decide_eq_true_eq] at h
  obtain ⟨r, hr, hyes⟩ : ∃ r, (w.ask question).1.ending = .answered r ∧ (r = .yes ∨ r = .all) := by
    rcases h with hyes | hall
    · exact ⟨_, hyes, .inl rfl⟩
    · exact ⟨_, hall, .inr rfl⟩
  exact .inr ⟨_, r, rfl, hr, firstReply?_of_askFrom hr, hyes⟩

/-- A change is committed to the file that was read, if the files are still the same. -/
theorem handles_commit {w u : World} {options : Options} {asking : Bool} {path source : Text} {talk : Option Exchange}
    (hu : SameFiles w u) (hread : w.store.read path = .ok source) (hwrite : options.write = true)
    (hagreed : Agreed asking w.input talk) :
    Handles options asking path w (u.commit path (interpolation.transform source) talk).1
        (u.commit path (interpolation.transform source) talk).2.store ∧
      (u.commit path (interpolation.transform source) talk).2.replaced = w.replaced := by
  obtain ⟨l, old, hl, hfile, -, hnew⟩ := Store.exists_of_read hread
  rw [commit, hu.1, hnew]
  refine ⟨?_, hu.2⟩
  rcases Store.writeAt_cases hfile (interpolation.transform source).output.utf8 with
    ⟨hclosed, hsame⟩ | ⟨new, hleaves, hrewrote⟩
  · exact .kept hclosed hsame
  · exact .opened hread hl hwrite hagreed hleaves hrewrote

theorem handles_propose {w : World} (h : w.replaced = []) (options : Options) (asking : Bool) {path source : Text}
    (hread : w.store.read path = .ok source) :
    Handles options asking path w (w.propose options asking path source (interpolation.transform source)).1
        (w.propose options asking path source (interpolation.transform source)).2.store ∧
      (w.propose options asking path source (interpolation.transform source)).2.replaced = w.replaced := by
  have hprint := sameFiles_print w (unifiedDiff source (interpolation.transform source).output path path)
  have hinput := print_input w (unifiedDiff source (interpolation.transform source).output path path)
  unfold propose
  split
  · next e u heq =>
    rw [heq] at hprint
    exact ⟨hprint.1 ▸ .kept rfl (.refl _), hprint.2⟩
  · next u heq =>
    rw [heq] at hprint hinput
    have hask : SameFiles w (u.ask (questionFor path)).2 :=
      hprint.trans (sameFiles_askFrom (hprint.2.trans h) (questionFor path) u.input)
    by_cases hwrite : options.write = true
    · simp only [hwrite, Bool.not_true, Bool.false_eq_true, if_false]
      by_cases hasking : asking = true
      · by_cases haccepts : (u.ask (questionFor path)).1.accepts = true
        · simp only [hasking, haccepts, if_true]
          exact handles_commit hask hread hwrite (hinput ▸ agreed_of_accepts haccepts true)
        · rw [Bool.not_eq_true] at haccepts
          simp only [hasking, haccepts, if_true, Bool.false_eq_true, if_false]
          exact ⟨hask.1 ▸ .kept rfl (.refl _), hask.2⟩
      · rw [Bool.not_eq_true] at hasking
        simp only [hasking, Bool.false_eq_true, if_false]
        exact handles_commit hprint hread hwrite (.inl rfl)
    · rw [Bool.not_eq_true] at hwrite
      simp only [hwrite, Bool.not_false, if_true]
      exact ⟨hprint.1 ▸ .kept rfl (.refl _), hprint.2⟩

/-- A visit opens no file, or the one that it read, with consent. -/
theorem handles_visit {w : World} (h : w.replaced = []) (options : Options) (asking : Bool) (path : Text) :
    Handles options asking path w (w.visit options asking path).1 (w.visit options asking path).2.store ∧
      (w.visit options asking path).2.replaced = w.replaced := by
  unfold visit
  split
  · exact ⟨.kept rfl (.refl _), rfl⟩
  · next source hread =>
    by_cases hchanged : (interpolation.transform source).isChanged = true
    · simp only [hchanged, if_true]
      exact handles_propose h options asking hread
    · rw [Bool.not_eq_true] at hchanged
      simp only [hchanged, Bool.false_eq_true, if_false, and_true]
      exact .kept rfl (.refl _)

/-! ## Some visits -/

/-- The file at `l` is as it was, and no visit opened it. -/
structure Kept (w : World) (l : Location) (visits : List Visit) (s : Store) : Prop where
  entry?_eq : s.entry? l = w.store.entry? l
  closed : ∀ v ∈ visits, v.fate.opens = true → w.store.locate v.path ≠ .ok l

/-- The visit `v` was the last to open the file at `l`: `earlier` and `later` are the visits in front of it and behind
it, `u` is the world that it started from, `source` the text that was read, and `s` the files after all visits. -/
structure Rewritten (w : World) (options : Options) (asking : Bool) (l : Location) (earlier : List Visit) (v : Visit)
    (later : List Visit) (source : Text) (u : World) (s : Store) : Prop where
  /-- The visit starts where those in front of it end. -/
  before : w.visitAll options asking (earlier.map Visit.path) = (earlier, u)
  read : u.store.read v.path = .ok source
  leads : w.store.locate v.path = .ok l
  /-- There was a file before, whatever it held. -/
  file : ∃ old, w.store.entry? l = some (.file old)
  write : options.write = true
  /-- Nobody was to be asked, or the user agreed, here or before to this change and all others. -/
  agreed : Agreed asking u.input v.fate.talk? ∨
    ∃ x ∈ earlier, ∃ talk, x.fate.talk? = some talk ∧ talk.ending = .answered .all
  last : ∀ x ∈ later, x.fate.opens = true → w.store.locate x.path ≠ .ok l
  /-- The file holds what the source was transformed to, or the beginning of this if the writing broke off. -/
  now : ∃ talk writing new, v.fate = .accepted (interpolation.transform source) talk writing ∧
    writing.Leaves (interpolation.transform source).output.utf8 new ∧ s.entry? l = some (.file new)

theorem Handles.sameShape {options : Options} {asking : Bool} {path : Text} {w : World} {fate : Fate} {s : Store}
    (h : Handles options asking path w fate s) : Store.SameShape w.store s := by
  cases h with
  | kept _ same => exact same.sameShape
  | opened _ _ _ _ _ rewrote => exact rewrote.shape

/-- What was rewritten after the first visit was rewritten in the course of all. -/
theorem Rewritten.cons {w w' u : World} {options : Options} {asking : Bool} {l : Location} {earlier later : List Visit}
    {v : Visit} {source : Text} {s : Store} {path : Text} {fate : Fate} (hvisit : w.visit options asking path = (fate, w'))
    (hgoes : fate.stops = false) (hshape : Store.SameShape w.store w'.store)
    (h : Rewritten w' options (asking && !fate.settlesAll) l earlier v later source u s) :
    Rewritten w options asking l (⟨path, fate⟩ :: earlier) v later source u s where
  before := by simp only [List.map_cons, visitAll, hvisit, hgoes, Bool.false_eq_true, if_false, h.before]
  read := h.read
  leads := by rw [← Store.locate_congr hshape, h.leads]
  file := h.file.elim fun _ => hshape.exists_file
  write := h.write
  agreed := by
    rcases h.agreed with (hsettled | hagreed) | ⟨x, hx, hall⟩
    · by_cases hasking : asking = true
      · -- The first visit has settled the question for all that follow.
        simp only [hasking, Bool.true_and, Bool.not_eq_false', Fate.settlesAll, Option.any_eq_true] at hsettled
        obtain ⟨talk, htalk, hall⟩ := hsettled
        exact .inr ⟨_, List.mem_cons_self, talk, htalk, by simpa [Exchange.acceptsAll] using hall⟩
      · exact .inl (.inl (by simpa using hasking))
    · exact .inl (.inr hagreed)
    · exact .inr ⟨x, List.mem_cons_of_mem _ hx, hall⟩
  last x hx hopens := by
    rw [← Store.locate_congr hshape]
    exact h.last x hx hopens
  now := h.now

/-- What is kept after the first visit is kept in the course of all, unless the first visit opened it. -/
theorem kept_or_rewritten_cons {w w' : World} {options : Options} {asking : Bool} {l : Location} {visits : List Visit}
    {s : Store} {path : Text} {fate : Fate} (hvisit : Handles options asking path w fate w'.store)
    (h : Kept w' l visits s) :
    Kept w l (⟨path, fate⟩ :: visits) s ∨ ∃ source, Rewritten w options asking l [] ⟨path, fate⟩ visits source w s := by
  have hlast : ∀ v ∈ visits, v.fate.opens = true → w.store.locate v.path ≠ .ok l := by
    intro v hv hopens
    rw [← Store.locate_congr hvisit.sameShape]
    exact h.closed v hv hopens
  have hnow := h.entry?_eq
  generalize w'.store = s' at hvisit hnow
  cases hvisit with
  | kept closed same =>
    refine .inl ⟨hnow.trans (same.entry?_eq l), List.forall_mem_cons.2 ⟨fun hopens => ?_, hlast⟩⟩
    rw [closed] at hopens
    contradiction
  | @opened source m talk writing new _ read leads write agreed leaves rewrote =>
    rw [rewrote.entry?_eq] at hnow
    by_cases hm : l = m
    · subst hm
      rw [if_pos rfl] at hnow
      have hfile := rewrote.shape.exists_file (l := l) (by rw [rewrote.entry?_eq, if_pos rfl])
      exact .inr ⟨source, rfl, read, leads, hfile, write, .inl agreed, hlast, talk, writing, new, rfl, leaves, hnow⟩
    · refine .inl ⟨by rw [hnow, if_neg hm], List.forall_mem_cons.2 ⟨fun _ hl => ?_, hlast⟩⟩
      rw [leads] at hl
      exact hm (Except.ok.inj hl).symm

/-- After some visits every file is as it was, or it was rewritten. -/
theorem visitAll_rewritten {w : World} (h : w.replaced = []) (options : Options) (asking : Bool) (paths : List Text) :
    Store.SameShape w.store (w.visitAll options asking paths).2.store ∧
      ∀ l, Kept w l (w.visitAll options asking paths).1 (w.visitAll options asking paths).2.store ∨
        ∃ earlier v later source u, (w.visitAll options asking paths).1 = earlier ++ v :: later ∧
          Rewritten w options asking l earlier v later source u (w.visitAll options asking paths).2.store := by
  induction paths generalizing w asking with
  | nil => exact ⟨.refl _, fun l => .inl ⟨rfl, by simp [visitAll]⟩⟩
  | cons path paths ih =>
    obtain ⟨hhandles, hreplaced⟩ := handles_visit h options asking path
    cases hvisit : w.visit options asking path with
    | mk fate w' =>
      rw [hvisit] at hhandles hreplaced
      by_cases hstops : fate.stops = true
      · simp only [visitAll, hvisit, hstops, if_true]
        refine ⟨hhandles.sameShape, fun l => ?_⟩
        have hkept : Kept w' l [] w'.store := ⟨rfl, by simp⟩
        rcases kept_or_rewritten_cons hhandles hkept with hkept | ⟨source, hrewritten⟩
        · exact .inl hkept
        · exact .inr ⟨[], _, [], source, w, rfl, hrewritten⟩
      · rw [Bool.not_eq_true] at hstops
        simp only [visitAll, hvisit, hstops, Bool.false_eq_true, if_false]
        obtain ⟨hshape, hrest⟩ := ih (hreplaced.trans h) (asking && !fate.settlesAll)
        refine ⟨hhandles.sameShape.trans hshape, fun l => ?_⟩
        rcases hrest l with hkept | ⟨earlier, v, later, source, u, heq, hrewritten⟩
        · rcases kept_or_rewritten_cons hhandles hkept with hkept | ⟨source, hrewritten⟩
          · exact .inl hkept
          · exact .inr ⟨[], _, _, source, w, rfl, hrewritten⟩
        · exact .inr ⟨_ :: earlier, v, later, source, u, congrArg (_ :: ·) heq,
            hrewritten.cons hvisit hstops hhandles.sameShape⟩

/-- The visits are to the first of the paths. -/
theorem visitAll_paths (w : World) (options : Options) (asking : Bool) (paths : List Text) :
    (w.visitAll options asking paths).1.map Visit.path <+: paths := by
  induction paths generalizing w asking with
  | nil => exact List.nil_prefix
  | cons path paths ih =>
    unfold visitAll
    dsimp only
    split
    · simp
    · simpa using ih _ _

/-! ## Without writing -/

theorem visit_store_of_not_write (w : World) {options : Options} (h : options.write = false) (asking : Bool)
    (path : Text) : (w.visit options asking path).2.store = w.store := by
  unfold visit
  split
  · rfl
  · next source hread =>
    have hprint := sameFiles_print w (unifiedDiff source (interpolation.transform source).output path path)
    dsimp only
    split
    · unfold propose
      split
      · next heq =>
        rw [heq] at hprint
        exact hprint.1
      · next heq =>
        rw [heq] at hprint
        simp only [h, Bool.not_false, if_true]
        exact hprint.1
    · rfl

theorem visitAll_store_of_not_write (w : World) {options : Options} (h : options.write = false) (asking : Bool)
    (paths : List Text) : (w.visitAll options asking paths).2.store = w.store := by
  induction paths generalizing w asking with
  | nil => rfl
  | cons path paths ih =>
    have hvisit := visit_store_of_not_write w h asking path
    unfold visitAll
    dsimp only
    split
    · exact hvisit
    · exact (ih _ _).trans hvisit

/-! ## A run -/

/-- A run that is not to write leaves the files alone. Any other neither makes nor removes anything, as long as nothing
else does, and every file is as it was and was not opened, or it was rewritten by a visit to one of the sources. -/
theorem run_kept_or_rewritten (w : World) (options : Options) (paths : List Text) :
    let visits := (w.run options paths).1.visits
    let after := (w.run options paths).2.store
    (options.write = false → after = w.store) ∧
    (w.replaced = [] →
      after.here = w.store.here ∧ after.entries.map Prod.fst = w.store.entries.map Prod.fst ∧
      ∀ l, Kept w l visits after ∨
        ∃ sources earlier v later source u, w.store.sources paths = .ok sources ∧ v.path ∈ sources ∧
          visits = earlier ++ v :: later ∧
          Rewritten w options (options.interactive && options.write) l earlier v later source u after) := by
  intro visits after
  cases hsources : w.store.sources paths with
  | error failure =>
    have hrun : w.run options paths = (⟨[], some failure⟩, w) := by rw [run, hsources]
    have hvisits : visits = [] := congrArg (fun r => r.1.visits) hrun
    have hafter : after = w.store := congrArg (fun r => r.2.store) hrun
    refine ⟨fun _ => hafter, fun _ => ⟨by rw [hafter], by rw [hafter], fun l => .inl ⟨by rw [hafter], ?_⟩⟩⟩
    simp [hvisits]
  | ok sources =>
    have hvisits : visits = (w.visitAll options (options.interactive && options.write) sources).1 := by
      show (w.run options paths).1.visits = _
      rw [run, hsources]
    have hafter : after = (w.visitAll options (options.interactive && options.write) sources).2.store := by
      show (w.run options paths).2.store = _
      rw [run, hsources]
    refine ⟨fun hwrite => ?_, fun hreplaced => ?_⟩
    · rw [hafter]
      exact visitAll_store_of_not_write w hwrite _ sources
    · obtain ⟨hshape, hall⟩ :=
        visitAll_rewritten hreplaced options (options.interactive && options.write) sources
      have hpaths := visitAll_paths w options (options.interactive && options.write) sources
      rw [← hafter] at hshape hall
      rw [← hvisits] at hall hpaths
      refine ⟨hshape.here, hshape.locations, fun l => ?_⟩
      rcases hall l with hkept | ⟨earlier, v, later, source, u, heq, hrewritten⟩
      · exact .inl hkept
      · have hmem : v ∈ visits := by simp [heq]
        exact .inr ⟨sources, earlier, v, later, source, u, rfl, hpaths.subset (List.mem_map_of_mem hmem), heq,
          hrewritten⟩

/-- A file with one expression and a link to it; the user types a line that is not understood, and then agrees. -/
def agreeing : World where
  store := ((Store.empty []).insert [['a']] (.file (Text.utf8 "'%s' % x".toList))).insert [['b']] (.link ['a'])
  input := [Text.utf8 "why".toList, Text.utf8 "all".toList]
  output := []
  room := none
  replaced := []

theorem entry_agreeing : agreeing.store.entry? [['a']] = some (.file (Text.utf8 "'%s' % x".toList)) := rfl

theorem locate_agreeing : agreeing.store.locate ['b'] = .ok [['a']] := by
  have hroot : agreeing.store.entry? [] = some .directory := rfl
  have hlink : agreeing.store.entry? [['b']] = some (.link ['a']) := rfl
  have hhere : agreeing.store.here = [] := rfl
  simp [Store.locate, Store.locateWith, FilePath.isAbsolute, FilePath.steps, FilePath.names, FilePath.splitSlashes,
    Store.resolve, Store.maxLinks, hroot, hlink, hhere, entry_agreeing]

theorem read_agreeing : agreeing.store.read ['b'] = .ok "'%s' % x".toList := by
  simp [Store.read, Store.readBytes, locate_agreeing, entry_agreeing]

theorem visit_agreeing : Store.entry? (agreeing.visit {} true ['b']).2.store [['a']] =
    some (.file (Text.utf8 "f'{x}'".toList)) := by
  have hchanged : (interpolation.transform "'%s' % x".toList).isChanged = true := by decide +kernel
  have houtput : (interpolation.transform "'%s' % x".toList).output = "f'{x}'".toList := by decide +kernel
  have hwhy : Reply.ofLine? "why".toList = none := by decide
  have hall : Reply.ofLine? "all".toList = some .all := by decide
  obtain ⟨l, old, hl, hfile, -, hnew⟩ := Store.exists_of_read read_agreeing
  obtain rfl : [['a']] = l := Except.ok.inj (locate_agreeing.symm.trans hl)
  have hwhole (new : Bytes) : (agreeing.store.writing [['a']] new).kept? new = some new := rfl
  have hentry := Store.entry?_writeAt (by simp [hfile]) (hwhole (Text.utf8 "f'{x}'".toList)) [['a']]
  rw [visit, read_agreeing]
  dsimp only
  rw [if_pos hchanged, propose, print]
  dsimp only [agreeing] at hnew hentry ⊢
  simp only [Bool.not_true, if_true, Bool.false_eq_true, if_false, ask, askFrom, print, Bytes.text?_utf8, hwhy, hall,
    beginReading, List.foldl_nil, Exchange.accepts, decide_true, Bool.or_true, commit, hnew, houtput, hentry]

/-- What the operating system says if a disk is full. -/
def diskFull : IoError := .other "No space left on device (os error 28)".toList

/-- A file with one expression, on a disk that takes two bytes when it is written. -/
def cramped : World where
  store := { (Store.empty []).insert [['a']] (.file (Text.utf8 "'%s' % x".toList)) with
    disk := fun _ => [.cut 2 diskFull] }
  input := []
  output := []
  room := none
  replaced := []

theorem entry_cramped : cramped.store.entry? [['a']] = some (.file (Text.utf8 "'%s' % x".toList)) := rfl

theorem locate_cramped : cramped.store.locate ['a'] = .ok [['a']] :=
  Store.locate_name rfl rfl (by decide) entry_cramped (by simp)

theorem read_cramped : cramped.store.read ['a'] = .ok "'%s' % x".toList := by
  simp [Store.read, Store.readBytes, locate_cramped, entry_cramped]

theorem sources_cramped : cramped.store.sources [['a']] = .ok [['a']] := by
  simp [Store.sources, Store.sourcesAt, locate_cramped, Store.isDirectory, entry_cramped, Except.map]

theorem visit_cramped : ∃ u, cramped.visit ⟨false, true⟩ false ['a'] =
      (.accepted (interpolation.transform "'%s' % x".toList) none (.cut 2 diskFull), u) ∧
    u.store.entry? [['a']] = some (.file (Text.utf8 "f'".toList)) := by
  have hchanged : (interpolation.transform "'%s' % x".toList).isChanged = true := by decide +kernel
  have houtput : (interpolation.transform "'%s' % x".toList).output = "f'{x}'".toList := by decide +kernel
  obtain ⟨l, old, hl, hfile, -, hnew⟩ := Store.exists_of_read read_cramped
  obtain rfl : [['a']] = l := Except.ok.inj (locate_cramped.symm.trans hl)
  have hwriting : cramped.store.writing [['a']] (Text.utf8 "f'{x}'".toList) = .cut 2 diskFull := by decide +kernel
  have hkept : (Writing.cut 2 diskFull).kept? (Text.utf8 "f'{x}'".toList) = some (Text.utf8 "f'".toList) := by
    decide +kernel
  have hentry := Store.entry?_writeAt (by simp [hfile]) (hwriting ▸ hkept) [['a']]
  have hcut : (cramped.store.writeAt [['a']] (Text.utf8 "f'{x}'".toList)).1 = .cut 2 diskFull := hwriting
  rw [visit, read_cramped]
  dsimp only
  rw [if_pos hchanged, propose, print_of_room rfl]
  simp only [Bool.not_true, Bool.false_eq_true, if_false, commit, hnew, houtput, hcut]
  exact ⟨_, rfl, by simpa using hentry⟩

theorem run_cramped : ∃ u, cramped.run ⟨false, true⟩ [['a']] =
      (⟨[⟨['a'], .accepted (interpolation.transform "'%s' % x".toList) none (.cut 2 diskFull)⟩], none⟩, u) ∧
    u.store.entry? [['a']] = some (.file (Text.utf8 "f'".toList)) := by
  obtain ⟨u, hvisit, hentry⟩ := visit_cramped
  refine ⟨u, ?_, hentry⟩
  rw [run, sources_cramped]
  dsimp only
  rw [Bool.false_and, visitAll, hvisit]
  rfl

/-- No other process touches the files, nobody is to be asked, and the file of the one source holds neither what it held
nor what this source was transformed to. -/
theorem run_cut :
    cramped.replaced = [] ∧ cramped.store.entry? [['a']] = some (.file (Text.utf8 "'%s' % x".toList)) ∧
    Store.entry? (cramped.run ⟨false, true⟩ [['a']]).2.store [['a']] = some (.file (Text.utf8 "f'".toList)) ∧
    ∀ v ∈ (cramped.run ⟨false, true⟩ [['a']]).1.visits, ∀ t talk writing, v.fate = .accepted t talk writing →
      Store.entry? (cramped.run ⟨false, true⟩ [['a']]).2.store [['a']] ≠ some (.file t.output.utf8) := by
  obtain ⟨u, hrun, hentry⟩ := run_cramped
  have houtput : (interpolation.transform "'%s' % x".toList).output.utf8 ≠ Text.utf8 "f'".toList := by decide +kernel
  rw [hrun]
  refine ⟨rfl, entry_cramped, hentry, ?_⟩
  rintro v hv t talk writing hfate heq
  obtain rfl := List.mem_singleton.1 hv
  obtain ⟨rfl, -⟩ := Fate.accepted.inj hfate
  rw [hentry, Option.some.injEq, Entry.file.injEq] at heq
  exact houtput heq.symm

/-- The change of a file is agreed to and written through a link, and another file, on a disk that is too small, is left
with the beginning of its new content. -/
theorem run_rewritten_agreeing :
    agreeing.replaced = [] ∧ cramped.replaced = [] ∧
    (agreeing.run ⟨true, false⟩ [['b']]).2.store = agreeing.store ∧
    Store.entry? (agreeing.run {} [['b']]).2.store [['a']] = some (.file (Text.utf8 "f'{x}'".toList)) ∧
    (∃ earlier v later source u, (agreeing.run {} [['b']]).1.visits = earlier ++ v :: later ∧
      Rewritten agreeing {} true [['a']] earlier v later source u (agreeing.run {} [['b']]).2.store) ∧
    Store.entry? (cramped.run ⟨false, true⟩ [['a']]).2.store [['a']] = some (.file (Text.utf8 "f'".toList)) ∧
    ∃ earlier v later source u, (cramped.run ⟨false, true⟩ [['a']]).1.visits = earlier ++ v :: later ∧
      Rewritten cramped ⟨false, true⟩ false [['a']] earlier v later source u
        (cramped.run ⟨false, true⟩ [['a']]).2.store := by
  have hsources : agreeing.store.sources [['b']] = .ok [['b']] := by
    simp [Store.sources, Store.sourcesAt, locate_agreeing, Store.isDirectory, entry_agreeing, Except.map]
  have hafter : Store.entry? (agreeing.run {} [['b']]).2.store [['a']] = some (.file (Text.utf8 "f'{x}'".toList)) := by
    rw [← visit_agreeing, run, hsources]
    show Store.entry? (agreeing.visitAll {} true [['b']]).2.store [['a']] = _
    rw [visitAll]
    dsimp only
    split <;> rfl
  have hcut : Store.entry? (cramped.run ⟨false, true⟩ [['a']]).2.store [['a']] = some (.file (Text.utf8 "f'".toList)) := by
    obtain ⟨u, hrun, hentry⟩ := run_cramped
    rw [hrun]
    exact hentry
  -- Neither file is as it was.
  have hchanged {new : Text} {w : World} {s : Store} {visits : List Visit} (hne : "'%s' % x".toList ≠ new)
      (hold : w.store.entry? [['a']] = some (.file (Text.utf8 "'%s' % x".toList)))
      (hnew : s.entry? [['a']] = some (.file new.utf8)) : ¬Kept w [['a']] visits s := by
    intro hkept
    have heq := hkept.entry?_eq
    rw [hold, hnew, Option.some.injEq, Entry.file.injEq] at heq
    have htext := congrArg Bytes.text? heq
    rw [Bytes.text?_utf8, Bytes.text?_utf8] at htext
    exact hne (Option.some.inj htext).symm
  refine ⟨rfl, rfl, (run_kept_or_rewritten agreeing ⟨true, false⟩ [['b']]).1 rfl, hafter, ?_, hcut, ?_⟩
  · obtain ⟨_, earlier, v, later, source, u, _, _, heq, h⟩ :=
      (((run_kept_or_rewritten agreeing {} [['b']]).2 rfl).2.2 [['a']]).resolve_left
        (hchanged (by decide) entry_agreeing hafter)
    exact ⟨earlier, v, later, source, u, heq, h⟩
  · obtain ⟨_, earlier, v, later, source, u, _, _, heq, h⟩ :=
      (((run_kept_or_rewritten cramped ⟨false, true⟩ [['a']]).2 rfl).2.2 [['a']]).resolve_left
        (hchanged (by decide) entry_cramped hcut)
    exact ⟨earlier, v, later, source, u, heq, h⟩

end World

end Interpolation

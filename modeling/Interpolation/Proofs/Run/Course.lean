import Interpolation.Proofs.Run.Consent

/-!
# The course of a run

* `World.Consented` — how it comes that a change is to be written: nobody is to be asked, or the user agrees;
* `World.Visited` — all that a visit can be: what was read, what was printed, what was asked and what was written;
* `World.visited_visit` — every visit is one of these;
* `World.Course` — visits one after the other, up to one that stops the run; `World.course_visitAll` says that this is
  what `World.visitAll` does, and `World.Course.eq_visitAll` that nothing else is;
* `World.Course.split` — the course of a run up to one of its visits, this visit, and what comes after it.
-/

namespace Interpolation

open Pattern (interpolation)

/-- Whether the user is still to be asked after some visits. -/
def stillAsking (asking : Bool) (visits : List Visit) : Bool := asking && !visits.any (·.fate.settlesAll)

namespace World

/-! ## One visit -/

/-- The change of the source at `path` is to be made, and that was printed. -/
structure Proposed (path source : Text) (w u : World) : Prop where
  read : w.store.read path = .ok source
  changed : (interpolation.transform source).isChanged = true
  print : w.print (unifiedDiff source (interpolation.transform source).output path path) = (none, u)

/-- Nobody is to be asked, or the user is asked and agrees. -/
inductive Consented (asking : Bool) (path : Text) (w : World) : Option Exchange → World → Prop
  | unasked (settled : asking = false) : Consented asking path w none w
  | asked {talk : Exchange} {u : World} (asks : asking = true) (ask : w.ask (questionFor path) = (talk, u))
      (agrees : talk.accepts = true) : Consented asking path w (some talk) u

/-- What a visit can be. -/
inductive Visited (options : Options) (asking : Bool) (path : Text) (w : World) : Fate → World → Prop
  | unreadable {e : IoError} (read : w.store.read path = .error e) : Visited options asking path w (.unreadable e) w
  | unchanged {source : Text} (read : w.store.read path = .ok source)
      (same : (interpolation.transform source).isChanged = false) :
      Visited options asking path w (.unchanged (interpolation.transform source)) w
  | unprintable {source : Text} {e : IoError} {u : World} (read : w.store.read path = .ok source)
      (changed : (interpolation.transform source).isChanged = true)
      (print : w.print (unifiedDiff source (interpolation.transform source).output path path) = (some e, u)) :
      Visited options asking path w (.unprintable (interpolation.transform source) e) u
  | shown {source : Text} {u : World} (proposed : Proposed path source w u) (keeps : options.write = false) :
      Visited options asking path w (.shown (interpolation.transform source)) u
  | refused {source : Text} {u v : World} {talk : Exchange} (proposed : Proposed path source w u)
      (writes : options.write = true) (asks : asking = true) (ask : u.ask (questionFor path) = (talk, v))
      (declines : talk.accepts = false) :
      Visited options asking path w (.refused (interpolation.transform source) talk) v
  | accepted {source : Text} {u v : World} {talk : Option Exchange} {writing : Writing} {s : Store}
      (proposed : Proposed path source w u) (writes : options.write = true) (consented : Consented asking path u talk v)
      (write : v.store.write path (interpolation.transform source).output.utf8 = (writing, s)) :
      Visited options asking path w (.accepted (interpolation.transform source) talk writing) { v with store := s }

variable {options : Options} {asking : Bool} {path : Text} {w : World}

/-- Where the output takes everything, all that is to be changed is proposed. -/
theorem exists_proposed {source : Text} (hroom : w.room = none) (read : w.store.read path = .ok source)
    (changed : (interpolation.transform source).isChanged = true) :
    ∃ output, Proposed path source w { w with output } :=
  ⟨_, read, changed, print_of_room hroom _⟩

theorem visited_commit {source : Text} {u v : World} {talk : Option Exchange} (proposed : Proposed path source w u)
    (writes : options.write = true) (consented : Consented asking path u talk v) :
    Visited options asking path w (v.commit path (interpolation.transform source) talk).1
      (v.commit path (interpolation.transform source) talk).2 :=
  .accepted proposed writes consented rfl

theorem visited_propose {source : Text} (read : w.store.read path = .ok source)
    (changed : (interpolation.transform source).isChanged = true) :
    Visited options asking path w (w.propose options asking path source (interpolation.transform source)).1
      (w.propose options asking path source (interpolation.transform source)).2 := by
  unfold propose
  split
  · next print => exact .unprintable read changed print
  · next u print =>
    have proposed : Proposed path source w u := ⟨read, changed, print⟩
    split
    · next keeps => exact .shown proposed (by simpa using keeps)
    · next writes =>
      have writes : options.write = true := by simpa using writes
      split
      · next asks =>
        split
        next talk v ask =>
        split
        · next agrees => exact visited_commit proposed writes (.asked asks ask agrees)
        · next declines => exact .refused proposed writes asks ask (by simpa using declines)
      · next settled => exact visited_commit proposed writes (.unasked (by simpa using settled))

/-- Every visit is one of these. -/
theorem visited_visit (options : Options) (asking : Bool) (path : Text) (w : World) :
    Visited options asking path w (w.visit options asking path).1 (w.visit options asking path).2 := by
  unfold visit
  split
  · next read => exact .unreadable read
  · next source read =>
    dsimp only
    split
    · next changed => exact visited_propose read changed
    · next same => exact .unchanged read (by simpa using same)

theorem Visited.eq_visit {fate : Fate} {u : World} (h : Visited options asking path w fate u) :
    w.visit options asking path = (fate, u) := by
  have commit {source : Text} {u v v' : World} {talk : Option Exchange} {fate : Fate} (proposed : Proposed path source w u)
      (writes : options.write = true) (consented : Consented asking path u talk v)
      (hcommit : v.commit path (interpolation.transform source) talk = (fate, v')) :
      w.visit options asking path = (fate, v') := by
    cases consented with
    | unasked settled => simp [visit, propose, proposed.read, proposed.changed, proposed.print, writes, settled, hcommit]
    | asked asks ask agrees =>
      simp [visit, propose, proposed.read, proposed.changed, proposed.print, writes, asks, ask, agrees, hcommit]
  cases h with
  | unreadable read => simp [visit, read]
  | unchanged read same => simp [visit, read, same]
  | unprintable read changed print => simp [visit, propose, read, changed, print]
  | shown proposed keeps => simp [visit, propose, proposed.read, proposed.changed, proposed.print, keeps]
  | refused proposed writes asks ask declines =>
    simp [visit, propose, proposed.read, proposed.changed, proposed.print, writes, asks, ask, declines]
  | accepted proposed writes consented write =>
    exact commit proposed writes consented (by rw [World.commit, write])

/-- A visit can be one thing only. -/
theorem visit_eq_iff {fate : Fate} {u : World} :
    w.visit options asking path = (fate, u) ↔ Visited options asking path w fate u := by
  refine ⟨fun h => ?_, Visited.eq_visit⟩
  have hvisited := visited_visit options asking path w
  rwa [h] at hvisited

/-- The transformation of a source is that of the text which was read. -/
theorem Visited.exists_transformation {t : Transformation} (h : Visited options asking path w fate u)
    (ht : fate.transformation? = some t) : ∃ source, w.store.read path = .ok source ∧ t = interpolation.transform source := by
  cases h with
  | unreadable => contradiction
  | unchanged read | unprintable read => exact ⟨_, read, (Option.some.inj ht).symm⟩
  | shown proposed | refused proposed | accepted proposed =>
    exact ⟨_, proposed.read, (Option.some.inj ht).symm⟩

/-! ## Some visits -/

/-- The sources at some paths are visited in turn, up to one that stops the run. -/
inductive Course (options : Options) : Bool → World → List Text → List Visit → World → Prop
  | done (asking : Bool) (w : World) : Course options asking w [] [] w
  | stopped {asking : Bool} {w u : World} {path : Text} {fate : Fate} (visit : w.visit options asking path = (fate, u))
      (stops : fate.stops = true) (rest : List Text) : Course options asking w (path :: rest) [⟨path, fate⟩] u
  | next {asking : Bool} {w u v : World} {path : Text} {fate : Fate} {rest : List Text} {visits : List Visit}
      (visit : w.visit options asking path = (fate, u)) (goes : fate.stops = false)
      (others : Course options (asking && !fate.settlesAll) u rest visits v) :
      Course options asking w (path :: rest) (⟨path, fate⟩ :: visits) v

theorem course_visitAll (options : Options) (asking : Bool) (w : World) (paths : List Text) :
    Course options asking w paths (w.visitAll options asking paths).1 (w.visitAll options asking paths).2 := by
  induction paths generalizing asking w with
  | nil => exact .done asking w
  | cons path paths ih =>
    unfold visitAll
    split
    next fate u visit =>
    split
    · next stops => exact .stopped visit stops paths
    · next goes => exact .next visit (by simpa using goes) (ih _ _)

namespace Course

variable {u v : World} {paths rest : List Text} {visits earlier later : List Visit}

theorem eq_visitAll (h : Course options asking w paths visits u) :
    w.visitAll options asking paths = (visits, u) := by
  induction h with
  | done => rfl
  | stopped visit stops rest => simp only [visitAll, visit, stops, if_true]
  | next visit goes _ ih => simp only [visitAll, visit, goes, Bool.false_eq_true, if_false, ih]

/-- Where no visit stops the run, all sources are visited. -/
theorem paths_eq (h : Course options asking w paths visits u) (hgoes : ∀ v ∈ visits, v.fate.stops = false) :
    visits.map Visit.path = paths := by
  induction h with
  | done => rfl
  | stopped _ stops _ => simp [stops] at hgoes
  | next _ _ _ ih => rw [List.map_cons, ih (List.forall_mem_cons.1 hgoes).2]

/-- Up to a visit nothing stops the run, and the visits in front of it are those of a run over their sources alone. If
the visit stops the run, it is the last one and the world is as it left it. If not, the course goes on with the other
sources, in the world that it left. -/
theorem split {x : Visit} (h : Course options asking w paths (earlier ++ x :: later) v) :
    ∃ rest u u', paths = earlier.map Visit.path ++ x.path :: rest ∧
      Course options asking w (earlier.map Visit.path) earlier u ∧ (∀ y ∈ earlier, y.fate.stops = false) ∧
      u.visit options (stillAsking asking earlier) x.path = (x.fate, u') ∧
      (x.fate.stops = true → later = [] ∧ v = u') ∧
      (x.fate.stops = false → Course options (stillAsking asking (earlier ++ [x])) u' rest later v) := by
  induction earlier generalizing asking w paths with
  | nil =>
    cases h with
    | stopped visit stops rest =>
      refine ⟨rest, w, v, rfl, .done asking w, by simp, ?_, fun _ => ⟨rfl, rfl⟩, fun goes => ?_⟩
      · simpa [stillAsking] using visit
      · exact absurd (stops.symm.trans goes) (by simp)
    | @next _ _ u' _ _ _ rest _ visit goes others =>
      refine ⟨rest, w, u', rfl, .done asking w, by simp, ?_, fun stops => ?_, fun _ => ?_⟩
      · simpa [stillAsking] using visit
      · exact absurd (stops.symm.trans goes) (by simp)
      · simpa [stillAsking] using others
  | cons y earlier ih =>
    generalize hvisits : y :: earlier ++ x :: later = visits at h
    cases h with
    | done => contradiction
    | stopped => simp at hvisits
    | @next _ _ u₁ _ path fate paths visits visit goes others =>
      obtain ⟨rfl, rfl⟩ := List.cons.inj hvisits
      obtain ⟨rest, u, u', rfl, hearlier, hgoes, hvisit, hstops, hnext⟩ := ih others
      have hasking (visits : List Visit) : stillAsking (asking && !fate.settlesAll) visits =
          stillAsking asking (⟨path, fate⟩ :: visits) := by
        simp [stillAsking, Bool.and_assoc]
      rw [hasking] at hvisit hnext
      exact ⟨rest, u, u', rfl, .next visit goes hearlier, List.forall_mem_cons.2 ⟨goes, hgoes⟩, hvisit, hstops, hnext⟩

/-- Every visit in a course is one that can be. -/
theorem exists_visited (h : Course options asking w paths visits u) {v : Visit} (hv : v ∈ visits) :
    ∃ asking u u', Visited options asking v.path u v.fate u' := by
  obtain ⟨earlier, later, rfl⟩ := List.append_of_mem hv
  obtain ⟨rest, u, u', -, -, -, hvisit, -⟩ := h.split
  exact ⟨_, u, u', visit_eq_iff.1 hvisit⟩

end Course

variable {paths sources : List Text} {visits : List Visit} {u : World}

/-- A run is the course over its sources. -/
theorem Course.run_eq (h : Course options (options.interactive && options.write) w sources visits u)
    (hsources : w.store.sources paths = .ok sources) :
    w.run options paths = (⟨visits, visits.findSome? (·.fate.failure?)⟩, u) := by
  rw [run, hsources]
  simp only [h.eq_visitAll]

theorem exists_run_eq (h : w.store.sources paths = .ok sources) (options : Options) :
    ∃ visits u, w.run options paths = (⟨visits, visits.findSome? (·.fate.failure?)⟩, u) ∧
      Course options (options.interactive && options.write) w sources visits u :=
  have hcourse := course_visitAll options (options.interactive && options.write) w sources
  ⟨_, _, hcourse.run_eq h, hcourse⟩

end World

end Interpolation

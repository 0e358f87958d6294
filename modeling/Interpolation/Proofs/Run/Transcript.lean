import Interpolation.Proofs.Diff.PatchText
import Interpolation.Proofs.Run.Stop
import Interpolation.Proofs.Transform.Size

/-!
# What the user sees and types

* `Typed` — the lines that are typed at a question, up to the first that is understood;
* `Scene` — a source that would change, as the user sees it; `Scene.printed` is the difference and all questions;
* `Scene.Plays` — what happens in the visit of a scene: what is read, printed, typed and written;
* `World.Visited.quiet_or_plays` — a visit that does not make the run fail is quiet, or it plays a scene;
* `Transcript` — the scenes of some visits; `World.Course.exists_transcript` finds them by induction on the course;
* `World.run_transcript` — the output of a run is that of its scenes, and so is the input that it takes.
-/

namespace Interpolation

open Pattern (interpolation)

/-! ## Questions -/

/-- The lines that are typed at a question, and the reply: lines that are not understood, and then one that is, or the
end of the input. -/
inductive Typed : List Bytes → Option Reply → Prop
  | ended : Typed [] none
  | understood {line : Bytes} {t : Text} {r : Reply} (text : line.text? = some t) (reply : Reply.ofLine? t = some r) :
      Typed [line] (some r)
  | ignored {line : Bytes} {t : Text} {lines : List Bytes} {reply : Option Reply} (text : line.text? = some t)
      (unknown : Reply.ofLine? t = none) (others : Typed lines reply) : Typed (line :: lines) reply

namespace Typed

variable {line : Bytes} {lines lines' rest rest' : List Bytes} {t : Text} {r : Reply} {reply : Option Reply}

/-- A line that is understood is the last. -/
theorem of_known (h : Typed (line :: lines) reply) (text : line.text? = some t) (known : Reply.ofLine? t = some r) :
    lines = [] ∧ reply = some r := by
  cases h with
  | understood text' known' =>
    obtain rfl := Option.some.inj (text.symm.trans text')
    exact ⟨rfl, known'.symm.trans known⟩
  | ignored text' unknown =>
    obtain rfl := Option.some.inj (text.symm.trans text')
    rw [known] at unknown
    contradiction

theorem of_unknown (h : Typed (line :: lines) reply) (text : line.text? = some t) (unknown : Reply.ofLine? t = none) :
    Typed lines reply := by
  cases h with
  | understood text' known =>
    obtain rfl := Option.some.inj (text.symm.trans text')
    rw [unknown] at known
    contradiction
  | ignored _ _ others => exact others

/-- While there is input, something is typed. -/
theorem exists_cons (h : Typed lines reply) (heq : line :: rest = lines ++ rest') (hended : reply = none → rest' = []) :
    ∃ behind, lines = line :: behind ∧ rest = behind ++ rest' := by
  cases lines with
  | nil =>
    cases h
    simp [hended rfl] at heq
  | cons first behind =>
    obtain ⟨rfl, hrest⟩ := List.cons.inj heq
    exact ⟨behind, rfl, hrest⟩

/-- The input determines what is typed up to the first line that is understood. -/
theorem unique (h : Typed lines (some r)) (h' : Typed lines' reply) (heq : lines ++ rest = lines' ++ rest')
    (hended : reply = none → rest' = []) : lines' = lines ∧ reply = some r := by
  generalize hr : some r = reply' at h
  induction h generalizing lines' with
  | ended => cases hr
  | understood text known =>
    obtain ⟨behind, rfl, -⟩ := h'.exists_cons heq hended
    obtain ⟨rfl, hreply⟩ := h'.of_known text known
    exact ⟨rfl, hreply⟩
  | ignored text unknown _ ih =>
    obtain ⟨behind, rfl, hrest⟩ := h'.exists_cons heq hended
    obtain ⟨rfl, hreply⟩ := ih (h'.of_unknown text unknown) hrest hr
    exact ⟨rfl, hreply⟩

end Typed

/-- How a question is settled with a reply, or without. -/
def Ending.ofReply? : Option Reply → Ending
  | some reply => .answered reply
  | none => .inputEnded

/-- How often a question is put: once for every line, and once more where the input ends. -/
def questionCount (lines : List Bytes) (reply : Option Reply) : Nat := lines.length + if reply = none then 1 else 0

theorem questionCount_cons (line : Bytes) (lines : List Bytes) (reply : Option Reply) :
    questionCount (line :: lines) reply = questionCount lines reply + 1 := by
  simp only [questionCount, List.length_cons]
  omega

/-- A question is put in the world `w`, with the lines `input` to come, and settled in the world `u`. -/
structure Asked (w : World) (question : Text) (input lines : List Bytes) (reply : Option Reply) (talk : Exchange)
    (u : World) : Prop where
  typed : Typed lines reply
  ending : talk.ending = .ofReply? reply
  output : u.output = w.output ++ Text.utf8 (List.replicate (questionCount lines reply) question).flatten
  input : input = lines ++ u.input
  ended : reply = none → u.input = []

/-- A user who agrees has been understood. -/
theorem Exchange.failure?_of_accepts {x : Exchange} (h : x.accepts = true) : x.failure? = none := by
  simp only [accepts, Bool.or_eq_true, decide_eq_true_eq] at h
  rcases h with h | h <;> simp [failure?, h]

namespace World

variable {options : Options} {asking : Bool} {path : Text} {w u v : World} {fate : Fate}

/-- What was printed is behind what was printed before. -/
theorem output_of_print {t : Text} (h : w.print t = (none, u)) : u.output = w.output ++ t.utf8 := by
  unfold print at h
  split at h
  · rw [← (Prod.mk.inj h).2]
  · split at h
    · rw [← (Prod.mk.inj h).2]
    · cases h

theorem input_of_print {t : Text} {failed : Option IoError} (h : w.print t = (failed, u)) : u.input = w.input := by
  rw [← print_input w t, h]

theorem exists_asked_askFrom (w : World) (question : Text) (input : List Bytes)
    (h : (w.askFrom question input).1.failure? = none) : ∃ lines reply,
    Asked w question input lines reply (w.askFrom question input).1 (w.askFrom question input).2 := by
  fun_induction w.askFrom question input with
  | case1 => contradiction
  | case2 w u hprint =>
    refine ⟨[], none, .ended, rfl, ?_, rfl, fun _ => rfl⟩
    show u.output = _
    simpa [questionCount] using output_of_print hprint
  | case3 => contradiction
  | case4 w u hprint line rest t htext reply hreply =>
    refine ⟨[line], some reply, .understood htext hreply, rfl, ?_, rfl, fun h => absurd h (Option.some_ne_none _)⟩
    show u.output = _
    simpa [questionCount] using output_of_print hprint
  | case5 w u hprint line rest t htext hreply x v hask ih =>
    rw [hask] at ih
    obtain ⟨lines, reply, asked⟩ := ih h
    refine ⟨line :: lines, reply, .ignored htext hreply asked.typed, asked.ending, ?_,
      congrArg (line :: ·) asked.input, asked.ended⟩
    calc v.output
        = u.output ++ Text.utf8 (List.replicate (questionCount lines reply) question).flatten := asked.output
      _ = w.output ++ Text.utf8 (List.replicate (questionCount (line :: lines) reply) question).flatten := by
        rw [output_of_print hprint, questionCount_cons, List.replicate_succ, List.flatten_cons, Text.utf8_append,
          List.append_assoc]

/-- A question that is not broken off is settled. -/
theorem exists_asked {question : Text} {talk : Exchange} (h : w.ask question = (talk, u)) (hok : talk.failure? = none) :
    ∃ lines reply, Asked w question w.input lines reply talk u := by
  have hasked := exists_asked_askFrom w question w.input
  rw [show w.askFrom question w.input = _ from h] at hasked
  exact hasked hok

end World

/-! ## Scenes -/

/-- Whether the source was read and would change. -/
def Visit.wouldChange (v : Visit) : Bool := v.fate.transformation?.any Transformation.isChanged

/-- A source that would change, as the user sees it. -/
structure Scene where
  visit : Visit
  /-- The text that was read. -/
  source : Text
  /-- Whether the user is asked. -/
  asked : Bool
  /-- The lines that the user types then. -/
  lines : List Bytes
  /-- What the user replies, if there are lines enough. -/
  reply : Option Reply

namespace Scene

/-- The text that the source is to become. -/
def target (s : Scene) : Text := (interpolation.transform s.source).output

/-- The difference that is printed. -/
def diff (s : Scene) : Text := unifiedDiff s.source s.target s.visit.path s.visit.path

/-- The questions that are printed: none, or one for every line and one more where the input ends. -/
def questions (s : Scene) : Text :=
  (List.replicate (if s.asked then questionCount s.lines s.reply else 0) (questionFor s.visit.path)).flatten

/-- All that is printed. -/
def printed (s : Scene) : Text := s.diff ++ s.questions

/-- A file was written, and the difference, read as a patch, leads from the text that was read to what was written. -/
structure Writes (s : Scene) (u u' : World) : Prop where
  agreed : s.asked = true → s.reply = some .yes ∨ s.reply = some .all
  patched : ∃ hunks patch new found,
    s.diff = "--- ".toList ++ s.visit.path ++ "\n+++ ".toList ++ s.visit.path ++ '\n' :: hunks ∧
    Patch.read hunks = some patch ∧ patch.apply s.source = some new ∧
    u.Untouched found ∧ found.store.write s.visit.path new.utf8 = (.whole, u'.store) ∧
    u'.store.readBytes s.visit.path = .ok new.utf8

/-- The visit of a scene, from the world `u` to the world `u'`. -/
structure Plays (s : Scene) (u u' : World) : Prop where
  read : u.store.read s.visit.path = .ok s.source
  transformation : s.visit.fate.transformation? = some (interpolation.transform s.source)
  changed : (interpolation.transform s.source).isChanged = true
  output : u'.output = u.output ++ s.printed.utf8
  input : u.input = s.lines ++ u'.input
  /-- The user who is asked types some lines, the last of which is the first that is understood. -/
  typed : s.asked = true → Typed s.lines s.reply
  /-- If none is understood the input has ended. -/
  ended : s.asked = true → s.reply = none → u'.input = []
  /-- The user who is not asked types nothing. -/
  silent : s.asked = false → s.lines = [] ∧ s.reply = none
  talk : s.visit.fate.talk?.map Exchange.ending = if s.asked then some (.ofReply? s.reply) else none
  written : s.visit.fate.isWritten = true → s.Writes u u'

variable {s : Scene} {u u' : World}

theorem Plays.wouldChange (h : s.Plays u u') : s.visit.wouldChange = true := by
  simp [Visit.wouldChange, h.transformation, h.changed]

/-- The user need not be asked any more if the reply says so. -/
theorem Plays.settlesAll_eq (h : s.Plays u u') : s.visit.fate.settlesAll = decide (s.reply = some .all) := by
  have hsettles (talk : Option Exchange) :
      talk.any Exchange.acceptsAll = decide (talk.map Exchange.ending = some (.answered .all)) := by
    cases talk <;> simp [Exchange.acceptsAll]
  rw [Fate.settlesAll, hsettles, h.talk]
  cases hasked : s.asked with
  | false => simp [h.silent hasked]
  | true => cases s.reply <;> simp [Ending.ofReply?]

/-- A scene that ends with the file being written shows how to get there. -/
theorem writes_of_write {found : World} (changed : (interpolation.transform s.source).isChanged = true)
    (agreed : s.asked = true → s.reply = some .yes ∨ s.reply = some .all) (untouched : u.Untouched found)
    (write : found.store.write s.visit.path s.target.utf8 = (.whole, u'.store)) : s.Writes u u' := by
  have hne : s.source ≠ s.target := by
    intro heq
    have hnone := Pattern.interpolated_eq_zero_iff.2 heq.symm
    simp [Transformation.isChanged, hnone] at changed
  obtain ⟨hunks, patch, hdiff, hread, happly, -⟩ := exists_patch_of_ne hne
  exact ⟨agreed, hunks, patch, s.target, found, hdiff _ _, hread, happly, untouched, write,
    Store.readBytes_of_write write⟩

end Scene

namespace World

variable {options : Options} {asking : Bool} {path : Text} {w u v : World} {fate : Fate}

/-- A source that is shown, without a question. -/
theorem Proposed.exists_plays {source : Text} {store : Store} (h : Proposed path source w u)
    (hfate : fate.transformation? = some (interpolation.transform source)) (htalk : fate.talk? = none)
    (hwritten : fate.isWritten = true → u.store.write path (interpolation.transform source).output.utf8 = (.whole, store)) :
    ∃ s : Scene, s.visit = ⟨path, fate⟩ ∧ s.asked = false ∧ s.Plays w { u with store } := by
  refine ⟨⟨⟨path, fate⟩, source, false, [], none⟩, rfl, rfl, ?_⟩
  exact {
    read := h.read
    transformation := hfate
    changed := h.changed
    output := by simpa [Scene.printed, Scene.questions, Scene.diff, Scene.target] using output_of_print h.print
    input := (input_of_print h.print).symm
    typed := nofun
    ended := nofun
    silent := fun _ => ⟨rfl, rfl⟩
    talk := by simp [htalk]
    written := fun hfate =>
      Scene.writes_of_write h.changed nofun (.inl (sameFiles_of_print h.print).1) (hwritten hfate) }

/-- A source that is shown, with a question. -/
theorem Proposed.exists_plays_asked {source : Text} {talk : Exchange} {store : Store} (h : Proposed path source w u)
    (hask : u.ask (questionFor path) = (talk, v)) (hok : talk.failure? = none)
    (hfate : fate.transformation? = some (interpolation.transform source)) (htalk : fate.talk? = some talk)
    (hwritten : fate.isWritten = true → talk.accepts = true ∧
      v.store.write path (interpolation.transform source).output.utf8 = (.whole, store)) :
    ∃ s : Scene, s.visit = ⟨path, fate⟩ ∧ s.asked = true ∧ s.Plays w { v with store } := by
  obtain ⟨lines, reply, asked⟩ := exists_asked hask hok
  have hagreed (haccepts : talk.accepts = true) : reply = some .yes ∨ reply = some .all := by
    simp only [Exchange.accepts, asked.ending, Bool.or_eq_true, decide_eq_true_eq] at haccepts
    cases reply with
    | none => simp [Ending.ofReply?] at haccepts
    | some reply => simpa [Ending.ofReply?] using haccepts
  refine ⟨⟨⟨path, fate⟩, source, true, lines, reply⟩, rfl, rfl, ?_⟩
  exact {
    read := h.read
    transformation := hfate
    changed := h.changed
    output := by
      show v.output = _
      rw [asked.output, output_of_print h.print, Scene.printed, Text.utf8_append, ← List.append_assoc]
      rfl
    input := (input_of_print h.print).symm.trans asked.input
    typed := fun _ => asked.typed
    ended := fun _ => asked.ended
    silent := by simp
    talk := by simp [htalk, asked.ending]
    written := fun hfate =>
      Scene.writes_of_write h.changed (fun _ => hagreed (hwritten hfate).1)
        ((sameFiles_of_print h.print).untouched (untouched_ask hask)) (hwritten hfate).2 }

/-- A visit that does not make the run fail is quiet, and nothing happens, or it plays a scene. -/
theorem Visited.quiet_or_plays (h : Visited options asking path w fate u) (hok : fate.failure? = none)
    (hasking : asking = true → options.write = true) :
    (Visit.wouldChange ⟨path, fate⟩ = false ∧ fate.settlesAll = false ∧ u = w) ∨
      ∃ s : Scene, s.visit = ⟨path, fate⟩ ∧ s.asked = asking ∧ s.Plays w u := by
  cases h with
  | unreadable => exact .inl ⟨rfl, rfl, rfl⟩
  | unchanged _ same => exact .inl ⟨same, rfl, rfl⟩
  | unprintable => contradiction
  | shown proposed keeps =>
    obtain rfl : asking = false := by
      rw [← Bool.not_eq_true]
      exact fun asks => Bool.false_ne_true (keeps.symm.trans (hasking asks))
    exact .inr (proposed.exists_plays rfl rfl nofun)
  | refused proposed _ asks ask =>
    subst asks
    exact .inr (proposed.exists_plays_asked ask hok rfl rfl nofun)
  | @accepted _ _ _ _ writing _ proposed _ consented write =>
    have hwhole {t : Transformation} {talk : Option Exchange} (h : (Fate.accepted t talk writing).isWritten = true) :
        writing = .whole := by
      cases writing with
      | whole => rfl
      | refused | cut => contradiction
    cases consented with
    | unasked settled =>
      subst settled
      exact .inr (proposed.exists_plays rfl rfl fun h => hwhole h ▸ write)
    | asked asks ask agrees =>
      subst asks
      exact .inr (proposed.exists_plays_asked ask (Exchange.failure?_of_accepts agrees) rfl rfl
        fun h => ⟨agrees, hwhole h ▸ write⟩)

end World

/-! ## The scenes of a run -/

/-- The scene `s` behind the visits `earlier`, with the scenes `before` among them: `u` and `u'` are the worlds before
and after it. -/
structure Staged (options : Options) (asking : Bool) (w : World) (earlier : List Visit) (before : List Scene)
    (s : Scene) (u u' : World) : Prop where
  before_eq : before.map Scene.visit = earlier.filter Visit.wouldChange
  /-- The visit starts where the visits in front of it end. -/
  earlier_eq : w.visitAll options asking (earlier.map Visit.path) = (earlier, u)
  visit : u.visit options s.asked s.visit.path = (s.visit.fate, u')
  /-- The user is asked until all further changes are agreed to. -/
  asked : s.asked = (asking && !before.any (·.reply = some .all))
  plays : s.Plays u u'

/-- The scenes of some visits, from the world `w` to the world `after`. -/
structure Transcript (options : Options) (asking : Bool) (w : World) (visits : List Visit) (scenes : List Scene)
    (after : World) : Prop where
  /-- There is a scene for each source that would change. -/
  visits_eq : scenes.map Scene.visit = visits.filter Visit.wouldChange
  /-- What the scenes print is printed, and nothing else. -/
  output : after.output = w.output ++ Text.utf8 (scenes.flatMap Scene.printed)
  /-- The lines of the scenes are taken from the input, and no others. -/
  input : w.input = scenes.flatMap Scene.lines ++ after.input
  staged : ∀ before s behind, scenes = before ++ s :: behind → ∃ earlier later u u',
    visits = earlier ++ s.visit :: later ∧ Staged options asking w earlier before s u u'

variable {options : Options} {asking : Bool} {path : Text} {w u v : World} {fate : Fate} {visits : List Visit}
  {scenes : List Scene}

/-- One more visit in front of a scene, with its own scene if it has one. -/
theorem Staged.cons (front : List Scene) {before : List Scene} {earlier : List Visit} {s : Scene} {x x' : World}
    (visit : w.visit options asking path = (fate, u)) (goes : fate.stops = false)
    (hfront : front.map Scene.visit = [⟨path, fate⟩].filter Visit.wouldChange)
    (hsettles : fate.settlesAll = front.any (·.reply = some .all))
    (h : Staged options (asking && !fate.settlesAll) u earlier before s x x') :
    Staged options asking w (⟨path, fate⟩ :: earlier) (front ++ before) s x x' where
  before_eq := by rw [List.map_append, hfront, h.before_eq, ← List.filter_append, List.singleton_append]
  earlier_eq := by
    simp only [List.map_cons, World.visitAll, visit, goes, Bool.false_eq_true, if_false, h.earlier_eq]
  visit := h.visit
  asked := by rw [h.asked, hsettles, List.any_append, Bool.not_or, Bool.and_assoc]
  plays := h.plays

namespace Transcript

theorem done (options : Options) (asking : Bool) (w : World) : Transcript options asking w [] [] w where
  visits_eq := rfl
  output := by simp
  input := rfl
  staged := by simp

/-- A quiet visit in front. -/
theorem quiet (visit : w.visit options asking path = (fate, w)) (goes : scenes ≠ [] → fate.stops = false)
    (same : Visit.wouldChange ⟨path, fate⟩ = false) (hsettles : fate.settlesAll = false)
    (others : Transcript options (asking && !fate.settlesAll) w visits scenes v) :
    Transcript options asking w (⟨path, fate⟩ :: visits) scenes v where
  visits_eq := by rw [List.filter_cons_of_neg (by simp [same]), others.visits_eq]
  output := others.output
  input := others.input
  staged before s behind heq := by
    obtain ⟨earlier, later, x, x', rfl, h⟩ := others.staged before s behind heq
    have hgoes : fate.stops = false := goes (by simp [heq])
    exact ⟨_, later, x, x', rfl, h.cons [] visit hgoes (by simp [same]) hsettles⟩

/-- A scene in front. -/
theorem scene {s : Scene} (visit : w.visit options s.asked s.visit.path = (s.visit.fate, u))
    (goes : scenes ≠ [] → s.visit.fate.stops = false) (plays : s.Plays w u)
    (others : Transcript options (s.asked && !s.visit.fate.settlesAll) u visits scenes v) :
    Transcript options s.asked w (s.visit :: visits) (s :: scenes) v where
  visits_eq := by rw [List.filter_cons_of_pos plays.wouldChange, List.map_cons, others.visits_eq]
  output := by
    rw [others.output, plays.output, List.flatMap_cons, Text.utf8_append, List.append_assoc]
  input := by rw [plays.input, others.input, List.flatMap_cons, List.append_assoc]
  staged before s' behind heq := by
    cases before with
    | nil =>
      obtain ⟨rfl, -⟩ := List.cons.inj heq
      exact ⟨[], visits, w, u, rfl, rfl, rfl, visit, by simp, plays⟩
    | cons s₀ before =>
      obtain ⟨rfl, hscenes⟩ := List.cons.inj heq
      obtain ⟨earlier, later, x, x', rfl, h⟩ := others.staged before s' behind hscenes
      have hgoes : s.visit.fate.stops = false := goes (by simp [hscenes])
      refine ⟨_, later, x, x', rfl, h.cons [s] visit hgoes ?_ (by simp [plays.settlesAll_eq])⟩
      rw [List.filter_cons_of_pos plays.wouldChange]
      rfl

end Transcript

namespace World

/-- One more visit in front of some scenes. -/
theorem Visited.exists_transcript (h : Visited options asking path w fate u) (hok : fate.failure? = none)
    (hasking : asking = true → options.write = true) (goes : scenes ≠ [] → fate.stops = false)
    (others : Transcript options (asking && !fate.settlesAll) u visits scenes v) :
    ∃ scenes, Transcript options asking w (⟨path, fate⟩ :: visits) scenes v := by
  rcases h.quiet_or_plays hok hasking with ⟨same, settles, rfl⟩ | ⟨s, hs, rfl, plays⟩
  · exact ⟨scenes, .quiet h.eq_visit goes same settles others⟩
  · obtain ⟨rfl, rfl⟩ : s.visit.path = path ∧ s.visit.fate = fate := by simp [hs]
    exact ⟨s :: scenes, .scene h.eq_visit goes plays others⟩

/-- Visits that do not make the run fail have scenes. -/
theorem Course.exists_transcript {paths : List Text} (h : Course options asking w paths visits v)
    (hasking : asking = true → options.write = true) (hok : ∀ x ∈ visits, x.fate.failure? = none) :
    ∃ scenes, Transcript options asking w visits scenes v := by
  induction h with
  | done asking w => exact ⟨[], .done options asking w⟩
  | stopped visit =>
    exact (visit_eq_iff.1 visit).exists_transcript (hok _ List.mem_cons_self) hasking (by simp)
      (.done options _ _)
  | next visit goes _ ih =>
    obtain ⟨hfirst, hothers⟩ := List.forall_mem_cons.1 hok
    obtain ⟨scenes, others⟩ := ih (fun asks => hasking (Bool.and_eq_true_iff.1 asks).1) hothers
    exact (visit_eq_iff.1 visit).exists_transcript hfirst hasking (fun _ => goes) others

end World

/-- The scene of a single visit. -/
theorem Transcript.exists_of_singleton {x : Visit} (h : Transcript options asking w [x] scenes v)
    (hx : x.wouldChange = true) : ∃ s u, scenes = [s] ∧ s.visit = x ∧ s.asked = asking ∧ s.Plays w u := by
  have hvisits := h.visits_eq
  rw [List.filter_cons_of_pos hx, List.filter_nil, List.map_eq_singleton_iff] at hvisits
  obtain ⟨s, rfl, rfl⟩ := hvisits
  obtain ⟨earlier, later, u, u', heq, staged⟩ := h.staged [] s [] rfl
  obtain rfl : earlier = [] := by
    cases earlier with
    | nil => rfl
    | cons => simp at heq
  obtain rfl : w = u := congrArg Prod.snd staged.earlier_eq
  exact ⟨s, u', rfl, rfl, by simpa using staged.asked, staged.plays⟩

/-- Where nobody is asked nothing but differences is printed, and nothing is read. -/
theorem Transcript.unasked (h : Transcript options false w visits scenes v) :
    v.output = w.output ++ Text.utf8 (scenes.flatMap Scene.diff) ∧ v.input = w.input := by
  have hsilent : ∀ s ∈ scenes, s.printed = s.diff ∧ s.lines = [] := by
    intro s hs
    obtain ⟨before, behind, heq⟩ := List.append_of_mem hs
    obtain ⟨_, _, _, _, -, staged⟩ := h.staged before s behind heq
    have hasked : s.asked = false := staged.asked
    exact ⟨by simp [Scene.printed, Scene.questions, hasked], (staged.plays.silent hasked).1⟩
  have hprinted : scenes.flatMap Scene.printed = scenes.flatMap Scene.diff :=
    List.flatMap_congr fun s hs => (hsilent s hs).1
  have hlines : scenes.flatMap Scene.lines = [] := List.flatMap_eq_nil_iff.2 fun s hs => (hsilent s hs).2
  exact ⟨hprinted ▸ h.output, by rw [h.input, hlines, List.nil_append]⟩

namespace World

/-- What a run prints that does not fail is, for each source in turn that would change, the difference, and then the
question once for each line that is read for it, and once more if the input ends there. These are the lines that the run
reads. Where nobody is to be asked there are no questions. What is written is what the difference leads to. -/
theorem run_transcript (w : World) (options : Options) (paths : List Text)
    (hok : (w.run options paths).1.failure = none) :
    let asking := options.interactive && options.write
    let r := (w.run options paths).1
    let after := (w.run options paths).2
    ∃ scenes, Transcript options asking w r.visits scenes after ∧
      (asking = false → after.output = w.output ++ Text.utf8 (scenes.flatMap Scene.diff) ∧ after.input = w.input) := by
  intro asking r after
  cases hsources : w.store.sources paths with
  | error failure =>
    rw [run, hsources] at hok
    contradiction
  | ok sources =>
    obtain ⟨visits, u, hrun, hcourse⟩ := exists_run_eq hsources options
    have hvisits : r.visits = visits := congrArg (·.1.visits) hrun
    have hafter : after = u := congrArg (·.2) hrun
    rw [hrun] at hok
    have hnone : ∀ x ∈ visits, x.fate.failure? = none := List.findSome?_eq_none_iff.1 hok
    obtain ⟨scenes, h⟩ := hcourse.exists_transcript (fun asks => (Bool.and_eq_true_iff.1 asks).2) hnone
    rw [hvisits, hafter]
    refine ⟨scenes, h, fun hasking => ?_⟩
    rw [show (options.interactive && options.write) = false from hasking] at h
    exact h.unasked

theorem course_agreeing : ∃ u, Course {} true agreeing [['b']] [⟨['b'],
    .accepted (interpolation.transform "'%s' % x".toList) (some ⟨["why".toList], .answered .all⟩) .whole⟩] u := by
  have hchanged : (interpolation.transform "'%s' % x".toList).isChanged = true := by decide +kernel
  have hwhy : Reply.ofLine? "why".toList = none := by decide
  have hall : Reply.ofLine? "all".toList = some .all := by decide
  obtain ⟨l, old, -, -, -, hwrite⟩ := Store.exists_of_read read_agreeing
  obtain ⟨o, proposed⟩ := exists_proposed rfl read_agreeing hchanged
  obtain ⟨o', hask⟩ : ∃ o', World.ask { agreeing with output := o } (questionFor ['b']) =
      (⟨["why".toList], .answered .all⟩, { agreeing with input := [], output := o' }) := by
    rw [ask, agreeing, askFrom_of_ignored rfl (Bytes.text?_utf8 _) hwhy, askFrom_of_reply rfl (Bytes.text?_utf8 _) hall]
    exact ⟨_, rfl⟩
  have hvisit : Visited {} true ['b'] agreeing _ _ := .accepted proposed rfl (.asked rfl hask rfl) (hwrite _)
  exact ⟨_, .next hvisit.eq_visit rfl (.done _ _)⟩

/-- The first line is not understood, and so the question is put twice. -/
theorem run_transcript_agreeing :
    (agreeing.run {} [['b']]).1.failure = none ∧
    (agreeing.run {} [['b']]).2.output =
      Text.utf8 (unifiedDiff "'%s' % x".toList "f'{x}'".toList ['b'] ['b'] ++ questionFor ['b'] ++ questionFor ['b']) ∧
    (agreeing.run {} [['b']]).2.input = [] := by
  have hsources : agreeing.store.sources [['b']] = .ok [['b']] := by
    simp [Store.sources, Store.sourcesAt, locate_agreeing, Store.isDirectory, entry_agreeing, Except.map]
  have hchanged : (interpolation.transform "'%s' % x".toList).isChanged = true := by decide +kernel
  have houtput : (interpolation.transform "'%s' % x".toList).output = "f'{x}'".toList := by decide +kernel
  have hwhy : Reply.ofLine? "why".toList = none := by decide
  have hall : Reply.ofLine? "all".toList = some .all := by decide
  obtain ⟨v, hcourse⟩ := course_agreeing
  have hrun := hcourse.run_eq hsources
  have hok : (agreeing.run {} [['b']]).1.failure = none := by
    rw [hrun]
    rfl
  obtain ⟨scenes, h, -⟩ := run_transcript agreeing {} [['b']] hok
  rw [hrun] at h ⊢
  obtain ⟨s, u, rfl, hs, hasked, plays⟩ := h.exists_of_singleton hchanged
  have hpath : s.visit.path = ['b'] := by rw [hs]
  have hsource : s.source = "'%s' % x".toList := by
    have hread := plays.read
    rw [hpath, read_agreeing] at hread
    exact (Except.ok.inj hread).symm
  obtain ⟨hlines, hreply⟩ := Typed.unique
    (.ignored (Bytes.text?_utf8 _) hwhy (.understood (Bytes.text?_utf8 _) hall)) (plays.typed hasked)
    ((List.append_nil _).trans plays.input) (plays.ended hasked)
  refine ⟨rfl, ?_, ?_⟩
  · have hasked : s.asked = true := hasked
    rw [h.output, List.flatMap_singleton, Scene.printed, Scene.diff, Scene.target, Scene.questions, hpath, hsource,
      hlines, hreply, houtput, if_pos hasked]
    simp [agreeing, questionCount, List.replicate]
  · have hinput := h.input
    rw [List.flatMap_singleton, hlines] at hinput
    exact (List.append_cancel_left ((List.append_nil _).trans hinput)).symm

end World

end Interpolation

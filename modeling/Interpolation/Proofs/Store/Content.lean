import Interpolation.Store.Source
import Mathlib.Tactic.ByContra
import Mathlib.Tactic.SplitIfs

/-!
# Stores that differ in the content of files

* `Store.SameEntries` — two stores hold the same, however their files are going to be written;
* `Store.entry?_fill`, `Store.entry?_writeAt` — one file has another content, or is there for the first time, and all
  else is as it was;
* `Writing.Leaves` — what a file holds after it was opened: all of its new content, or the beginning of it;
* `Store.SameShape` — two stores hold files, directories and the same links at the same locations, so that they differ
  in the content of their files at most;
* `Store.writeAt_cases` — to write a file does nothing to any, or changes this file alone;
* `Store.locate_congr` — in such stores every path leads to the same location;
* `Store.locate_name` — a name in the working directory leads to what is stored under it, if that is no link;
* `Store.exists_of_read` — a path that can be read leads to a file, and what is written to it goes to this file;
* `Store.locate_of_target` — where a file is written or made, there the path leads afterwards;
* `Store.readBytes_of_write` — what was written to a path is read there.
-/

namespace Interpolation

namespace Writing

variable {content : Bytes} {w : Writing}

/-- What a file holds that was opened in order to give it some content: all of it, or the beginning of it. -/
inductive Leaves (content : Bytes) : Writing → Bytes → Prop
  | whole : Leaves content .whole content
  | cut {room : Nat} {e : IoError} (short : room < content.length) : Leaves content (.cut room e) (content.take room)

theorem Leaves.opens {kept : Bytes} (h : Leaves content w kept) : w.opens = true := by
  cases h <;> rfl

/-- What does not fit into a file is the rest of the bytes. -/
theorem lt_of_ofContent_eq_cut {room : Nat} {e : IoError} (h : w.ofContent content = .cut room e) :
    room < content.length := by
  cases w with
  | whole | refused => cases h
  | cut n d =>
    rw [ofContent] at h
    split_ifs at h with hfits
    obtain ⟨rfl, -⟩ : n = room ∧ d = e := by simpa using h
    omega

/-- A file that is opened holds what was kept of the content, and no other does. -/
theorem kept?_ofContent (w : Writing) (content : Bytes) :
    (w.ofContent content).kept? content = none ∧ (w.ofContent content).opens = false ∨
      ∃ kept, (w.ofContent content).kept? content = some kept ∧ Leaves content (w.ofContent content) kept := by
  cases h : w.ofContent content with
  | whole => exact .inr ⟨content, rfl, .whole⟩
  | refused e => exact .inl ⟨rfl, rfl⟩
  | cut room e => exact .inr ⟨_, rfl, .cut (lt_of_ofContent_eq_cut h)⟩

end Writing

namespace Store

/-! ## Another content for a file -/

/-- The stores hold the same. How the files are going to be written can differ. -/
structure SameEntries (s t : Store) : Prop where
  here : t.here = s.here
  entries : t.entries = s.entries

theorem SameEntries.refl (s : Store) : SameEntries s s := ⟨rfl, rfl⟩

theorem SameEntries.entry?_eq {s t : Store} (h : SameEntries s t) (l : Location) : t.entry? l = s.entry? l := by
  unfold entry?
  rw [h.here, h.entries]

theorem sameEntries_attempt (s : Store) (l : Location) : SameEntries s (s.attempt l) := ⟨rfl, rfl⟩

theorem lookup_map_set (l m : Location) (e : Entry) (entries : List (Location × Entry)) :
    (entries.map fun (m, x) => (m, if m = l then e else x)).lookup m =
      (entries.lookup m).map fun x => if m = l then e else x := by
  induction entries with
  | nil => rfl
  | cons p entries ih =>
    obtain ⟨k, x⟩ := p
    by_cases hk : m = k
    · subst hk
      simp
    · have hk' : (m == k) = false := by simpa using hk
      simp only [List.map_cons, List.lookup_cons, hk']
      exact ih

theorem lookup_insertSorted (l m : Location) (e : Entry) (entries : List (Location × Entry)) :
    (insertSorted l e entries).lookup m = if m = l then some e else entries.lookup m := by
  by_cases hm : m = l
  · subst hm
    rw [if_pos rfl]
    fun_induction insertSorted m e entries with
    | case1 | case2 | case3 => simp
    | case4 k x rest hne _ ih =>
      have hk : (m == k) = false := by simpa using hne
      rw [List.lookup_cons, hk, ih]
  · have hl : (m == l) = false := by simpa using hm
    rw [if_neg hm]
    fun_induction insertSorted l e entries with
    | case1 | case3 => simp [List.lookup_cons, hl]
    | case2 => simp [List.lookup_cons, hl]
    | case4 k x rest _ _ ih => rw [List.lookup_cons, List.lookup_cons, ih]

/-- One file holds other bytes then, and all else is as it was. -/
theorem entry?_fill {s : Store} {l : Location} (h : s.entry? l ≠ some .directory) (new : Bytes) (m : Location) :
    Store.entry? (s.fill l new) m = if m = l then some (.file new) else s.entry? m := by
  have hoff : l.isPrefixOf s.here = false := by
    by_contra hl
    rw [Bool.not_eq_false] at hl
    simp [Store.entry?, hl] at h
  have hlookup : s.entry? l = s.entries.lookup l := by simp [Store.entry?, hoff]
  by_cases hm : m = l
  · subst hm
    rw [if_pos rfl, fill]
    split
    · simp [Store.entry?, insert, hoff, lookup_insertSorted]
    · next hfound =>
      rw [hlookup] at hfound
      simp [Store.entry?, set, hoff, lookup_map_set, hfound]
  · rw [if_neg hm, fill]
    split <;> simp [Store.entry?, insert, set, lookup_insertSorted, lookup_map_set, hm]

theorem fill_eq_set {s : Store} {l : Location} {e : Entry} (h : s.entry? l = some e) (new : Bytes) :
    s.fill l new = s.set l (.file new) := by
  rw [fill, h]

/-- What was kept of some bytes is what the file holds. -/
theorem entry?_writeAt {s : Store} {l : Location} (h : s.entry? l ≠ some .directory) {content kept : Bytes}
    (hkept : (s.writing l content).kept? content = some kept) (m : Location) :
    Store.entry? (s.writeAt l content).2 m = if m = l then some (.file kept) else s.entry? m := by
  have hattempt := sameEntries_attempt s l
  rw [writeAt]
  dsimp only
  rw [hkept]
  dsimp only
  rw [entry?_fill (by rwa [hattempt.entry?_eq]), hattempt.entry?_eq]

/-! ## Stores of one shape -/

/-- The stores differ in the content of files at most. -/
structure SameShape (s t : Store) : Prop where
  here : t.here = s.here
  locations : t.entries.map Prod.fst = s.entries.map Prod.fst
  entry : ∀ l, t.entry? l = s.entry? l ∨ ∃ old new, s.entry? l = some (.file old) ∧ t.entry? l = some (.file new)

namespace SameShape

variable {s t u : Store}

theorem refl (s : Store) : SameShape s s := ⟨rfl, rfl, fun _ => .inl rfl⟩

theorem trans (h : SameShape s t) (h' : SameShape t u) : SameShape s u := by
  refine ⟨h'.here.trans h.here, h'.locations.trans h.locations, fun l => ?_⟩
  rcases h'.entry l with h2 | ⟨mid, new, hmid, hnew⟩
  · rcases h.entry l with h1 | ⟨old, mid, hold, hmid⟩
    · exact .inl (h2.trans h1)
    · exact .inr ⟨old, mid, hold, h2.trans hmid⟩
  · rcases h.entry l with h1 | ⟨old, _, hold, _⟩
    · exact .inr ⟨mid, new, h1 ▸ hmid, hnew⟩
    · exact .inr ⟨old, new, hold, hnew⟩

/-- What is no file stays as it is. -/
theorem entry?_eq (h : SameShape s t) {l : Location} {e : Option Entry} (hl : s.entry? l = e)
    (he : ∀ b, e ≠ some (.file b)) : t.entry? l = e := by
  rcases h.entry l with heq | ⟨old, _, hold, _⟩
  · exact heq.trans hl
  · exact absurd (hl.symm.trans hold) (he old)

/-- A file stays a file. -/
theorem exists_file (h : SameShape s t) {l : Location} {new : Bytes} (hl : t.entry? l = some (.file new)) :
    ∃ old, s.entry? l = some (.file old) := by
  rcases h.entry l with heq | ⟨old, _, hold, _⟩
  · exact ⟨new, heq ▸ hl⟩
  · exact ⟨old, hold⟩

end SameShape

theorem SameEntries.sameShape {s t : Store} (h : SameEntries s t) : SameShape s t :=
  ⟨h.here, by rw [h.entries], fun l => .inl (h.entry?_eq l)⟩

theorem sameShape_fill {s : Store} {l : Location} {old : Bytes} (h : s.entry? l = some (.file old)) (new : Bytes) :
    SameShape s (s.fill l new) := by
  rw [fill_eq_set h]
  refine ⟨rfl, ?_, fun m => ?_⟩
  · simp [set, Function.comp_def]
  · rw [← fill_eq_set h, entry?_fill (by simp [h])]
    by_cases hm : m = l
    · subst hm
      exact .inr ⟨old, new, h, by simp⟩
    · exact .inl (by simp [hm])

/-- The file at `l` holds the bytes `new`, and all else is as it was. -/
structure Rewrote (s : Store) (l : Location) (new : Bytes) (t : Store) : Prop where
  shape : SameShape s t
  entry?_eq : ∀ m, t.entry? m = if m = l then some (.file new) else s.entry? m

/-- To write a file does nothing, or leaves what was kept of its new content. -/
theorem writeAt_cases {s : Store} {l : Location} {old : Bytes} (h : s.entry? l = some (.file old)) (content : Bytes) :
    (s.writeAt l content).1.opens = false ∧ SameEntries s (s.writeAt l content).2 ∨
      ∃ kept, (s.writeAt l content).1.Leaves content kept ∧ Rewrote s l kept (s.writeAt l content).2 := by
  have hattempt := sameEntries_attempt s l
  rcases Writing.kept?_ofContent ((s.disk l).headD .whole) content with ⟨hkept, hclosed⟩ | ⟨kept, hkept, hleaves⟩
  · refine .inl ⟨hclosed, ?_⟩
    rw [writeAt, writing, hkept]
    exact hattempt
  · refine .inr ⟨kept, hleaves, ?_, entry?_writeAt (by simp [h]) hkept⟩
    rw [writeAt, writing, hkept]
    exact hattempt.sameShape.trans (sameShape_fill (by rwa [hattempt.entry?_eq]) kept)

variable {s t : Store}

theorem resolve_congr (h : SameShape s t) (last : LastName) (links : Nat) (start : Location) (ns : List Text) :
    t.resolve last links start ns = s.resolve last links start ns := by
  fun_induction s.resolve last links start ns with
  | case1 links start => rw [resolve]
  | case2 links start n ns hstart => rw [resolve, h.entry?_eq hstart (by simp)]
  | case3 links start ns hstart ih =>
    rw [resolve, h.entry?_eq hstart (by simp)]
    simpa using ih
  | case4 links start ns hstart hdot ih =>
    rw [resolve, h.entry?_eq hstart (by simp)]
    simpa using ih
  | case5 links start n ns hstart hdot hdots hn hmake =>
    rw [resolve, h.entry?_eq hstart (by simp)]
    simp only [hdot, hdots, if_false, h.entry?_eq hn (by simp), hmake, if_true]
  | case6 links start n ns hstart hdot hdots hn hmake =>
    rw [resolve, h.entry?_eq hstart (by simp)]
    simp only [hdot, hdots, if_false, h.entry?_eq hn (by simp), if_neg hmake]
  | case7 links start n ns hstart hdot hdots target hn hkeep =>
    rw [resolve, h.entry?_eq hstart (by simp)]
    simp only [hdot, hdots, if_false, h.entry?_eq hn (by simp), hkeep, if_true]
  | case8 start n ns hstart hdot hdots target hn hkeep =>
    rw [resolve, h.entry?_eq hstart (by simp)]
    simp only [hdot, hdots, if_false, h.entry?_eq hn (by simp), if_neg hkeep]
  | case9 start n ns hstart hdot hdots target hn hkeep links ih =>
    rw [resolve, h.entry?_eq hstart (by simp)]
    simp only [hdot, hdots, if_false, h.entry?_eq hn (by simp), if_neg hkeep]
    exact ih
  | case10 links start n ns hstart hdot hdots e hlink hn ih =>
    obtain ⟨e', hn', hlink'⟩ : ∃ e', t.entry? (start ++ [n]) = some e' ∧ ∀ target, e' ≠ .link target := by
      rcases h.entry (start ++ [n]) with heq | ⟨_, new, _, hnew⟩
      · exact ⟨e, heq.trans hn, hlink⟩
      · exact ⟨.file new, hnew, by simp⟩
    rw [resolve, h.entry?_eq hstart (by simp)]
    simp only [hdot, hdots, if_false, hn']
    exact ih
  | case11 links start n ns e hdirectory hstart =>
    rcases h.entry start with heq | ⟨_, new, _, hnew⟩
    · rw [resolve, heq, hstart]
      cases e with
      | directory => exact absurd rfl hdirectory
      | file _ => rfl
      | link _ => rfl
    · rw [resolve, hnew]

theorem locate_congr (h : SameShape s t) (path : Text) : t.locate path = s.locate path := by
  unfold locate locateWith
  rw [h.here]
  split
  · rfl
  · exact resolve_congr h _ _ _ _

/-- A single name leads to what has this name in the working directory, if that is no link. -/
theorem locate_name {s : Store} {n : Text} {e : Entry} (hsteps : FilePath.steps n = [n])
    (hrelative : FilePath.isAbsolute n = false) (hn : n ≠ ['.'] ∧ n ≠ ['.', '.'])
    (he : s.entry? (s.here ++ [n]) = some e) (hlink : ∀ target, e ≠ .link target) :
    s.locate n = .ok (s.here ++ [n]) := by
  have hempty : n ≠ [] := by
    rintro rfl
    simp [FilePath.steps, FilePath.names, FilePath.splitSlashes] at hsteps
  have hhere : s.entry? s.here = some .directory := by
    unfold entry?
    rw [if_pos (List.isPrefixOf_iff_prefix.2 (List.prefix_refl s.here))]
  rw [locate, locateWith, if_neg hempty, hrelative, hsteps, if_neg Bool.false_ne_true, resolve, hhere]
  simp only [if_neg hn.1, if_neg hn.2, he]
  cases e with
  | link target => exact absurd rfl (hlink target)
  | file content => simp only [resolve]
  | directory => simp only [resolve]

/-! ## Reading and writing -/

/-- A path leads where it led if all that it meets is still there, and the file is there which it could have made. The
induction is on the names to follow. -/
theorem resolve_mono {last last' : LastName} (hlast : last ≠ .keep) (hlast' : last' ≠ .keep)
    (hdirectory : ∀ m, s.entry? m = some .directory → t.entry? m = some .directory)
    (hlink : ∀ m target, s.entry? m = some (.link target) → t.entry? m = some (.link target))
    (hfile : ∀ m old, s.entry? m = some (.file old) → ∃ new, t.entry? m = some (.file new)) {l : Location}
    (hmade : last = .make → ∃ new, t.entry? l = some (.file new)) {links : Nat} {start : Location} {ns : List Text}
    (h : s.resolve last links start ns = .ok l) : t.resolve last' links start ns = .ok l := by
  fun_induction s.resolve last links start ns with
  | case1 => rwa [resolve]
  | case2 | case6 | case8 | case11 => contradiction
  | case3 links start ns hstart ih =>
    rw [resolve, hdirectory _ hstart]
    simpa using ih h
  | case4 links start ns hstart hdot ih =>
    rw [resolve, hdirectory _ hstart]
    simpa using ih h
  | case5 links start n ns hstart hdot hdots hn hmake =>
    obtain ⟨rfl, hlast⟩ : ns = [] ∧ last = .make := by simpa using hmake
    obtain rfl := Except.ok.inj h
    obtain ⟨new, hnew⟩ := hmade hlast
    rw [resolve, hdirectory _ hstart]
    simp [hdot, hdots, hnew, resolve]
  | case7 _ _ _ _ _ _ _ _ _ hkeep => simp [hlast] at hkeep
  | case9 start n ns hstart hdot hdots target hn hkeep links ih =>
    rw [resolve, hdirectory _ hstart]
    simpa [hdot, hdots, hlink _ _ hn, hlast'] using ih h
  | case10 links start n ns hstart hdot hdots e hnolink hn ih =>
    obtain ⟨e', hn', hnolink'⟩ : ∃ e', t.entry? (start ++ [n]) = some e' ∧ ∀ target, e' ≠ .link target := by
      cases e with
      | directory => exact ⟨_, hdirectory _ hn, by simp⟩
      | file old =>
        obtain ⟨new, hnew⟩ := hfile _ _ hn
        exact ⟨_, hnew, by simp⟩
      | link target => exact absurd rfl (hnolink target)
    rw [resolve, hdirectory _ hstart]
    simp only [hdot, hdots, if_false, hn']
    exact ih h

theorem locateWith_make {path : Text} {l : Location} (h : s.locate path = .ok l) : s.locateWith .make path = .ok l := by
  unfold locate locateWith at h
  unfold locateWith
  split at h
  · contradiction
  · next hpath =>
    rw [if_neg hpath]
    exact resolve_mono (by decide) (by decide) (fun _ => id) (fun _ _ => id) (fun _ old h => ⟨old, h⟩) (by simp) h

theorem write_of_file {path : Text} {l : Location} {old : Bytes} (hl : s.locate path = .ok l)
    (hold : s.entry? l = some (.file old)) (new : Bytes) : s.write path new = s.writeAt l new := by
  simp only [write, target, locateWith_make hl, hold]

theorem write_of_directory {path : Text} {l : Location} (hl : s.locate path = .ok l)
    (hdirectory : s.entry? l = some .directory) (new : Bytes) : s.write path new = (.refused .isDirectory, s) := by
  simp only [write, target, locateWith_make hl, hdirectory]

/-- A path that can be read leads to a file, and what is written to it goes to that file. -/
theorem exists_of_read {path source : Text} (h : s.read path = .ok source) : ∃ l old, s.locate path = .ok l ∧
    s.entry? l = some (.file old) ∧ old.text? = some source ∧ ∀ new, s.write path new = s.writeAt l new := by
  unfold read readBytes at h
  cases hl : s.locate path with
  | error e => simp [hl] at h
  | ok l =>
    simp only [hl] at h
    split at h
    · simp at h
    · next content hcontent =>
      split at hcontent
      · next old hold =>
        obtain rfl : old = content := by simpa using hcontent
        split at h
        · simp at h
        · next t ht =>
          obtain rfl : t = source := by simpa using h
          exact ⟨l, old, rfl, hold, ht, write_of_file hl hold⟩
      · simp at hcontent
      · simp at hcontent

theorem target_spec {path : Text} {l : Location} (h : s.target path = .ok l) :
    s.locateWith .make path = .ok l ∧ ∀ e, s.entry? l = some e → ∃ old, e = .file old := by
  unfold target at h
  split at h
  · contradiction
  · next m hm =>
    split at h
    · next old hold =>
      obtain rfl := Except.ok.inj h
      exact ⟨hm, fun e he => ⟨old, Option.some.inj (he.symm.trans hold)⟩⟩
    · next hnone =>
      obtain rfl := Except.ok.inj h
      exact ⟨hm, fun e he => by simp [hnone] at he⟩
    · contradiction

/-- Where a file is written or made, there the path leads afterwards. -/
theorem locate_of_target {path : Text} {l : Location} {new : Bytes} (h : s.target path = .ok l) (here : t.here = s.here)
    (ht : ∀ m, t.entry? m = if m = l then some (.file new) else s.entry? m) : t.locate path = .ok l := by
  obtain ⟨hmake, hl⟩ := target_spec h
  have hkept {m : Location} {e : Entry} (hm : s.entry? m = some e) (he : ∀ old, e ≠ .file old) : t.entry? m = some e := by
    rw [ht, if_neg ?_, hm]
    rintro rfl
    obtain ⟨old, rfl⟩ := hl e hm
    exact he old rfl
  have hfile (m : Location) (old : Bytes) (hm : s.entry? m = some (.file old)) : ∃ new, t.entry? m = some (.file new) := by
    rw [ht]
    split
    · exact ⟨new, rfl⟩
    · exact ⟨old, hm⟩
  unfold locateWith at hmake
  unfold locate locateWith
  split at hmake
  · contradiction
  · next hpath =>
    rw [if_neg hpath, here]
    exact resolve_mono (by decide) (by decide) (fun _ hm => hkept hm nofun) (fun _ _ hm => hkept hm nofun) hfile
      (fun _ => ⟨new, by rw [ht, if_pos rfl]⟩) hmake

theorem here_writeAt (s : Store) (l : Location) (content : Bytes) : (s.writeAt l content).2.here = s.here := by
  rw [writeAt]
  dsimp only
  split
  · rfl
  · rw [fill]
    split <;> rfl

/-- What was written to a path can be read there. -/
theorem readBytes_of_write {path : Text} {content : Bytes} (h : s.write path content = (.whole, t)) :
    t.readBytes path = .ok content := by
  unfold write at h
  split at h
  · simp at h
  · next l hl =>
    have hwhole : s.writing l content = .whole := congrArg Prod.fst h
    obtain rfl : (s.writeAt l content).2 = t := congrArg Prod.snd h
    have hne : s.entry? l ≠ some .directory := fun he => by
      obtain ⟨old, hold⟩ := (target_spec hl).2 _ he
      cases hold
    have hkept : (s.writing l content).kept? content = some content := by
      rw [hwhole]
      rfl
    have hentry := entry?_writeAt hne hkept
    rw [readBytes, locate_of_target hl (here_writeAt s l content) hentry]
    simp [hentry]

end Store

end Interpolation

import Interpolation.Proofs.Run.Stop
import Interpolation.Proofs.Store.Search

/-!
# Directories among the sources

What a link leads to is looked at where the link is given as a path, but not where it is found below a directory. So a
link to a directory that has the name of a source is a source.

* `Store.LeadsToDirectory` — that a path leads to a directory, links followed;
* `Store.LinkedDirectory` — a link to a directory, given or found under some paths, with the name of a source;
* `Store.mem_sources_and_leadsToDirectory_iff` — these are all the sources that lead to a directory;
* `Store.read_eq_isDirectory_iff` — what leads to a directory is what cannot be read for being one;
* `World.run_directories` — a run stumbles over these links, and over no other directory;
* `World.run_looped` — and it does stumble over them.
-/

namespace Interpolation

namespace Store

variable {s t : Store} {path : Text} {paths sources : List Text}

/-- Where a path leads, links followed, is a directory. -/
def LeadsToDirectory (s : Store) (path : Text) : Prop := ∃ d, s.locate path = .ok d ∧ s.isDirectory d

/-- A link to a directory that has the name of a source. -/
inductive LinkedDirectory (s : Store) (paths : List Text) : Text → Prop
  | given {path : Text} (mem : path ∈ paths) (named : s.NamedLink path) (leads : s.LeadsToDirectory path) :
      LinkedDirectory s paths path
  | found {path : Text} {d l : Location} {target : Text} (mem : path ∈ paths) (root : s.locate path = .ok d)
      (directory : s.isDirectory d) (reachable : s.Reachable d l) (link : s.entry? (d ++ l) = some (.link target))
      (named : EndsInPy (l.getLastD [])) (leads : s.LeadsToDirectory (l.foldl FilePath.join path)) :
      LinkedDirectory s paths (l.foldl FilePath.join path)

/-! ## Among the sources -/

/-- A source is one under some path. -/
theorem mem_sources_iff (h : s.sources paths = .ok sources) {p : Text} :
    p ∈ sources ↔ ∃ path ∈ paths, ∃ part, s.sourcesAt path = .ok part ∧ p ∈ part := by
  obtain ⟨parts, hparts, rfl⟩ := sources_eq_ok_iff.1 h
  clear h
  induction hparts with
  | nil => simp
  | cons hpart _ ih => simp [ih, hpart]

/-- What is found below a directory leads to a directory only if it is a link. -/
theorem Found.exists_link (hs : s.WellFormed) {d l : Location} {below : List Location} (h : s.Found path d below)
    (root : s.locate path = .ok d) (hd : s.isDirectory d) (hl : l ∈ below)
    (leads : s.LeadsToDirectory (l.foldl FilePath.join path)) : ∃ target, s.entry? (d ++ l) = some (.link target) := by
  obtain ⟨hreach, hfile, -⟩ := (h.mem_iff l).1 hl
  by_contra! hlink
  obtain ⟨d', hd', hdirectory⟩ := leads
  have hlocate : s.locate (l.foldl FilePath.join path) = .ok (d ++ l) :=
    locateWith_join hs root hd hreach fun _ => hlink
  rw [hlocate] at hd'
  rw [← Except.ok.inj hd', hfile] at hdirectory
  contradiction

/-- The sources that lead to a directory are the links to directories that have the name of a source. -/
theorem mem_sources_and_leadsToDirectory_iff (hs : s.WellFormed) (h : s.sources paths = .ok sources) {p : Text} :
    p ∈ sources ∧ s.LeadsToDirectory p ↔ s.LinkedDirectory paths p := by
  rw [mem_sources_iff h]
  simp only [sourcesAt_eq_ok_iff hs]
  constructor
  · rintro ⟨⟨path, hpath, part, hpart, hp⟩, leads⟩
    have below {d : Location} {below : List Location} (root : s.locate path = .ok d) (hd : s.isDirectory d)
        (hfound : s.Found path d below) (hp : p ∈ below.map fun l => l.foldl FilePath.join path) :
        s.LinkedDirectory paths p := by
      obtain ⟨l, hl, rfl⟩ := List.mem_map.1 hp
      obtain ⟨target, hlink⟩ := hfound.exists_link hs root hd hl leads
      obtain ⟨hreach, -, hname⟩ := (hfound.mem_iff l).1 hl
      exact .found hpath root hd hreach hlink hname leads
    cases hpart with
    | file root hfile =>
      obtain rfl := List.mem_singleton.1 hp
      obtain ⟨d, hd, hdirectory⟩ := leads
      rw [root] at hd
      rw [← Except.ok.inj hd, hfile] at hdirectory
      contradiction
    | directory root hd _ hfound => exact below root hd hfound hp
    | link root hd named hfound =>
      rcases List.mem_cons.1 hp with rfl | hp
      · exact .given hpath named leads
      · exact below root hd hfound hp
  · intro h
    cases h with
    | given mem named leads =>
      obtain ⟨d, root, hd⟩ := leads
      exact ⟨⟨p, mem, _, .link root hd named (found_sourcesBelow hs root hd), List.mem_cons_self⟩, d, root, hd⟩
    | @found path d l target mem root hd hreach hlink hname leads =>
      have hfound := found_sourcesBelow hs root hd
      have hl : l ∈ s.sourcesBelow d := (hfound.mem_iff l).2 ⟨hreach, by simp [isDirectory, hlink], hname⟩
      have hp : l.foldl FilePath.join path ∈ (s.sourcesBelow d).map fun l => l.foldl FilePath.join path :=
        List.mem_map_of_mem hl
      by_cases named : s.NamedLink path
      · exact ⟨⟨path, mem, _, .link root hd named hfound, List.mem_cons_of_mem _ hp⟩, leads⟩
      · exact ⟨⟨path, mem, _, .directory root hd named hfound, hp⟩, leads⟩

/-! ## Reading what leads to a directory -/

/-- That there is a directory at the end of a path is no reason why it leads nowhere. -/
theorem resolve_ne_isDirectory (s : Store) (last : LastName) (links : Nat) (start : Location) (ns : List Text) :
    s.resolve last links start ns ≠ .error .isDirectory := by
  fun_induction s.resolve last links start ns with
  | case3 _ _ _ _ ih | case4 _ _ _ _ _ ih | case9 _ _ _ _ _ _ _ _ _ _ ih | case10 _ _ _ _ _ _ _ _ _ _ ih => exact ih
  | _ => simp

theorem locate_ne_isDirectory (s : Store) (path : Text) : s.locate path ≠ .error .isDirectory := by
  unfold locate locateWith
  split
  · simp
  · exact s.resolve_ne_isDirectory _ _ _ _

theorem read_eq_isDirectory_iff : s.read path = .error .isDirectory ↔ s.LeadsToDirectory path := by
  unfold read readBytes LeadsToDirectory isDirectory
  cases hl : s.locate path with
  | error e =>
    have hne : e ≠ .isDirectory := fun he => s.locate_ne_isDirectory path (he ▸ hl)
    simp [hne]
  | ok l =>
    cases he : s.entry? l with
    | none => simp [he]
    | some e =>
      cases e with
      | directory => simp [he]
      | link target => simp [he]
      | file content => cases ht : content.text? <;> simp [he, ht]

theorem leadsToDirectory_congr (h : SameShape s t) : t.LeadsToDirectory path ↔ s.LeadsToDirectory path := by
  have hdirectory (d : Location) : t.isDirectory d = s.isDirectory d := by
    rcases h.entry d with heq | ⟨old, new, hold, hnew⟩
    · rw [isDirectory, isDirectory, heq]
    · simp [isDirectory, hold, hnew]
  unfold LeadsToDirectory
  simp only [locate_congr h, hdirectory]

end Store

namespace World

variable {w u : World} {options : Options} {asking : Bool} {path : Text} {fate : Fate}

theorem Visited.eq_unreadable_iff (h : Visited options asking path w fate u) {e : IoError} :
    fate = .unreadable e ↔ w.store.read path = .error e := by
  cases h with
  | unreadable read => simp [read]
  | unchanged read | unprintable read => simp [read]
  | shown proposed | refused proposed | accepted proposed => simp [proposed.read]

/-- The sources that lead to a directory are links to one with the name of a source, given or found under the paths,
and all of them are sources. If nothing else touches the files, a run fails to read a source for being a directory
exactly where the source is such a link. -/
theorem run_directories {w : World} (hs : w.store.WellFormed) (hreplaced : w.replaced = []) (options : Options)
    (paths : List Text) :
    (∀ sources, w.store.sources paths = .ok sources →
      ∀ p, p ∈ sources ∧ w.store.LeadsToDirectory p ↔ w.store.LinkedDirectory paths p) ∧
    ∀ v ∈ (w.run options paths).1.visits, v.fate = .unreadable .isDirectory ↔ w.store.LinkedDirectory paths v.path := by
  refine ⟨fun sources hsources p => Store.mem_sources_and_leadsToDirectory_iff hs hsources, fun v hv => ?_⟩
  cases hsources : w.store.sources paths with
  | error failure => simp [run, hsources] at hv
  | ok sources =>
    obtain ⟨visits, after, hrun, hcourse⟩ := exists_run_eq hsources options
    rw [hrun] at hv
    obtain ⟨earlier, later, rfl⟩ := List.append_of_mem hv
    obtain ⟨rest, u, u', hpaths, hearlier, -, hvisit, -⟩ := hcourse.split
    -- Up to the visit no directory came or went.
    have hshape : Store.SameShape w.store u.store := by
      have hrewritten := visitAll_rewritten hreplaced options (options.interactive && options.write)
        (earlier.map Visit.path)
      rw [hearlier.eq_visitAll] at hrewritten
      exact hrewritten.1
    have hmem : v.path ∈ sources := by simp [hpaths]
    rw [(visit_eq_iff.1 hvisit).eq_unreadable_iff, Store.read_eq_isDirectory_iff, Store.leadsToDirectory_congr hshape,
      ← Store.mem_sources_and_leadsToDirectory_iff hs hsources, and_iff_right hmem]

/-- A directory with a link back to itself, which has the name of a source. -/
def looped : World where
  store := Store.looped
  input := []
  output := []
  room := none
  replaced := []

theorem leadsToDirectory_looped : looped.store.LeadsToDirectory "./a.py".toList := by
  have hroot : Store.looped.entry? [] = some .directory := rfl
  have hlink : Store.looped.entry? [['a', '.', 'p', 'y']] = some (.link ['.']) := by decide
  have hhere : Store.looped.here = [] := rfl
  refine ⟨[], ?_, rfl⟩
  simp only [looped]
  simp [Store.locate, Store.locateWith, FilePath.isAbsolute, FilePath.steps, FilePath.names, FilePath.splitSlashes,
    Store.resolve, Store.maxLinks, hroot, hhere, hlink]

/-- The link that leads back to its directory is such a source. -/
theorem run_directories_looped : looped.store.WellFormed ∧ looped.replaced = [] ∧
    looped.store.LinkedDirectory [['.']] "./a.py".toList ∧
    ∀ v ∈ (looped.run {} [['.']]).1.visits,
      v.fate = .unreadable .isDirectory ↔ looped.store.LinkedDirectory [['.']] v.path := by
  have hwell : looped.store.WellFormed := by decide
  obtain ⟨hsources, hvisits⟩ := run_directories hwell rfl {} [['.']]
  exact ⟨hwell, rfl, (hsources _ Store.sources_looped _).1 ⟨by simp, leadsToDirectory_looped⟩, hvisits⟩

/-- The link is among the sources, and a run fails to read it since it leads to a directory. -/
theorem run_looped : looped.store.WellFormed ∧ looped.replaced = [] ∧
    looped.store.sources [['.']] = .ok ["./a.py".toList, "./d/b.py".toList, "./d.py".toList] ∧
    looped.store.LeadsToDirectory "./a.py".toList ∧
    ⟨"./a.py".toList, .unreadable .isDirectory⟩ ∈ (looped.run {} [['.']]).1.visits := by
  have hread := Store.read_eq_isDirectory_iff.2 leadsToDirectory_looped
  have hvisit (asking : Bool) : looped.visit {} asking "./a.py".toList = (.unreadable .isDirectory, looped) :=
    (Visited.unreadable hread).eq_visit
  refine ⟨by decide, rfl, Store.sources_looped, leadsToDirectory_looped, ?_⟩
  rw [run, show looped.store.sources [['.']] = _ from Store.sources_looped]
  dsimp only
  rw [visitAll, hvisit]
  exact List.mem_cons_self

end World

end Interpolation

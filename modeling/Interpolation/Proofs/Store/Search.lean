import Interpolation.Proofs.Store.Walk

/-!
# What the sources under some paths are

* `EndsInPy` — a name that ends in `.py`, as `isSourceName` decides it;
* `Store.NamedLink` — a path that ends with a link, which has such a name;
* `Store.Found` — what a search below a directory finds: all that can be reached there, is no directory and has such a
  name, in the order in which a walk comes to it;
* `Store.Walk.filter_eq_sourcesBelow` — the sources below a directory are what a walk picks by name and kind;
* `Store.Collected` — what the sources under one path are;
* `Store.sourcesAt_eq_ok_iff` — they are what `Store.sourcesAt` gives, and nothing else is;
* `Store.sources_iff` — the sources under some paths are those of each path in turn, unless a path leads nowhere.
-/

namespace Interpolation

/-- A name that ends in `.py`, with something in front of that. -/
def EndsInPy (n : Text) : Prop := ∃ stem, stem ≠ [] ∧ n = stem ++ ".py".toList

theorem isSourceName_iff {n : Text} : isSourceName n = true ↔ EndsInPy n := by
  simp only [isSourceName, Bool.and_eq_true, decide_eq_true_eq]
  constructor
  · rintro ⟨hlength, hdrop⟩
    refine ⟨n.take (n.length - 3), ?_, ?_⟩
    · rw [← List.length_pos_iff, List.length_take]
      omega
    · conv_lhs => rw [← List.take_append_drop (n.length - 3) n, hdrop]
      rfl
  · rintro ⟨stem, hstem, rfl⟩
    have hpos : 0 < stem.length := List.length_pos_iff.2 hstem
    have hlength : (stem ++ ".py".toList).length = stem.length + 3 := by simp
    rw [hlength, Nat.add_sub_cancel, List.drop_left]
    exact ⟨by omega, rfl⟩

namespace Store

variable {s : Store} {d : Location} {path : Text}

/-- A path that ends with a link. The name of the link, which is the last name of the path, ends in `.py`. -/
def NamedLink (s : Store) (path : Text) : Prop :=
  ∃ above n target, s.locateLink path = .ok (above ++ [n]) ∧ s.entry? (above ++ [n]) = some (.link target) ∧
    (FilePath.names path).getLast? = some n ∧ EndsInPy n

/-- What a search below the directory `d`, to which `path` leads, finds: locations seen from `d`. -/
structure Found (s : Store) (path : Text) (d : Location) (below : List Location) : Prop where
  /-- Nothing is found twice; names are compared from the top down, byte by byte. -/
  ordered : (below.map fun l => l.map Text.utf8).Pairwise (· < ·)
  mem_iff : ∀ l, l ∈ below ↔ s.Reachable d l ∧ s.isDirectory (d ++ l) = false ∧ EndsInPy (l.getLastD [])
  /-- A walk picks the same by name and kind. -/
  walked : ∃ names visited, s.Lists d names ∧ s.Walk d names visited ∧
    (visited.filter fun l => !s.isDirectory l && isSourceName (l.getLastD [])) = below.map (d ++ ·)
  /-- The path that stands for what is found leads there. -/
  leads : ∀ l ∈ below, s.locateLink (l.foldl FilePath.join path) = .ok (d ++ l)

/-- What the sources under a path are. -/
inductive Collected (s : Store) (path : Text) : List Text → Prop
  /-- What is no directory is taken whatever its name. -/
  | file {l : Location} (leads : s.locate path = .ok l) (h : s.isDirectory l = false) : Collected s path [path]
  | directory {d : Location} {below : List Location} (leads : s.locate path = .ok d) (h : s.isDirectory d)
      (unnamed : ¬ s.NamedLink path) (found : s.Found path d below) :
      Collected s path (below.map fun l => l.foldl FilePath.join path)
  /-- A link to a directory comes in front of what is found there, if it has the name of a source. -/
  | link {d : Location} {below : List Location} (leads : s.locate path = .ok d) (h : s.isDirectory d)
      (named : s.NamedLink path) (found : s.Found path d below) :
      Collected s path (path :: below.map fun l => l.foldl FilePath.join path)

/-! ## A link at the end of a path -/

/-- The name of a link that a path ends with is the last name of the path. -/
theorem exists_getLast?_names {l : Location} {target : Text} (hs : s.WellFormed) (h : s.locateLink path = .ok l)
    (hlink : s.entry? l = some (.link target)) : ∃ n, (FilePath.names path).getLast? = some n ∧ l.getLast? = some n := by
  unfold locateLink locateWith at h
  split at h
  · contradiction
  · have hstart : s.entry? (if FilePath.isAbsolute path then [] else s.here) = some .directory := by
      split
      · exact entry?_above List.nil_prefix
      · exact entry?_above (List.prefix_refl _)
    obtain ⟨n, hn, hl⟩ := exists_getLast?_of_resolve hs h hlink fun _ => by simp [hstart]
    refine ⟨n, ?_, hl⟩
    have hname := hs.isName_of_entry? hlink n (List.mem_of_getLast? hl)
    unfold FilePath.steps at hn
    split at hn
    · rw [List.getLast?_concat] at hn
      exact absurd (Option.some.inj hn).symm hname.ne_here
    · simpa using hn

theorem isSourceLink_iff (hs : s.WellFormed) : s.isSourceLink path = true ↔ s.NamedLink path := by
  unfold isSourceLink NamedLink
  cases hl : s.locateLink path with
  | error e => simp
  | ok l =>
    dsimp only
    split
    · next target hlink =>
      obtain ⟨n, hnames, hlast⟩ := exists_getLast?_names hs hl hlink
      obtain ⟨above, rfl⟩ := List.getLast?_eq_some_iff.1 hlast
      rw [List.getLastD_concat, isSourceName_iff]
      constructor
      · intro h
        exact ⟨above, n, target, rfl, hlink, hnames, h⟩
      · rintro ⟨above', n', target', heq, -, hnames', h⟩
        rw [hnames] at hnames'
        rwa [Option.some.inj hnames']
    · next hlink =>
      simp only [Bool.false_eq_true, false_iff]
      rintro ⟨above, n, target, heq, hlink', -⟩
      exact hlink target (Except.ok.inj heq ▸ hlink')

/-! ## The sources below a directory -/

/-- Names go down from a directory if there are directories at all places on the way. -/
theorem reachable_iff {l : List Text} : s.Reachable d l ↔
    l ≠ [] ∧ (s.entry? (d ++ l)).isSome ∧ ∀ k, 0 < k → k < l.length → s.isDirectory (d ++ l.take k) := by
  induction l generalizing d with
  | nil =>
    simp only [ne_eq, not_true_eq_false, false_and, iff_false]
    exact fun h => h.ne_nil rfl
  | cons n l ih =>
    rw [reachable_cons_iff, ih]
    constructor
    · rintro (⟨rfl, h⟩ | ⟨h, -, hentry, hway⟩)
      · exact ⟨by simp, h, fun k hk hlt => by simp at hlt; omega⟩
      · refine ⟨by simp, by simpa using hentry, fun k hk hlt => ?_⟩
        obtain ⟨k, rfl⟩ := Nat.exists_eq_add_of_lt hk
        rw [Nat.zero_add, List.take_succ_cons]
        rcases Nat.eq_zero_or_pos k with rfl | hpos
        · exact h
        · have := hway k hpos (by simpa using hlt)
          rwa [List.append_assoc] at this
    · rintro ⟨-, hentry, hway⟩
      by_cases hl : l = []
      · subst hl
        exact .inl ⟨rfl, hentry⟩
      · have hpos : 0 < l.length := List.length_pos_iff.2 hl
        refine .inr ⟨hway 1 (by omega) (by simpa using hpos), hl, by simpa using hentry, fun k hk hlt => ?_⟩
        have := hway (k + 1) (by omega) (by simpa using hlt)
        rwa [List.take_succ_cons, List.append_cons] at this

theorem isReachable_iff {m : Location} : s.isReachable d m = true ↔
    ∃ l, m = d ++ l ∧ l ≠ [] ∧ ∀ k, 0 < k → k < l.length → s.isDirectory (d ++ l.take k) := by
  unfold isReachable
  rw [Bool.and_eq_true, Bool.and_eq_true, List.isPrefixOf_iff_prefix, decide_eq_true_eq]
  constructor
  · rintro ⟨⟨⟨l, rfl⟩, hne⟩, hall⟩
    refine ⟨l, rfl, fun hnil => hne (by simp [hnil]), fun k hk hlt => ?_⟩
    have hk' := List.all_eq_true.1 hall (d.length + k) (List.mem_range.2 (by rw [List.length_append]; omega))
    rw [List.take_length_add_append] at hk'
    simpa [Nat.pos_iff_ne_zero.1 hk] using hk'
  · rintro ⟨l, rfl, hne, hway⟩
    refine ⟨⟨List.prefix_append d l, by simpa using hne⟩, List.all_eq_true.2 fun k hk => ?_⟩
    rw [List.mem_range, List.length_append] at hk
    by_cases hle : k ≤ d.length
    · simp [hle]
    · obtain ⟨k, rfl⟩ := Nat.exists_eq_add_of_le (Nat.le_of_not_le hle)
      rw [List.take_length_add_append]
      simp [hway k (by omega) (by omega)]

theorem getLastD_append {l : Location} (h : l ≠ []) : (d ++ l).getLastD [] = l.getLastD [] := by
  rw [List.getLastD_eq_getLast?, List.getLastD_eq_getLast?, List.getLast?_append_of_ne_nil d h]

theorem mem_sourcesBelow_iff (hs : s.WellFormed) {l : Location} : l ∈ s.sourcesBelow d ↔
    s.Reachable d l ∧ s.isDirectory (d ++ l) = false ∧ EndsInPy (l.getLastD []) := by
  unfold sourcesBelow
  simp only [List.mem_map, List.mem_filter, Bool.and_eq_true, decide_eq_true_eq, isReachable_iff, Prod.exists,
    exists_and_right]
  constructor
  · rintro ⟨m, ⟨e, hmem, ⟨⟨r, rfl, hne, hway⟩, hdirectory⟩, hname⟩, hdrop⟩
    rw [List.drop_left] at hdrop
    subst hdrop
    have hentry := hs.entry?_of_mem hmem
    rw [getLastD_append hne, isSourceName_iff] at hname
    exact ⟨reachable_iff.2 ⟨hne, by rw [hentry]; rfl, hway⟩, by simp [isDirectory, hentry, hdirectory], hname⟩
  · rintro ⟨hreach, hdirectory, hname⟩
    obtain ⟨hne, hentry, hway⟩ := reachable_iff.1 hreach
    obtain ⟨e, he⟩ := Option.isSome_iff_exists.1 hentry
    have hkind : e ≠ .directory := by
      rintro rfl
      simp [isDirectory, he] at hdirectory
    have hmem : (d ++ l, e) ∈ s.entries := (above_or_mem he).resolve_left fun h => hkind h.2
    rw [← isSourceName_iff, ← getLastD_append hne] at hname
    exact ⟨d ++ l, ⟨e, hmem, ⟨⟨l, rfl, hne, hway⟩, hkind⟩, hname⟩, List.drop_left⟩

/-- Seen from the root, the sources below a directory are some of the entries. -/
theorem sublist_sourcesBelow (s : Store) (d : Location) :
    ((s.sourcesBelow d).map (d ++ ·)).Sublist (s.entries.map Prod.fst) := by
  unfold sourcesBelow
  rw [List.map_map, List.map_congr_left (g := Prod.fst) fun p hp => ?_]
  · exact List.filter_sublist.map Prod.fst
  · have hreach : s.isReachable d p.1 := by
      have := (List.mem_filter.1 hp).2
      simp only [Bool.and_eq_true] at this
      exact this.1.1
    obtain ⟨l, hl, -⟩ := isReachable_iff.1 hreach
    simp [hl]

theorem pairwise_sourcesBelow (s : Store) (d : Location) : (s.sourcesBelow d).Pairwise (· < ·) := by
  have hsorted : (s.entries.map Prod.fst).Pairwise (· < ·) := List.pairwise_map.2 s.sorted
  have hbelow := hsorted.sublist (s.sublist_sourcesBelow d)
  rw [List.pairwise_map] at hbelow
  exact hbelow.imp append_lt_append_iff.1

/-- A walk picks the sources below a directory by name and kind. -/
theorem Walk.filter_eq_sourcesBelow (hs : s.WellFormed) {names : List Text} {visited : List Location}
    (h : s.Walk d names visited) (hnames : s.Lists d names) :
    (visited.filter fun l => !s.isDirectory l && isSourceName (l.getLastD [])) = (s.sourcesBelow d).map (d ++ ·) := by
  have hvisited := h.pairwise (fun n hn => (hnames.mem_iff n).1 hn) hnames.pairwise
  have hbelow : ((s.sourcesBelow d).map (d ++ ·)).Pairwise (· < ·) :=
    List.pairwise_map.2 ((s.pairwise_sourcesBelow d).imp append_lt_append_iff.2)
  refine (hvisited.filter _).eq_of_mem_iff hbelow fun l => ?_
  rw [List.mem_filter, h.mem_iff hnames, List.mem_map]
  simp only [mem_sourcesBelow_iff hs, Bool.and_eq_true, Bool.not_eq_true', isSourceName_iff]
  constructor
  · rintro ⟨⟨r, rfl, hr⟩, hdirectory, hname⟩
    rw [getLastD_append hr.ne_nil] at hname
    exact ⟨r, ⟨hr, hdirectory, hname⟩, rfl⟩
  · rintro ⟨r, ⟨hr, hdirectory, hname⟩, rfl⟩
    rw [getLastD_append hr.ne_nil]
    exact ⟨⟨r, rfl, hr⟩, hdirectory, hname⟩

theorem found_sourcesBelow (hs : s.WellFormed) (hpath : s.locate path = .ok d) (hd : s.isDirectory d) :
    s.Found path d (s.sourcesBelow d) where
  ordered := List.pairwise_map.2 ((s.pairwise_sourcesBelow d).imp map_utf8_lt_map_utf8_iff.2)
  mem_iff _ := mem_sourcesBelow_iff hs
  walked := by
    obtain ⟨names, visited, hnames, hwalk⟩ := s.exists_walk d
    exact ⟨names, visited, hnames, hwalk, hwalk.filter_eq_sourcesBelow hs hnames⟩
  leads l hl := locateWith_join hs hpath hd ((mem_sourcesBelow_iff hs).1 hl).1 (by simp)

/-- A search finds one list only. -/
theorem Found.unique {below below' : List Location} (h : s.Found path d below) (h' : s.Found path d below') :
    below = below' := by
  have hordered {l : List Location} (hl : s.Found path d l) : l.Pairwise (· < ·) :=
    (List.pairwise_map.1 hl.ordered).imp map_utf8_lt_map_utf8_iff.1
  exact (hordered h).eq_of_mem_iff (hordered h') fun l => by rw [h.mem_iff, h'.mem_iff]

/-! ## The sources under paths -/

/-- The sources under a path are what they are to be, and nothing else is. -/
theorem sourcesAt_eq_ok_iff (hs : s.WellFormed) {part : List Text} :
    s.sourcesAt path = .ok part ↔ s.Collected path part := by
  have heq {d : Location} (hd : s.locate path = .ok d) : s.sourcesAt path = .ok (if s.isDirectory d then
      (if s.isSourceLink path then [path] else []) ++ (s.sourcesBelow d).map fun l => l.foldl FilePath.join path
      else [path]) := by
    rw [sourcesAt, hd]
    rfl
  constructor
  · intro h
    cases hpath : s.locate path with
    | error e =>
      rw [sourcesAt, hpath] at h
      contradiction
    | ok d =>
      obtain rfl := Except.ok.inj ((heq hpath).symm.trans h)
      cases hd : s.isDirectory d with
      | false => exact .file hpath hd
      | true =>
        have hfound := found_sourcesBelow hs hpath hd
        cases hlink : s.isSourceLink path with
        | false => exact .directory hpath hd (fun hnamed => by simp [(isSourceLink_iff hs).2 hnamed] at hlink) hfound
        | true => exact .link hpath hd ((isSourceLink_iff hs).1 hlink) hfound
  · intro h
    cases h with
    | file leads hfile => rw [heq leads, if_neg (by simp [hfile])]
    | directory leads hd unnamed found =>
      rw [heq leads, if_pos hd, if_neg (mt (isSourceLink_iff hs).1 unnamed),
        found.unique (found_sourcesBelow hs leads hd)]
      rfl
    | link leads hd named found =>
      rw [heq leads, if_pos hd, if_pos ((isSourceLink_iff hs).2 named), found.unique (found_sourcesBelow hs leads hd)]
      rfl

/-- The sources under some paths are those under the first, then those under the second, and so on. -/
theorem sources_eq_ok_iff {paths sources : List Text} : s.sources paths = .ok sources ↔
    ∃ parts, List.Forall₂ (fun path part => s.sourcesAt path = .ok part) paths parts ∧ sources = parts.flatten := by
  induction paths generalizing sources with
  | nil => simp [Store.sources, eq_comm]
  | cons path paths ih =>
    have hstep : s.sources (path :: paths) = .ok sources ↔
        ∃ part rest, s.sourcesAt path = .ok part ∧ s.sources paths = .ok rest ∧ sources = part ++ rest := by
      rw [Store.sources]
      cases s.sourcesAt path with
      | error e => simp
      | ok part => cases s.sources paths <;> simp [Except.map, eq_comm]
    rw [hstep]
    constructor
    · rintro ⟨part, rest, hpart, hrest, rfl⟩
      obtain ⟨parts, hparts, rfl⟩ := ih.1 hrest
      exact ⟨part :: parts, .cons hpart hparts, rfl⟩
    · rintro ⟨parts, hparts, rfl⟩
      cases hparts with
      | cons hpart hparts => exact ⟨_, _, hpart, ih.2 ⟨_, hparts, rfl⟩, rfl⟩

/-- The sources under some paths are those under each of them, one path after the other, as `Store.Collected` says what
they are. There are none only if a path leads nowhere, and then the first such path is what fails. -/
theorem sources_iff (hs : s.WellFormed) (paths : List Text) :
    (∀ sources, s.sources paths = .ok sources ↔
      ∃ parts, List.Forall₂ s.Collected paths parts ∧ sources = parts.flatten) ∧
    (∀ failure, s.sources paths = .error failure ↔ ∃ before path behind e, paths = before ++ path :: behind ∧
      (∀ q ∈ before, ∃ l, s.locate q = .ok l) ∧ s.locate path = .error e ∧ failure = .read path e) := by
  refine ⟨fun sources => ?_, fun failure => sources_eq_error_iff⟩
  rw [sources_eq_ok_iff]
  simp only [sourcesAt_eq_ok_iff hs]

/-- A link that leads back to the directory that it is in, a directory, a file in it, and a file whose name begins with
that of the directory. -/
def looped : Store where
  here := []
  entries :=
    [(["a.py".toList], .link ['.']), ([['d']], .directory), ([['d'], "b.py".toList], .file []),
      (["d.py".toList], .file [])]
  sorted := by decide
  disk := fun _ => []

theorem locateWith_looped (last : LastName) : looped.locateWith last ['.'] = .ok [] := by
  have hroot : looped.entry? [] = some .directory := rfl
  have hhere : looped.here = [] := rfl
  simp [locateWith, FilePath.isAbsolute, FilePath.steps, FilePath.names, FilePath.splitSlashes, resolve, hroot, hhere]

theorem sources_looped : looped.sources [['.']] = .ok ["./a.py".toList, "./d/b.py".toList, "./d.py".toList] := by
  have hlink : looped.isSourceLink ['.'] = false := by
    rw [isSourceLink, locateLink, locateWith_looped]
    rfl
  have hbelow : looped.sourcesBelow [] = [["a.py".toList], [['d'], "b.py".toList], ["d.py".toList]] := by decide
  have hroot : looped.isDirectory [] = true := rfl
  simp [sources, sourcesAt, locate, locateWith_looped, hlink, hbelow, hroot, Except.map, FilePath.join]

/-- The directory comes in front of the file, and the link is not followed. -/
theorem sources_iff_looped : looped.WellFormed ∧ ∃ parts, List.Forall₂ looped.Collected [['.']] parts ∧
    ["./a.py".toList, "./d/b.py".toList, "./d.py".toList] = parts.flatten := by
  have hwell : looped.WellFormed := by decide
  exact ⟨hwell, ((sources_iff hwell [['.']]).1 _).1 sources_looped⟩

end Store

end Interpolation

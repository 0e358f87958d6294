import Interpolation.Proofs.Store.Content
import Mathlib.Data.List.Basic

/-!
# Paths that go down

A path can be continued with names. Where it leads to a directory, the longer path goes on from there.

* `FilePath.IsName` — what can be the name of an entry: it is taken literally, and it is one name of a path;
* `FilePath.steps_foldl_join` — a path continued with names has these names last;
* `Store.WellFormed` — entries have such names and stand in directories, and none is where the working directory or a
  directory above it is;
* `Store.exists_getLast?_of_resolve` — a link that a path ends with has the last name of the path;
* `Store.Reachable` — that names go down from a directory to an entry, through directories only, no links among them;
* `Store.exists_resolve_append` — following more names is to go on from where the first ones lead to;
* `Store.locateWith_join` — a path to a directory continued with names that go down leads to their entry.
-/

namespace Interpolation

namespace FilePath

/-! ## The names of a path -/

/-- A name that is no other way to say where one is already. -/
structure IsName (n : Text) : Prop where
  ne_nil : n ≠ []
  no_slash : '/' ∉ n
  ne_here : n ≠ ['.']
  ne_above : n ≠ ['.', '.']

instance (n : Text) : Decidable (IsName n) :=
  decidable_of_iff (n ≠ [] ∧ '/' ∉ n ∧ n ≠ ['.'] ∧ n ≠ ['.', '.'])
    ⟨fun ⟨h, h', h'', h'''⟩ => ⟨h, h', h'', h'''⟩, fun ⟨h, h', h'', h'''⟩ => ⟨h, h', h'', h'''⟩⟩

theorem splitSlashes_ne_nil (path : Text) : splitSlashes path ≠ [] := by
  fun_cases splitSlashes path <;> simp

theorem splitSlashes_of_not_mem {n : Text} (h : '/' ∉ n) : splitSlashes n = [n] := by
  induction n with
  | nil => rfl
  | cons c n ih =>
    rw [List.mem_cons, not_or] at h
    rw [splitSlashes, if_neg (Ne.symm h.1), ih h.2]

/-- A slash is where a path is cut. -/
theorem splitSlashes_append (p q : Text) : splitSlashes (p ++ '/' :: q) = splitSlashes p ++ splitSlashes q := by
  induction p with
  | nil => simp [splitSlashes]
  | cons c p ih =>
    rw [List.cons_append, splitSlashes, splitSlashes, ih]
    by_cases hc : c = '/'
    · rw [if_pos hc, if_pos hc]
      rfl
    · rw [if_neg hc, if_neg hc]
      cases hp : splitSlashes p with
      | nil => exact absurd hp (splitSlashes_ne_nil p)
      | cons m ms => rfl

theorem names_of_isName {n : Text} (h : IsName n) : names n = [n] := by
  simp [names, splitSlashes_of_not_mem h.no_slash, h.ne_nil]

theorem names_append (p q : Text) : names (p ++ '/' :: q) = names p ++ names q := by
  rw [names, splitSlashes_append, List.filter_append]
  rfl

/-- One more name is the last name. -/
theorem names_join {n : Text} (hn : IsName n) (path : Text) : names (join path n) = names path ++ [n] := by
  unfold join
  split
  · next hslash =>
    obtain ⟨p, rfl⟩ : ∃ p, path = p ++ ['/'] := by
      rw [List.getLast?_eq_some_iff] at hslash
      exact hslash
    rw [List.append_assoc, List.singleton_append, names_append, names_append, names_of_isName hn]
    simp [names, splitSlashes]
  · rw [names_append, names_of_isName hn]

theorem join_ne_nil {n : Text} (hn : IsName n) (path : Text) : join path n ≠ [] := by
  unfold join
  split
  · simp [hn.ne_nil]
  · simp

theorem getLast?_join {n : Text} (hn : IsName n) (path : Text) : (join path n).getLast? ≠ some '/' := by
  have hlast (p : Text) : (p ++ n).getLast? ≠ some '/' := by
    rw [List.getLast?_append_of_ne_nil p hn.ne_nil]
    exact fun h => hn.no_slash (List.mem_of_getLast? h)
  unfold join
  split
  · exact hlast path
  · rw [← List.singleton_append, ← List.append_assoc]
    exact hlast _

theorem isAbsolute_join {path : Text} (hpath : path ≠ []) (n : Text) : isAbsolute (join path n) = isAbsolute path := by
  obtain ⟨c, p, rfl⟩ := List.exists_cons_of_ne_nil hpath
  unfold join isAbsolute
  split <;> rfl

section Fold

variable {l : List Text} (hl : ∀ n ∈ l, IsName n) {path : Text}

include hl

theorem names_foldl_join : names (l.foldl join path) = names path ++ l := by
  induction l generalizing path with
  | nil => simp
  | cons n l ih =>
    rw [List.forall_mem_cons] at hl
    rw [List.foldl_cons, ih hl.2, names_join hl.1, List.append_assoc]
    rfl

theorem foldl_join_ne_nil (hpath : path ≠ []) : l.foldl join path ≠ [] := by
  induction l generalizing path with
  | nil => exact hpath
  | cons n l ih =>
    rw [List.forall_mem_cons] at hl
    exact ih hl.2 (join_ne_nil hl.1 path)

theorem isAbsolute_foldl_join (hpath : path ≠ []) : isAbsolute (l.foldl join path) = isAbsolute path := by
  induction l generalizing path with
  | nil => rfl
  | cons n l ih =>
    rw [List.forall_mem_cons] at hl
    rw [List.foldl_cons, ih hl.2 (join_ne_nil hl.1 path), isAbsolute_join hpath]

/-- A path that is continued with names has these names last, whether or not a slash was at its end. -/
theorem steps_foldl_join (hne : l ≠ []) : steps (l.foldl join path) = names path ++ l := by
  obtain ⟨m, n, rfl⟩ : ∃ m n, l = m ++ [n] := ⟨_, _, (List.dropLast_append_getLast hne).symm⟩
  have hslash : ((m ++ [n]).foldl join path).getLast? ≠ some '/' := by
    rw [List.foldl_append]
    exact getLast?_join (hl n (by simp)) _
  rw [steps, names_foldl_join hl, if_neg hslash, List.append_nil]

end Fold

end FilePath

open FilePath (IsName)

namespace Store

variable {s : Store} {d : Location} {l : List Text}

/-! ## Entries -/

/-- Entries have names, each stands in a directory, and none is where the working directory or a directory above it
is. -/
structure WellFormed (s : Store) : Prop where
  here : ∀ n ∈ s.here, IsName n
  names : ∀ p ∈ s.entries, ∀ n ∈ p.1, IsName n
  parents : ∀ p ∈ s.entries, s.isDirectory p.1.dropLast
  free : ∀ p ∈ s.entries, ¬ p.1 <+: s.here

instance (s : Store) : Decidable s.WellFormed :=
  decidable_of_iff ((∀ n ∈ s.here, IsName n) ∧ (∀ p ∈ s.entries, ∀ n ∈ p.1, IsName n) ∧
      (∀ p ∈ s.entries, s.isDirectory p.1.dropLast) ∧ ∀ p ∈ s.entries, ¬ p.1 <+: s.here)
    ⟨fun ⟨h, h', h'', h'''⟩ => ⟨h, h', h'', h'''⟩, fun ⟨h, h', h'', h'''⟩ => ⟨h, h', h'', h'''⟩⟩

theorem entry?_above (h : d <+: s.here) : s.entry? d = some .directory := by
  unfold entry?
  rw [if_pos (List.isPrefixOf_iff_prefix.2 h)]

theorem entry?_elsewhere (h : ¬ d <+: s.here) : s.entry? d = s.entries.lookup d := by
  unfold entry?
  rw [if_neg (fun hp => h (List.isPrefixOf_iff_prefix.1 hp))]

theorem isDirectory_iff : s.isDirectory d = true ↔ s.entry? d = some .directory := by
  simp [isDirectory]

/-- In a list that is sorted by location, what is found at a location is the one thing there. -/
theorem lookup_eq_some_iff {entries : List (Location × Entry)} (h : entries.Pairwise (·.1 < ·.1)) {e : Entry} :
    entries.lookup d = some e ↔ (d, e) ∈ entries := by
  induction entries with
  | nil => simp
  | cons p entries ih =>
    obtain ⟨m, x⟩ := p
    obtain ⟨hm, hr⟩ := List.pairwise_cons.1 h
    by_cases hd : d = m
    · subst hd
      have hoff : (d, e) ∉ entries := fun he => Std.lt_irrefl (a := d) (hm _ he)
      simp [hoff, eq_comm]
    · have hd' : (d == m) = false := by simpa using hd
      rw [List.lookup_cons, hd', ih hr]
      simp [hd]

/-- What is found is the working directory or one above it, or it is listed. -/
theorem above_or_mem {e : Entry} (h : s.entry? d = some e) : d <+: s.here ∧ e = .directory ∨ (d, e) ∈ s.entries := by
  by_cases hp : d <+: s.here
  · rw [entry?_above hp] at h
    exact .inl ⟨hp, (Option.some.inj h).symm⟩
  · rw [entry?_elsewhere hp, lookup_eq_some_iff s.sorted] at h
    exact .inr h

namespace WellFormed

variable (hs : s.WellFormed)

include hs

/-- What is listed at a location is what is found there. -/
theorem entry?_of_mem {e : Entry} (h : (d, e) ∈ s.entries) : s.entry? d = some e := by
  rw [entry?_elsewhere (hs.free _ h), lookup_eq_some_iff s.sorted]
  exact h

/-- The way to an entry has names. -/
theorem isName_of_entry? {e : Entry} (h : s.entry? d = some e) : ∀ n ∈ d, IsName n := by
  rcases above_or_mem h with ⟨hp, -⟩ | hmem
  · intro n hn
    exact hs.here n (hp.subset hn)
  · exact hs.names _ hmem

/-- Above an entry is a directory, and above the root there is the root again. -/
theorem isDirectory_dropLast {e : Entry} (h : s.entry? d = some e) : s.isDirectory d.dropLast := by
  rcases above_or_mem h with ⟨hp, -⟩ | hmem
  · exact isDirectory_iff.2 (entry?_above ((List.dropLast_prefix d).trans hp))
  · exact hs.parents _ hmem

end WellFormed

/-- A link that a path ends with has the last name of the path. The induction is on the names to follow. -/
theorem exists_getLast?_of_resolve (hs : s.WellFormed) {links : Nat} {start l : Location} {ns : List Text} {target : Text}
    (h : s.resolve .keep links start ns = .ok l) (hlink : s.entry? l = some (.link target))
    (hstart : ns = [] → s.entry? start ≠ some (.link target)) :
    ∃ n, ns.getLast? = some n ∧ l.getLast? = some n := by
  have hcons {n : Text} {ns : List Text} (h : ∃ m, ns.getLast? = some m ∧ l.getLast? = some m) :
      ∃ m, (n :: ns).getLast? = some m ∧ l.getLast? = some m := by
    obtain ⟨m, hm, hl⟩ := h
    exact ⟨m, by rw [List.getLast?_cons, hm, Option.getD_some], hl⟩
  fun_induction s.resolve .keep links start ns with
  | case1 =>
    rw [← Except.ok.inj h] at hlink
    exact absurd hlink (hstart rfl)
  | case2 | case6 | case8 | case11 => contradiction
  | case3 links start ns hdirectory ih => exact hcons (ih h fun _ => by simp [hdirectory])
  | case4 links start ns hdirectory hdot ih =>
    exact hcons (ih h fun _ => by simp [isDirectory_iff.1 (hs.isDirectory_dropLast hdirectory)])
  | case5 _ _ _ _ _ _ _ _ hmake => simp at hmake
  | case7 links start n ns _ _ _ target' hn hlast =>
    obtain rfl : ns = [] := by simpa using hlast
    rw [← Except.ok.inj h]
    exact ⟨n, rfl, by simp⟩
  | case9 start n ns _ _ _ target' hn hlast links ih =>
    have hne : ns ≠ [] := by simpa using hlast
    obtain ⟨m, hm, hl⟩ := ih h fun hnil => absurd (List.append_eq_nil_iff.1 hnil).2 hne
    rw [List.getLast?_append_of_ne_nil _ hne] at hm
    exact hcons ⟨m, hm, hl⟩
  | case10 links start n ns _ _ _ e hfile hn ih =>
    refine hcons (ih h fun _ heq => ?_)
    rw [hn] at heq
    exact hfile target (Option.some.inj heq)

/-! ## Down from a directory -/

/-- Names that go down from a directory to an entry, through directories only. -/
inductive Reachable (s : Store) : Location → List Text → Prop
  | entry {d : Location} {n : Text} (h : (s.entry? (d ++ [n])).isSome) : Reachable s d [n]
  | through {d : Location} {n : Text} {l : List Text} (h : s.isDirectory (d ++ [n])) (below : Reachable s (d ++ [n]) l) :
      Reachable s d (n :: l)

namespace Reachable

theorem ne_nil (h : s.Reachable d l) : l ≠ [] := by
  cases h <;> simp

theorem isSome_entry? (h : s.Reachable d l) : (s.entry? (d ++ l)).isSome := by
  induction h with
  | entry h => exact h
  | through _ _ ih => simpa using ih

theorem isName (hs : s.WellFormed) (h : s.Reachable d l) : ∀ n ∈ l, IsName n := by
  obtain ⟨e, he⟩ := Option.isSome_iff_exists.1 h.isSome_entry?
  intro n hn
  exact hs.isName_of_entry? he n (List.mem_append_right d hn)

end Reachable

/-! ## Following more names -/

/-- From where the first names lead to, the others are followed, through the links that are left. Where the first names
lead nowhere, all of them lead nowhere. The induction is on the first names. -/
theorem exists_resolve_append (hl : l ≠ []) (last : LastName) (links : Nat) (start : Location) (ns : List Text) :
    ∃ left, s.resolve last links start (ns ++ l) =
      (s.resolve .follow links start ns).bind fun d => s.resolve last left d l := by
  fun_induction s.resolve .follow links start ns with
  | case1 links start => exact ⟨links, rfl⟩
  | case2 links start n ns hstart => exact ⟨links, by rw [List.cons_append, resolve, hstart]; rfl⟩
  | case3 links start ns hstart ih => rw [List.cons_append, resolve, hstart]; exact ih
  | case4 links start ns hstart hdot ih =>
    rw [List.cons_append, resolve, hstart]
    simpa using ih
  | case5 _ _ _ _ _ _ _ _ hmake => simp at hmake
  | case6 links start n ns hstart hdot hdots hn hmake =>
    rw [List.cons_append, resolve, hstart]
    simp [hdot, hdots, hn, hl, Except.bind]
  | case7 links start n ns hstart hdot hdots target hn hlast => simp at hlast
  | case8 start n ns hstart hdot hdots target hn hlast =>
    rw [List.cons_append, resolve, hstart]
    simp [hdot, hdots, hn, hl, Except.bind]
  | case9 start n ns hstart hdot hdots target hn hlast links ih =>
    rw [List.cons_append, resolve, hstart]
    simpa [hdot, hdots, hn, hl] using ih
  | case10 links start n ns hstart hdot hdots e' hlink hn ih =>
    rw [List.cons_append, resolve, hstart]
    simpa only [if_neg hdot, if_neg hdots, hn] using ih
  | case11 links start n ns e' hdirectory hstart =>
    rw [List.cons_append, resolve, hstart]
    cases e' with
    | directory => exact absurd rfl hdirectory
    | file content => exact ⟨links, rfl⟩
    | link target => exact ⟨links, rfl⟩

/-- A slash at the end of a path makes no difference if it leads to a directory. -/
theorem resolve_names {links : Nat} {start : Location} {path : Text}
    (h : s.resolve .follow links start (FilePath.steps path) = .ok d) :
    s.resolve .follow links start (FilePath.names path) = .ok d := by
  unfold FilePath.steps at h
  split at h
  · obtain ⟨left, heq⟩ := s.exists_resolve_append (l := [['.']]) (by simp) .follow links start (FilePath.names path)
    rw [heq] at h
    cases hn : s.resolve .follow links start (FilePath.names path) with
    | error e =>
      rw [hn] at h
      contradiction
    | ok d' =>
      rw [hn, Except.bind, resolve] at h
      split at h
      · contradiction
      · simpa [resolve] using h
      · contradiction
  · simpa using h

/-- Names that go down from a directory are followed to their entry. -/
theorem resolve_of_reachable (hs : s.WellFormed) (h : s.Reachable d l) (hd : s.isDirectory d) (last : LastName)
    (hlink : last ≠ .keep → ∀ target, s.entry? (d ++ l) ≠ some (.link target)) (links : Nat) :
    s.resolve last links d l = .ok (d ++ l) := by
  have hnames := h.isName hs
  induction h with
  | entry h =>
    obtain ⟨hn, -⟩ := List.forall_mem_cons.1 hnames
    obtain ⟨e, he⟩ := Option.isSome_iff_exists.1 h
    rw [resolve, isDirectory_iff.1 hd]
    simp only [if_neg hn.ne_here, if_neg hn.ne_above, he]
    cases e with
    | link target =>
      have hlast : last = .keep := by
        by_contra hf
        exact hlink hf target he
      simp [hlast]
    | file content => simp only [resolve]
    | directory => simp only [resolve]
  | through hn below ih =>
    obtain ⟨hname, hrest⟩ := List.forall_mem_cons.1 hnames
    rw [resolve, isDirectory_iff.1 hd]
    simp only [if_neg hname.ne_here, if_neg hname.ne_above, isDirectory_iff.1 hn]
    rw [ih hn (by simpa using hlink) hrest, List.append_assoc]
    rfl

/-- A path to a directory that is continued with names which go down from there leads to their entry. Only if this is
a link and links are followed the path leads further. -/
theorem locateWith_join (hs : s.WellFormed) {path : Text} (hpath : s.locate path = .ok d) (hd : s.isDirectory d)
    (h : s.Reachable d l) {last : LastName}
    (hlink : last ≠ .keep → ∀ target, s.entry? (d ++ l) ≠ some (.link target)) :
    s.locateWith last (l.foldl FilePath.join path) = .ok (d ++ l) := by
  have hnames := h.isName hs
  unfold locate locateWith at hpath
  split at hpath
  · contradiction
  · next hne =>
    obtain ⟨left, heq⟩ := s.exists_resolve_append h.ne_nil last maxLinks
      (if FilePath.isAbsolute path then [] else s.here) (FilePath.names path)
    rw [locateWith, if_neg (FilePath.foldl_join_ne_nil hnames hne), FilePath.isAbsolute_foldl_join hnames hne,
      FilePath.steps_foldl_join hnames h.ne_nil, heq, resolve_names hpath]
    exact resolve_of_reachable hs h hd last hlink left

end Store

end Interpolation

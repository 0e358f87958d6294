import Interpolation.Proofs.Store.Descent
import Interpolation.Proofs.Text.ByteOrder
import Mathlib.Algebra.Order.BigOperators.Group.List
import Mathlib.Algebra.Order.Group.Nat
import Mathlib.Data.Char
import Mathlib.Data.Finset.Sort
import Mathlib.Data.List.Lex

/-!
# A walk over all that is below a directory

* `Store.Lists` — the names in a directory, in the order of their bytes;
* `Store.Walk` — a walk that comes to each entry of a directory in turn, and to all that is in an entry right behind it
  if that is a directory. What a link leads to is left alone;
* `Store.Walk.mem_iff` — a walk comes to what can be reached, by induction on the walk;
* `Store.Walk.pairwise` — and to nothing twice, in the order of the locations;
* `Store.exists_walk` — there is such a walk, however the links go, since directories are only so many levels deep.
-/

namespace Interpolation.Store

variable {s : Store} {d : Location}

/-- Names that are all the names in a directory, in the order of their bytes. -/
structure Lists (s : Store) (d : Location) (names : List Text) : Prop where
  ordered : (names.map Text.utf8).Pairwise (· < ·)
  mem_iff : ∀ n, n ∈ names ↔ (s.entry? (d ++ [n])).isSome

/-- A walk to the entries that have some names in a directory, and to all that is below them. -/
inductive Walk (s : Store) : Location → List Text → List Location → Prop
  | done {d : Location} : Walk s d [] []
  /-- Behind a file or a link the walk goes on with the next name. -/
  | pass {d : Location} {n : Text} {names : List Text} {rest : List Location} (h : s.isDirectory (d ++ [n]) = false)
      (tail : Walk s d names rest) : Walk s d (n :: names) ((d ++ [n]) :: rest)
  /-- Behind a directory come all its entries. -/
  | enter {d : Location} {n : Text} {inner names : List Text} {below rest : List Location}
      (h : s.isDirectory (d ++ [n])) (hinner : s.Lists (d ++ [n]) inner) (head : Walk s (d ++ [n]) inner below)
      (tail : Walk s d names rest) : Walk s d (n :: names) ((d ++ [n]) :: (below ++ rest))

/-! ## What a walk comes to -/

theorem reachable_cons_iff {n : Text} {l : List Text} : s.Reachable d (n :: l) ↔
    l = [] ∧ (s.entry? (d ++ [n])).isSome ∨ s.isDirectory (d ++ [n]) ∧ s.Reachable (d ++ [n]) l := by
  constructor
  · intro h
    cases h with
    | entry h => exact .inl ⟨rfl, h⟩
    | through h below => exact .inr ⟨h, below⟩
  · rintro (⟨rfl, h⟩ | ⟨h, below⟩)
    · exact .entry h
    · exact .through h below

theorem Reachable.isSome_head {n : Text} {l : List Text} (h : s.Reachable d (n :: l)) :
    (s.entry? (d ++ [n])).isSome := by
  cases h with
  | entry h => exact h
  | through h _ => rw [isDirectory_iff.1 h]; rfl

namespace Walk

variable {names : List Text} {visited : List Location}

/-- A walk comes to all that can be reached through one of the names. -/
theorem mem_iff_of_isSome (h : s.Walk d names visited) (hnames : ∀ n ∈ names, (s.entry? (d ++ [n])).isSome)
    {l : Location} : l ∈ visited ↔ ∃ n ∈ names, ∃ r, l = d ++ n :: r ∧ s.Reachable d (n :: r) := by
  induction h generalizing l with
  | done => simp
  | @pass d n names rest hn tail ih =>
    obtain ⟨hfirst, hrest⟩ := List.forall_mem_cons.1 hnames
    have hreach (r : List Text) : s.Reachable d (n :: r) ↔ r = [] := by
      rw [reachable_cons_iff]
      simp [hn, hfirst]
    simp only [List.mem_cons, ih hrest, exists_eq_or_imp, hreach, exists_eq_right]
  | @enter d n inner names below rest hn hinner head tail ihhead ihtail =>
    obtain ⟨hfirst, hrest⟩ := List.forall_mem_cons.1 hnames
    have hbelow : l ∈ below ↔ ∃ r, l = d ++ n :: r ∧ s.Reachable (d ++ [n]) r := by
      rw [ihhead fun m hm => (hinner.mem_iff m).1 hm]
      constructor
      · rintro ⟨m, -, r, rfl, hr⟩
        exact ⟨m :: r, by simp, hr⟩
      · rintro ⟨r, rfl, hr⟩
        obtain ⟨m, r, rfl⟩ := List.exists_cons_of_ne_nil hr.ne_nil
        exact ⟨m, (hinner.mem_iff m).2 hr.isSome_head, r, by simp, hr⟩
    rw [List.mem_cons, List.mem_append, hbelow, ihtail hrest]
    simp only [List.mem_cons, exists_eq_or_imp, reachable_cons_iff (n := n)]
    constructor
    · rintro (rfl | ⟨r, hl, hr⟩ | htail)
      · exact .inl ⟨[], rfl, .inl ⟨rfl, hfirst⟩⟩
      · exact .inl ⟨r, hl, .inr ⟨hn, hr⟩⟩
      · exact .inr htail
    · rintro (⟨r, hl, (⟨rfl, -⟩ | ⟨-, hr⟩)⟩ | htail)
      · exact .inl hl
      · exact .inr (.inl ⟨r, hl, hr⟩)
      · exact .inr (.inr htail)

/-- A walk over a directory comes to all that can be reached from it. -/
theorem mem_iff (h : s.Walk d names visited) (hnames : s.Lists d names) {l : Location} :
    l ∈ visited ↔ ∃ r, l = d ++ r ∧ s.Reachable d r := by
  rw [h.mem_iff_of_isSome fun n hn => (hnames.mem_iff n).1 hn]
  constructor
  · rintro ⟨n, -, r, hl, hr⟩
    exact ⟨n :: r, hl, hr⟩
  · rintro ⟨r, hl, hr⟩
    obtain ⟨n, r, rfl⟩ := List.exists_cons_of_ne_nil hr.ne_nil
    exact ⟨n, (hnames.mem_iff n).2 hr.isSome_head, r, hl, hr⟩

end Walk

/-! ## The order of a walk -/

theorem Lists.pairwise {names : List Text} (h : s.Lists d names) : names.Pairwise (· < ·) := by
  have hordered := h.ordered
  rw [List.pairwise_map] at hordered
  exact hordered.imp Text.utf8_lt_utf8_iff.1

theorem append_lt_append_iff {l m : List Text} : d ++ l < d ++ m ↔ l < m := by
  induction d with
  | nil => rfl
  | cons n d ih =>
    rw [List.cons_append, List.cons_append, List.cons_lt_cons_iff, ih]
    simp

/-- All that is below an entry comes behind the entry and in front of what has a greater name. -/
theorem lt_of_lt {n m : Text} (h : n < m) (l r : List Text) : d ++ n :: l < d ++ m :: r :=
  append_lt_append_iff.2 (List.cons_lt_cons_iff.2 (.inl h))

theorem lt_append_of_ne_nil {l : List Text} (h : l ≠ []) : d < d ++ l := by
  obtain ⟨n, l, rfl⟩ := List.exists_cons_of_ne_nil h
  have hlt : d ++ [] < d ++ n :: l := append_lt_append_iff.2 (List.nil_lt_cons n l)
  rwa [List.append_nil] at hlt

/-- A walk comes to nothing twice, and to everything in the order of the locations. -/
theorem Walk.pairwise {names : List Text} {visited : List Location} (h : s.Walk d names visited)
    (hnames : ∀ n ∈ names, (s.entry? (d ++ [n])).isSome) (hordered : names.Pairwise (· < ·)) :
    visited.Pairwise (· < ·) := by
  induction h with
  | done => exact .nil
  | pass hn tail ih =>
    obtain ⟨hlt, hrest⟩ := List.pairwise_cons.1 hordered
    rw [List.forall_mem_cons] at hnames
    refine List.pairwise_cons.2 ⟨fun l hl => ?_, ih hnames.2 hrest⟩
    obtain ⟨m, hm, r, rfl, -⟩ := (tail.mem_iff_of_isSome hnames.2).1 hl
    exact lt_of_lt (hlt m hm) [] r
  | enter hn hinner head tail ihhead ihtail =>
    obtain ⟨hlt, hrest⟩ := List.pairwise_cons.1 hordered
    rw [List.forall_mem_cons] at hnames
    have hhead := ihhead (fun m hm => (hinner.mem_iff m).1 hm) hinner.pairwise
    refine List.pairwise_cons.2 ⟨fun l hl => ?_, List.pairwise_append.2 ⟨hhead, ihtail hnames.2 hrest, fun k hk l hl => ?_⟩⟩
    · rcases List.mem_append.1 hl with hl | hl
      · obtain ⟨r, rfl, hr⟩ := (head.mem_iff hinner).1 hl
        exact lt_append_of_ne_nil hr.ne_nil
      · obtain ⟨m, hm, r, rfl, -⟩ := (tail.mem_iff_of_isSome hnames.2).1 hl
        exact lt_of_lt (hlt m hm) [] r
    · obtain ⟨q, rfl, -⟩ := (head.mem_iff hinner).1 hk
      obtain ⟨m, hm, r, rfl, -⟩ := (tail.mem_iff_of_isSome hnames.2).1 hl
      rw [List.append_assoc, List.singleton_append]
      exact lt_of_lt (hlt m hm) q r

/-! ## That there is a walk -/

theorem exists_lists (s : Store) (d : Location) : ∃ names, s.Lists d names := by
  classical
  let all : Finset Text := (s.here ++ s.entries.flatMap Prod.fst).toFinset.filter fun n => (s.entry? (d ++ [n])).isSome
  refine ⟨all.sort (· ≤ ·), ?_, fun n => ?_⟩
  · rw [List.pairwise_map]
    exact (Finset.sortedLT_sort all).pairwise.imp Text.utf8_lt_utf8_iff.2
  · rw [Finset.mem_sort, Finset.mem_filter, and_iff_right_iff_imp, List.mem_toFinset, List.mem_append]
    intro hn
    obtain ⟨e, he⟩ := Option.isSome_iff_exists.1 hn
    rcases above_or_mem he with ⟨hp, -⟩ | hmem
    · exact .inl (hp.subset (by simp))
    · exact .inr (List.mem_flatMap.2 ⟨_, hmem, by simp⟩)

/-- Nothing is stored too deep. -/
theorem exists_forall_length_le (s : Store) : ∃ depth, ∀ l : Location, (s.entry? l).isSome → l.length ≤ depth := by
  refine ⟨s.here.length + (s.entries.map (·.1.length)).sum, fun l hl => ?_⟩
  obtain ⟨e, he⟩ := Option.isSome_iff_exists.1 hl
  rcases above_or_mem he with ⟨hp, -⟩ | hmem
  · exact Nat.le_add_right_of_le hp.length_le
  · exact Nat.le_add_left_of_le (List.le_sum_of_mem (List.mem_map.2 ⟨_, hmem, rfl⟩))

/-- The induction is on the number of levels below the directory, and at each level on the names. -/
theorem exists_walk_of_depth {depth : Nat} (hdepth : ∀ l : Location, (s.entry? l).isSome → l.length ≤ depth)
    (levels : Nat) (hd : depth ≤ d.length + levels) (names : List Text)
    (hnames : ∀ n ∈ names, (s.entry? (d ++ [n])).isSome) : ∃ visited, s.Walk d names visited := by
  induction levels generalizing d names with
  | zero =>
    cases names with
    | nil => exact ⟨[], .done⟩
    | cons n names =>
      have hlength := hdepth _ (hnames n List.mem_cons_self)
      rw [List.length_append, List.length_singleton] at hlength
      omega
  | succ levels ihlevels =>
    induction names with
    | nil => exact ⟨[], .done⟩
    | cons n names ihnames =>
      obtain ⟨rest, tail⟩ := ihnames (List.forall_mem_cons.1 hnames).2
      cases hn : s.isDirectory (d ++ [n]) with
      | false => exact ⟨_, .pass hn tail⟩
      | true =>
        obtain ⟨inner, hinner⟩ := s.exists_lists (d ++ [n])
        have hlevels : depth ≤ (d ++ [n]).length + levels := by
          rw [List.length_append, List.length_singleton]
          omega
        obtain ⟨below, head⟩ := ihlevels hlevels inner fun m hm => (hinner.mem_iff m).1 hm
        exact ⟨_, .enter hn hinner head tail⟩

/-- Every directory has a walk over all that is below it. -/
theorem exists_walk (s : Store) (d : Location) : ∃ names visited, s.Lists d names ∧ s.Walk d names visited := by
  obtain ⟨depth, hdepth⟩ := s.exists_forall_length_le
  obtain ⟨names, hnames⟩ := s.exists_lists d
  obtain ⟨visited, hwalk⟩ := exists_walk_of_depth hdepth depth (Nat.le_add_left depth d.length) names fun n hn =>
    (hnames.mem_iff n).1 hn
  exact ⟨names, visited, hnames, hwalk⟩

end Interpolation.Store

import Interpolation.Tree.Parse
import Interpolation.Proofs.Selection.Shape

/-!
# The matches of a tree, by its children

`Pattern.select` goes through all descendants of a tree. Here it is taken apart along the tree: what is found in a node
is what is found in its children in turn (`select_node`), each with the index of the child in front of its path, and what
is found in a child is the child itself, if it matches, and what is selected below it. Below an expression of the default
pattern nothing is selected (`select_eq_nil_of_interpolates`).
-/

namespace Interpolation

/-- A match in the child `i`, seen from its parent. -/
def Match.under (i : Nat) (m : Match) : Match := { m with path := i :: m.path }

namespace Pattern

variable (p : Pattern)

/-- The match of a tree itself. -/
def here? (t : Tree) : Option Match :=
  if t.kind?.isSome then ((p.match? t).bind Captures.ofBindings).map (⟨[], ·⟩) else none

/-- What is found in a tree: itself, and what is below it. -/
def found (t : Tree) : List Match := (p.here? t).toList ++ p.select t

/-- What is found in some trees, the first of which is the child `i`. -/
def foundFrom (i : Nat) : List Tree → List Match
  | [] => []
  | c :: cs => (p.found c).map (.under i) ++ foundFrom (i + 1) cs

@[simp] theorem select_leaf (t : Token) : p.select (.leaf t) = [] := rfl

@[simp] theorem found_leaf (t : Token) : p.found (.leaf t) = [] := rfl

variable {p} in
theorem path_of_here? {t : Tree} {m : Match} (h : p.here? t = some m) : m.path = [] := by
  unfold here? at h
  split at h
  · obtain ⟨c, _, rfl⟩ := Option.map_eq_some_iff.1 h
    rfl
  · simp at h

variable {p} in
theorem here?_eq_some_iff {t : Tree} {c : Captures} :
    p.here? t = some ⟨[], c⟩ ↔ t.kind?.isSome = true ∧ (p.match? t).bind Captures.ofBindings = some c := by
  unfold here?
  split
  · next hkind => simp only [Option.map_eq_some_iff, Match.mk.injEq, true_and, exists_eq_right, hkind]
  · next hkind => simp [hkind]

theorem select_eq (t : Tree) :
    p.select t = t.descendants.filterMap fun x => (p.here? x.2).map fun m => { m with path := x.1 } := by
  unfold select here?
  congr
  funext ⟨path, u⟩
  by_cases hk : u.kind?.isSome
  · simp only [hk, if_true, Option.map_map]
    rfl
  · simp [hk]

theorem select_node (k : NodeKind) (cs : List Tree) : p.select (.node k cs) = p.foundFrom 0 cs := by
  have key : ∀ (cs : List Tree) (i : Nat), ((Tree.descendantsFrom i cs).filterMap fun x =>
      (p.here? x.2).map fun m => { m with path := x.1 }) = p.foundFrom i cs := by
    intro cs
    induction cs with
    | nil => simp [Tree.descendantsFrom, foundFrom]
    | cons c cs ih =>
      intro i
      have hbelow : ((c.descendants.map fun x => (i :: x.1, x.2)).filterMap fun x =>
          (p.here? x.2).map fun m => { m with path := x.1 }) = (p.select c).map (.under i) := by
        rw [select_eq, List.filterMap_map, List.map_filterMap]
        simp [Function.comp_def, Match.under]
      have hself : ([([i], c)].filterMap fun x => (p.here? x.2).map fun m => { m with path := x.1 }) =
          (p.here? c).toList.map (.under i) := by
        cases hc : p.here? c with
        | none => simp [hc]
        | some m => simp [hc, Match.under, path_of_here? hc]
      rw [Tree.descendantsFrom, foundFrom, found, List.map_append, ← hbelow, ← hself, ← ih (i + 1),
        ← List.filterMap_append, ← List.filterMap_append]
      rfl
  rw [select_eq]
  exact key cs 0

theorem here?_interpolation_eq_some_iff {t : Tree} {m : Match} :
    interpolation.here? t = some m ↔ m.path = [] ∧ Interpolates t m.captures := by
  obtain ⟨path, c⟩ := m
  have hnode : Interpolates t c → t.kind?.isSome := by
    rintro (_ | _) <;> rfl
  unfold here?
  split
  · simp only [Option.map_eq_some_iff, captures_interpolation_iff, Match.mk.injEq]
    constructor
    · rintro ⟨d, hd, rfl, rfl⟩
      exact ⟨rfl, hd⟩
    · rintro ⟨rfl, hd⟩
      exact ⟨c, hd, rfl, rfl⟩
  · next hkind =>
    simp only [reduceCtorEq, false_iff, not_and]
    exact fun _ h => hkind (hnode h)

/-- Only a term is an expression. -/
theorem here?_interpolation_node {k : NodeKind} (hk : k ≠ .term) (cs : List Tree) :
    interpolation.here? (.node k cs) = none := by
  by_contra h
  obtain ⟨⟨path, c⟩, hm⟩ := Option.ne_none_iff_exists'.1 h
  obtain ⟨_, hshape⟩ := here?_interpolation_eq_some_iff.1 hm
  cases hshape <;> exact hk rfl

theorem found_interpolation_node {k : NodeKind} (hk : k ≠ .term) (cs : List Tree) :
    interpolation.found (.node k cs) = interpolation.foundFrom 0 cs := by
  simp [found, here?_interpolation_node hk, select_node]

variable {p} in
theorem exists_of_mem_foundFrom {m : Match} {i : Nat} {cs : List Tree} (h : m ∈ p.foundFrom i cs) :
    ∃ j c n, cs[j]? = some c ∧ n ∈ p.found c ∧ m = n.under (i + j) := by
  induction cs generalizing i with
  | nil => simp [foundFrom] at h
  | cons c cs ih =>
    rcases List.mem_append.1 h with h | h
    · obtain ⟨n, hn, rfl⟩ := List.mem_map.1 h
      exact ⟨0, c, n, rfl, hn, rfl⟩
    · obtain ⟨j, d, n, hd, hn, rfl⟩ := ih h
      exact ⟨j + 1, d, n, hd, hn, by rw [Nat.add_assoc, Nat.add_comm 1]⟩

variable {p} in
/-- What is found in a tree is a subtree that matches. -/
theorem here?_of_mem_found {t : Tree} {m : Match} (h : m ∈ p.found t) :
    ∃ e, t.subtree? m.path = some e ∧ p.here? e = some ⟨[], m.captures⟩ := by
  induction t generalizing m with
  | leaf u => simp at h
  | node k cs ih =>
    rcases List.mem_append.1 h with h | h
    · have hhere := Option.mem_toList.1 h
      have hpath := path_of_here? hhere
      exact ⟨_, by rw [hpath, Tree.subtree?_nil], by rw [← hpath]; exact hhere⟩
    · rw [select_node] at h
      obtain ⟨j, c, n, hc, hn, rfl⟩ := exists_of_mem_foundFrom h
      obtain ⟨e, he, hhere⟩ := ih c (List.mem_of_getElem? hc) hn
      refine ⟨e, ?_, hhere⟩
      show (Tree.node k cs).subtree? ((0 + j) :: n.path) = some e
      rw [Tree.subtree?_cons, Nat.zero_add]
      simpa [Tree.children, hc] using he

/-- What is found in a tree is an expression of it. -/
theorem interpolates_of_mem_found {t : Tree} {m : Match} (h : m ∈ interpolation.found t) :
    ∃ e, t.subtree? m.path = some e ∧ Interpolates e m.captures := by
  obtain ⟨e, he, hhere⟩ := here?_of_mem_found h
  exact ⟨e, he, (here?_interpolation_eq_some_iff.1 hhere).2⟩

theorem foundFrom_eq_nil {i : Nat} {cs : List Tree} (h : ∀ c ∈ cs, p.found c = []) : p.foundFrom i cs = [] := by
  induction cs generalizing i with
  | nil => rfl
  | cons c cs ih =>
    rw [List.forall_mem_cons] at h
    simp [foundFrom, h.1, ih h.2]

theorem exists_leaf_of_isNameList {ts : List Tree} (h : Tree.isNameList ts = true) : ∀ t ∈ ts, ∃ u, t = .leaf u := by
  fun_induction Tree.isNameList ts with
  | case1 => simp
  | case2 n =>
    obtain ⟨u, rfl, _⟩ := exists_leaf_of_isToken h
    simp
  | case3 n c rest ih =>
    simp only [Bool.and_eq_true, Bool.or_eq_true, List.isEmpty_iff] at h
    obtain ⟨⟨hname, hcomma⟩, hrest⟩ := h
    obtain ⟨u, rfl, _⟩ := exists_leaf_of_isToken hname
    obtain ⟨v, rfl, _⟩ := exists_leaf_of_isOperator hcomma
    rcases hrest with rfl | hrest
    · simp
    · simpa using ih hrest

/-- There is no expression within another. -/
theorem select_eq_nil_of_interpolates {t : Tree} {c : Captures} (h : Interpolates t c) : interpolation.select t = [] := by
  cases h with
  | name => simp [select_node, foundFrom]
  | tuple _ _ _ _ hlisted =>
    have hnames : interpolation.foundFrom 0 _ = [] := foundFrom_eq_nil interpolation fun n hn => by
      obtain ⟨u, rfl⟩ := exists_leaf_of_isNameList hlisted n hn
      rfl
    simp [select_node, foundFrom, found_interpolation_node, hnames]

theorem found_parse (source : Text) :
    interpolation.found (Tree.parse source) = interpolation.select (Tree.parse source) := by
  rw [Tree.parse, found_interpolation_node (by decide), select_node]

end Pattern

end Interpolation

import Interpolation.Proofs.Pattern.Derivation
import Interpolation.Proofs.Tree.Place

/-!
# What captures take

A capture binds paths. Here the captures of a match are written down by the siblings that they take, without any path, and
the paths that the matcher binds are seen to lead to these siblings.

* `Taken` — a capture that is made, by the stretch of siblings that the captured pattern matched;
* `Pattern.Traces` — a match with all its captures, the latest first;
* `Pattern.derives_iff_exists_traces` — the captures of a derivation are those, by their paths;
* `Tree.subtree?_place` — the path of a sibling that was taken leads to it;
* `Pattern.match?_binds` — what each name is bound to by a match of a single element.
-/

namespace Interpolation

/-- The siblings at the end of a route, which goes from some siblings to the children of one of them at every step. -/
def Tree.siblingsAt : List Tree → List Nat → List Tree
  | siblings, [] => siblings
  | siblings, i :: route => siblingsAt (siblings[i]?.elim [] Tree.children) route

/-- A capture that is made: the pattern `part`, captured under `name`, has matched the siblings from the index `first` up to
`stop`. The route leads to these siblings from those that are matched as a whole. -/
structure Taken where
  name : String
  part : Pattern
  route : List Nat
  first : Nat
  stop : Nat

namespace Taken

/-- A capture among the children of the sibling `i`, seen from that sibling. -/
def under (i : Nat) (taken : Taken) : Taken := { taken with route := i :: taken.route }

/-- The path of the sibling `k` of those taken, where the path of the sibling `i` at the start of the route is
`pathOf i`. -/
def pathFrom (pathOf : Nat → Path) (taken : Taken) (k : Nat) : Path :=
  match taken.route with
  | [] => pathOf k
  | i :: route => pathOf i ++ (route ++ [k])

/-- What is bound when the capture is made. -/
def binding (pathOf : Nat → Path) (taken : Taken) : String × Captured :=
  (taken.name, Pattern.captured (taken.pathFrom pathOf) taken.part taken.first taken.stop)

theorem pathFrom_under (pathOf : Nat → Path) (i : Nat) (taken : Taken) :
    (taken.under i).pathFrom pathOf = taken.pathFrom fun j => pathOf i ++ [j] := by
  funext k
  unfold pathFrom under
  cases taken.route with
  | nil => rfl
  | cons j route => simp

/-- A name is bound by its latest capture. -/
theorem lookup_map_binding (pathOf : Nat → Path) (log : List Taken) (name : String) :
    (log.map (binding pathOf)).lookup name = (log.find? (·.name = name)).map fun taken => (taken.binding pathOf).2 := by
  induction log with
  | nil => rfl
  | cons taken log ih =>
    rw [List.map_cons, binding, List.lookup_cons, List.find?_cons, ih]
    by_cases hname : taken.name = name
    · simp [hname, binding]
    · simp [hname, beq_eq_false_iff_ne.2 (Ne.symm hname)]

theorem binding_under (pathOf : Nat → Path) (i : Nat) (taken : Taken) :
    (taken.under i).binding pathOf = taken.binding fun j => pathOf i ++ [j] := by
  rw [binding, pathFrom_under]
  rfl

end Taken

/-! ## Matches with their captures -/

namespace Pattern

/-- The pattern matches the siblings from one index up to another, and makes some captures, the latest first. -/
inductive Traces : List Tree → Pattern → Nat → Nat → List Taken → Prop
  | leaf {siblings : List Tree} {kind : TokenKind} {text : Option Text} {i : Nat} {t : Token}
      (here : siblings[i]? = some (.leaf t)) (same : t.kind = kind) (spelled : ∀ u ∈ text, t.text = u) :
      Traces siblings (.leaf kind text) i (i + 1) []
  | node {siblings cs : List Tree} {kind : NodeKind} {parts : List Pattern} {i : Nat} {log : List Taken}
      (here : siblings[i]? = some (.node kind cs)) (children : Traces cs (.sequence parts) 0 cs.length log) :
      Traces siblings (.node kind parts) i (i + 1) (log.map (.under i))
  | sequenceNil {siblings : List Tree} {i : Nat} : Traces siblings (.sequence []) i i []
  | sequenceCons {siblings : List Tree} {p : Pattern} {ps : List Pattern} {i j k : Nat} {earlier later : List Taken}
      (first : Traces siblings p i j earlier) (others : Traces siblings (.sequence ps) j k later) :
      Traces siblings (.sequence (p :: ps)) i k (later ++ earlier)
  | repeatedNone {siblings : List Tree} {part : Pattern} {max : Option Nat} {i : Nat} :
      Traces siblings (.repeated part 0 max) i i []
  | repeatedMore {siblings : List Tree} {part : Pattern} {min : Nat} {max : Option Nat} {i j k : Nat}
      {earlier later : List Taken} (room : max ≠ some 0) (first : Traces siblings part i j earlier) (moves : i < j)
      (others : Traces siblings (.repeated part (min - 1) (max.map (· - 1))) j k later) :
      Traces siblings (.repeated part min max) i k (later ++ earlier)
  | anyOf {siblings : List Tree} {choices : List Pattern} {p : Pattern} {i j : Nat} {log : List Taken}
      (choice : p ∈ choices) (part : Traces siblings p i j log) : Traces siblings (.anyOf choices) i j log
  | capture {siblings : List Tree} {name : String} {p : Pattern} {i j : Nat} {log : List Taken}
      (part : Traces siblings p i j log) : Traces siblings (.capture name p) i j (⟨name, p, [], i, j⟩ :: log)

section Traces

variable {pathOf : Nat → Path} {siblings : List Tree} {p : Pattern} {i j : Nat} {b : Bindings} {log : List Taken}

theorem Traces.derives (h : Traces siblings p i j log) (pathOf : Nat → Path) :
    Derives pathOf siblings p i j (log.map (Taken.binding pathOf)) := by
  induction h generalizing pathOf with
  | leaf here same spelled => exact .leaf here same spelled
  | @node _ _ _ _ i _ here _ ih =>
    have hchildren := ih fun j => pathOf i ++ [j]
    rw [List.map_map, Function.comp_def]
    simp only [Taken.binding_under]
    exact .node here hchildren
  | sequenceNil => exact .sequenceNil
  | sequenceCons _ _ ihfirst ihothers =>
    rw [List.map_append]
    exact .sequenceCons (ihfirst pathOf) (ihothers pathOf)
  | repeatedNone => exact .repeatedNone
  | repeatedMore room _ moves _ ihfirst ihothers =>
    rw [List.map_append]
    exact .repeatedMore room (ihfirst pathOf) moves (ihothers pathOf)
  | anyOf choice _ ih => exact .anyOf choice (ih pathOf)
  | capture _ ih => exact .capture (ih pathOf)

/-- Every derivation is a match with its captures. -/
theorem Derives.exists_traces (h : Derives pathOf siblings p i j b) :
    ∃ log, Traces siblings p i j log ∧ b = log.map (Taken.binding pathOf) := by
  induction h with
  | leaf here same spelled => exact ⟨[], .leaf here same spelled, rfl⟩
  | @node pathOf _ _ _ _ i _ here _ ih =>
    obtain ⟨log, hlog, rfl⟩ := ih
    refine ⟨_, .node here hlog, ?_⟩
    rw [List.map_map]
    exact List.map_congr_left fun taken _ => (Taken.binding_under pathOf i taken).symm
  | sequenceNil => exact ⟨[], .sequenceNil, rfl⟩
  | sequenceCons _ _ ihfirst ihothers =>
    obtain ⟨earlier, hearlier, rfl⟩ := ihfirst
    obtain ⟨later, hlater, rfl⟩ := ihothers
    exact ⟨_, .sequenceCons hearlier hlater, List.map_append.symm⟩
  | repeatedNone => exact ⟨[], .repeatedNone, rfl⟩
  | repeatedMore room _ moves _ ihfirst ihothers =>
    obtain ⟨earlier, hearlier, rfl⟩ := ihfirst
    obtain ⟨later, hlater, rfl⟩ := ihothers
    exact ⟨_, .repeatedMore room hearlier moves hlater, List.map_append.symm⟩
  | anyOf choice _ ih =>
    obtain ⟨log, hlog, rfl⟩ := ih
    exact ⟨log, .anyOf choice hlog, rfl⟩
  | capture _ ih =>
    obtain ⟨log, hlog, rfl⟩ := ih
    exact ⟨_, .capture hlog, rfl⟩

/-- The captured pattern matched what was taken. -/
theorem Traces.exists_traces (h : Traces siblings p i j log) {taken : Taken} (htaken : taken ∈ log) :
    ∃ within, Traces (Tree.siblingsAt siblings taken.route) taken.part taken.first taken.stop within := by
  induction h generalizing taken with
  | leaf | sequenceNil | repeatedNone => simp at htaken
  | @node _ _ _ _ i _ here _ ih =>
    obtain ⟨inner, hinner, rfl⟩ := List.mem_map.1 htaken
    obtain ⟨within, hwithin⟩ := ih hinner
    refine ⟨within, ?_⟩
    rw [Taken.under, Tree.siblingsAt, here]
    exact hwithin
  | sequenceCons _ _ ihfirst ihothers =>
    rcases List.mem_append.1 htaken with htaken | htaken
    · exact ihothers htaken
    · exact ihfirst htaken
  | repeatedMore _ _ _ _ ihfirst ihothers =>
    rcases List.mem_append.1 htaken with htaken | htaken
    · exact ihothers htaken
    · exact ihfirst htaken
  | anyOf _ _ ih => exact ih htaken
  | capture part ih =>
    rcases List.mem_cons.1 htaken with rfl | htaken
    · exact ⟨_, part⟩
    · exact ih htaken

end Traces

end Pattern

/-! ## Where the paths lead -/

namespace Taken

/-- The siblings of which some were taken, in a match of the element `t` alone. -/
def siblings (t : Tree) (taken : Taken) : List Tree := Tree.siblingsAt [t] taken.route

/-- The path of the sibling `k` from the element that is matched, which has the empty path. -/
def place (taken : Taken) (k : Nat) : Path := taken.pathFrom (fun _ => []) k

/-- What a capture binds in a match of the element `t`: a run is bound to the paths of all siblings that were taken, in
their order and without gaps, and each path leads to its sibling; any other pattern is bound to the path of the first
sibling, which leads there if there is one. -/
inductive Binds (t : Tree) (taken : Taken) : Captured → Prop
  | run {paths : List Path} (run : taken.part.isRun = true) (length : paths.length = taken.stop - taken.first)
      (leads : ∀ m < taken.stop - taken.first, ∃ s, (taken.siblings t)[taken.first + m]? = some s ∧
        paths[m]? = some (taken.place (taken.first + m)) ∧ t.subtree? (taken.place (taken.first + m)) = some s) :
      Binds t taken (.sequence paths)
  | single (single : taken.part.isRun = false) (leads : taken.first < taken.stop →
        ∃ s, (taken.siblings t)[taken.first]? = some s ∧ t.subtree? (taken.place taken.first) = some s) :
      Binds t taken (.single (taken.place taken.first))

end Taken

namespace Tree

@[simp] theorem siblingsAt_nil (route : List Nat) : siblingsAt [] route = [] := by
  induction route with
  | nil => rfl
  | cons i route ih => exact ih

theorem getElem?_siblingsAt_children (t : Tree) (route : List Nat) (k : Nat) :
    (siblingsAt t.children route)[k]? = t.subtree? (route ++ [k]) := by
  induction route generalizing t with
  | nil => simp [siblingsAt]
  | cons i route ih =>
    rw [siblingsAt, List.cons_append, subtree?_cons]
    cases t.children[i]? with
    | none => simp
    | some c => exact ih c

/-- The path of a sibling that is there leads to it. -/
theorem subtree?_place {t s : Tree} {taken : Taken} {k : Nat} (h : (taken.siblings t)[k]? = some s) :
    t.subtree? (taken.place k) = some s := by
  unfold Taken.siblings at h
  unfold Taken.place Taken.pathFrom
  cases hroute : taken.route with
  | nil =>
    -- The element itself is the only sibling.
    rw [hroute, siblingsAt] at h
    obtain ⟨hk, rfl⟩ := List.getElem?_eq_some_iff.1 h
    obtain rfl : k = 0 := by simpa using hk
    simp
  | cons i route =>
    rw [hroute, siblingsAt] at h
    cases i with
    | zero =>
      show t.subtree? (route ++ [k]) = some s
      rw [← getElem?_siblingsAt_children]
      exact h
    | succ i => simp at h

end Tree

namespace Pattern

/-- What was taken in a match of the element `t` alone is bound by the capture. -/
theorem Traces.binds {t : Tree} {p : Pattern} {i j : Nat} {log : List Taken} (h : Traces [t] p i j log) {taken : Taken}
    (htaken : taken ∈ log) : taken.Binds t (taken.binding fun _ => []).2 := by
  obtain ⟨within, hwithin⟩ := h.exists_traces htaken
  have hstop := (hwithin.derives taken.place).le_length
  -- Every sibling that was taken is there.
  have hthere (k : Nat) (hfirst : taken.first ≤ k) (hk : k < taken.stop) :
      ∃ s, (taken.siblings t)[k]? = some s ∧ t.subtree? (taken.place k) = some s := by
    have hlength : k < (taken.siblings t).length := by
      have := hstop (by omega)
      exact Nat.lt_of_lt_of_le hk this
    have hs := List.getElem?_eq_getElem hlength
    exact ⟨_, hs, Tree.subtree?_place hs⟩
  unfold Taken.binding captured
  split
  · next hrun =>
    refine .run hrun (by simp) fun m hm => ?_
    obtain ⟨s, hs, hleads⟩ := hthere (taken.first + m) (by omega) (by omega)
    refine ⟨s, hs, ?_, hleads⟩
    rw [List.getElem?_map, List.getElem?_range' hm, Nat.one_mul]
    rfl
  · next hrun =>
    exact .single (by simpa using hrun) fun hsome => hthere taken.first (Nat.le_refl _) hsome

/-- In the captures of a match of a single element every name is bound to what its latest capture took, by the paths of
the siblings that the captured pattern matched there. -/
theorem match?_binds {p : Pattern} {t : Tree} {b : Bindings} (h : p.match? t = some b) :
    ∃ log, Traces [t] p 0 1 log ∧
      (∀ taken ∈ log, ∃ within, Traces (taken.siblings t) taken.part taken.first taken.stop within) ∧
      ∀ name, Option.Rel (fun taken bound => taken.Binds t bound) (log.find? (·.name = name)) (b.lookup name) := by
  obtain ⟨log, hlog, rfl⟩ := (derives_of_match? h).exists_traces
  refine ⟨log, hlog, fun taken => hlog.exists_traces, fun name => ?_⟩
  rw [Taken.lookup_map_binding]
  cases hfind : log.find? (·.name = name) with
  | none => exact .none
  | some taken => exact .some (hlog.binds (List.mem_of_find?_eq_some hfind))

/-- Names with commas behind them, and a last name: the run is bound to the paths of all its siblings, and the last name to
its own. -/
theorem match?_binds_pairs :
    let name (c : Char) : Tree := .leaf ⟨.name, [], [c]⟩
    let comma : Tree := .leaf ⟨.operator, [], [',']⟩
    let list := Tree.node .exprList [name 'a', comma, name 'b', comma, name 'c']
    let pairs := node .exprList
      [capture "head" (repeated (sequence [token .name, operator [',']]) 0 none), capture "last" (token .name)]
    let b := [("last", Captured.single [4]), ("head", .sequence [[0], [1], [2], [3]])]
    pairs.match? list = some b ∧ ∃ log, Traces [list] pairs 0 1 log ∧
      (∀ taken ∈ log, ∃ within, Traces (taken.siblings list) taken.part taken.first taken.stop within) ∧
      ∀ name, Option.Rel (fun taken bound => taken.Binds list bound) (log.find? (·.name = name)) (b.lookup name) := by
  intro name comma list pairs b
  have hmatch : pairs.match? list = some b := by decide +kernel
  exact ⟨hmatch, match?_binds hmatch⟩

end Pattern

end Interpolation

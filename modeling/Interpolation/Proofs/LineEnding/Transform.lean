import Interpolation.Transform
import Interpolation.Proofs.LineEnding.Tree
import Interpolation.Proofs.Placeholder.Fill
import Interpolation.Proofs.Selection.Matches

/-!
# A transformation with either line ending

* `Pattern.select_withReturns` — the same expressions are selected;
* `Tree.interpolate_withReturns` — an expression becomes the same literal, with returns;
* `Pattern.transform_withReturns` — the transformation of a source has the same counts with either line ending, and the
  same output, with returns.

For the last, no string of the source between single marks may go over several lines. Such a string is one with line
feeds, but not with returns in front of them: `Pattern.interpolated_joined_string`.
-/

namespace Interpolation

open Pattern (interpolation)

/-! ## Selection -/

namespace Tree

theorem withReturns_eq_leaf_iff {t : Tree} {u : Token} :
    t.withReturns = .leaf u ↔ ∃ v, t = .leaf v ∧ v.withReturns = u := by
  cases t <;> simp

theorem withReturns_eq_node_iff {t : Tree} {k : NodeKind} {cs : List Tree} :
    t.withReturns = .node k cs ↔ ∃ ds, t = .node k ds ∧ ds.map withReturns = cs := by
  cases t with
  | leaf v => simp
  | node l ds =>
    constructor
    · intro h
      obtain ⟨rfl, hds⟩ : l = k ∧ ds.map withReturns = cs := by simpa using h
      exact ⟨ds, rfl, hds⟩
    · rintro ⟨_, ⟨⟩, rfl⟩
      exact withReturns_node _ _

theorem isNameList_withReturns (ts : List Tree) : isNameList (ts.map withReturns) = isNameList ts := by
  fun_induction isNameList ts with
  | case1 => rfl
  | case2 n => simp [isNameList]
  | case3 n c rest ih => simp [isNameList, isOperator_withReturns, ih]

end Tree

theorem interpolates_withReturns_iff {t : Tree} {c : Captures} : Interpolates t.withReturns c ↔ Interpolates t c := by
  constructor
  · intro h
    generalize ht : t.withReturns = u at h
    cases h with
    | name string percent name =>
      simp only [Tree.withReturns_eq_node_iff, List.map_eq_cons_iff, List.map_eq_nil_iff,
        Tree.withReturns_eq_leaf_iff] at ht
      obtain ⟨_, rfl, _, _, rfl, ⟨s, rfl, rfl⟩, _, _, rfl, ⟨op, rfl, rfl⟩, _, _, rfl, ⟨n, rfl, rfl⟩, rfl⟩ := ht
      rw [Token.isOperator_withReturns (by decide)] at percent
      exact .name (by simpa using string) percent (by simpa using name)
    | tuple string percent opens closes listed =>
      simp only [Tree.withReturns_eq_node_iff, List.map_eq_cons_iff, List.map_eq_nil_iff,
        Tree.withReturns_eq_leaf_iff] at ht
      obtain ⟨_, rfl, _, _, rfl, ⟨s, rfl, rfl⟩, _, _, rfl, ⟨op, rfl, rfl⟩, _, _, rfl, ⟨_, rfl,
        _, _, rfl, ⟨opening, rfl, rfl⟩, _, _, rfl, ⟨names, rfl, rfl⟩, _, _, rfl, ⟨closing, rfl, rfl⟩, rfl⟩, rfl⟩ := ht
      rw [Token.isOperator_withReturns (by decide)] at percent opens closes
      rw [Tree.isNameList_withReturns] at listed
      rw [List.length_map]
      exact .tuple (by simpa using string) percent opens closes listed
  · intro h
    cases h with
    | name string percent name =>
      simp only [Tree.withReturns_node, List.map_cons, Tree.withReturns_leaf, List.map_nil]
      exact .name (by simpa) (by rwa [Token.isOperator_withReturns (by decide)]) (by simpa)
    | @tuple s op opening closing names string percent opens closes listed =>
      simp only [Tree.withReturns_node, List.map_cons, Tree.withReturns_leaf, List.map_nil]
      rw [← List.length_map (f := Tree.withReturns)]
      exact .tuple (by simpa) (by rwa [Token.isOperator_withReturns (by decide)])
        (by rwa [Token.isOperator_withReturns (by decide)]) (by rwa [Token.isOperator_withReturns (by decide)])
        (by rwa [Tree.isNameList_withReturns])

namespace Pattern

theorem here?_withReturns (t : Tree) : interpolation.here? t.withReturns = interpolation.here? t := by
  ext m
  simp only [here?_interpolation_eq_some_iff, interpolates_withReturns_iff]

theorem foundFrom_withReturns {cs : List Tree} (h : ∀ c ∈ cs, interpolation.found c.withReturns = interpolation.found c)
    (i : Nat) : interpolation.foundFrom i (cs.map Tree.withReturns) = interpolation.foundFrom i cs := by
  induction cs generalizing i with
  | nil => rfl
  | cons c cs ih =>
    obtain ⟨hc, hcs⟩ := List.forall_mem_cons.1 h
    rw [List.map_cons, foundFrom, foundFrom, hc, ih hcs]

theorem found_withReturns (t : Tree) : interpolation.found t.withReturns = interpolation.found t := by
  induction t with
  | leaf u => rfl
  | node k cs ih =>
    have hhere := here?_withReturns (.node k cs)
    rw [Tree.withReturns_node] at hhere ⊢
    rw [found, found, hhere, select_node, select_node, foundFrom_withReturns ih]

/-- The same expressions are selected with either line ending. -/
theorem select_withReturns (t : Tree) : interpolation.select t.withReturns = interpolation.select t := by
  cases t with
  | leaf u => rfl
  | node k cs =>
    rw [Tree.withReturns_node, select_node, select_node, foundFrom_withReturns fun c _ => found_withReturns c]

end Pattern

/-! ## Placeholders -/

namespace Piece

/-- A piece with a carriage return in front of a line feed. -/
def withReturns : Piece → List Piece
  | .plain c => if c = '\n' then [.plain '\r', .plain '\n'] else [.plain c]
  | .hole c => [.hole c]

theorem ofText_withReturns (behindPercent : Bool) (s : Text) :
    ofText behindPercent s.withReturns = (ofText behindPercent s).flatMap withReturns := by
  fun_induction ofText behindPercent s with
  | case1 => rfl
  | case2 behindPercent c =>
    by_cases hc : c = '\n'
    · subst hc
      rfl
    · simp [Text.withReturns_cons hc, ofText, withReturns, hc]
  | case3 behindPercent c d s h ih =>
    obtain ⟨⟨rfl, hd⟩, rfl⟩ : (c = '%' ∧ isConversion d = true) ∧ behindPercent = false := by simpa using h
    have hd' : d ≠ '\n' := by
      rintro rfl
      exact absurd hd (by decide)
    rw [Text.withReturns_cons (by decide), Text.withReturns_cons hd', ofText, if_pos h, ih]
    rfl
  | case4 behindPercent c d s h ih =>
    by_cases hc : c = '\n'
    · subst hc
      rw [Text.withReturns_newline, ofText_plain (by simp), ofText_plain (by simp)]
      exact congrArg (Piece.plain '\r' :: Piece.plain '\n' :: ·) ih
    · rw [Text.withReturns_cons hc, ofText_plain, ih]
      · simp [withReturns, hc]
      · intro e he
        by_cases hd : d = '\n'
        · subst hd
          obtain rfl : '\r' = e := by simpa using he
          simp [isConversion]
        · rw [Text.withReturns_cons hd, List.head?_cons, Option.mem_some_iff] at he
          exact he ▸ by simpa using h

theorem holes_withReturns (ps : List Piece) : holes (ps.flatMap withReturns) = holes ps := by
  induction ps with
  | nil => rfl
  | cons p ps ih =>
    unfold holes at ih ⊢
    rw [List.flatMap_cons, List.countP_append, ih, List.countP_cons, Nat.add_comm]
    cases p with
    | plain c => by_cases hc : c = '\n' <;> simp [withReturns, hc]
    | hole c => simp [withReturns]

theorem fill_withReturns (consumed : Nat) (ps : List Piece) (as : List Text) :
    fill consumed (ps.flatMap withReturns) (as.map Text.withReturns) = (fill consumed ps as).map Text.withReturns := by
  fun_induction fill consumed ps as with
  | case1 => rfl
  | case2 => simp [fill, Except.map]
  | case3 consumed c ps as ih =>
    by_cases hc : c = '\n'
    · subst hc
      show ((fill consumed (ps.flatMap withReturns) (as.map Text.withReturns)).map _).map _ = _
      rw [ih]
      cases fill consumed ps as <;> rfl
    · rw [List.flatMap_cons, withReturns, if_neg hc, List.singleton_append, fill, ih]
      cases fill consumed ps as <;> simp [Except.map, Text.withReturns_cons hc]
  | case4 consumed c ps => rfl
  | case5 consumed c ps a as ih =>
    show (fill (consumed + 1) (ps.flatMap withReturns) (as.map Text.withReturns)).map _ = _
    rw [ih]
    cases fill (consumed + 1) ps as <;> simp [Except.map, Text.withReturns_cons]

end Piece

theorem placeholderCount_withReturns (t : Text) : placeholderCount t.withReturns = placeholderCount t := by
  rw [placeholderCount, Piece.ofText_withReturns, Piece.holes_withReturns, placeholderCount]

theorem substitute_withReturns (t : Text) (arguments : List Text) :
    substitute t.withReturns (arguments.map Text.withReturns) = (substitute t arguments).map Text.withReturns := by
  rw [substitute, Piece.ofText_withReturns, Piece.fill_withReturns, substitute]

theorem markInterpolated_withReturns (t : Text) :
    markInterpolated t.withReturns = (markInterpolated t).withReturns := by
  have hhead : t.withReturns.head? = some 'f' ↔ t.head? = some 'f' := by
    cases t with
    | nil => rfl
    | cons c t =>
      by_cases hc : c = '\n'
      · simp [hc]
      · rw [Text.withReturns_cons hc, List.head?_cons, List.head?_cons]
  unfold markInterpolated
  by_cases h : t.head? = some 'f'
  · rw [if_pos h, if_pos (hhead.2 h)]
  · rw [if_neg h, if_neg (mt hhead.1 h), Text.withReturns_cons (by decide)]

/-! ## One expression -/

/-- An outcome with returns in the literal. -/
def Outcome.withReturns : Outcome → Outcome
  | .interpolated literal => .interpolated literal.withReturns
  | o => o

namespace Tree

theorem subtree?_withReturns (t : Tree) (p : Path) : t.withReturns.subtree? p = (t.subtree? p).map withReturns := by
  induction p generalizing t with
  | nil => simp
  | cons i p ih =>
    cases t with
    | leaf u => simp [children]
    | node k cs =>
      simp only [withReturns_node, subtree?_cons, children, List.getElem?_map]
      cases cs[i]? with
      | none => rfl
      | some c => exact ih c

theorem tokenAt?_withReturns (t : Tree) (p : Path) :
    t.withReturns.tokenAt? p = (t.tokenAt? p).map Token.withReturns := by
  unfold tokenAt? below?
  split
  · rfl
  · rw [subtree?_withReturns]
    cases t.subtree? p with
    | none => rfl
    | some s => cases s <;> simp [token?]

theorem nodeAt?_withReturns (t : Tree) (p : Path) : t.withReturns.nodeAt? p = (t.nodeAt? p).map withReturns := by
  unfold nodeAt?
  rw [subtree?_withReturns]
  cases t.subtree? p with
  | none => rfl
  | some s => cases s <;> simp [Option.filter_some, kind?]

/-- A change that is the same with either line ending, made at any place. -/
theorem update_withReturns {f g : Tree → Tree} (h : ∀ s, f s.withReturns = (g s).withReturns) (t : Tree) (p : Path) :
    t.withReturns.update f p = (t.update g p).withReturns := by
  induction p generalizing t with
  | nil => simp [h]
  | cons i p ih =>
    cases t with
    | leaf u => simp
    | node k cs =>
      rw [withReturns_node, update_node_cons, update_node_cons, withReturns_node]
      congr 1
      refine List.ext_getElem? fun j => ?_
      simp only [List.getElem?_modify, List.getElem?_map]
      cases cs[j]? with
      | none => rfl
      | some c => by_cases hj : i = j <;> simp [hj, ih]

theorem replaceBy_withReturns (t : Tree) (p : Path) (literal : Text) :
    t.withReturns.replaceBy p literal.withReturns = (t.replaceBy p literal).withReturns := by
  have htext : t.withReturns.setText p literal.withReturns = (t.setText p literal).withReturns := by
    refine update_withReturns (fun s => ?_) t p
    cases s <;> simp [withText, Token.withReturns]
  rw [replaceBy, htext, replaceBy]
  cases t.setText p literal <;> simp [takeChildren, List.map_take]

theorem argumentNames_withReturns (t : Tree) (c : Captured) :
    t.withReturns.argumentNames c = (t.argumentNames c).map (List.map Text.withReturns) := by
  cases c with
  | single p =>
    simp only [argumentNames, tokenAt?_withReturns]
    cases t.tokenAt? p <;> rfl
  | sequence ps =>
    simp only [argumentNames, Option.map_some, Option.some.injEq, List.map_map]
    induction ps with
    | nil => rfl
    | cons p ps ih =>
      simp only [List.filterMap_cons, tokenAt?_withReturns] at ih ⊢
      cases t.tokenAt? p with
      | none => exact ih
      | some u => by_cases hu : u.kind = .name <;> simp_all

/-- An expression becomes the same literal with either line ending. -/
theorem interpolate_withReturns (t : Tree) (c : Captures) :
    t.withReturns.interpolate c = ((t.interpolate c).1.withReturns, (t.interpolate c).2.withReturns) := by
  unfold interpolate
  rw [argumentNames_withReturns, tokenAt?_withReturns]
  cases t.argumentNames c.arguments with
  | none => rfl
  | some arguments =>
    cases t.tokenAt? c.formatString with
    | none => rfl
    | some literal =>
      simp only [Option.map_some, Token.withReturns_text, placeholderCount_withReturns, List.length_map,
        substitute_withReturns]
      split
      · rfl
      · cases substitute literal.text arguments with
        | error e => rfl
        | ok text => simp [Except.map, markInterpolated_withReturns, replaceBy_withReturns, Outcome.withReturns]

end Tree

/-! ## All expressions -/

namespace Attempt

/-- An attempt with returns in the expression and in the outcome. -/
def withReturns (a : Attempt) : Attempt :=
  { a with visited := a.visited.map fun (t, o) => (t.withReturns, o.withReturns) }

theorem isInterpolated_withReturns (a : Attempt) : a.withReturns.isInterpolated = a.isInterpolated := by
  obtain ⟨m, _ | ⟨e, _ | _ | _⟩⟩ := a <;> rfl

theorem isSkipped_withReturns (a : Attempt) : a.withReturns.isSkipped = a.isSkipped := by
  obtain ⟨m, _ | ⟨e, _ | _ | _⟩⟩ := a <;> rfl

end Attempt

namespace Tree

theorem interpolateAt_withReturns (t : Tree) (m : Match) : t.withReturns.interpolateAt m =
    ((t.interpolateAt m).1.withReturns, (t.interpolateAt m).2.withReturns) := by
  unfold interpolateAt
  rw [nodeAt?_withReturns]
  cases t.nodeAt? m.path with
  | none => rfl
  | some e =>
    have hupdate : t.withReturns.update (fun s => (s.interpolate m.captures).2) m.path =
        (t.update (fun s => (s.interpolate m.captures).2) m.path).withReturns :=
      update_withReturns (fun s => by rw [interpolate_withReturns]) t m.path
    simp only [Option.map_some, hupdate, interpolate_withReturns, Attempt.withReturns]

theorem interpolateAll_withReturns (t : Tree) (ms : List Match) : t.withReturns.interpolateAll ms =
    ((t.interpolateAll ms).1.map Attempt.withReturns, (t.interpolateAll ms).2.withReturns) := by
  induction ms generalizing t with
  | nil => rfl
  | cons m ms ih => simp only [interpolateAll, interpolateAt_withReturns, ih, List.map_cons]

end Tree

namespace Pattern

/-- Unless a string between single marks goes over several lines, the line ending of a source does not matter: as many
expressions are interpolated and skipped, and the output is the same with returns. -/
theorem transform_withReturns (source : Text) (hreturn : '\r' ∉ source)
    (hjoined : ∀ t ∈ Token.scan source, t.isJoined = false) :
    (interpolation.transform source.withReturns).interpolated = (interpolation.transform source).interpolated ∧
    (interpolation.transform source.withReturns).skipped = (interpolation.transform source).skipped ∧
    (interpolation.transform source.withReturns).output = (interpolation.transform source).output.withReturns := by
  have hparse := Tree.parse_withReturns hreturn hjoined
  have htransform : interpolation.transform source.withReturns =
      ⟨(Tree.parse source).withReturns, (interpolation.transform source).attempts.map Attempt.withReturns,
        (interpolation.transform source).final.withReturns⟩ := by
    simp only [transform, hparse, select_withReturns, Tree.interpolateAll_withReturns]
  rw [htransform]
  refine ⟨?_, ?_, ?_⟩
  · rw [Transformation.interpolated, List.countP_map]
    exact List.countP_congr fun a _ => by simp [Attempt.isInterpolated_withReturns]
  · rw [Transformation.skipped, List.countP_map]
    exact List.countP_congr fun a _ => by simp [Attempt.isSkipped_withReturns]
  · exact Tree.render_withReturns _

/-- A string between three marks goes over two lines, and a backslash joins two lines outside of all strings. -/
theorem transform_withReturns_triple :
    let source : Text := "x = '''a\n%s''' \\\n % y\n".toList
    '\r' ∉ source ∧ (∀ t ∈ Token.scan source, t.isJoined = false) ∧
    (interpolation.transform source.withReturns).interpolated = (interpolation.transform source).interpolated ∧
    (interpolation.transform source.withReturns).skipped = (interpolation.transform source).skipped ∧
    (interpolation.transform source.withReturns).output = (interpolation.transform source).output.withReturns := by
  intro source
  have hreturn : '\r' ∉ source := by decide
  have hjoined : ∀ t ∈ Token.scan source, t.isJoined = false := by decide +kernel
  exact ⟨hreturn, hjoined, transform_withReturns source hreturn hjoined⟩

/-- A string between single marks that goes over two lines is no string with a return in front of the line feed, so
that the expression it is in is not found. -/
theorem interpolated_joined_string :
    let source : Text := "'\\\n%s' % x".toList
    '\r' ∉ source ∧
    (interpolation.transform source).interpolated = 1 ∧
    (interpolation.transform source.withReturns).interpolated = 0 := by
  decide +kernel

end Pattern

end Interpolation

import Interpolation.Outcome
import Interpolation.Proofs.Placeholder.Places
import Interpolation.Proofs.Tree.Label
import Interpolation.Tree.Parse

/-!
# What becomes of one expression

Whatever is captured of an expression, and wherever the captures lead, the expression is left as it is, or its format
string becomes a literal and the children behind the one with the literal are dropped.

* `Tree.Resolves` — the format string and the arguments that the captures lead to;
* `Tree.interpolate_cases` — the ways in which it can go;
* `Tree.Shortened` — an expression and what is left of it, path by path;
* `Tree.interpolate_skipped_or_interpolated` — when it goes which way, and what is left of the expression;
* `Tree.interpolate_unresolved_iff` — when a capture counts as one that leads nowhere. A path in a run of arguments never
  does: where it leads to no name it is passed over (`Tree.interpolate_run_with_gap`).
-/

namespace Interpolation

namespace Tree

/-! ## Captures -/

/-- The texts of the arguments: that of the token of a single capture, of whatever kind, and those of the names that the
paths of a run lead to. -/
inductive Arguments (e : Tree) : Captured → List Text → Prop
  | single {p : Path} {t : Token} (token : e.tokenAt? p = some t) : Arguments e (.single p) [t.text]
  | sequence (ps : List Path) :
      Arguments e (.sequence ps) (((ps.filterMap e.tokenAt?).filter (·.kind = .name)).map (·.text))

/-- The captures of an expression lead to the format string `s` and to these arguments. -/
structure Resolves (e : Tree) (c : Captures) (s : Token) (arguments : List Text) : Prop where
  formatString : e.tokenAt? c.formatString = some s
  arguments : e.Arguments c.arguments arguments

variable {e : Tree} {c : Captures} {s : Token} {arguments : List Text}

theorem argumentNames_eq_some_iff {a : Captured} : e.argumentNames a = some arguments ↔ e.Arguments a arguments := by
  constructor
  · intro h
    cases a with
    | single p =>
      obtain ⟨t, ht, rfl⟩ := Option.map_eq_some_iff.1 h
      exact .single ht
    | sequence ps =>
      obtain rfl := Option.some.inj h
      exact .sequence ps
  · rintro (⟨ht⟩ | ps)
    · rw [argumentNames, ht, Option.map_some]
    · rfl

/-- Captures lead to one format string and to one list of arguments at most. -/
theorem Resolves.exists_iff (h : e.Resolves c s arguments) {P : Token → List Text → Prop} :
    (∃ s arguments, e.Resolves c s arguments ∧ P s arguments) ↔ P s arguments := by
  constructor
  · rintro ⟨s', arguments', h', hP⟩
    obtain rfl := Option.some.inj (h.formatString.symm.trans h'.formatString)
    have harguments := argumentNames_eq_some_iff.2 h.arguments
    rw [argumentNames_eq_some_iff.2 h'.arguments] at harguments
    exact Option.some.inj harguments ▸ hP
  · exact fun hP => ⟨s, arguments, h, hP⟩

/-- All that can become of an expression: a capture leads nowhere, the numbers differ, or a literal is made. -/
theorem interpolate_cases (e : Tree) (c : Captures) :
    (¬∃ s arguments, e.Resolves c s arguments) ∧ e.interpolate c = (.skipped .unresolvedCapture, e) ∨
    ∃ s arguments, e.Resolves c s arguments ∧
      (placeholderCount s.text ≠ arguments.length ∧
          e.interpolate c = (.skipped (.countMismatch (placeholderCount s.text) arguments.length), e) ∨
        placeholderCount s.text = arguments.length ∧ ∃ text, substitute s.text arguments = .ok text ∧
          e.interpolate c =
            (.interpolated (markInterpolated text), e.replaceBy c.formatString (markInterpolated text))) := by
  unfold interpolate
  cases harguments : e.argumentNames c.arguments with
  | none =>
    refine .inl ⟨?_, rfl⟩
    rintro ⟨s, arguments, h⟩
    rw [argumentNames_eq_some_iff.2 h.arguments] at harguments
    cases harguments
  | some arguments =>
    cases hs : e.tokenAt? c.formatString with
    | none =>
      refine .inl ⟨?_, rfl⟩
      rintro ⟨s, arguments, h⟩
      cases hs.symm.trans h.formatString
    | some s =>
      refine .inr ⟨s, arguments, ⟨hs, argumentNames_eq_some_iff.1 harguments⟩, ?_⟩
      by_cases hcount : placeholderCount s.text = arguments.length
      · obtain ⟨text, htext⟩ := exists_substitute_eq_ok hcount
        refine .inr ⟨hcount, text, htext, ?_⟩
        simp only [hcount, htext, ne_eq, not_true_eq_false, if_false]
      · exact .inl ⟨hcount, if_pos hcount⟩

/-- An expression becomes a literal, or it is skipped and left as it is. -/
theorem interpolate_eq (e : Tree) (c : Captures) :
    (∃ literal, e.interpolate c = (.interpolated literal, e.replaceBy c.formatString literal)) ∨
      ∃ reason, e.interpolate c = (.skipped reason, e) := by
  rcases interpolate_cases e c with ⟨_, heq⟩ | ⟨_, _, _, ⟨_, heq⟩ | ⟨_, _, _, heq⟩⟩
  · exact .inr ⟨_, heq⟩
  · exact .inr ⟨_, heq⟩
  · exact .inl ⟨_, heq⟩

/-! ## The expression after it -/

/-- Where the format string is the first child, the literal is all that is left. -/
theorem replaceBy_head (k : NodeKind) (s : Token) (cs : List Tree) (literal : Text) :
    (node k (leaf s :: cs)).replaceBy [0] literal = node k [leaf { s with text := literal }] := rfl

/-- The format string `s` of an expression, at the path `p`, has become a literal, and the children of the expression
behind the one with the literal are gone. Everything else stands as it stood. -/
structure Shortened (e : Tree) (p : Path) (s : Token) (literal : Text) (left : Tree) : Prop where
  literal : left.tokenAt? p = some { s with text := literal }
  root : ∃ k n, e.label = .node k n ∧ p.headD 0 < n ∧ left.label = .node k (p.headD 0 + 1)
  dropped : ∀ i q, p.headD 0 < i → left.labelAt? (i :: q) = none
  kept : ∀ i q, i ≤ p.headD 0 → i :: q ≠ p → left.labelAt? (i :: q) = e.labelAt? (i :: q)

theorem shortened_replaceBy {p : Path} (hs : e.tokenAt? p = some s) (literal : Text) :
    Shortened e p s literal (e.replaceBy p literal) := by
  obtain ⟨hp, hleaf⟩ := tokenAt?_eq_some_iff.1 hs
  obtain ⟨i, r, rfl⟩ := List.exists_cons_of_ne_nil hp
  obtain ⟨k, pre, child, post, rfl, rfl, -⟩ := exists_children_eq hleaf
  refine ⟨?_, ⟨k, _, rfl, by simp, ?_⟩, fun j q hj => ?_, fun j q hj hne => ?_⟩
  · have hat := subtree?_update_append (withText literal) (node k (pre ++ child :: post)) (pre.length :: r) []
    rw [List.append_nil, hleaf] at hat
    refine tokenAt?_eq_some_iff.2 ⟨hp, ?_⟩
    rw [replaceBy, List.headD_cons, subtree?_takeChildren, if_pos (Nat.lt_succ_self _)]
    exact hat
  · rw [replaceBy, setText, update_node]
    simp [takeChildren, label]
  · rw [List.headD_cons] at hj
    rw [replaceBy, List.headD_cons, labelAt?_takeChildren, if_neg (by omega)]
  · rw [List.headD_cons] at hj
    rw [replaceBy, List.headD_cons, labelAt?_takeChildren, if_pos (by omega), labelAt?_setText, if_neg hne]

/-- Whatever is captured of an expression, it is skipped and left as it is, or its format string becomes a literal: the
arguments are filled in, and an `f` is put in front unless there is one. A literal is made if there are as many
placeholders as arguments; if the numbers differ both are told. -/
theorem interpolate_skipped_or_interpolated (e : Tree) (c : Captures) :
    ((∃ reason, e.interpolate c = (.skipped reason, e)) ∨
      ∃ s arguments text left, e.interpolate c = (.interpolated (markInterpolated text), left) ∧
        e.Resolves c s arguments ∧ (placeholders s.text).length = arguments.length ∧
        substitute s.text arguments = .ok text ∧ Shortened e c.formatString s (markInterpolated text) left) ∧
    ((∃ literal, (e.interpolate c).1 = .interpolated literal) ↔
      ∃ s arguments, e.Resolves c s arguments ∧ (placeholders s.text).length = arguments.length) ∧
    ∀ m n, (e.interpolate c).1 = .skipped (.countMismatch m n) ↔ ∃ s arguments, e.Resolves c s arguments ∧
      (placeholders s.text).length ≠ arguments.length ∧ (placeholders s.text).length = m ∧ arguments.length = n := by
  simp only [length_placeholders]
  rcases interpolate_cases e c with ⟨hnone, heq⟩ | ⟨s, arguments, hresolves, hrest⟩
  · have hfalse (P : Token → List Text → Prop) : ¬∃ s arguments, e.Resolves c s arguments ∧ P s arguments :=
      fun ⟨s, arguments, h, _⟩ => hnone ⟨s, arguments, h⟩
    refine ⟨.inl ⟨_, heq⟩, iff_of_false ?_ (hfalse _), fun m n => iff_of_false ?_ (hfalse _)⟩ <;> simp [heq]
  · simp only [hresolves.exists_iff]
    rcases hrest with ⟨hcount, heq⟩ | ⟨hcount, text, htext, heq⟩
    · refine ⟨.inl ⟨_, heq⟩, iff_of_false (by simp [heq]) hcount, fun m n => ?_⟩
      simp [heq, hcount]
    · refine ⟨.inr ⟨s, arguments, text, _, heq, hresolves, hcount, htext, ?_⟩, iff_of_true ⟨_, by rw [heq]⟩ hcount,
        fun m n => ?_⟩
      · exact shortened_replaceBy hresolves.formatString _
      · simp [heq, hcount]

/-! ## Captures that lead nowhere -/

theorem interpolate_fst_eq_unresolved_iff : (e.interpolate c).1 = .skipped .unresolvedCapture ↔
    ¬∃ s arguments, e.Resolves c s arguments := by
  rcases interpolate_cases e c with ⟨hnone, heq⟩ | ⟨s, arguments, hresolves, hrest⟩
  · exact iff_of_true (by rw [heq]) hnone
  · refine iff_of_false ?_ (not_not_intro ⟨s, arguments, hresolves⟩)
    rcases hrest with ⟨_, heq⟩ | ⟨_, _, _, heq⟩ <;> simp [heq]

/-- The captures lead nowhere if the format string does, or a single argument. -/
theorem not_exists_resolves_iff : (¬∃ s arguments, e.Resolves c s arguments) ↔
    e.tokenAt? c.formatString = none ∨ ∃ p, c.arguments = .single p ∧ e.tokenAt? p = none := by
  constructor
  · intro h
    cases hs : e.tokenAt? c.formatString with
    | none => exact .inl rfl
    | some s =>
      cases ha : c.arguments with
      | single p =>
        refine .inr ⟨p, rfl, Option.eq_none_iff_forall_ne_some.2 fun t ht => h ?_⟩
        exact ⟨s, _, hs, by rw [ha]; exact .single ht⟩
      | sequence ps => exact absurd ⟨s, _, hs, by rw [ha]; exact .sequence ps⟩ h
  · rintro (hnone | ⟨p, hp, hnone⟩) ⟨s, arguments, hs, harguments⟩
    · cases hnone.symm.trans hs
    · rw [hp] at harguments
      obtain ⟨ht⟩ := harguments
      cases hnone.symm.trans ht

/-- The paths of a run that lead to no name do not show in the names. -/
theorem argumentNames_sequence_filter (e : Tree) (ps : List Path) :
    e.argumentNames (.sequence (ps.filter fun p => (e.tokenAt? p).any (·.kind = .name))) =
      e.argumentNames (.sequence ps) := by
  simp only [argumentNames]
  congr 2
  induction ps with
  | nil => rfl
  | cons p ps ih =>
    cases ht : e.tokenAt? p with
    | none => simpa [ht] using ih
    | some t => by_cases hname : t.kind = .name <;> simpa [ht, hname] using ih

/-- An expression is skipped for a capture that leads nowhere, and left as it is, if the path of its format string or of
its single argument leads to no token. The paths of a run that lead to no name are passed over. -/
theorem interpolate_unresolved_iff (e : Tree) (c : Captures) :
    ((e.interpolate c).1 = .skipped .unresolvedCapture ↔ e.interpolate c = (.skipped .unresolvedCapture, e)) ∧
    ((e.interpolate c).1 = .skipped .unresolvedCapture ↔
      e.tokenAt? c.formatString = none ∨ ∃ p, c.arguments = .single p ∧ e.tokenAt? p = none) ∧
    ∀ formatString ps, e.interpolate ⟨formatString, .sequence ps⟩ =
      e.interpolate ⟨formatString, .sequence (ps.filter fun p => (e.tokenAt? p).any (·.kind = .name))⟩ := by
  refine ⟨⟨fun h => ?_, fun h => by rw [h]⟩, interpolate_fst_eq_unresolved_iff.trans not_exists_resolves_iff,
    fun formatString ps => ?_⟩
  · rcases interpolate_cases e c with ⟨_, heq⟩ | ⟨s, arguments, hresolves, _⟩
    · exact heq
    · exact absurd ⟨s, arguments, hresolves⟩ (interpolate_fst_eq_unresolved_iff.1 h)
  · unfold interpolate
    dsimp only
    rw [argumentNames_sequence_filter]

/-- Not every capture that leads nowhere counts as one: a run whose second path leads out of the expression is taken for
its first name alone, and a literal is made. -/
theorem interpolate_run_with_gap : ∃ e ∈ (Tree.parse "'%s' % x".toList).nodeAt? [0], e.tokenAt? [7] = none ∧
    (e.interpolate ⟨[0], .sequence [[2], [7]]⟩).1 = .interpolated "f'{x}'".toList ∧
    (e.interpolate ⟨[0], .sequence [[2], [7]]⟩).2.render = "f'{x}'".toList := by
  decide +kernel

end Tree

end Interpolation

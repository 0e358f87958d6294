import Interpolation.Proofs.Placeholder.Fill
import Interpolation.Proofs.Selection.Selected
import Interpolation.Proofs.Transform.Steps

/-!
# The size of the output

A literal takes no more bytes than the expression that it stands for: the braces take the room of the placeholders, the
names that of the operand, and the `f` that of the percent sign. Where the literal is marked from the start, a byte is
saved. Where none is, the literal differs from the expression in its first character.

* `Step.Shrinks` — what holds of a format string, its literal and the tokens that are dropped;
* `Tree.shrinks_of_mem_steps` — it holds of every expression of a tree that becomes a literal;
* `Step.utf8Size_target_le`, `Step.utf8Size_target_lt` — the sizes of both texts;
* `Step.eq_keep_of_target_eq_source` — where the text stays the same no literal was made;
* `Pattern.isChanged_iff_output_ne` — the same for a source.
-/

namespace Interpolation

open Pattern (interpolation)

/-! ## The mark -/

theorem head?_markInterpolated (t : Text) : (markInterpolated t).head? = some 'f' := by
  unfold markInterpolated
  split
  · assumption
  · rfl

theorem utf8Size_markInterpolated_le (t : Text) : (markInterpolated t).utf8Size ≤ t.utf8Size + 1 := by
  have hmark : ('f' : Char).utf8Size = 1 := rfl
  unfold markInterpolated
  split
  · omega
  · rw [Text.utf8Size]
    omega

/-! ## One expression -/

/-- Names take no more room than the tokens that they stand among. -/
theorem Token.sum_utf8Size_names_le (ts : List Token) :
    ((names ts).map Text.utf8Size).sum ≤ (renderAll ts).utf8Size := by
  induction ts with
  | nil => exact Nat.le_refl 0
  | cons t ts ih =>
    rw [renderAll_cons, Text.utf8Size_append, Text.utf8Size_append]
    by_cases hname : t.kind = .name
    · have hnames : names (t :: ts) = t.text :: names ts := by simp [names, hname]
      rw [hnames, List.map_cons, List.sum_cons]
      omega
    · have hnames : names (t :: ts) = names ts := by simp [names, hname]
      rw [hnames]
      omega

/-- The format string `s` and the tokens `dropped` behind it give way to a literal that is no larger. -/
structure Step.Shrinks (s : Token) (literal : Text) (dropped : List Token) : Prop where
  marked : literal.head? = some 'f'
  nonempty : s.text ≠ []
  le : literal.utf8Size ≤ (s.text ++ Token.renderAll dropped).utf8Size
  lt : s.text.head? = some 'f' → literal.utf8Size < (s.text ++ Token.renderAll dropped).utf8Size

namespace Tree

/-- An expression has a name at least. -/
theorem names_ne_nil_of_interpolates {s op operand : Tree} {c : Captures}
    (h : Interpolates (node .term [s, op, operand]) c) : Token.names operand.tokens ≠ [] := by
  obtain ⟨_, arguments⟩ := c
  obtain ⟨_, _, _, heq, -, -, -, hoperand⟩ := interpolates_iff.1 h
  cases heq
  cases hoperand with
  | name name => exact Token.names_ne_nil List.mem_cons_self name
  | tuple _ _ name => exact Token.names_ne_nil (by simp [nameList]) name

theorem shrinks_of_literal? {s op : Token} {operand : Tree} {c : Captures} {literal : Text}
    (h : Interpolates (node .term [leaf s, leaf op, operand]) c) (hop : op.isOperator ['%'] = true)
    (hliteral : literal? (node .term [leaf s, leaf op, operand]) = some literal) :
    Step.Shrinks s literal (op :: operand.tokens) := by
  obtain ⟨-, text, hsubstitute, rfl⟩ := (literal?_eq_some_iff ⟨c, h⟩).1 hliteral
  have hsize := utf8Size_of_substitute hsubstitute
  have hnames := Token.sum_utf8Size_names_le operand.tokens
  have hmark := utf8Size_markInterpolated_le text
  have hpercent : op.text.utf8Size = 1 := by
    simp only [Token.isOperator, Bool.and_eq_true, decide_eq_true_eq] at hop
    rw [hop.2]
    rfl
  have hroom : text.utf8Size + 1 ≤ (s.text ++ Token.renderAll (op :: operand.tokens)).utf8Size := by
    rw [Token.renderAll_cons, Text.utf8Size_append, Text.utf8Size_append, Text.utf8Size_append]
    omega
  refine ⟨head?_markInterpolated text, ?_, by omega, fun hf => ?_⟩
  · intro hs
    -- A text without placeholders takes no names.
    obtain ⟨hcount, -⟩ := (literal?_eq_some_iff ⟨c, h⟩).1 hliteral
    rw [hs] at hcount
    exact names_ne_nil_of_interpolates h (List.eq_nil_of_length_eq_zero hcount.symm)
  · obtain ⟨rest, hs⟩ := List.head?_eq_some_iff.1 hf
    rw [hs] at hsubstitute
    obtain ⟨u, rfl⟩ := exists_of_substitute (by decide) hsubstitute
    have hmarked : markInterpolated ('f' :: u) = 'f' :: u := if_pos rfl
    rw [hmarked]
    omega

/-- Every expression of a tree that becomes a literal gives way to it. -/
theorem shrinks_of_mem_steps {t : Tree} {s : Token} {literal : Text} {dropped : List Token}
    (h : .replace s literal dropped ∈ t.steps) : Step.Shrinks s literal dropped := by
  induction t with
  | leaf u => simp at h
  | node k cs ih =>
    cases hliteral : literal? (node k cs) with
    | some text =>
      obtain ⟨s', op, operand, m, heq, _, hop, _, _, _, hshape, _⟩ := exists_of_literal? hliteral
      rw [heq] at h hliteral hshape
      rw [steps_expression hliteral, List.mem_singleton] at h
      obtain ⟨rfl, rfl, rfl⟩ := Step.replace.inj h
      exact shrinks_of_literal? hshape hop hliteral
    | none =>
      rw [steps_node_of_none hliteral] at h
      clear hliteral
      induction cs with
      | nil => simp at h
      | cons c cs ihcs =>
        rw [List.forall_mem_cons] at ih
        rw [stepsAll_cons, List.mem_append] at h
        exact h.elim ih.1 (ihcs ih.2)

end Tree

/-! ## All tokens -/

namespace Step

variable {σ : List Step}

/-- The text behind some steps is no larger than the text in front. -/
theorem utf8Size_target_le (h : ∀ s literal dropped, .replace s literal dropped ∈ σ → Shrinks s literal dropped) :
    (target σ).utf8Size ≤ (source σ).utf8Size := by
  induction σ with
  | nil => exact Nat.le_refl 0
  | cons step σ ih =>
    have hrest := ih fun s l d hs => h s l d (List.mem_cons_of_mem _ hs)
    cases step with
    | keep t =>
      rw [target_keep, source_keep, Text.utf8Size_append, Text.utf8Size_append]
      omega
    | replace s literal dropped =>
      have hle := (h s literal dropped List.mem_cons_self).le
      rw [target_replace, source_replace, Token.render]
      simp only [Text.utf8Size_append] at hle ⊢
      omega

/-- One literal that is smaller than its expression makes the text smaller. -/
theorem utf8Size_target_lt (h : ∀ s literal dropped, .replace s literal dropped ∈ σ → Shrinks s literal dropped)
    {s : Token} {literal : Text} {dropped : List Token} (hs : .replace s literal dropped ∈ σ)
    (hlt : literal.utf8Size < (s.text ++ Token.renderAll dropped).utf8Size) :
    (target σ).utf8Size < (source σ).utf8Size := by
  obtain ⟨pre, post, rfl⟩ := List.append_of_mem hs
  have hpre := utf8Size_target_le (σ := pre) fun s l d hs => h s l d (List.mem_append_left _ hs)
  have hpost := utf8Size_target_le (σ := post) fun s l d hs => h s l d (List.mem_append_right _ (List.mem_cons_of_mem _ hs))
  rw [target_append, source_append, target_replace, source_replace, Token.render]
  simp only [Text.utf8Size_append] at hlt ⊢
  omega

/-- Where the text stays as it is, every token is kept: the first literal would differ from its expression in the first
character, or the text would be smaller. -/
theorem eq_keep_of_target_eq_source
    (h : ∀ s literal dropped, .replace s literal dropped ∈ σ → Shrinks s literal dropped) (heq : target σ = source σ) :
    ∀ step ∈ σ, ∃ t, step = .keep t := by
  induction σ with
  | nil => simp
  | cons step σ ih =>
    have hrest : ∀ s literal dropped, .replace s literal dropped ∈ σ → Shrinks s literal dropped :=
      fun s l d hs => h s l d (List.mem_cons_of_mem _ hs)
    cases step with
    | keep t =>
      rw [target_keep, source_keep] at heq
      exact List.forall_mem_cons.2 ⟨⟨t, rfl⟩, ih hrest (List.append_cancel_left heq)⟩
    | replace s literal dropped =>
      have hshrinks := h s literal dropped List.mem_cons_self
      have hle := utf8Size_target_le hrest
      rw [target_replace, source_replace, Token.render, List.append_assoc, List.append_cancel_left_eq] at heq
      have hsize := congrArg Text.utf8Size heq
      have hhead : s.text.head? ≠ some 'f' := by
        intro hf
        have hlt := hshrinks.lt hf
        simp only [Text.utf8Size_append] at hlt hsize
        omega
      obtain ⟨c, rest, hs⟩ := List.exists_cons_of_ne_nil hshrinks.nonempty
      have hsame := congrArg List.head? heq
      rw [List.head?_append, hshrinks.marked, hs, List.cons_append, List.head?_cons, Option.some_or] at hsame
      rw [hs, List.head?_cons] at hhead
      exact absurd hsame.symm hhead

/-- Where there is no edit, every token is kept. -/
theorem eq_keep_of_edits_eq_nil {first : Nat} (h : edits first σ = []) : ∀ step ∈ σ, ∃ t, step = .keep t := by
  induction σ generalizing first with
  | nil => simp
  | cons step σ ih =>
    cases step with
    | keep t => exact List.forall_mem_cons.2 ⟨⟨t, rfl⟩, ih h⟩
    | replace s literal dropped => simp [edits] at h

/-- An edit is that of a format string. -/
theorem exists_of_mem_edits {first : Nat} {r : Replacement} (h : r ∈ edits first σ) :
    ∃ pre s literal dropped post, σ = pre ++ .replace s literal dropped :: post ∧
      r.start = first + (source pre ++ s.trivia).length := by
  induction σ generalizing first with
  | nil => simp [edits] at h
  | cons step σ ih =>
    cases step with
    | keep t =>
      obtain ⟨pre, s, literal, dropped, post, rfl, hstart⟩ := ih h
      exact ⟨.keep t :: pre, s, literal, dropped, post, rfl, by simp [hstart, Nat.add_assoc]⟩
    | replace s literal dropped =>
      rcases List.mem_cons.1 h with rfl | h
      · exact ⟨[], s, literal, dropped, σ, rfl, by simp⟩
      · obtain ⟨pre, s', literal', dropped', post, rfl, hstart⟩ := ih h
        refine ⟨.replace s literal dropped :: pre, s', literal', dropped', post, rfl, ?_⟩
        simp [hstart, Token.render, Nat.add_assoc]

end Step

/-! ## A source -/

namespace Pattern

variable {source : Text}

theorem shrinks_of_mem_steps_parse (source : Text) : ∀ s literal dropped,
    .replace s literal dropped ∈ (Tree.parse source).steps → Step.Shrinks s literal dropped :=
  fun _ _ _ hs => Tree.shrinks_of_mem_steps hs

/-- A text has changed if and only if some expression became a literal. -/
theorem interpolated_eq_zero_iff :
    (interpolation.transform source).interpolated = 0 ↔ (interpolation.transform source).output = source := by
  constructor
  · intro h
    rw [interpolated_transform, List.length_eq_zero_iff] at h
    rw [target_steps, Step.target_eq_source (Step.eq_keep_of_edits_eq_nil h), source_steps]
  · intro h
    rw [target_steps] at h
    have hkept := Step.eq_keep_of_target_eq_source (shrinks_of_mem_steps_parse source) (h.trans (source_steps source).symm)
    rw [interpolated_transform, Step.edits_eq_nil hkept]
    rfl

/-- The format string of an attempt that made a literal is one of those that give way to a literal. -/
theorem exists_step_of_mem_attempts {a : Attempt} {s : Token} {c : Char}
    (ha : a ∈ (interpolation.transform source).attempts) (hmade : a.isInterpolated = true)
    (hs : (Tree.parse source).tokenAt? (a.selected.path ++ a.selected.captures.formatString) = some s)
    (hc : s.text.head? = some c) :
    ∃ s' literal dropped, .replace s' literal dropped ∈ (Tree.parse source).steps ∧ s'.text.head? = some c := by
  have hattempt : a ∈ (Tree.parse source).attempts := attempts_transform source ▸ ha
  obtain ⟨string, op, operand, after, _, _, hat, _, hrender, hreplacement⟩ := exists_of_mem_attempts hattempt
  -- The format string is the first child of the expression.
  obtain ⟨_, -, hshape, -⟩ := interpolates_of_mem_attempts hattempt
  obtain ⟨_, _, _, -, -, -, hformat⟩ := hshape.exists_eq
  have hstring : string = s := by
    have htoken : (Tree.parse source).tokenAt? (a.selected.path ++ [0]) = some string := by
      simp [Tree.tokenAt?, Tree.below?, Tree.subtree?_append, hat, Tree.children, Tree.token?]
    rw [hformat, htoken] at hs
    exact Option.some.inj hs
  -- Its edit is that of a step, so that both stand at one place in the source.
  rw [← Attempt.isSome_literal?, Option.isSome_iff_exists] at hmade
  obtain ⟨text, htext⟩ := hmade
  rw [htext, Option.map_some] at hreplacement
  have hmem := List.mem_filterMap.2 ⟨a, ha, hreplacement⟩
  rw [edits_parse] at hmem
  obtain ⟨pre, s', literal, dropped, post, hsteps, hstart⟩ := Step.exists_of_mem_edits hmem
  have hstep : .replace s' literal dropped ∈ (Tree.parse source).steps := by simp [hsteps]
  refine ⟨s', literal, dropped, hstep, ?_⟩
  have hsource := source_steps source
  rw [hsteps, Step.source_append, Step.source_replace, Token.render, List.append_assoc, ← List.append_assoc] at hsource
  rw [Tree.render_parse, hstring] at hrender
  rw [hstring, Nat.zero_add] at hstart
  have hrest := congrArg (List.head? ∘ List.drop (Step.source pre ++ s'.trivia).length) (hsource.trans hrender)
  simp only [Function.comp, List.drop_left' rfl] at hrest
  rw [List.append_assoc, List.drop_left' hstart] at hrest
  obtain ⟨d, rest, hd⟩ := List.exists_cons_of_ne_nil (shrinks_of_mem_steps_parse source _ _ _ hstep).nonempty
  rw [hd, List.cons_append, List.head?_cons] at hrest
  rw [hd, List.head?_cons, hrest]
  simp [hc]

/-- A transformation changes the text exactly when it makes a literal. It never makes the text longer, and it makes it
shorter as soon as a literal that it makes was marked before. -/
theorem isChanged_iff_output_ne (source : Text) :
    let t := interpolation.transform source
    (t.isChanged = true ↔ t.output ≠ source) ∧
    t.output.utf8.length ≤ source.utf8.length ∧
    ((∃ a ∈ t.attempts, a.isInterpolated = true ∧
        ∃ s ∈ t.parsed.tokenAt? (a.selected.path ++ a.selected.captures.formatString), s.text.head? = some 'f') →
      t.output.utf8.length < source.utf8.length) := by
  intro t
  have hsteps := shrinks_of_mem_steps_parse source
  have hbefore : source.utf8.length = (Step.source (Tree.parse source).steps).utf8Size := by
    rw [source_steps, Text.length_utf8]
  have hafter : t.output.utf8.length = (Step.target (Tree.parse source).steps).utf8Size := by
    rw [← target_steps, Text.length_utf8]
  refine ⟨?_, ?_, ?_⟩
  · rw [ne_eq, ← interpolated_eq_zero_iff, Transformation.isChanged, decide_eq_true_eq, Nat.pos_iff_ne_zero]
  · rw [hbefore, hafter]
    exact Step.utf8Size_target_le hsteps
  · rintro ⟨a, ha, hmade, s, hs, hf⟩
    obtain ⟨s', literal, dropped, hstep, hf'⟩ := exists_step_of_mem_attempts ha hmade hs hf
    rw [hbefore, hafter]
    exact Step.utf8Size_target_lt hsteps hstep ((hsteps _ _ _ hstep).lt hf')

/-- A literal that was marked before, next to one of the same size as its expression. -/
theorem isChanged_iff_output_ne_marked :
    let source : Text := "'%s'%x, f'%d' % (y,)".toList
    let t := interpolation.transform source
    (∃ a ∈ t.attempts, a.isInterpolated = true ∧
      ∃ s ∈ t.parsed.tokenAt? (a.selected.path ++ a.selected.captures.formatString), s.text.head? = some 'f') ∧
    t.output = "f'{x}', f'{y}'".toList ∧ t.output.utf8.length < source.utf8.length := by
  intro source t
  have h : ∃ a ∈ t.attempts, a.isInterpolated = true ∧
      ∃ s ∈ t.parsed.tokenAt? (a.selected.path ++ a.selected.captures.formatString), s.text.head? = some 'f' := by
    decide +kernel
  exact ⟨h, by decide +kernel, (isChanged_iff_output_ne source).2.2 h⟩

end Pattern

end Interpolation

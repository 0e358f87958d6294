import Interpolation.Proofs.Operand.Grouping
import Interpolation.Proofs.Selection.Window
import Interpolation.Proofs.Transform.Edits

/-!
# What becomes of the tokens

A transformation keeps most tokens as they are. A format string gives way to its literal, and the rest of its expression
is dropped.

* `Step` — what becomes of a token; `Tree.steps` says it of all tokens of a tree in turn;
* `Tree.before_steps`, `Tree.after_steps` — the tokens of the tree, and of the tree after all expressions;
* `Tree.edits_eq` — the edits of a tree, step by step;
* `Tree.literal?_eq_some_iff` — an expression becomes a literal if there are as many placeholders as names.
-/

namespace Interpolation

open Pattern (interpolation)

/-- The texts of the names among some tokens. -/
def Token.names (ts : List Token) : List Text := (ts.filter (·.kind = .name)).map (·.text)

theorem Token.names_ne_nil {ts : List Token} {n : Token} (hn : n ∈ ts) (hname : n.kind = .name) : Token.names ts ≠ [] :=
  List.ne_nil_of_mem (List.mem_map_of_mem (List.mem_filter.2 ⟨hn, by simp [hname]⟩))

/-- What becomes of a token: it is kept, or it is a format string that becomes a literal, and the tokens behind it that
belong to its expression are dropped. -/
inductive Step where
  | keep (token : Token)
  | replace (string : Token) (literal : Text) (dropped : List Token)

namespace Step

/-- The tokens in front of a step. -/
def before : Step → List Token
  | .keep t => [t]
  | .replace s _ dropped => s :: dropped

/-- The tokens behind a step. -/
def after : Step → List Token
  | .keep t => [t]
  | .replace s literal _ => [{ s with text := literal }]

/-- The text in front of some steps. -/
def source (σ : List Step) : Text := Token.renderAll (σ.flatMap before)

/-- The text behind some steps. -/
def target (σ : List Step) : Text := Token.renderAll (σ.flatMap after)

/-- The edits of some steps in a text whose first character is the character `first`. -/
def edits (first : Nat) : List Step → List Replacement
  | [] => []
  | .keep t :: σ => edits (first + t.render.length) σ
  | .replace s literal dropped :: σ =>
    ⟨first + s.trivia.length, first + (Token.renderAll (s :: dropped)).length, literal⟩ ::
      edits (first + (Token.renderAll (s :: dropped)).length) σ

/-- The first of some tokens gives way to a literal, and the others are dropped. -/
def replaceFirst (literal : Text) : List Token → List Step
  | [] => []
  | s :: dropped => [.replace s literal dropped]

variable {σ τ : List Step}

@[simp] theorem source_nil : source [] = [] := rfl

@[simp] theorem target_nil : target [] = [] := rfl

@[simp] theorem source_append : source (σ ++ τ) = source σ ++ source τ := by simp [source]

@[simp] theorem target_append : target (σ ++ τ) = target σ ++ target τ := by simp [target]

@[simp] theorem source_keep (t : Token) : source (.keep t :: σ) = t.render ++ source σ := by
  simp [source, before, Token.render]

@[simp] theorem target_keep (t : Token) : target (.keep t :: σ) = t.render ++ target σ := by
  simp [target, after, Token.render]

@[simp]
theorem source_replace (s : Token) (literal : Text) (dropped : List Token) :
    source (.replace s literal dropped :: σ) = s.render ++ (Token.renderAll dropped ++ source σ) := by
  simp [source, before, Token.render]

@[simp]
theorem target_replace (s : Token) (literal : Text) (dropped : List Token) :
    target (.replace s literal dropped :: σ) = s.trivia ++ (literal ++ target σ) := by
  simp [target, after]

theorem edits_append (first : Nat) : edits first (σ ++ τ) = edits first σ ++ edits (first + (source σ).length) τ := by
  induction σ generalizing first with
  | nil => rfl
  | cons step σ ih =>
    cases step with
    | keep t => simp [edits, ih, Nat.add_assoc]
    | replace s literal dropped => simp [edits, ih, Token.render, Nat.add_assoc]

theorem edits_shift (n first : Nat) : edits (n + first) σ = (edits first σ).map (Replacement.shift n) := by
  induction σ generalizing first with
  | nil => rfl
  | cons step σ ih =>
    cases step with
    | keep t => rw [edits, edits, Nat.add_assoc, ih]
    | replace s literal dropped =>
      rw [edits, edits, Nat.add_assoc, Nat.add_assoc, ih]
      rfl

theorem edits_map_keep (first : Nat) (ts : List Token) : edits first (ts.map keep) = [] := by
  induction ts generalizing first with
  | nil => rfl
  | cons t ts ih => exact ih _

end Step

namespace Tree

/-! ## The steps of a tree -/

/-- The literal that a tree becomes, if it is an expression that becomes one. -/
def literal? (t : Tree) : Option Text := (interpolation.here? t).bind fun m =>
  match (t.interpolate m.captures).1 with
  | .interpolated literal => some literal
  | _ => none

mutual
/-- What becomes of the tokens of a tree. -/
def steps : Tree → List Step
  | .leaf t => [.keep t]
  | .node k cs =>
    match literal? (.node k cs) with
    | some literal => Step.replaceFirst literal (tokensAll cs)
    | none => stepsAll cs
/-- What becomes of the tokens of some trees in turn. -/
def stepsAll : List Tree → List Step
  | [] => []
  | c :: cs => c.steps ++ stepsAll cs
end

@[simp] theorem steps_leaf (t : Token) : (leaf t).steps = [.keep t] := by rw [steps]

@[simp] theorem stepsAll_nil : stepsAll [] = [] := by rw [stepsAll]

@[simp] theorem stepsAll_cons (c : Tree) (cs : List Tree) : stepsAll (c :: cs) = c.steps ++ stepsAll cs := by
  rw [stepsAll]

@[simp]
theorem stepsAll_append (cs ds : List Tree) : stepsAll (cs ++ ds) = stepsAll cs ++ stepsAll ds := by
  induction cs with
  | nil => simp
  | cons c cs ih => simp [ih]

theorem steps_node_of_none {k : NodeKind} {cs : List Tree} (h : literal? (node k cs) = none) :
    (node k cs).steps = stepsAll cs := by
  rw [steps, h]

theorem steps_expression {s : Token} {op operand : Tree} {literal : Text}
    (h : literal? (node .term [leaf s, op, operand]) = some literal) :
    (node .term [leaf s, op, operand]).steps = [.replace s literal (op.tokens ++ operand.tokens)] := by
  rw [steps, h]
  simp [Step.replaceFirst]

theorem literal?_node {k : NodeKind} (hk : k ≠ .term) (cs : List Tree) : literal? (node k cs) = none := by
  rw [literal?, Pattern.here?_interpolation_node hk]
  rfl

/-- Only an expression becomes a literal. -/
theorem exists_of_literal? {t : Tree} {literal : Text} (h : t.literal? = some literal) :
    ∃ s op operand m, t = node .term [leaf s, leaf op, operand] ∧ s.kind = .string ∧ op.isOperator ['%'] = true ∧
      interpolation.here? t = some m ∧ m.path = [] ∧ m.captures.formatString = [0] ∧ Interpolates t m.captures ∧
      t.interpolate m.captures = (.interpolated literal, t.replaceBy m.captures.formatString literal) := by
  obtain ⟨m, hm, hliteral⟩ := Option.bind_eq_some_iff.1 h
  obtain ⟨hpath, hshape⟩ := Pattern.here?_interpolation_eq_some_iff.1 hm
  obtain ⟨s, op, operand, heq, hstring, hop, hformat⟩ := hshape.exists_eq
  refine ⟨s, op, operand, m, heq, hstring, hop, hm, hpath, hformat, hshape, ?_⟩
  obtain ⟨literal', h'⟩ | ⟨reason, h'⟩ := interpolate_eq t m.captures
  · rw [h'] at hliteral
    rw [h', Option.some.inj hliteral]
  · rw [h'] at hliteral
    contradiction

/-! ## The tokens in front and behind -/

theorem before_steps (t : Tree) : t.steps.flatMap Step.before = t.tokens := by
  induction t with
  | leaf u => simp [Step.before]
  | node k cs ih =>
    cases h : literal? (node k cs) with
    | some literal =>
      obtain ⟨s, op, operand, _, heq, _⟩ := exists_of_literal? h
      rw [heq] at h ⊢
      rw [steps_expression h]
      simp [Step.before]
    | none =>
      rw [steps_node_of_none h, tokens_node]
      clear h
      induction cs with
      | nil => simp
      | cons c cs ihcs =>
        rw [List.forall_mem_cons] at ih
        rw [stepsAll_cons, List.flatMap_append, ih.1, ihcs ih.2, tokensAll_cons]

theorem foundFrom_eq_nil_iff {i : Nat} {cs : List Tree} :
    interpolation.foundFrom i cs = [] ↔ ∀ c ∈ cs, interpolation.found c = [] := by
  induction cs generalizing i with
  | nil => simp [Pattern.foundFrom]
  | cons c cs ih => simp [Pattern.foundFrom, ih]

theorem literal?_eq_none {t : Tree} (hhere : interpolation.here? t = none) : t.literal? = none := by
  rw [literal?, hhere]
  rfl

/-- Where no expression becomes a literal and none is below, every token is kept. -/
theorem steps_eq_map_keep {t : Tree} (hliteral : t.literal? = none) (hselect : interpolation.select t = []) :
    t.steps = t.tokens.map .keep := by
  induction t with
  | leaf u => simp
  | node k cs ih =>
    rw [steps_node_of_none hliteral, tokens_node]
    rw [Pattern.select_node, foundFrom_eq_nil_iff] at hselect
    clear hliteral
    induction cs with
    | nil => simp
    | cons c cs ihcs =>
      rw [List.forall_mem_cons] at ih hselect
      obtain ⟨hhere, hbelow⟩ := List.append_eq_nil_iff.1 hselect.1
      have hliteral := literal?_eq_none (Option.toList_eq_nil_iff.1 hhere)
      rw [stepsAll_cons, ih.1 hliteral hbelow, ihcs ih.2 hselect.2, tokensAll_cons, List.map_append]

/-- An expression is all that is found in it. -/
theorem found_of_here? {t : Tree} {m : Match} (hhere : interpolation.here? t = some m) : interpolation.found t = [m] := by
  obtain ⟨_, hshape⟩ := Pattern.here?_interpolation_eq_some_iff.1 hhere
  simp [Pattern.found, hhere, Pattern.select_eq_nil_of_interpolates hshape]

theorem kind?_of_here? {t : Tree} {m : Match} (hhere : interpolation.here? t = some m) : t.kind?.isSome = true := by
  obtain ⟨_, hshape⟩ := Pattern.here?_interpolation_eq_some_iff.1 hhere
  obtain ⟨_, _, _, rfl, _⟩ := hshape.exists_eq
  rfl

theorem attempts_of_here? {t : Tree} {m : Match} (hhere : interpolation.here? t = some m) :
    t.attempts = [⟨m, some (t, (t.interpolate m.captures).1)⟩] := by
  rw [attempts, found_of_here? hhere, attemptsAt, List.map_singleton,
    interpolateAt_self (Pattern.path_of_here? hhere) (kind?_of_here? hhere)]

theorem finish_of_here? {t : Tree} {m : Match} (hhere : interpolation.here? t = some m) :
    t.finish = (t.interpolate m.captures).2 := by
  rw [finish, found_of_here? hhere, interpolateAll,
    interpolateAt_self (Pattern.path_of_here? hhere) (kind?_of_here? hhere)]
  rfl

/-- The tokens after an expression is interpolated. -/
theorem after_steps_of_here? {t : Tree} {m : Match} (hhere : interpolation.here? t = some m) :
    t.steps.flatMap Step.after = t.finish.tokens := by
  obtain ⟨_, hshape⟩ := Pattern.here?_interpolation_eq_some_iff.1 hhere
  rw [finish_of_here? hhere]
  cases hliteral : literal? t with
  | some literal =>
    obtain ⟨s, op, operand, m', rfl, _, _, hm', _, hformat, _, h⟩ := exists_of_literal? hliteral
    obtain rfl := Option.some.inj (hhere.symm.trans hm')
    rw [h, hformat, steps_expression hliteral]
    rfl
  | none =>
    have hkeep : t.tokens.flatMap (fun u => Step.after (.keep u)) = t.tokens := by simp [Step.after]
    rw [steps_eq_map_keep hliteral (Pattern.select_eq_nil_of_interpolates hshape), List.flatMap_map, hkeep]
    obtain ⟨literal, h⟩ | ⟨reason, h⟩ := interpolate_eq t m.captures
    · simp [literal?, hhere, h] at hliteral
    · rw [h]

/-- The tokens after all expressions of a tree are interpolated. -/
theorem after_steps (t : Tree) : t.steps.flatMap Step.after = t.finish.tokens := by
  induction t with
  | leaf u =>
    rw [steps_leaf]
    rfl
  | node k cs ih =>
    cases hhere : interpolation.here? (node k cs) with
    | none =>
      rw [steps_node_of_none (literal?_eq_none hhere), finish_node hhere, tokens_node]
      clear hhere
      induction cs with
      | nil => simp
      | cons c cs ihcs =>
        rw [List.forall_mem_cons] at ih
        rw [stepsAll_cons, List.flatMap_append, ih.1, ihcs ih.2, List.map_cons, tokensAll_cons]
    | some m => exact after_steps_of_here? hhere

/-! ## The edits -/

/-- The edit of an expression is that of its literal, if it becomes one. -/
theorem editsAt_here {t : Tree} {m : Match} (hhere : interpolation.here? t = some m) :
    t.editsAt [m] = Step.edits 0 t.steps := by
  obtain ⟨hpath, hshape⟩ := Pattern.here?_interpolation_eq_some_iff.1 hhere
  have hselect := Pattern.select_eq_nil_of_interpolates hshape
  rw [editsAt, attemptsAt, List.map_singleton, interpolateAt_self hpath (kind?_of_here? hhere)]
  cases hliteral : t.literal? with
  | some literal =>
    obtain ⟨s, op, operand, m', rfl, _, _, hm', _, hformat, _, h⟩ := exists_of_literal? hliteral
    obtain rfl := Option.some.inj (hhere.symm.trans hm')
    have hreplacement : Attempt.replacement? (node .term [leaf s, leaf op, operand])
        ⟨m, some (node .term [leaf s, leaf op, operand], .interpolated literal)⟩ =
          some ⟨0 + s.trivia.length, 0 + (Token.renderAll (s :: ([op] ++ operand.tokens))).length, literal⟩ := by
      unfold Attempt.replacement?
      rw [hpath, hformat]
      simp [Attempt.literal?, startOf, stopOf, textBefore, tokensBefore, children, render]
    rw [h, steps_expression hliteral, List.filterMap_cons_some hreplacement]
    rfl
  | none =>
    have hreplacement : Attempt.replacement? t ⟨m, some (t, (t.interpolate m.captures).1)⟩ = none := by
      cases houtcome : (t.interpolate m.captures).1 with
      | interpolated literal => simp [literal?, hhere, houtcome] at hliteral
      | skipped _ => rfl
      | failed _ => rfl
    rw [List.filterMap_cons_none hreplacement, steps_eq_map_keep hliteral hselect, Step.edits_map_keep]
    rfl

theorem editsAt_foundFrom (k : NodeKind) (pre cs : List Tree) (h : ∀ c ∈ cs, c.edits = Step.edits 0 c.steps) :
    (node k (pre ++ cs)).editsAt (interpolation.foundFrom pre.length cs) =
      Step.edits (Token.renderAll (tokensAll pre)).length (stepsAll cs) := by
  induction cs generalizing pre with
  | nil => rw [stepsAll_nil]; rfl
  | cons c cs ih =>
    rw [List.forall_mem_cons] at h
    have hrest := ih (pre ++ [c]) h.2
    have hlength : (Token.renderAll (tokensAll (pre ++ [c]))).length =
        (Token.renderAll (tokensAll pre)).length + (Step.source c.steps).length := by
      simp [Step.source, before_steps]
    rw [hlength] at hrest
    simp only [List.append_assoc, List.singleton_append] at hrest
    have hfirst : (c.editsAt (interpolation.found c)).map (Replacement.shift (Token.renderAll (tokensAll pre)).length) =
        Step.edits (Token.renderAll (tokensAll pre)).length c.steps := by
      show c.edits.map _ = _
      rw [h.1, ← Step.edits_shift, Nat.add_zero]
    rw [foundFrom_cons, editsAt_append, editsAt_under, hrest, hfirst, stepsAll_cons, Step.edits_append]

/-- The edits of a tree are those of its steps. -/
theorem edits_eq (t : Tree) : t.edits = Step.edits 0 t.steps := by
  induction t with
  | leaf u => simp [edits, editsAt, attemptsAt, Step.edits]
  | node k cs ih =>
    cases hhere : interpolation.here? (node k cs) with
    | some m => rw [edits, found_of_here? hhere, editsAt_here hhere]
    | none =>
      rw [edits, found_node hhere, steps_node_of_none (literal?_eq_none hhere)]
      exact editsAt_foundFrom k [] cs ih

/-! ## Which expressions become literals -/

/-- The names among an operand are the arguments of its expression. -/
theorem argumentNames_eq {s op operand : Tree} {c : Captures} (h : Interpolates (node .term [s, op, operand]) c) :
    (node .term [s, op, operand]).argumentNames c.arguments = some (Token.names operand.tokens) := by
  cases h with
  | name string percent name => simp [argumentNames, tokenAt?, below?, children, token?, Token.names, name]
  | @tuple s op opening closing names string percent opens closes listed =>
    have hkind {op : Text} {t : Token} (ht : t.isOperator op = true) : t.kind ≠ .name := by
      simp only [Token.isOperator, Bool.and_eq_true, decide_eq_true_eq] at ht
      simp [ht.1]
    have hleaves := Pattern.exists_leaf_of_isNameList listed
    have hat : ∀ i, (node .term [leaf s, leaf op, node .atom [leaf opening, node .exprList names, leaf closing]]).tokenAt?
        [2, 1, i] = names[i]?.bind token? := by
      intro i
      simp [tokenAt?, below?, children]
    have hnames : (List.range names.length).filterMap (fun i => names[i]?.bind token?) = tokensAll names := by
      clear hat listed
      induction names with
      | nil => rfl
      | cons n names ih =>
        obtain ⟨⟨u, rfl⟩, hrest⟩ := List.forall_mem_cons.1 hleaves
        rw [List.length_cons, List.range_succ_eq_map, List.filterMap_cons, List.filterMap_map, tokensAll_cons]
        exact congrArg (u :: ·) (ih hrest)
    simp only [argumentNames, List.filterMap_map, Function.comp_def, hat, hnames, Option.some.injEq]
    simp [Token.names, hkind opens, hkind closes]

/-- What an attempt at an expression makes of it is the literal that it becomes. -/
theorem literal?_of_interpolates {t : Tree} {c : Captures} {literal : Text} (h : Interpolates t c)
    (houtcome : (t.interpolate c).1 = .interpolated literal) : t.literal? = some literal := by
  have hhere : interpolation.here? t = some ⟨[], c⟩ := Pattern.here?_interpolation_eq_some_iff.2 ⟨rfl, h⟩
  rw [literal?, hhere, Option.bind_some, houtcome]

/-- An expression becomes a literal if it has as many placeholders as names. -/
theorem literal?_eq_some_iff {s : Token} {op operand : Tree} {literal : Text} (h : IsExpression (leaf s) op operand) :
    literal? (node .term [leaf s, op, operand]) = some literal ↔
      placeholderCount s.text = (Token.names operand.tokens).length ∧
        ∃ text, substitute s.text (Token.names operand.tokens) = .ok text ∧ literal = markInterpolated text := by
  obtain ⟨c, hshape⟩ := h
  have hhere : interpolation.here? (node .term [leaf s, op, operand]) = some ⟨[], c⟩ :=
    Pattern.here?_interpolation_eq_some_iff.2 ⟨rfl, hshape⟩
  obtain ⟨_, _, _, _, _, _, hformat⟩ := hshape.exists_eq
  have htoken : (node .term [leaf s, op, operand]).tokenAt? c.formatString = some s := by
    rw [hformat]
    rfl
  rw [literal?, hhere, Option.bind_some, interpolate, argumentNames_eq hshape, htoken]
  by_cases hcount : placeholderCount s.text = (Token.names operand.tokens).length
  · cases hsubstitute : substitute s.text (Token.names operand.tokens) with
    | error e => simp [hcount, hsubstitute]
    | ok text => simp [hcount, hsubstitute, eq_comm]
  · simp [hcount]

end Tree

/-! ## A source -/

namespace Step

theorem mem_edits (pre : List Step) (s : Token) (literal : Text) (dropped : List Token) (post : List Step) (first : Nat) :
    ∃ r ∈ edits first (pre ++ .replace s literal dropped :: post),
      r.start = first + (source pre ++ s.trivia).length ∧ r.text = literal := by
  rw [edits_append]
  refine ⟨_, List.mem_append_right _ List.mem_cons_self, ?_, rfl⟩
  simp [Nat.add_assoc]

theorem edits_eq_nil {σ : List Step} (h : ∀ step ∈ σ, ∃ t, step = .keep t) (first : Nat) : edits first σ = [] := by
  induction σ generalizing first with
  | nil => rfl
  | cons step σ ih =>
    obtain ⟨⟨t, rfl⟩, hσ⟩ := List.forall_mem_cons.1 h
    exact ih hσ _

/-- Where every token is kept, the text is too. -/
theorem target_eq_source {σ : List Step} (h : ∀ step ∈ σ, ∃ t, step = .keep t) : target σ = source σ := by
  induction σ with
  | nil => rfl
  | cons step σ ih =>
    obtain ⟨⟨t, rfl⟩, hσ⟩ := List.forall_mem_cons.1 h
    rw [target_keep, source_keep, ih hσ]

end Step

namespace Pattern

theorem source_steps (source : Text) : Step.source (Tree.parse source).steps = source := by
  rw [Step.source, Tree.before_steps]
  exact Tree.render_parse source

theorem final_transform (source : Text) : (interpolation.transform source).final = (Tree.parse source).finish := by
  show ((Tree.parse source).interpolateAll (interpolation.select (Tree.parse source))).2 = _
  rw [← found_parse]
  rfl

theorem target_steps (source : Text) :
    (interpolation.transform source).output = Step.target (Tree.parse source).steps := by
  rw [Transformation.output, final_transform, Tree.render, ← Tree.after_steps]
  rfl

theorem edits_parse (source : Text) : (interpolation.transform source).attempts.filterMap
    (Attempt.replacement? (Tree.parse source)) = Step.edits 0 (Tree.parse source).steps := by
  rw [attempts_transform, ← Tree.edits_eq]
  rfl

/-- As many expressions become literals as there are edits. -/
theorem interpolated_transform (source : Text) :
    (interpolation.transform source).interpolated = (Step.edits 0 (Tree.parse source).steps).length := by
  rw [← edits_parse, List.length_filterMap_eq_countP, Transformation.interpolated]
  congr
  funext a
  rw [Attempt.replacement?, Option.isSome_map, Attempt.isSome_literal?]

end Pattern

end Interpolation

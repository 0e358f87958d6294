import Interpolation.Proofs.Bracketed.Window
import Interpolation.Proofs.Token.Spelling
import Interpolation.Proofs.Transform.Steps

/-!
# Rewriting bracketed items

What a transformation makes of a source, item by item, before any operand is grouped. A string becomes a literal where
its neighbours make it the format string of an expression and its placeholders are as many as the names.

* `Bracketed.Fits` — the string becomes a literal where it stands;
* `Rewriting` — what becomes of the siblings behind some siblings: the steps, and the items that they are read as;
* `TermPhrase.steps` — a term keeps the tokens of its siblings, unless it is an expression that becomes a literal;
* `Grouping.exists_rewriting`, `Bracketed.exists_rewriting` — the steps of a tree rewrite its items.
-/

namespace Interpolation

namespace Bracketed

/-- The string `s` behind the siblings `before` becomes a literal, because `op`, `operand` and `rest` follow it. -/
structure Fits (before : List Bracketed) (s : Token) (op operand : Bracketed) (rest : List Bracketed) : Prop where
  string : s.kind = .string
  percent : op.isOperator ['%'] = true
  names : operand.isToken .name = true ∨ operand.isNameTuple = true
  count : placeholderCount s.text = (Token.names operand.tokens).length
  left : FreeLeft before
  right : FreeRight rest

/-- The token `t` behind the siblings `before` becomes no literal in front of the siblings `rest`. -/
def Stays (before : List Bracketed) (t : Token) (rest : List Bracketed) : Prop :=
  ∀ op operand post, rest = op :: operand :: post → ¬ Fits before t op operand post

/-- `Rewriting before bs σ bs'`: behind the siblings `before` the steps `σ` are what becomes of the siblings `bs`, and
`bs'` is what they are read as then. -/
inductive Rewriting : List Bracketed → List Bracketed → List Step → List Bracketed → Prop
  | nil {before : List Bracketed} : Rewriting before [] [] []
  | token {before rest rest' : List Bracketed} {σ : List Step} {t : Token} (stays : Stays before t rest)
      (others : Rewriting (before ++ [.token t]) rest σ rest') :
      Rewriting before (.token t :: rest) (.keep t :: σ) (.token t :: rest')
  | group {before cs cs' rest rest' : List Bracketed} {σ τ : List Step} {opening closing : Token}
      (inside : Rewriting [] cs σ cs') (others : Rewriting (before ++ [.group opening cs closing]) rest τ rest') :
      Rewriting before (.group opening cs closing :: rest) (.keep opening :: (σ ++ .keep closing :: τ))
        (.group opening cs' closing :: rest')
  | literal {before rest rest' : List Bracketed} {σ : List Step} {s : Token} {op operand : Bracketed} {text : Text}
      (fits : Fits before s op operand rest) (filled : substitute s.text (Token.names operand.tokens) = .ok text)
      (others : Rewriting (before ++ [.token s, op, operand]) rest σ rest') :
      Rewriting before (.token s :: op :: operand :: rest)
        (.replace s (markInterpolated text) (op.tokens ++ operand.tokens) :: σ)
        ((Literal.spelling s.trivia (markInterpolated text)).map .token ++ rest')

theorem exists_head_of_isNameList {bs : List Bracketed} (h : isNameList bs = true) :
    ∃ n rest, bs = n :: rest ∧ n.isToken .name = true := by
  fun_cases isNameList bs with
  | case1 => contradiction
  | case2 n => exact ⟨n, [], rfl, h⟩
  | case3 n c rest =>
    simp only [isNameList, Bool.and_eq_true] at h
    exact ⟨n, c :: rest, rfl, h.1.1⟩

/-- The steps keep the text of the items. -/
theorem Rewriting.source_eq {before bs bs' : List Bracketed} {σ : List Step} (h : Rewriting before bs σ bs') :
    Step.source σ = text bs := by
  induction h with
  | nil => rfl
  | token _ _ ih => simp [ih]
  | group _ _ ihinside ih => simp [ihinside, ih]
  | literal _ _ _ ih => simp [ih, text, tokensAll, tokens, Token.render]

/-- What becomes of an item that stays: a token is kept, and a group is kept around what becomes of its contents. -/
def StaysAs : Bracketed → List Step → Prop
  | .token t, σ => σ = [.keep t]
  | .group opening cs closing, σ =>
    ∃ τ cs', Rewriting [] cs τ cs' ∧ σ = .keep opening :: (τ ++ [.keep closing])

end Bracketed

namespace Tree

open Bracketed (Fits Stays StaysAs Rewriting)

/-! ## The steps of a phrase -/

theorem steps_node {k : NodeKind} (hk : k ≠ .term) (cs : List Tree) : (node k cs).steps = stepsAll cs :=
  steps_node_of_none (literal?_node hk cs)

theorem transparent_stepsAll : Transparent fun us vs => stepsAll us = stepsAll vs where
  equivalence := ⟨fun _ => rfl, Eq.symm, Eq.trans⟩
  append h h' := by rw [stepsAll_append, stepsAll_append, h, h']
  node cs hk := by simp [steps_node hk]

/-- A term keeps the tokens of its siblings, unless it is an expression that becomes a literal. -/
theorem TermPhrase.steps {us : List Tree} {t : Tree} (h : TermPhrase us t) : t.steps = stepsAll us ∨
    ∃ s op operand literal, us = [leaf s, leaf op, operand] ∧ IsExpression (leaf s) (leaf op) operand ∧
      (node .term us).literal? = some literal ∧ t = node .term us := by
  obtain @⟨us, vs, ts, f, hf, hothers⟩ := h
  have hkept : stepsAll (f :: ts) = stepsAll (us ++ vs) :=
    transparent_stepsAll.append (hf.related transparent_stepsAll) (hothers.related transparent_stepsAll)
  unfold collapse
  split
  · next heq =>
    obtain ⟨rfl, rfl⟩ := List.cons.inj heq
    left
    rwa [stepsAll_cons, stepsAll_nil, List.append_nil] at hkept
  · cases hliteral : literal? (node .term (f :: ts)) with
    | none =>
      left
      rw [steps_node_of_none hliteral, hkept]
    | some literal =>
      right
      obtain ⟨s, op, operand, m, heq, _, _, _, _, _, hshape, _⟩ := exists_of_literal? hliteral
      obtain ⟨rfl, rfl⟩ := List.cons.inj (node.inj heq).2
      have hexpression : IsExpression (leaf s) (leaf op) operand := ⟨_, hshape⟩
      rw [hf.eq_of_isExpression hothers rfl hexpression]
      exact ⟨s, op, operand, literal, rfl, hexpression, hliteral, rfl⟩

@[simp]
theorem stepsAll_listed (opening : Token) (ts : List Tree) : stepsAll (listed opening ts) = stepsAll ts := by
  unfold listed
  split
  · simp [steps_node]
  · rfl

end Tree

namespace Bracketed

open Interpolation.Tree (ofBracketed stepsAll)

variable {before bs rest rest' : List Bracketed} {σ : List Step}

/-! ## The steps of items -/

/-- Items that stay, in front of others. -/
theorem Rewriting.prepend {kept : List Bracketed}
    (hstays : ∀ pre t post, kept = pre ++ .token t :: post → Stays (before ++ pre) t (post ++ rest))
    (hkept : ∀ b ∈ kept, StaysAs b (ofBracketed b).steps) (others : Rewriting (before ++ kept) rest σ rest') :
    ∃ bs', Rewriting before (kept ++ rest) (stepsAll (kept.map ofBracketed) ++ σ) bs' := by
  induction kept generalizing before with
  | nil => exact ⟨rest', by simpa using others⟩
  | cons b kept ih =>
    obtain ⟨hb, hkept⟩ := List.forall_mem_cons.1 hkept
    obtain ⟨bs', h⟩ := @ih (before ++ [b])
      (fun pre t post heq => by simpa using hstays (b :: pre) t post (by rw [heq, List.cons_append])) hkept
      (by simpa using others)
    cases b with
    | token t =>
      refine ⟨.token t :: bs', ?_⟩
      rw [List.map_cons, Tree.ofBracketed_token, Tree.stepsAll_cons, Tree.steps_leaf]
      exact .token (by simpa using hstays [] t kept rfl) h
    | group opening cs closing =>
      obtain ⟨τ, cs', hinside, hsteps⟩ := hb
      refine ⟨.group opening cs' closing :: bs', ?_⟩
      have hgroup : Rewriting before (.group opening cs closing :: _) _ (.group opening cs' closing :: _) :=
        .group hinside h
      rw [List.map_cons, Tree.stepsAll_cons, hsteps]
      simpa using hgroup

end Bracketed

namespace Tree

open Bracketed (Fits Stays StaysAs Rewriting)

variable {before bs rest : List Bracketed} {us ts : List Tree} {b : Bracketed} {t : Token}

theorem ofBracketed_eq_leaf_iff : ofBracketed b = leaf t ↔ b = .token t := by
  cases b <;> simp [ofBracketed]

/-- The neighbours of a string that fits make an expression with it. -/
theorem isExpression_of_fits {op operand : Bracketed} (h : Fits before t op operand rest) :
    IsExpression (leaf t) (ofBracketed op) (ofBracketed operand) := by
  rw [← ofBracketed_token, isExpression_iff]
  exact ⟨by simpa [Bracketed.isToken] using h.string, h.percent, h.names⟩

/-- A string that fits at the start of a term makes the term a literal. -/
theorem exists_steps_of_fits {op operand : Bracketed} {u : Tree} {others : List Tree}
    (h : Fits before t op operand rest)
    (hreads : term? (leaf t :: ofBracketed op :: ofBracketed operand :: rest.map ofBracketed) = some (u, others)) :
    ∃ literal dropped, u.steps = [.replace t literal dropped] := by
  have hexpression := isExpression_of_fits h
  rw [term?_expression hexpression ((rightFree_iff rest).2 h.right), Option.some.injEq, Prod.mk.injEq] at hreads
  obtain ⟨text, htext⟩ := exists_substitute_eq_ok h.count
  have hliteral : literal? (node .term [leaf t, ofBracketed op, ofBracketed operand]) = some (markInterpolated text) := by
    rw [literal?_eq_some_iff hexpression, tokens_ofBracketed]
    exact ⟨h.count, text, htext, rfl⟩
  exact ⟨_, _, hreads.1 ▸ steps_expression hliteral⟩

/-- No string among the siblings of a term fits if the term keeps their tokens. -/
theorem stays_of_term {kept pre post : List Bracketed} {u : Tree} (hterm : TermPhrase (kept.map ofBracketed) u)
    (hfree : endsWith isAtom (before.map ofBracketed) → (kept.map ofBracketed).head?.any isSign = false)
    (hreads : term? ((kept ++ rest).map ofBracketed) = some (u, rest.map ofBracketed))
    (hsteps : u.steps = stepsAll (kept.map ofBracketed)) (heq : kept = pre ++ .token t :: post) :
    Stays (before ++ pre) t (post ++ rest) := by
  intro op operand more hmore fits
  subst heq
  by_cases hpre : pre = []
  · -- The term would be the expression that starts with the string.
    subst hpre
    rw [List.nil_append, List.cons_append, hmore, List.map_cons, ofBracketed_token] at hreads
    obtain ⟨literal, dropped, hreplace⟩ := exists_steps_of_fits fits hreads
    rw [hreplace] at hsteps
    simp at hsteps
  · have hleft := (leftFree_iff _).2 fits.left
    rw [List.map_append] at hleft hterm hfree
    rw [List.map_cons] at hterm hfree
    have hstring : (ofBracketed (.token t)).isToken .string = true := by simp [isToken, fits.string]
    exact hterm.not_leftFree hfree (by simpa using hpre) hstring hleft

/-- Grouping rewrites the siblings of items if it does so in each group among them. -/
theorem Grouping.exists_rewriting (h : Grouping (before.map ofBracketed) (bs.map ofBracketed) us)
    (hbefore : Boundary (before.map ofBracketed) (bs.map ofBracketed))
    (hkept : ∀ b ∈ bs, StaysAs b (ofBracketed b).steps) : ∃ bs', Rewriting before bs (stepsAll us) bs' := by
  generalize hb : before.map ofBracketed = ts₀ at h hbefore
  generalize hts : bs.map ofBracketed = ts at h hbefore
  induction h generalizing before bs with
  | nil =>
    obtain rfl := List.map_eq_nil_iff.1 hts
    exact ⟨[], stepsAll_nil ▸ .nil⟩
  | @operand _ us rest ts u hfree hreads hterm hends _ ih =>
    obtain ⟨kept, rest, rfl, rfl, rfl⟩ := List.map_eq_append_iff.1 hts
    subst hb
    obtain ⟨hkeptFirst, hkeptRest⟩ := List.forall_mem_append.1 hkept
    obtain ⟨rest', hrest⟩ := ih hkeptRest (List.map_append ..) rfl (Boundary.behind_term hterm hends _)
    obtain hsteps | ⟨s, op, operand, literal, heq, hexpression, hliteral, rfl⟩ := hterm.steps
    · rw [stepsAll_cons, hsteps]
      rw [← List.map_append] at hreads
      exact hrest.prepend (fun pre t post heq => stays_of_term hterm hfree hreads hsteps heq) hkeptFirst
    · obtain ⟨b₁, kept, rfl, h₁, heq⟩ := List.map_eq_cons_iff.1 heq
      obtain ⟨b₂, kept, rfl, h₂, heq⟩ := List.map_eq_cons_iff.1 heq
      obtain ⟨b₃, kept, rfl, rfl, hnil⟩ := List.map_eq_cons_iff.1 heq
      obtain rfl := List.map_eq_nil_iff.1 hnil
      obtain rfl := ofBracketed_eq_leaf_iff.1 h₁
      obtain rfl := ofBracketed_eq_leaf_iff.1 h₂
      have hparts := hexpression
      rw [← ofBracketed_token, ← ofBracketed_token, isExpression_iff] at hparts
      simp only [List.map_cons, List.map_nil, ofBracketed_token] at hliteral hbefore hrest ⊢
      obtain ⟨hcount, text, htext, rfl⟩ := (literal?_eq_some_iff hexpression).1 hliteral
      rw [tokens_ofBracketed] at hcount htext
      rw [stepsAll_cons, steps_expression hliteral, tokens_ofBracketed]
      exact ⟨_, .literal ⟨by simpa [Bracketed.isToken] using hparts.1, hparts.2.1, hparts.2.2, hcount,
        (leftFree_iff before).1 (hbefore.leftFree hexpression.parts.1), (rightFree_iff rest).1 hends.rightFree⟩ htext
        hrest⟩
  | @other _ rest ts u halone _ ih =>
    obtain ⟨b, rest, rfl, rfl, rfl⟩ := List.map_eq_cons_iff.1 hts
    subst hb
    obtain ⟨hkeptFirst, hkeptRest⟩ := List.forall_mem_cons.1 hkept
    obtain ⟨rest', hrest⟩ := @ih (before ++ [b]) rest hkeptRest (by simp) rfl (hbefore.behind_other halone)
    have hstays : ∀ pre t post, [b] = pre ++ .token t :: post → Stays (before ++ pre) t (post ++ rest) := by
      -- A string starts a term, so it does not stand alone.
      intro pre t post heq op operand more _ fits
      obtain ⟨rfl, hrest⟩ | ⟨_, _, hrest⟩ := List.cons_eq_append_iff.1 heq
      · obtain ⟨rfl, rfl⟩ := List.cons.inj hrest
        have hatom : (ofBracketed (.token t)).isAtom = true := isAtom_of_isString (by simp [isToken, fits.string])
        rcases halone with ⟨_, hsign⟩ | hstarts
        · rw [isSign_eq_false_of_isAtom hatom] at hsign
          contradiction
        · rw [startsFactor_cons_of_isAtom hatom] at hstarts
          contradiction
      · simp at hrest
    have hresult := hrest.prepend hstays (by simpa using hkeptFirst)
    simpa using hresult

end Tree

namespace Bracketed

open Interpolation.Tree (ofBracketed stepsAll groupOperands)

mutual
theorem staysAs_ofBracketed : (b : Bracketed) → StaysAs b (ofBracketed b).steps
  | .token t => by simp [StaysAs]
  | .group opening cs closing => by
    obtain ⟨cs', h⟩ := (Tree.grouping_groupOperands ([].map ofBracketed) (cs.map ofBracketed)).exists_rewriting (.nil _)
      (staysAs_of_mem cs)
    refine ⟨_, cs', h, ?_⟩
    rw [ofBracketed, Tree.steps_node (by decide), Tree.ofBracketedAll_eq_map]
    simp [Tree.endsWith]
theorem staysAs_of_mem : (bs : List Bracketed) → ∀ b ∈ bs, StaysAs b (ofBracketed b).steps
  | [] => by simp
  | b :: bs => List.forall_mem_cons.2 ⟨staysAs_ofBracketed b, staysAs_of_mem bs⟩
end

/-- The steps of a list of siblings rewrite its items. -/
theorem exists_rewriting (bs : List Bracketed) :
    ∃ bs', Rewriting [] bs (stepsAll (groupOperands false (bs.map ofBracketed))) bs' :=
  (Tree.grouping_groupOperands ([].map ofBracketed) (bs.map ofBracketed)).exists_rewriting (.nil _) (staysAs_of_mem bs)

end Bracketed

namespace Pattern

/-- The steps of a source rewrite its items. -/
theorem exists_rewriting_parse (source : Text) : ∃ bs', Bracketed.Rewriting []
    (Bracketed.ofTokens (Token.scan source)) (Tree.parse source).steps bs' := by
  rw [Tree.parse, Tree.steps_node (by decide), Tree.ofBracketedAll_eq_map]
  exact Bracketed.exists_rewriting _

end Pattern

end Interpolation

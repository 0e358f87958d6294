import Interpolation.Proofs.Rewriting.Items
import Interpolation.Proofs.Rewriting.Level

/-!
# Reading a rewritten source

A rewritten source is read as its rewritten items if what stands in front of each literal is settled. The literal is
read where the format string was, and all other items are read as they were.

* `Step.AllSettled` — what stands in front of each literal is settled; it goes on behind an item (`AllSettled.behind`);
* `Level.trivia_target`, `lexeme?_target` — a token that is kept is read as it was;
* `Item.kept`, `Item.kept_group`, `Run.literal` — so is an item; a literal is read as the tokens of its spelling;
* `Inside.rewritten`, `File.rewritten` — a group and a source.
-/

namespace Interpolation

open Bracketed (Rewriting Fits)
open Literal (isFirst)
open Text (Settled)
open Token (lexeme?)

namespace Step

/-- The format string `s` behind the steps `pre` and its literal can be told from what is in front of them: that is
settled, and both start as literals do. -/
structure SettledAt (pre : List Step) (s : Token) (literal : Text) : Prop where
  before : Settled (source pre ++ s.trivia)
  string : s.text.head?.any isFirst = true
  literal : literal.head?.any isFirst = true

/-- What stands in front of each literal is settled. -/
def AllSettled (σ : List Step) : Prop :=
  ∀ pre s literal dropped post, σ = pre ++ .replace s literal dropped :: post → SettledAt pre s literal

variable {σ τ : List Step} {t : Token}

theorem exists_of_head? {s : Text} (h : s.head?.any isFirst = true) : ∃ c v, s = c :: v ∧ isFirst c = true := by
  cases s with
  | nil => contradiction
  | cons c v => exact ⟨c, v, rfl, by simpa using h⟩

/-- What stands in front of the literals behind a place is settled from there on. -/
theorem AllSettled.behind (h : AllSettled (σ ++ τ)) (hinherits : Grammar.Inherits (source (σ ++ τ)) (source τ)) :
    AllSettled τ := by
  rintro pre s literal dropped post rfl
  have hat := h (σ ++ pre) s literal dropped post (by simp)
  obtain ⟨c, v, hs, hc⟩ := exists_of_head? hat.string
  have hsource : source (pre ++ .replace s literal dropped :: post) =
      source pre ++ s.trivia ++ c :: (v ++ (Token.renderAll dropped ++ source post)) := by
    simp [Token.render, hs]
  refine ⟨hinherits.settled hc ?_ hsource hat.before, hat.string, hat.literal⟩
  rw [source_append, hsource]
  simp

@[simp] theorem source_map_keep (ts : List Token) : source (ts.map keep) = Token.renderAll ts := by
  induction ts with
  | nil => rfl
  | cons t ts ih => simp [ih, Token.render]

@[simp] theorem target_map_keep (ts : List Token) : target (ts.map keep) = Token.renderAll ts := by
  induction ts with
  | nil => rfl
  | cons t ts ih => simp [ih, Token.render]

theorem eq_map_keep_or (σ : List Step) : (∃ ts : List Token, σ = ts.map keep) ∨
    ∃ (ts : List Token) (s : Token) (literal : Text) (dropped : List Token) (post : List Step),
      σ = ts.map keep ++ .replace s literal dropped :: post := by
  induction σ with
  | nil => exact .inl ⟨[], rfl⟩
  | cons step σ ih =>
    cases step with
    | replace s literal dropped => exact .inr ⟨[], s, literal, dropped, σ, rfl⟩
    | keep t =>
      obtain ⟨ts, rfl⟩ | ⟨ts, s, literal, dropped, post, rfl⟩ := ih
      · exact .inl ⟨t :: ts, rfl⟩
      · exact .inr ⟨t :: ts, s, literal, dropped, post, rfl⟩

/-- Behind a token that is kept the two texts are the same, or the same up to the first literal. -/
theorem AllSettled.fork (h : AllSettled (.keep t :: σ)) : source σ = target σ ∨
    ∃ p c v c' v', source σ = p ++ c :: v ∧ target σ = p ++ c' :: v' ∧ isFirst c = true ∧ isFirst c' = true ∧
      Settled (t.render ++ p) := by
  obtain ⟨ts, rfl⟩ | ⟨ts, s, literal, dropped, post, rfl⟩ := eq_map_keep_or σ
  · left
    simp
  · right
    have hat := h (.keep t :: ts.map keep) s literal dropped post rfl
    obtain ⟨c, v, hs, hc⟩ := exists_of_head? hat.string
    obtain ⟨c', v', rfl, hc'⟩ := exists_of_head? hat.literal
    refine ⟨Token.renderAll ts ++ s.trivia, c, v ++ (Token.renderAll dropped ++ source post), c', v' ++ target post,
      by simp [Token.render, hs], by simp, hc, hc', ?_⟩
    simpa using hat.before

end Step

namespace Grammar

open Step (source target AllSettled)

variable {ℓ : Level} {σ τ : List Step} {t opening closing : Token} {s r text rest : Text}
  {before bs bs' cs cs' : List Bracketed} {d : Char} {kind : TokenKind}

/-! ## A token that is kept -/

/-- The trivia in front of a token that is kept are what they were. -/
theorem Level.trivia_target (h : AllSettled (.keep t :: σ))
    (htrivia : ℓ.trivia (t.render ++ source σ) = (t.trivia, t.text ++ source σ)) :
    ℓ.trivia (t.render ++ target σ) = (t.trivia, t.text ++ target σ) := by
  obtain heq | ⟨p, c, v, c', v', hsource, htarget, hc, hc', hsettled⟩ := h.fork
  · rwa [heq] at htrivia
  · rw [hsource, ← List.append_assoc] at htrivia
    obtain ⟨q, -, hq, -, -, htail⟩ := ℓ.settled hsettled hc htrivia (by simp [Token.render])
    rw [← List.append_assoc] at hq
    rw [htarget, ← List.append_assoc, htail c' v' hc', ← List.append_cancel_right hq, List.append_assoc]

/-- A token that is kept is read as what it was. -/
theorem lexeme?_target (h : AllSettled (.keep t :: σ))
    (htrivia : ℓ.trivia (t.render ++ source σ) = (t.trivia, t.text ++ source σ)) (hne : t.text ≠ [])
    (hread : lexeme? (t.text ++ source σ) = some (kind, t.text, source σ)) :
    lexeme? (t.text ++ target σ) = some (kind, t.text, target σ) := by
  obtain heq | ⟨p, c, v, c', v', hsource, htarget, hc, hc', hsettled⟩ := h.fork
  · rwa [heq] at hread
  · rw [hsource, ← List.append_assoc] at htrivia hread
    obtain ⟨q, -, hq, hsettled', hclear, -⟩ := ℓ.settled hsettled hc htrivia (by simp [Token.render])
    rw [← List.append_assoc] at hq
    obtain rfl := List.append_cancel_right hq
    obtain ⟨w, hw, -, -, htail⟩ := hsettled'.lexeme hclear (by simp [hne]) hc hread
    obtain rfl := List.append_cancel_left hw
    rw [htarget, ← List.append_assoc, htail c' v' hc']

/-- A token that is kept is an item as it was. -/
theorem Item.kept (h : Item ℓ (source (.keep t :: σ)) (.token t) (source σ)) (hsettled : AllSettled (.keep t :: σ))
    (halike : StopsAlike (source σ) (target σ)) : Item ℓ (target (.keep t :: σ)) (.token t) (target σ) := by
  rw [Step.source_keep] at h
  rw [Step.target_keep]
  generalize hs : t.render ++ source σ = s at h
  generalize hrest : source σ = rest at h
  cases h with
  | unpaired trivia opens attempt fails =>
    subst hs hrest
    have htarget := Level.trivia_target hsettled trivia
    obtain ⟨a, ha, ha'⟩ := halike
    obtain ⟨cs', inner', x', h', rfl⟩ := ha'
    have hhead := ha.eq_of_inside attempt
    exact .unpaired htarget opens h' (hhead ▸ fails)
  | token trivia plain reads =>
    subst hs hrest
    have hread := Token.lexeme?_append reads
    subst hread
    have hne := Token.lexeme?_ne_nil reads
    have htarget := Level.trivia_target hsettled trivia
    obtain ⟨c, v, rfl⟩ := List.exists_cons_of_ne_nil hne
    exact .token htarget plain (lexeme?_target hsettled trivia hne reads)

/-- A group is an item as it was, around what its contents have become. -/
theorem Item.kept_group (h : Item ℓ (source (.keep opening :: (σ ++ .keep closing :: τ))) (.group opening cs closing) rest)
    (hcs : source σ = Bracketed.text cs) (hsettled : AllSettled (.keep opening :: (σ ++ .keep closing :: τ)))
    (hinside : ∀ d, closing.text = [d] → isCloser d = true → AllSettled (σ ++ .keep closing :: τ) →
      Inside (source (σ ++ .keep closing :: τ)) cs closing.trivia (d :: source τ) →
      Inside (target (σ ++ .keep closing :: τ)) cs' closing.trivia (d :: target τ)) :
    Item ℓ (target (.keep opening :: (σ ++ .keep closing :: τ))) (.group opening cs' closing) (target τ) := by
  have happend := h.append
  simp only [Step.source_keep, Step.source_append, Bracketed.text_group, Bracketed.text_nil, hcs, List.append_assoc,
    List.append_nil, List.append_cancel_left_eq] at happend
  subst happend
  rw [Step.source_keep] at h
  rw [Step.target_keep]
  generalize hs : opening.render ++ source (σ ++ .keep closing :: τ) = s at h
  cases h with
  | @group t r inner _ o d _ trivia attempt paired =>
    subst hs
    have hr : r = source (σ ++ .keep ⟨.operator, inner, [d]⟩ :: τ) := by
      have := Level.append_of_eq trivia
      simpa [Token.render] using this
    subst hr
    have hbracket := Inherits.bracket (.inl (isOpener_of_mem_shapes paired))
      (source (σ ++ .keep ⟨.operator, inner, [d]⟩ :: τ))
    have hbehind : AllSettled (σ ++ .keep ⟨.operator, inner, [d]⟩ :: τ) :=
      Step.AllSettled.behind (σ := [.keep ⟨.operator, t, [o]⟩]) hsettled
        (by simpa using (Inherits.trivia trivia).trans hbracket)
    exact .group (Level.trivia_target hsettled trivia)
      (hinside d rfl (isCloser_of_mem_shapes paired) hbehind attempt) paired

/-! ## A literal -/

/-- A literal is read as the tokens of its spelling. -/
theorem Run.literal {z : Token} {literal : Text} {dropped : List Token}
    (h : Item ℓ (source (.replace z literal dropped :: σ)) (.token z) rest)
    (hsettled : AllSettled (.replace z literal dropped :: σ)) (hliteral : Literal.Interpolated literal) :
    Run ℓ (target (.replace z literal dropped :: σ)) ((Literal.spelling z.trivia literal).map .token) (target σ) := by
  have hat := hsettled [] z literal dropped σ rfl
  obtain ⟨c, v, hc, hfirst⟩ := Step.exists_of_head? hat.string
  obtain ⟨c', v', rfl, hfirst'⟩ := Step.exists_of_head? hat.literal
  have htrivia : ℓ.trivia (z.trivia ++ c' :: (v' ++ target σ)) = (z.trivia, c' :: (v' ++ target σ)) := by
    have hsource := h.trivia_eq
    rw [Step.source_replace, Token.render, hc, List.append_assoc, List.cons_append] at hsource
    obtain ⟨q, hq, -, -, -, htail⟩ := ℓ.settled hat.before hfirst hsource (Nat.le_refl _)
    obtain rfl : q = [] := by simpa using hq
    exact htail c' (v' ++ target σ) hfirst'
  rw [Step.target_replace, List.cons_append]
  have hplain {d : Char} (hd : isFirst d = true) {w : Text} :
      ∀ e ∈ (d :: w).head?, isOpener e = false ∧ ℓ.isEnd e = false := by
    intro e he
    obtain rfl := Option.some.inj he
    exact ⟨(not_bracket_first hd).1, (ℓ.first [] hd).1⟩
  obtain ⟨hspelling, hread⟩ | ⟨letters, mark, quoted, hspelling, -, -, hmark, -, hread⟩ := hliteral.reads z.trivia
  · rw [hspelling]
    exact .cons (.token htrivia (hplain hfirst') (hread _)) .nil
  · rw [hspelling]
    obtain ⟨hname, hstring⟩ := hread (target σ)
    exact .cons (.token htrivia (hplain hfirst') hname) (.cons (.token (ℓ.first _ hmark).2 (hplain hmark) hstring) .nil)

theorem names_ne_nil {s : Token} {op operand : Bracketed} {post : List Bracketed} (h : Fits before s op operand post) :
    Token.names operand.tokens ≠ [] := by
  cases operand with
  | token n =>
    have hname : n.kind = .name := by simpa [Bracketed.isToken, Bracketed.isNameTuple] using h.names
    exact Token.names_ne_nil (by simp [Bracketed.tokens]) hname
  | group opening contents closing =>
    have hnames := h.names
    simp only [Bracketed.isToken, Bool.false_eq_true, false_or, Bracketed.isNameTuple, Bool.and_eq_true] at hnames
    obtain ⟨b, more, rfl, hb⟩ := Bracketed.exists_head_of_isNameList hnames.1.2
    cases b with
    | group => contradiction
    | token n =>
      have hname : n.kind = .name := by simpa [Bracketed.isToken] using hb
      exact Token.names_ne_nil (by simp [Bracketed.tokens, Bracketed.tokensAll]) hname

/-- Names that are read from a source are words. -/
theorem isContinue_of_mem_names {ts : List Token}
    (h : ∀ u ∈ ts, u.kind = .name → ∃ r rest, lexeme? r = some (u.kind, u.text, rest)) :
    ∀ a ∈ Token.names ts, ∀ c ∈ a, Identifier.isContinue c = true := by
  intro a ha
  obtain ⟨u, hu, rfl⟩ := List.mem_map.1 ha
  obtain ⟨hmem, hname⟩ := List.mem_filter.1 hu
  have hname : u.kind = .name := by simpa using hname
  obtain ⟨_, _, hread⟩ := h u hmem hname
  rw [hname] at hread
  exact Token.isContinue_of_lexeme? hread

/-- What is read as the format string of an expression becomes an interpolated literal. -/
theorem Run.interpolated {z : Token} {op operand : Bracketed} {post : List Bracketed} {text : Text}
    (h : Run ℓ s [.token z, op, operand] rest) (fits : Fits before z op operand post)
    (filled : substitute z.text (Token.names operand.tokens) = .ok text) :
    Literal.Interpolated (markInterpolated text) := by
  obtain _ | ⟨hz, _ | ⟨_, _ | ⟨hoperand, _⟩⟩⟩ := h
  obtain ⟨r, rest', hread⟩ := hz.exists_lexeme? (List.mem_singleton_self z) (by simp [fits.string])
  rw [fits.string] at hread
  have hliteral := Token.literal_of_lexeme? hread
  rw [← Token.lexeme?_append hread] at hliteral
  refine Literal.interpolated_of_substitute hliteral ?_ ?_ filled
  · rw [fits.count]
    exact mt List.length_eq_zero_iff.1 (names_ne_nil fits)
  · exact isContinue_of_mem_names fun u hu hname => hoperand.exists_lexeme? hu (by simp [hname])

/-! ## Groups and sources -/

theorem closer?_eq_none {b : Bracketed} (h : b.isToken .unknown = false) : closer? b = none := by
  unfold closer?
  split
  · simp [Bracketed.isToken] at h
  · rfl

/-- The items of an expression are a string, an operator and a name or a group. -/
theorem isToken_eq_false_of_fits {z : Token} {op operand : Bracketed} {post : List Bracketed} {k : TokenKind}
    (h : Fits before z op operand post) (hk : k ≠ .string ∧ k ≠ .operator ∧ k ≠ .name) :
    ∀ b ∈ [.token z, op, operand], b.isToken k = false := by
  have hstring : (Bracketed.token z).isToken k = false := by simp [Bracketed.isToken, h.string, hk.1.symm]
  have hpercent : op.isToken k = false := by
    have := h.percent
    cases op with
    | group => rfl
    | token op =>
      simp only [Bracketed.isOperator, Token.isOperator, Bool.and_eq_true, decide_eq_true_eq] at this
      simp [Bracketed.isToken, this.1, hk.2.1.symm]
  have hnames : operand.isToken k = false := by
    have := h.names
    cases operand with
    | group => rfl
    | token n =>
      have hname : n.kind = .name := by simpa [Bracketed.isToken, Bracketed.isNameTuple] using this
      simp [Bracketed.isToken, hname, hk.2.2.symm]
  simp [hstring, hpercent, hnames]

theorem closer?_of_spelling {z literal : Text} :
    ∀ b ∈ (Literal.spelling z literal).map Bracketed.token, closer? b = none := by
  unfold Literal.spelling
  dsimp only
  split <;> simp [closer?]

/-- A rewritten group is read as its rewritten items, up to the bracket that closed it. -/
theorem Inside.rewritten (hσ : Rewriting before bs σ bs') (hd : closing.text = [d]) (hcloser : isCloser d = true)
    (hsettled : AllSettled (σ ++ .keep closing :: τ))
    (h : Inside (source (σ ++ .keep closing :: τ)) bs closing.trivia (d :: source τ)) :
    Inside (target (σ ++ .keep closing :: τ)) bs' closing.trivia (d :: target τ) := by
  induction hσ generalizing d closing τ with
  | nil =>
    obtain ⟨htrivia, -⟩ := Inside.nil_iff.1 h
    rw [List.nil_append, Step.source_keep, ← List.singleton_append, ← hd] at htrivia
    refine Inside.nil_iff.2 ⟨?_, by simpa using hcloser⟩
    rw [List.nil_append, Step.target_keep, ← List.singleton_append, ← hd]
    exact Level.trivia_target (ℓ := .group) hsettled htrivia
  | @token _ _ _ σ t _ _ ih =>
    obtain ⟨rest, hitem, hothers⟩ := Inside.cons_iff.1 h
    obtain rfl : rest = source (σ ++ .keep closing :: τ) := by simpa using hitem.append
    have hbehind := Step.AllSettled.behind (σ := [.keep t]) hsettled hitem.inherits
    have hothers' := ih hd hcloser hbehind hothers
    have halike : StopsAlike (source (σ ++ .keep closing :: τ)) (target (σ ++ .keep closing :: τ)) :=
      ⟨some d, ⟨_, _, _, hothers, rfl⟩, ⟨_, _, _, hothers', rfl⟩⟩
    exact Inside.cons_iff.2 ⟨_, hitem.kept hsettled halike, hothers'⟩
  | @group _ _ _ _ _ σ σ' o c hinside _ ihinside ih =>
    have hshape : Step.keep o :: (σ ++ .keep c :: σ') ++ .keep closing :: τ =
        .keep o :: (σ ++ .keep c :: (σ' ++ .keep closing :: τ)) := by simp
    rw [hshape] at h hsettled ⊢
    obtain ⟨rest, hitem, hothers⟩ := Inside.cons_iff.1 h
    obtain rfl : rest = source (σ' ++ .keep closing :: τ) := by simpa [hinside.source_eq] using hitem.append
    have hbehind : AllSettled (σ' ++ .keep closing :: τ) :=
      Step.AllSettled.behind (σ := .keep o :: (σ ++ [.keep c])) (by simpa using hsettled) (by simpa using hitem.inherits)
    refine Inside.cons_iff.2 ⟨_, hitem.kept_group hinside.source_eq hsettled ?_, ih hd hcloser hbehind hothers⟩
    exact fun d hd hcloser hsettled h => ihinside hd hcloser hsettled h
  | @literal _ _ _ σ z op operand text fits filled _ ih =>
    obtain ⟨s₁, hz, h⟩ := Inside.cons_iff.1 h
    obtain ⟨s₂, hop, h⟩ := Inside.cons_iff.1 h
    obtain ⟨rest, hoperand, hothers⟩ := Inside.cons_iff.1 h
    have hrun := Run.cons hz (.cons hop (.cons hoperand .nil))
    obtain rfl : rest = source (σ ++ .keep closing :: τ) := by
      simpa [Bracketed.text, Bracketed.tokensAll, Bracketed.tokens, Token.render] using hrun.append
    have hbehind := Step.AllSettled.behind (σ := [.replace z _ _]) hsettled hrun.inherits
    have hliteral := Run.literal hz hsettled (hrun.interpolated fits filled)
    exact hliteral.inside (ih hd hcloser hbehind hothers)

/-- A rewritten source is read as its rewritten items. A group that starts in front of it stops at the same character. -/
theorem File.rewritten (hσ : Rewriting before bs σ bs') (hsettled : AllSettled σ) (h : File (source σ) bs) :
    File (target σ) bs' ∧ StopsAlike (source σ) (target σ) := by
  induction hσ with
  | nil => cases h
  | @token _ _ _ σ t _ hothers ih =>
    obtain ⟨z, hstop, heq, rfl⟩ | ⟨rest, hitem, hrest⟩ := File.cons_iff.1 h
    · obtain rfl := Bracketed.token.inj heq
      cases hothers
      exact ⟨h, .refl _⟩
    · obtain rfl : rest = source σ := by simpa using hitem.append
      obtain ⟨hfile, halike⟩ := ih (Step.AllSettled.behind (σ := [.keep t]) hsettled hitem.inherits) hrest
      have hkept := hitem.kept hsettled halike
      exact ⟨File.cons_iff.2 (.inr ⟨_, hkept, hfile⟩), hitem.stopsAlike hkept rfl halike⟩
  | @group _ cs cs' _ _ σ τ opening closing hinside _ _ ih =>
    obtain ⟨z, -, heq, -⟩ | ⟨rest, hitem, hrest⟩ := File.cons_iff.1 h
    · cases heq
    · obtain rfl : rest = source τ := by simpa [hinside.source_eq] using hitem.append
      have hbehind : AllSettled τ := Step.AllSettled.behind (σ := .keep opening :: (σ ++ [.keep closing]))
        (by simpa using hsettled) (by simpa using hitem.inherits)
      obtain ⟨hfile, halike⟩ := ih hbehind hrest
      have hkept := hitem.kept_group hinside.source_eq hsettled fun d hd hcloser hsettled h =>
        Inside.rewritten hinside hd hcloser hsettled h
      exact ⟨File.cons_iff.2 (.inr ⟨_, hkept, hfile⟩), hitem.stopsAlike hkept rfl halike⟩
  | @literal _ _ _ σ z op operand text fits filled _ ih =>
    obtain ⟨hend₁, hend₂, hend₃⟩ : (Bracketed.token z).isToken .endMarker = false ∧
        op.isToken .endMarker = false ∧ operand.isToken .endMarker = false := by
      simpa using isToken_eq_false_of_fits fits (k := .endMarker) (by decide)
    obtain ⟨s₁, hz, h⟩ := File.exists_item h hend₁
    obtain ⟨s₂, hop, h⟩ := File.exists_item h hend₂
    obtain ⟨rest, hoperand, hrest⟩ := File.exists_item h hend₃
    have hrun := Run.cons hz (.cons hop (.cons hoperand .nil))
    obtain rfl : rest = source σ := by
      simpa [Bracketed.text, Bracketed.tokensAll, Bracketed.tokens, Token.render] using hrun.append
    obtain ⟨hfile, a, ha, ha'⟩ := ih (Step.AllSettled.behind (σ := [.replace z _ _]) hsettled hrun.inherits) hrest
    have hliteral := Run.literal hz hsettled (hrun.interpolated fits filled)
    have hclosers : ∀ b ∈ [.token z, op, operand], closer? b = none :=
      fun b hb => closer?_eq_none (isToken_eq_false_of_fits fits (by decide) b hb)
    exact ⟨hliteral.file hfile, a, hrun.stops hclosers ha, hliteral.stops closer?_of_spelling ha'⟩

end Grammar

end Interpolation

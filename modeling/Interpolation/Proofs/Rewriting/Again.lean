import Interpolation.Proofs.Rewriting.Output

/-!
# Transforming the output again

A second transformation finds nothing to do. A literal has no placeholder left, and a string that would become a literal
among the rewritten items would have become one among the items that these come from.

* `Bracketed.Follows` — rewritten siblings are no freer on their left than the siblings they come from;
* `Rewriting.freeRight`, `Rewriting.eq_of_no_string` — the same on the right, and for the names of an operand;
* `Rewriting.stays` — a string that stays in a rewriting stays in the next one;
* `Rewriting.quiet` — rewriting what was rewritten keeps every token;
* `Pattern.transform_output` — transforming the output of a transformation changes nothing.
-/

namespace Interpolation

namespace Bracketed

variable {before before' bs bs' bs'' rest rest' cs cs' : List Bracketed} {σ σ' : List Step} {b b' : Bracketed}
  {t : Token} {z literal : Text}

/-! ## The spelling of a literal -/

/-- A literal is read as a string, or as a name and a string that has the placeholders of the literal. -/
theorem spelling_eq (z literal : Text) :
    Literal.spelling z literal = [⟨.string, z, literal⟩] ∨ ∃ letters quoted,
      Literal.spelling z literal = [⟨.name, z, letters⟩, ⟨.string, [], quoted⟩] ∧
        placeholderCount quoted = placeholderCount literal := by
  unfold Literal.spelling
  dsimp only
  split
  · exact .inl rfl
  · refine .inr ⟨_, _, rfl, ?_⟩
    have hletters : ∀ c ∈ literal.takeWhile Literal.isLetter, Literal.isLetter c = true :=
      fun c hc => List.mem_takeWhile_imp hc
    have hcount := placeholderCount_append (t := literal.dropWhile Literal.isLetter) (Literal.percent_not_mem hletters)
    rwa [List.takeWhile_append_dropWhile, eq_comm] at hcount

/-- The first token of a literal is an operand. -/
theorem head?_spelling (z literal : Text) (rest : List Bracketed) :
    ∃ t bs, (Literal.spelling z literal).map .token ++ rest = .token t :: bs ∧ (t.kind = .string ∨ t.kind = .name) := by
  rcases spelling_eq z literal with h | ⟨letters, quoted, h, -⟩ <;> rw [h]
  · exact ⟨_, _, rfl, .inl rfl⟩
  · exact ⟨_, _, rfl, .inr rfl⟩

/-! ## What is in front -/

/-- The siblings `before'` are no freer for a string behind them than the siblings `before`, and end with an operand
if these do. -/
structure Follows (before before' : List Bracketed) : Prop where
  free : FreeLeft before' → FreeLeft before
  operand : before'.getLast?.any isAtomLike = before.getLast?.any isAtomLike

namespace Follows

theorem nil : Follows [] [] := ⟨id, rfl⟩

/-- An item more, of the same class on both sides. -/
theorem concat (h : Follows before before') (hstring : b'.isToken .string = b.isToken .string)
    (hawait : b'.isAwait = b.isAwait) (hproduct : b'.isProductOrPower = b.isProductOrPower)
    (hsign : b'.isSign = b.isSign) (hatom : b'.isAtomLike = b.isAtomLike) :
    Follows (before ++ [b]) (before' ++ [b']) := by
  refine ⟨fun hfree => ?_, by simpa using hatom⟩
  obtain ⟨h₁, h₂, h₃, h₄⟩ := hfree
  simp only [List.getLast?_concat, Option.any_some, List.dropLast_concat, hstring, hawait, hproduct, hsign,
    h.operand] at h₁ h₂ h₃ h₄
  exact ⟨by simpa using h₁, by simpa using h₂, by simpa using h₃, by simpa using h₄⟩

theorem token (h : Follows before before') (t : Token) : Follows (before ++ [.token t]) (before' ++ [.token t]) :=
  h.concat rfl rfl rfl rfl rfl

theorem group (h : Follows before before') (opening closing : Token) (cs cs' : List Bracketed) :
    Follows (before ++ [.group opening cs closing]) (before' ++ [.group opening cs' closing]) :=
  h.concat rfl rfl rfl rfl rfl

/-- Behind a string no string is free. -/
theorem string (ht : t.kind = .string) (hatom : before.getLast?.any isAtomLike = true) :
    Follows before (before' ++ [.token t]) := by
  refine ⟨fun hfree => ?_, by simp [hatom, isAtomLike, ht]⟩
  have := hfree.string
  simp [isToken, ht] at this

end Follows

theorem isAtomLike_of_names (h : b.isToken .name = true ∨ b.isNameTuple = true) : b.isAtomLike = true := by
  cases b with
  | group => rfl
  | token t =>
    have hname : t.kind = .name := by simpa [isToken, isNameTuple] using h
    simp [isAtomLike, hname]

/-! ## What is behind -/

/-- What starts with an operand still does. -/
theorem Rewriting.head?_isAtomLike (h : Rewriting before bs σ bs') :
    bs'.head?.any isAtomLike = bs.head?.any isAtomLike := by
  cases h with
  | nil => rfl
  | token => rfl
  | group => rfl
  | @literal _ _ rest' _ s _ _ text fits _ _ =>
    obtain ⟨t, more, heq, ht⟩ := head?_spelling s.trivia (markInterpolated text) rest'
    rw [heq]
    rcases ht with ht | ht <;> simp [isAtomLike, ht, fits.string]

/-- A name in front is kept. -/
theorem Rewriting.head?_isName (h : Rewriting before bs σ bs') (hname : bs.head?.any (isToken .name) = true) :
    bs'.head?.any (isToken .name) = true := by
  cases h with
  | nil => exact hname
  | token => exact hname
  | group => exact hname
  | literal fits _ _ => simp [isToken, fits.string] at hname

/-- What starts with a factor still does. -/
theorem Rewriting.startsFactor_eq (h : Rewriting before bs σ bs') : startsFactor bs' = startsFactor bs := by
  induction h with
  | nil => rfl
  | token _ others ih => rw [startsFactor, startsFactor, ih, others.head?_isAtomLike]
  | group => rfl
  | @literal _ _ rest' _ s _ _ text fits _ _ _ =>
    have hfactor {t : Token} (ht : t.kind = .string ∨ t.kind = .name) (bs : List Bracketed) :
        startsFactor (.token t :: bs) = true := by
      rcases ht with ht | ht <;> simp [startsFactor, isSign, isOperator, Token.isOperator, isAwait, isAtomLike, ht]
    obtain ⟨t, more, heq, ht⟩ := head?_spelling s.trivia (markInterpolated text) rest'
    rw [heq, hfactor ht, hfactor (.inl fits.string)]

/-- What does not go on with an operand among the rewritten items does not go on with it among the items. -/
theorem Rewriting.freeRight (h : Rewriting before bs σ bs') (hfree : FreeRight bs') : FreeRight bs := by
  cases h with
  | nil => exact hfree
  | token _ others =>
    refine ⟨hfree.group, fun hdot => ?_, fun hoperator => ?_⟩
    · have hnot := hfree.member hdot
      by_contra hname
      rw [List.tail_cons, others.head?_isName (by simpa using hname)] at hnot
      contradiction
    · rw [List.tail_cons, ← others.startsFactor_eq]
      exact hfree.operator hoperator
  | group => exact ⟨hfree.group, by simp [isOperator], by simp [isProductOrPower, isOperator]⟩
  | literal fits _ _ =>
    constructor <;> simp [isCallOrSubscript, isOperator, isProductOrPower, Token.isOperator, fits.string]

/-! ## The operand -/

theorem exists_token_of_isToken {k : TokenKind} (h : b.isToken k = true) : ∃ t, b = .token t ∧ t.kind = k := by
  cases b with
  | token t => exact ⟨t, rfl, by simpa [isToken] using h⟩
  | group => contradiction

theorem exists_token_of_isOperator {op : Text} (h : b.isOperator op = true) : ∃ t, b = .token t ∧ t.kind = .operator := by
  cases b with
  | token t =>
    simp only [isOperator, Token.isOperator, Bool.and_eq_true, decide_eq_true_eq] at h
    exact ⟨t, rfl, h.1⟩
  | group => contradiction

/-- Names and commas are tokens, and no strings. -/
theorem exists_token_of_isNameList (h : isNameList bs = true) : ∀ b ∈ bs, ∃ t, b = .token t ∧ t.kind ≠ .string := by
  have hname {b : Bracketed} (hb : b.isToken .name = true) : ∃ t, b = .token t ∧ t.kind ≠ .string := by
    obtain ⟨t, rfl, ht⟩ := exists_token_of_isToken hb
    exact ⟨t, rfl, by simp [ht]⟩
  fun_induction isNameList bs with
  | case1 => contradiction
  | case2 n => simpa using hname h
  | case3 n c rest ih =>
    simp only [Bool.and_eq_true, Bool.or_eq_true, List.isEmpty_iff] at h
    obtain ⟨⟨hn, hc⟩, hrest⟩ := h
    obtain ⟨t, rfl, ht⟩ := exists_token_of_isOperator hc
    refine List.forall_mem_cons.2 ⟨hname hn, List.forall_mem_cons.2 ⟨⟨t, rfl, by simp [ht]⟩, ?_⟩⟩
    rcases hrest with rfl | hrest
    · simp
    · exact ih hrest

/-- Where all rewritten items are tokens and none is a string, nothing was rewritten. -/
theorem Rewriting.eq_of_no_string (h : Rewriting before bs σ bs')
    (hplain : ∀ b ∈ bs', ∃ t, b = .token t ∧ t.kind ≠ .string) : bs' = bs := by
  induction h with
  | nil => rfl
  | token _ _ ih => rw [ih (List.forall_mem_cons.1 hplain).2]
  | group _ _ _ _ =>
    obtain ⟨t, ht, -⟩ := hplain _ List.mem_cons_self
    cases ht
  | @literal _ _ _ _ s _ _ text _ _ _ _ =>
    -- The spelling of the literal has a string in it.
    obtain ⟨t, ht, hstring⟩ : ∃ t ∈ Literal.spelling s.trivia (markInterpolated text), t.kind = .string := by
      rcases spelling_eq s.trivia (markInterpolated text) with h | ⟨letters, quoted, h, -⟩ <;> simp [h]
    obtain ⟨u, hu, hnot⟩ := hplain (.token t) (List.mem_append_left _ (List.mem_map_of_mem ht))
    obtain rfl := Bracketed.token.inj hu
    contradiction

/-- A name tuple among the rewritten items was not rewritten. -/
theorem Rewriting.eq_of_isNameTuple {opening closing : Token} (h : Rewriting [] cs σ cs')
    (hnames : (Bracketed.group opening cs' closing).isNameTuple = true) : cs' = cs := by
  simp only [isNameTuple, Bool.and_eq_true] at hnames
  exact h.eq_of_no_string (exists_token_of_isNameList hnames.1.2)

/-! ## Rewriting again -/

/-- A rewritten item is a token that was kept, a group that was kept around its contents, or the first token of a
literal. -/
theorem Rewriting.cases_cons (h : Rewriting before bs σ (b' :: rest')) :
    (∃ t rest σ', b' = .token t ∧ bs = .token t :: rest ∧ Rewriting (before ++ [.token t]) rest σ' rest') ∨
    (∃ opening cs cs' closing rest τ σ', b' = .group opening cs' closing ∧ bs = .group opening cs closing :: rest ∧
      Rewriting [] cs τ cs' ∧ Rewriting (before ++ [.group opening cs closing]) rest σ' rest') ∨
    ∃ t, b' = .token t ∧ (t.kind = .string ∨ t.kind = .name) ∧ FreeLeft before := by
  generalize heq : b' :: rest' = bs' at h
  cases h with
  | nil => contradiction
  | token _ others =>
    obtain ⟨rfl, rfl⟩ := List.cons.inj heq
    exact .inl ⟨_, _, _, rfl, rfl, others⟩
  | group inside others =>
    obtain ⟨rfl, rfl⟩ := List.cons.inj heq
    exact .inr (.inl ⟨_, _, _, _, _, _, _, rfl, rfl, inside, others⟩)
  | @literal _ _ rest' _ s _ _ text fits _ _ =>
    obtain ⟨t, more, ht, hkind⟩ := head?_spelling s.trivia (markInterpolated text) rest'
    obtain ⟨rfl, -⟩ := List.cons.inj (heq.trans ht)
    exact .inr (.inr ⟨t, rfl, hkind, fits.left⟩)

/-- Behind an operand and a percent sign no string is free. -/
theorem not_freeLeft_percent {s op : Token} (hs : s.kind = .string) (hop : op.isOperator ['%'] = true) :
    ¬ FreeLeft (before ++ [.token s] ++ [.token op]) := by
  intro hfree
  have hnot := hfree.operator (by simp [isProductOrPower, isOperator, hop])
  simp [isAtomLike, hs] at hnot

/-- A string that stays in a rewriting stays when the rewritten items are rewritten. -/
theorem Rewriting.stays (hfollows : Follows before before') (hstays : Stays before t rest)
    (h : Rewriting (before ++ [.token t]) rest σ rest') : Stays before' t rest' := by
  rintro op operand post rfl fits
  obtain ⟨u, hop, hoperator⟩ := exists_token_of_isOperator fits.percent
  subst hop
  obtain ⟨v, rest, σ₁, hv, rfl, h₁⟩ | ⟨_, _, _, _, _, _, _, hv, _⟩ | ⟨v, hv, hkind, -⟩ := h.cases_cons
  · obtain rfl := Bracketed.token.inj hv
    obtain ⟨n, rest, σ₂, rfl, rfl, h₂⟩ | ⟨opening, cs, cs', closing, rest, τ, σ₂, rfl, rfl, hinside, h₂⟩ |
      ⟨_, _, _, hfree⟩ := h₁.cases_cons
    · exact hstays _ _ _ rfl
        ⟨fits.string, fits.percent, fits.names, fits.count, hfollows.free fits.left, h₂.freeRight fits.right⟩
    · have hnames : (Bracketed.group opening cs' closing).isNameTuple = true := by simpa [isToken] using fits.names
      obtain rfl := hinside.eq_of_isNameTuple hnames
      exact hstays _ _ _ rfl
        ⟨fits.string, fits.percent, fits.names, fits.count, hfollows.free fits.left, h₂.freeRight fits.right⟩
    · exact not_freeLeft_percent fits.string (by simpa [isOperator] using fits.percent) hfree
  · cases hv
  · obtain rfl := Bracketed.token.inj hv
    rw [hoperator] at hkind
    simp at hkind

/-- A string without placeholders becomes no literal. -/
theorem stays_of_count (h : placeholderCount t.text = 0) : Stays before t rest := by
  intro op operand post _ fits
  have hcount := fits.count
  rw [h, eq_comm, List.length_eq_zero_iff] at hcount
  exact Grammar.names_ne_nil fits hcount

theorem stays_of_kind (h : t.kind ≠ .string) : Stays before t rest := fun _ _ _ _ fits => h fits.string

theorem Rewriting.eq_keep_cons (h : Rewriting before (.token t :: rest) σ bs') (hstays : Stays before t rest) :
    ∃ σ' rest', σ = .keep t :: σ' ∧ Rewriting (before ++ [.token t]) rest σ' rest' := by
  cases h with
  | token _ others => exact ⟨_, _, rfl, others⟩
  | literal fits _ _ => exact absurd fits (hstays _ _ _ rfl)

/-- Where no literal has placeholders, rewriting what was rewritten keeps every token. -/
theorem Rewriting.quiet (h : Rewriting before bs σ bs')
    (hcount : ∀ s literal dropped, .replace s literal dropped ∈ σ → placeholderCount literal = 0)
    (h' : Rewriting before' bs' σ' bs'') (hfollows : Follows before before') : ∀ step ∈ σ', ∃ t, step = .keep t := by
  induction h generalizing before' σ' bs'' with
  | nil =>
    cases h'
    simp
  | @token _ _ _ _ t hstays others ih =>
    obtain ⟨σ₁, rest₁, rfl, hrest⟩ := h'.eq_keep_cons (others.stays hfollows hstays)
    have hkept := ih (fun s l d hs => hcount s l d (List.mem_cons_of_mem _ hs)) hrest (hfollows.token t)
    exact List.forall_mem_cons.2 ⟨⟨t, rfl⟩, hkept⟩
  | @group _ _ _ _ _ _ _ opening closing _ _ ihinside ih =>
    cases h' with
    | group hinside hrest =>
      have hkept := ihinside (fun s l d hs => hcount s l d (by simp [hs])) hinside .nil
      have hkept' := ih (fun s l d hs => hcount s l d (by simp [hs])) hrest (hfollows.group opening closing _ _)
      exact List.forall_mem_cons.2 ⟨⟨opening, rfl⟩, List.forall_mem_append.2
        ⟨hkept, List.forall_mem_cons.2 ⟨⟨closing, rfl⟩, hkept'⟩⟩⟩
  | @literal before _ rest' _ s op operand text fits _ _ ih =>
    have hzero := hcount _ _ _ List.mem_cons_self
    have hbehind := fun s l d hs => hcount s l d (List.mem_cons_of_mem _ hs)
    have hlast : (before ++ [.token s, op, operand]).getLast?.any isAtomLike = true := by
      simp [isAtomLike_of_names fits.names]
    rcases spelling_eq s.trivia (markInterpolated text) with heq | ⟨letters, quoted, heq, hquoted⟩ <;> rw [heq] at h'
    · obtain ⟨σ₁, rest₁, rfl, hrest⟩ := h'.eq_keep_cons (stays_of_count hzero)
      exact List.forall_mem_cons.2 ⟨⟨_, rfl⟩, ih hbehind hrest (.string rfl hlast)⟩
    · obtain ⟨σ₁, rest₁, rfl, hrest⟩ := h'.eq_keep_cons (stays_of_kind (by simp))
      obtain ⟨σ₂, rest₂, rfl, hrest₂⟩ := hrest.eq_keep_cons (stays_of_count (hquoted.trans hzero))
      have hkept := ih hbehind hrest₂ (.string rfl hlast)
      exact List.forall_mem_cons.2 ⟨⟨_, rfl⟩, List.forall_mem_cons.2 ⟨⟨_, rfl⟩, hkept⟩⟩

end Bracketed

namespace Pattern

variable {source : Text}

/-- No literal of a source has placeholders left. -/
theorem placeholderCount_of_mem_steps {s : Token} {literal : Text} {dropped : List Token}
    (hs : .replace s literal dropped ∈ (Tree.parse source).steps) : placeholderCount literal = 0 := by
  obtain ⟨bs', hrewriting⟩ := exists_rewriting_parse source
  obtain ⟨_, _, operand, _, text, hfits, hitems, hsubstitute, rfl⟩ := hrewriting.exists_fits hs
  have hwords := isContinue_of_names fun u hu => hitems u (List.mem_cons_of_mem _ hu)
  have hcount := placeholderCount_of_substitute hwords hsubstitute
  unfold markInterpolated
  split
  · exact hcount
  · exact (placeholderCount_append (s := ['f']) (by decide)).trans hcount

/-- Where each literal stands behind settled text, transforming the output of a transformation changes nothing. -/
theorem transform_output (h : ∀ a ∈ (interpolation.transform source).attempts,
    ∀ r ∈ a.replacement? (Tree.parse source), Text.Settled (source.take r.start)) :
    (interpolation.transform (interpolation.transform source).output).interpolated = 0 ∧
      (interpolation.transform (interpolation.transform source).output).output =
        (interpolation.transform source).output := by
  have hfirst := rewriting_output (allSettled_steps h)
  obtain ⟨bs'', hsecond⟩ := exists_rewriting_parse (interpolation.transform source).output
  have hkept := hfirst.quiet (fun _ _ _ hs => placeholderCount_of_mem_steps hs) hsecond .nil
  refine ⟨?_, ?_⟩
  · rw [interpolated_transform, Step.edits_eq_nil hkept]
    rfl
  · rw [target_steps, Step.target_eq_source hkept, source_steps]

/-- Behind a literal with leading letters that are none any more, and next to an expression that is left alone. -/
theorem transform_output_bytes :
    let source : Text := "b'%s' % x, '%s' % (y, z)".toList
    (∀ a ∈ (interpolation.transform source).attempts, ∀ r ∈ a.replacement? (Tree.parse source),
      Text.Settled (source.take r.start)) ∧
    (interpolation.transform (interpolation.transform source).output).interpolated = 0 ∧
      (interpolation.transform (interpolation.transform source).output).output =
        (interpolation.transform source).output := by
  intro source
  have h : ∀ a ∈ (interpolation.transform source).attempts, ∀ r ∈ a.replacement? (Tree.parse source),
      Text.Settled (source.take r.start) := by decide +kernel
  exact ⟨h, transform_output h⟩

/-- The keyword and the `f` in front of the literal make one name, and the format string in front of that gets an
operand that it did not have. -/
theorem transform_output_keyword :
    let source : Text := "'%s' % return'%s' % x".toList
    (interpolation.transform source).interpolated = 1 ∧
    (interpolation.transform (interpolation.transform source).output).interpolated = 1 ∧
    (interpolation.transform (interpolation.transform source).output).output ≠
      (interpolation.transform source).output := by
  decide +kernel

end Pattern

end Interpolation

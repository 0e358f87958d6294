import Interpolation.Proofs.Rewriting.Reread

/-!
# Reading the output

The output of a transformation, read again, is what the transformation has made of the source, as long as what stands in
front of each literal is read without it. An `f` that is put in front of a literal is read with the word or the number
that goes up to it.

* `Pattern.allSettled_steps` — what is settled in a source, said of its steps;
* `Pattern.rewriting_output` — the items of the output are the rewritten items of the source;
* `Literal.spelling_eq_singleton` — a literal without leading letters is one token;
* `Pattern.tokens_parse_output` — the tokens of the output are those of the tree that is written out.
-/

namespace Interpolation

open Bracketed (Rewriting)
open Literal (isFirst isLetter)
open Pattern (interpolation)
open Text (Settled)
open Token (lexeme?)

namespace Literal

variable {c : Char} {s t v z : Text}

theorem isFirst_of_literal {rest : Text} (h : literal s = some (t, rest)) : t.head?.any isFirst = true := by
  obtain ⟨c, t, rfl, hc⟩ := head_of_literal h
  rcases hc with hc | rfl | rfl <;> simp [isFirst, *]

/-- A letter that can stand in front of a literal is a leading letter by itself. -/
theorem isLetter_of_lead_eq_none (h : lead (c :: v) = none) : isLetter c = false := by
  by_contra hc
  have hletter : c.toLower ∈ ['r', 'b', 'u', 'f'] := of_decide_eq_true (eq_true_of_ne_false hc)
  have hsingle : ∀ d ∈ ['r', 'b', 'u', 'f'], [d] ∈ leads := by decide
  have hmem : [c.toLower] ∈ leads := hsingle _ hletter
  have hnone := List.findSome?_eq_none_iff.1 h _ (List.mem_map_of_mem hmem)
  have hsome : Recognizer.caseless [c.toLower] (c :: v) = some ([c], v) :=
    Recognizer.caseless_eq_some_iff.2 ⟨rfl, rfl⟩
  rw [hsome] at hnone
  contradiction

/-- A literal without leading letters is one token. -/
theorem spelling_eq_singleton (h : isLetter c = false) : spelling z ('f' :: c :: t) = [⟨.string, z, 'f' :: c :: t⟩] := by
  have hletters : ('f' :: c :: t).takeWhile isLetter = ['f'] := by
    rw [List.takeWhile_cons_of_pos (by decide), List.takeWhile_cons_of_neg (by simp [h])]
  have hlead : lead ['f'] = some (['f'], []) := by decide
  rw [spelling, hletters, if_pos hlead]

end Literal

namespace Bracketed

open Step (source target)

variable {before bs bs' : List Bracketed} {σ : List Step} {s : Token} {literal : Text} {dropped : List Token}

/-- What becomes a literal is a string that fits where it stands, and its literal is marked. -/
theorem Rewriting.exists_fits (h : Rewriting before bs σ bs') (hs : .replace s literal dropped ∈ σ) :
    ∃ before' op operand post text, Fits before' s op operand post ∧ (∀ u ∈ s :: operand.tokens, u ∈ tokensAll bs) ∧
      substitute s.text (Token.names operand.tokens) = .ok text ∧ literal = markInterpolated text := by
  induction h with
  | nil => cases hs
  | token _ _ ih =>
    obtain ⟨before', op, operand, post, text, hfits, hmem, h⟩ := ih (by simpa using hs)
    exact ⟨before', op, operand, post, text, hfits, fun u hu => List.mem_append_right _ (hmem u hu), h⟩
  | group _ _ ihinside ih =>
    simp only [List.mem_cons, List.mem_append, reduceCtorEq, false_or] at hs
    rcases hs with hs | hs
    · obtain ⟨before', op, operand, post, text, hfits, hmem, h⟩ := ihinside hs
      exact ⟨before', op, operand, post, text, hfits, fun u hu => by simp [tokensAll, tokens, hmem u hu], h⟩
    · obtain ⟨before', op, operand, post, text, hfits, hmem, h⟩ := ih hs
      exact ⟨before', op, operand, post, text, hfits, fun u hu => List.mem_append_right _ (hmem u hu), h⟩
  | @literal before _ _ _ s op operand text fits filled _ ih =>
    rcases List.mem_cons.1 hs with heq | hs
    · obtain ⟨rfl, rfl, rfl⟩ := Step.replace.inj heq
      refine ⟨before, op, operand, _, text, fits, fun u hu => ?_, filled, rfl⟩
      rcases List.mem_cons.1 hu with rfl | hu
      · simp [tokensAll, tokens]
      · simp [tokensAll, hu]
    · obtain ⟨before', op, operand, post, text, hfits, hmem, h⟩ := ih hs
      exact ⟨before', op, operand, post, text, hfits, fun u hu => by simp [tokensAll, hmem u hu], h⟩

/-- Where each literal is one token, the tokens of the rewritten items are those behind the steps. -/
theorem Rewriting.tokensAll_eq (h : Rewriting before bs σ bs') (hone : ∀ s literal dropped,
    .replace s literal dropped ∈ σ → Literal.spelling s.trivia literal = [⟨.string, s.trivia, literal⟩]) :
    tokensAll bs' = σ.flatMap Step.after := by
  induction h with
  | nil => rfl
  | token _ _ ih =>
    rw [List.flatMap_cons, ← ih fun s l d hs => hone s l d (List.mem_cons_of_mem _ hs)]
    rfl
  | group _ _ ihinside ih =>
    have hinside := ihinside fun s l d hs => hone s l d (by simp [hs])
    have hbehind := ih fun s l d hs => hone s l d (by simp [hs])
    simp [tokensAll, tokens, Step.after, hinside, hbehind]
  | literal fits _ _ ih =>
    have hbehind := ih fun s l d hs => hone s l d (List.mem_cons_of_mem _ hs)
    rw [hone _ _ _ List.mem_cons_self, List.flatMap_cons, ← hbehind]
    simp [tokensAll, tokens, Step.after, fits.string]

end Bracketed

namespace Pattern

open Step (AllSettled)

variable {source : Text}

theorem file_ofTokens (source : Text) : Grammar.File source (Bracketed.ofTokens (Token.scan source)) := by
  obtain ⟨bs, h⟩ := Grammar.exists_file source
  rwa [← h.eq_ofTokens]

theorem exists_literal_of_string {s : Token} (hs : s ∈ Bracketed.tokensAll (Bracketed.ofTokens (Token.scan source)))
    (hstring : s.kind = .string) : ∃ r rest, Literal.literal r = some (s.text, rest) := by
  obtain ⟨r, rest, hread⟩ := (file_ofTokens source).exists_lexeme? hs (by simp [hstring]) (by simp [hstring])
  rw [hstring] at hread
  exact ⟨r, rest, Token.literal_of_lexeme? hread⟩

theorem isContinue_of_names {ts : List Token}
    (h : ∀ u ∈ ts, u ∈ Bracketed.tokensAll (Bracketed.ofTokens (Token.scan source))) :
    ∀ a ∈ Token.names ts, ∀ c ∈ a, Identifier.isContinue c = true :=
  Grammar.isContinue_of_mem_names fun u hu hname =>
    (file_ofTokens source).exists_lexeme? (h u hu) (by simp [hname]) (by simp [hname])

/-- Each literal of a source is one of its edits. -/
theorem exists_edit {pre post : List Step} {s : Token} {literal : Text} {dropped : List Token}
    (h : (Tree.parse source).steps = pre ++ .replace s literal dropped :: post) :
    ∃ a ∈ (interpolation.transform source).attempts, ∃ r ∈ a.replacement? (Tree.parse source),
      source.take r.start = Step.source pre ++ s.trivia ∧
        source.drop r.start = s.text ++ (Token.renderAll dropped ++ Step.source post) := by
  obtain ⟨r, hr, hstart, -⟩ := Step.mem_edits pre s literal dropped post 0
  rw [← h, ← edits_parse] at hr
  obtain ⟨a, ha, hreplacement⟩ := List.mem_filterMap.1 hr
  have hsource := source_steps source
  rw [h, Step.source_append, Step.source_replace, Token.render, List.append_assoc, ← List.append_assoc] at hsource
  refine ⟨a, ha, r, hreplacement, ?_, ?_⟩
  · rw [hstart, Nat.zero_add, ← hsource, List.take_left' rfl]
  · rw [hstart, Nat.zero_add, ← hsource, List.drop_left' rfl]

/-- What stands in front of the literals of a source is settled if the source is settled up to each of its edits. -/
theorem allSettled_steps (h : ∀ a ∈ (interpolation.transform source).attempts, ∀ r ∈ a.replacement? (Tree.parse source),
    Settled (source.take r.start)) : AllSettled (Tree.parse source).steps := by
  intro pre s literal dropped post hsteps
  obtain ⟨bs', hrewriting⟩ := exists_rewriting_parse source
  have hmem : .replace s literal dropped ∈ (Tree.parse source).steps := by simp [hsteps]
  obtain ⟨_, _, _, _, text, hfits, hitems, _, rfl⟩ := hrewriting.exists_fits hmem
  obtain ⟨_, _, hread⟩ := exists_literal_of_string (hitems s List.mem_cons_self) hfits.string
  obtain ⟨a, ha, r, hr, htake, -⟩ := exists_edit hsteps
  refine ⟨htake ▸ h a ha r hr, Literal.isFirst_of_literal hread, ?_⟩
  unfold markInterpolated
  split <;> simp_all [isFirst, Literal.isLetter]

/-- The items of the output are what becomes of the items of the source. -/
theorem rewriting_output (h : AllSettled (Tree.parse source).steps) :
    Rewriting [] (Bracketed.ofTokens (Token.scan source)) (Tree.parse source).steps
      (Bracketed.ofTokens (Token.scan (interpolation.transform source).output)) := by
  obtain ⟨bs', hrewriting⟩ := exists_rewriting_parse source
  have hfile : Grammar.File (Step.source (Tree.parse source).steps) (Bracketed.ofTokens (Token.scan source)) := by
    rw [source_steps]
    exact file_ofTokens source
  obtain ⟨houtput, -⟩ := Grammar.File.rewritten hrewriting h hfile
  rwa [target_steps, ← houtput.eq_ofTokens]

/-- Without leading letters in the source each literal is one token. -/
theorem spelling_of_lead {s : Token} {literal : Text} {dropped : List Token}
    (h : ∀ a ∈ (interpolation.transform source).attempts, ∀ r ∈ a.replacement? (Tree.parse source),
      Literal.lead (source.drop r.start) = none) (hs : .replace s literal dropped ∈ (Tree.parse source).steps) :
    Literal.spelling s.trivia literal = [⟨.string, s.trivia, literal⟩] := by
  obtain ⟨bs', hrewriting⟩ := exists_rewriting_parse source
  obtain ⟨_, _, _, _, text, hfits, hitems, hsubstitute, rfl⟩ := hrewriting.exists_fits hs
  obtain ⟨_, _, hread⟩ := exists_literal_of_string (hitems s List.mem_cons_self) hfits.string
  obtain ⟨pre, post, hsteps⟩ := List.append_of_mem hs
  obtain ⟨a, ha, r, hr, -, hdrop⟩ := exists_edit hsteps
  have hlead := h a ha r hr
  obtain ⟨c, v, hc, hfirst⟩ := Step.exists_of_head? (Literal.isFirst_of_literal hread)
  rw [hdrop, hc, List.cons_append] at hlead
  have hletter := Literal.isLetter_of_lead_eq_none hlead
  have hpercent : c ≠ '%' := by
    rintro rfl
    exact absurd hfirst (by decide)
  rw [hc] at hsubstitute
  obtain ⟨u, rfl⟩ := exists_of_substitute hpercent hsubstitute
  have hf : c ≠ 'f' := by
    rintro rfl
    exact absurd hletter (by decide)
  rw [markInterpolated, if_neg (by simpa using hf), Literal.spelling_eq_singleton hletter]

/-- Where no literal has leading letters and each stands behind settled text, the output is read as the tokens of the
tree that is written out. -/
theorem tokens_parse_output (h : ∀ a ∈ (interpolation.transform source).attempts,
    ∀ r ∈ a.replacement? (Tree.parse source),
      Literal.lead (source.drop r.start) = none ∧ Settled (source.take r.start)) :
    (Tree.parse (interpolation.transform source).output).tokens = (interpolation.transform source).final.tokens := by
  have hsettled := allSettled_steps fun a ha r hr => (h a ha r hr).2
  have hone : ∀ s literal dropped, .replace s literal dropped ∈ (Tree.parse source).steps →
      Literal.spelling s.trivia literal = [⟨.string, s.trivia, literal⟩] :=
    fun _ _ _ => spelling_of_lead fun a ha r hr => (h a ha r hr).1
  rw [Tree.tokens_parse, (rewriting_output hsettled).tokensAll_eq hone, final_transform, ← Tree.after_steps]

/-- One literal in a group, and one between three marks at the start of a line. -/
theorem tokens_parse_output_triple :
    let source : Text := "f(a, '%s' % x)\n\"\"\"%d\"\"\" % (y,)".toList
    (∀ a ∈ (interpolation.transform source).attempts, ∀ r ∈ a.replacement? (Tree.parse source),
      Literal.lead (source.drop r.start) = none ∧ Settled (source.take r.start)) ∧
    (Tree.parse (interpolation.transform source).output).tokens = (interpolation.transform source).final.tokens := by
  intro source
  have h : ∀ a ∈ (interpolation.transform source).attempts, ∀ r ∈ a.replacement? (Tree.parse source),
      Literal.lead (source.drop r.start) = none ∧ Settled (source.take r.start) := by decide +kernel
  exact ⟨h, tokens_parse_output h⟩

/-- The `f` that is put in front of a literal makes one word with the keyword that goes up to the literal. -/
theorem tokens_parse_output_keyword :
    let source : Text := "return'%s' % x".toList
    (∀ a ∈ (interpolation.transform source).attempts, ∀ r ∈ a.replacement? (Tree.parse source),
      Literal.lead (source.drop r.start) = none) ∧
    (interpolation.transform source).interpolated = 1 ∧
    (Tree.parse (interpolation.transform source).output).tokens ≠ (interpolation.transform source).final.tokens := by
  decide +kernel

end Pattern

end Interpolation

import Interpolation.Proofs.Bracketed.Steps
import Interpolation.Proofs.Tree.Brackets

/-!
# The nesting of items follows the stack of brackets

A nesting keeps the items between its open brackets, and items with line breaks in them are joined when a group is
closed. Of all that the stack of brackets sees the brackets alone; it does what the nesting does to them.

* `Nesting.brackets` — the open brackets of a nesting with their places;
* `Simulates` — a matching has the open brackets of a nesting on its stack, the pairs of its groups, and as unpaired all
  other brackets among its tokens;
* `Simulates.next` — one more token keeps it so;
* `simulates_ofTokens` — it is so for all tokens of a source.
-/

namespace Interpolation

/-! ## The brackets of a nesting -/

namespace Nesting

/-- The brackets of some open groups with their places; `outside` is what stands in front of the first of them. -/
def openBrackets (outside : List Bracketed) : List OpenGroup → List Bracket
  | [] => []
  | g :: stack =>
    ⟨g.opening.text, (text ⟨stack, outside⟩).length + g.opening.trivia.length⟩ :: openBrackets outside stack

/-- The open brackets of a nesting with their places, the last one first. -/
def brackets (n : Nesting) : List Bracket := openBrackets n.outside n.stack

theorem brackets_push_singleton (n : Nesting) (g : OpenGroup) : (n.push [g]).brackets =
    ⟨g.opening.text, n.text.length + g.opening.trivia.length⟩ :: n.brackets := rfl

theorem brackets_add (n : Nesting) (item : Bracketed) : (n.add item).brackets = n.brackets := by
  unfold add
  split
  · next h => simp [brackets, h, openBrackets]
  · next g stack h => simp [brackets, h, openBrackets]

theorem exists_brackets_push (n : Nesting) (opened : List OpenGroup) : ∃ above,
    (n.push opened).brackets = above ++ n.brackets ∧ ∀ b ∈ above, ∃ g ∈ opened, b.text = g.opening.text := by
  induction opened with
  | nil => exact ⟨[], rfl, by simp⟩
  | cons g opened ih =>
    obtain ⟨above, habove, hall⟩ := ih
    refine ⟨⟨g.opening.text, (n.push opened).text.length + g.opening.trivia.length⟩ :: above, ?_, ?_⟩
    · rw [List.cons_append, ← habove]
      rfl
    · refine List.forall_mem_cons.2 ⟨⟨g, by simp, rfl⟩, fun b hb => ?_⟩
      obtain ⟨g', hg', hb⟩ := hall b hb
      exact ⟨g', List.mem_cons_of_mem _ hg', hb⟩

theorem exists_of_mem_brackets {n : Nesting} {b : Bracket} (h : b ∈ n.brackets) :
    ∃ g ∈ n.stack, b.text = g.opening.text := by
  obtain ⟨above, habove, hall⟩ := exists_brackets_push ⟨[], n.outside⟩ n.stack
  have hpush : (push ⟨[], n.outside⟩ n.stack).brackets = n.brackets := by simp [push, brackets]
  rw [← hpush, habove] at h
  exact hall b (by simpa [brackets, openBrackets] using h)

end Nesting

/-! ## The brackets that are left over -/

theorem bracketsOf_addTrivia (first : Nat) (z : Text) (t : Token) (ts : List Token) :
    bracketsOf first (t.addTrivia z :: ts) = bracketsOf (first + z.length) (t :: ts) := by
  have hopening : (t.addTrivia z).isOpening = t.isOpening := rfl
  have hclosing : (t.addTrivia z).isClosing = t.isClosing := rfl
  simp only [bracketsOf, Token.located_cons, List.filter_cons, hopening, hclosing, Bracketed.render_addTrivia]
  split <;> simp [Token.addTrivia, Nat.add_assoc]

namespace Bracketed

theorem bracketsOf_joinLines (first : Nat) (carried : Text) (bs : List Bracketed) :
    bracketsOf first (tokensAll (joinLines carried bs).1) = bracketsOf (first + carried.length) (tokensAll bs) := by
  fun_induction joinLines carried bs generalizing first with
  | case1 => simp [tokensAll, bracketsOf]
  | case2 carried t rest hkind ih =>
    have hplain : t.isOpening = false ∧ t.isClosing = false := by simp [Token.isOpening, Token.isClosing, hkind]
    rw [ih, tokensAll, tokens, List.singleton_append, bracketsOf_cons_of_plain hplain.1 hplain.2, List.length_append,
      Nat.add_assoc]
  | case3 carried t rest _ ih =>
    rw [tokensAll, tokensAll, bracketsOf_append, bracketsOf_append, ih, tokens, tokens, bracketsOf_addTrivia]
    simp [Token.addTrivia, Nat.add_assoc]
  | case4 carried opening contents closing rest ih =>
    rw [tokensAll, tokensAll, bracketsOf_append, bracketsOf_append, ih, tokens, tokens, bracketsOf_addTrivia]
    simp [Token.addTrivia, Nat.add_assoc]

theorem tokensAll_open (before contents : List Bracketed) (opening : Token) :
    tokensAll (before ++ .token opening :: contents) = tokensAll before ++ opening :: tokensAll contents := by
  rw [tokensAll_append, tokensAll, tokens, List.singleton_append]

theorem tokensAll_concat_close (before contents : List Bracketed) (opening closing : Token) :
    tokensAll (before ++ [.close opening contents closing]) =
      tokensAll before ++ (close opening contents closing).tokens := by
  simp [tokensAll]

/-- The brackets of a group that is closed are paired; those that are left over are those of its contents. -/
theorem bracketsOf_close (first : Nat) (opening closing : Token) (contents : List Bracketed) :
    bracketsOf first (close opening contents closing).tokens =
      bracketsOf (first + opening.render.length) (tokensAll contents) := by
  have hpaired (t : Token) : t.asPaired.isOpening = false ∧ t.asPaired.isClosing = false := by
    simp [Token.isOpening, Token.isClosing, Token.asPaired]
  have hrender : opening.asPaired.render = opening.render := rfl
  rw [close, tokens, bracketsOf_cons_of_plain (hpaired _).1 (hpaired _).2, bracketsOf_append, bracketsOf_joinLines,
    bracketsOf_addTrivia, bracketsOf_cons_of_plain (hpaired _).1 (hpaired _).2, hrender]
  simp [bracketsOf]

end Bracketed

/-! ## The simulation -/

/-- The matching `m` has what the nesting `n` has: its open brackets, the pairs of its groups and, left over, the
brackets among its tokens that are not paired. -/
structure Simulates (n : Nesting) (m : Matching) : Prop where
  stack : m.stack = n.brackets
  pairs : m.pairs = Tree.pairsAll 0 (Tree.ofBracketedAll n.items)
  unpaired : m.unpaired.Perm (bracketsOf 0 (Bracketed.tokensAll n.items))

theorem pairsAll_concat_token (bs : List Bracketed) (t : Token) :
    Tree.pairsAll 0 (Tree.ofBracketedAll (bs ++ [.token t])) = Tree.pairsAll 0 (Tree.ofBracketedAll bs) := by
  simp [Tree.ofBracketedAll_eq_map, Tree.pairsAll_append]

theorem bracketsOf_concat_token (bs : List Bracketed) (t : Token) :
    bracketsOf 0 (Bracketed.tokensAll (bs ++ [.token t])) =
      bracketsOf 0 (Bracketed.tokensAll bs) ++ bracketsOf (Bracketed.text bs).length [t] := by
  rw [Bracketed.tokensAll_append, bracketsOf_append, Nat.zero_add]
  rfl

/-- A group that is closed at the end adds its own pair. -/
theorem pairsAll_concat_close (before contents : List Bracketed) (opening closing : Token) :
    Tree.pairsAll 0 (Tree.ofBracketedAll (before ++ [.close opening contents closing])) =
      Tree.pairsAll 0 (Tree.ofBracketedAll (before ++ .token opening :: contents)) ++
        [(⟨opening.text, (Bracketed.text before).length + opening.trivia.length⟩, ⟨closing.text,
          (Bracketed.text (before ++ .token opening :: contents)).length + closing.trivia.length⟩)] := by
  have hbefore : (Token.renderAll (Tree.tokensAll (Tree.ofBracketedAll before))).length =
      (Bracketed.text before).length := by
    rw [Tree.tokensAll_ofBracketedAll, Bracketed.text]
  simp only [Tree.ofBracketedAll_eq_map, List.map_append, List.map_cons, List.map_nil, Tree.pairsAll_append,
    Tree.pairsAll_cons, Tree.pairsAll_nil, Tree.ofBracketed_token, Tree.pairs_leaf] at hbefore ⊢
  rw [Tree.pairs_close, hbefore, Tree.ofBracketedAll_eq_map, Bracketed.text_append, Bracketed.text_token]
  simp [Nat.add_assoc]

/-- A group that is closed at the end takes its opening bracket from those that are left over. -/
theorem perm_bracketsOf_close {opening : Token} (opens : opening.isOpening = true) (before contents : List Bracketed)
    (closing : Token) : (bracketsOf 0 (Bracketed.tokensAll (before ++ .token opening :: contents))).Perm
      (⟨opening.text, (Bracketed.text before).length + opening.trivia.length⟩ ::
        bracketsOf 0 (Bracketed.tokensAll (before ++ [.close opening contents closing]))) := by
  rw [Bracketed.tokensAll_open, Bracketed.tokensAll_concat_close, bracketsOf_append, bracketsOf_append, Nat.zero_add,
    Bracketed.bracketsOf_close, bracketsOf_cons_of_bracket (.inl opens)]
  exact List.perm_middle

theorem isOpening_bracket {t : Token} (opens : t.isOpening = true) (place : Nat) :
    Bracket.isOpening ⟨t.text, place⟩ = true := (Bool.and_eq_true_iff.1 opens).2

theorem not_isOpening_bracket {t : Token} (opens : t.isOpening = false) (closes : t.isClosing = true) (place : Nat) :
    Bracket.isOpening ⟨t.text, place⟩ = false := by
  have hkind := (Bool.and_eq_true_iff.1 closes).1
  rw [Token.isOpening, hkind, Bool.true_and] at opens
  exact opens

theorem pairsWith_bracket {t u : Token} {o : Bracket} (ho : o.text = t.text) (place : Nat) :
    o.pairsWith ⟨u.text, place⟩ = t.pairsWith u := by
  rw [Bracket.pairsWith, Token.pairsWith, ho, List.contains_eq_mem]

/-- One more token does to the nesting what it does to the stack of brackets, if it is a bracket. -/
theorem Simulates.next {n : Nesting} {m : Matching} (h : Simulates n m)
    (hstack : ∀ g ∈ n.stack, g.opening.isOpening = true) (t : Token) :
    Simulates (n.next t) ((bracketsOf n.text.length [t]).foldl Matching.next m) := by
  obtain ⟨stack, pairs, discarded⟩ := m
  obtain ⟨hbrackets, hpairs, hunpaired⟩ := h
  simp only [Matching.unpaired] at hbrackets hpairs hunpaired
  have hone (hbracket : t.isOpening = true ∨ t.isClosing = true) :
      bracketsOf n.text.length [t] = [⟨t.text, n.text.length + t.trivia.length⟩] :=
    bracketsOf_cons_of_bracket hbracket _ _
  have hstep := n.step_next t
  generalize n.next t = n' at hstep
  cases hstep with
  | push opens =>
    have hitems : (n.push [⟨t, []⟩]).items = n.items ++ [.token t] := Nesting.items_push _ _
    rw [hone (.inl opens), List.foldl_cons, List.foldl_nil, Matching.next_of_opening (isOpening_bracket opens _)]
    refine ⟨?_, ?_, ?_⟩
    · rw [Nesting.brackets_push_singleton, hbrackets]
    · rw [hitems, pairsAll_concat_token, hpairs]
    · rw [hitems, bracketsOf_concat_token, Nesting.text_items, hone (.inl opens)]
      exact List.perm_middle.trans ((hunpaired.cons _).trans (List.perm_append_singleton _ _).symm)
  | add opens closes =>
    have hnone : bracketsOf n.text.length [t] = [] := bracketsOf_cons_of_plain opens closes _ _
    rw [hnone, List.foldl_nil]
    refine ⟨?_, ?_, ?_⟩
    · rw [Nesting.brackets_add, hbrackets]
    · rw [Nesting.items_add, pairsAll_concat_token, hpairs]
    · rw [Nesting.items_add, bracketsOf_concat_token, Nesting.text_items, hnone, List.append_nil]
      exact hunpaired
  | unpaired opens closes fails =>
    have hfails : ∀ o ∈ stack, o.pairsWith ⟨t.text, n.text.length + t.trivia.length⟩ = false := by
      intro o ho
      obtain ⟨g, hg, htext⟩ := Nesting.exists_of_mem_brackets (hbrackets ▸ ho)
      rw [pairsWith_bracket htext]
      exact fails g hg
    rw [hone (.inr closes), List.foldl_cons, List.foldl_nil,
      Matching.next_of_unpaired (not_isOpening_bracket opens closes _) hfails]
    refine ⟨rfl, ?_, ?_⟩
    · rw [Nesting.items_unpaired, pairsAll_concat_token, hpairs]
    · rw [Nesting.items_unpaired, bracketsOf_concat_token, Nesting.text_items, hone (.inr closes), Matching.unpaired,
        List.append_nil]
      exact List.perm_middle.trans ((hunpaired.cons _).trans (List.perm_append_singleton _ _).symm)
  | @close below g opened opens closes above paired =>
    obtain ⟨bs, hbs, hall⟩ := (below.push [g]).exists_brackets_push opened
    have hopening : g.opening.isOpening = true := hstack g (by simp [Nesting.push])
    have habove : ∀ o ∈ bs,
        o.pairsWith ⟨t.text, ((below.push [g]).push opened).text.length + t.trivia.length⟩ = false := by
      intro o ho
      obtain ⟨g', hg', htext⟩ := hall o ho
      rw [pairsWith_bracket htext]
      exact above g' hg'
    have htext := (below.push [g]).push opened |>.text_items
    rw [Nesting.items_push_push] at hpairs hunpaired htext
    rw [hbs, Nesting.brackets_push_singleton] at hbrackets
    generalize (opened.flatMap OpenGroup.spilled ++ g.contents).reverse = contents at hpairs hunpaired htext ⊢
    subst hbrackets
    rw [hone (.inr closes), List.foldl_cons, List.foldl_nil,
      Matching.next_of_paired (not_isOpening_bracket opens closes _) habove ((pairsWith_bracket rfl _).trans paired)]
    refine ⟨?_, ?_, ?_⟩
    · rw [Nesting.brackets_add]
    · rw [Nesting.items_add, pairsAll_concat_close, ← hpairs, htext, Nesting.text_items]
    · have hperm := hunpaired.trans (perm_bracketsOf_close hopening below.items contents t)
      rw [← List.append_assoc, Nesting.text_items] at hperm
      rw [Nesting.items_add]
      exact (List.perm_middle.symm.trans hperm).cons_inv

/-- The stack of brackets does what the nesting of items does. -/
theorem simulates_ofTokens (ts : List Token) :
    Simulates (ts.foldl Nesting.next .empty) (Matching.ofBrackets (bracketsOf 0 ts)) := by
  induction ts using List.reverseRecOn with
  | nil => exact ⟨rfl, rfl, .refl _⟩
  | append_singleton ts t ih =>
    have htext : (ts.foldl Nesting.next .empty).text = Token.renderAll ts := Bracketed.text_ofTokens ts
    have hnext := ih.next (Nesting.isOpening_foldl_next ts) t
    rw [htext] at hnext
    rw [List.foldl_append, List.foldl_cons, List.foldl_nil, bracketsOf_append, Nat.zero_add, Matching.ofBrackets,
      List.foldl_append]
    exact hnext

/-- The matching of the brackets of a source has the pairs of its tree, and leaves over the brackets that are tokens of
no other kind. -/
theorem pairs_ofSource (source : Text) : (Matching.ofSource source).pairs = (Tree.parse source).pairs 0 := by
  rw [Tree.pairs_parse, Matching.ofSource, brackets_eq]
  exact (simulates_ofTokens (Token.scan source)).pairs

theorem unpaired_ofSource (source : Text) :
    (Matching.ofSource source).unpaired.Perm (bracketsOf 0 (Tree.parse source).tokens) := by
  rw [Tree.tokens_parse, Matching.ofSource, brackets_eq]
  exact (simulates_ofTokens (Token.scan source)).unpaired

end Interpolation

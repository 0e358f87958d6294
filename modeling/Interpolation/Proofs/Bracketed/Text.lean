import Interpolation.Bracketed
import Interpolation.Tree.Parse
import Interpolation.Proofs.Operand.Grouping

/-!
# Pairing brackets loses nothing

The text of some bracketed items is that of their tokens. Pairing turns line breaks between brackets into trivia, so
that the tokens of a nesting are not those that were read; their text is.

* `Bracketed.text` — the text of some items;
* `Nesting.text_next` — one more token adds its text to that of a nesting, and nothing else;
* `Bracketed.text_ofTokens` — the items of a list of tokens have its text;
* `Tree.tokensAll_ofBracketedAll` — the trees of some items have their tokens.
-/

namespace Interpolation

namespace Bracketed

/-- The text of some items in turn. -/
def text (bs : List Bracketed) : Text := Token.renderAll (tokensAll bs)

@[simp] theorem text_nil : text [] = [] := rfl

@[simp] theorem text_append (bs cs : List Bracketed) : text (bs ++ cs) = text bs ++ text cs := by simp [text]

@[simp] theorem text_token (t : Token) (bs : List Bracketed) : text (.token t :: bs) = t.render ++ text bs := by
  simp [text, tokensAll, tokens, Token.render]

@[simp] theorem text_group (opening closing : Token) (contents bs : List Bracketed) :
    text (.group opening contents closing :: bs) = opening.render ++ (text contents ++ (closing.render ++ text bs)) := by
  simp [text, tokensAll, tokens, Token.render]

theorem render_addTrivia (trivia : Text) (t : Token) : (t.addTrivia trivia).render = trivia ++ t.render := by
  simp [Token.addTrivia, Token.render]

/-- The text of joined lines, with what is left over, is that of the lines. -/
theorem text_joinLines (carried : Text) (bs : List Bracketed) :
    text (joinLines carried bs).1 ++ (joinLines carried bs).2 = carried ++ text bs := by
  fun_induction joinLines carried bs with
  | case1 => simp
  | case2 carried t rest _ ih => simp [ih]
  | case3 carried t rest _ ih =>
    rw [text_token, render_addTrivia, text_token, List.append_assoc, ih]
    simp
  | case4 carried opening contents closing rest ih =>
    rw [text_group, render_addTrivia, text_group]
    simp only [List.append_assoc]
    rw [ih, List.nil_append]

theorem text_close (opening closing : Token) (contents : List Bracketed) :
    text [close opening contents closing] = opening.render ++ (text contents ++ closing.render) := by
  have h := text_joinLines [] contents
  rw [List.nil_append] at h
  rw [close, text_group, render_addTrivia, ← h]
  simp [Token.asPaired, Token.render]

end Bracketed

namespace Nesting

open Bracketed

/-- The text of what was read. -/
def text (n : Nesting) : Text := Bracketed.text n.spilled.reverse

theorem text_add (n : Nesting) (item : Bracketed) : (n.add item).text = n.text ++ Bracketed.text [item] := by
  unfold add
  split
  · next h => simp [text, spilled, h]
  · next g stack h => simp [text, spilled, OpenGroup.spilled, h]

theorem text_push (n : Nesting) (t : Token) :
    text { n with stack := ⟨t, []⟩ :: n.stack } = n.text ++ t.render := by
  simp [text, spilled, OpenGroup.spilled]

theorem text_closeBracket (n : Nesting) (closing : Token) : (n.close closing).text = n.text ++ closing.render := by
  unfold close
  split
  · simp [text, spilled]
  · next g stack h =>
    have hstack := List.takeWhile_append_dropWhile (p := (!·.opening.pairsWith closing)) (l := n.stack)
    rw [h] at hstack
    have hspilled : n.spilled = (n.stack.takeWhile (!·.opening.pairsWith closing)).flatMap OpenGroup.spilled ++
        (g.spilled ++ (⟨stack, n.outside⟩ : Nesting).spilled) := by
      simp only [spilled]
      conv_lhs => rw [← hstack]
      simp
    rw [text_add, text_close, text, text, hspilled]
    simp [OpenGroup.spilled]

theorem text_next (n : Nesting) (t : Token) : (n.next t).text = n.text ++ t.render := by
  unfold next
  split
  · exact text_push n t
  · split
    · exact text_closeBracket n t
    · simp [text_add]

end Nesting

/-- Pairing the brackets in a list of tokens loses nothing. -/
theorem Bracketed.text_ofTokens (ts : List Token) : text (ofTokens ts) = Token.renderAll ts := by
  have key : ∀ (ts : List Token) (n : Nesting), (ts.foldl Nesting.next n).text = n.text ++ Token.renderAll ts := by
    intro ts
    induction ts with
    | nil => simp
    | cons t ts ih =>
      intro n
      rw [List.foldl_cons, ih, Nesting.text_next]
      simp [Token.render]
  exact key ts .empty

/-! ## The trees of bracketed items -/

namespace Tree

theorem ofBracketedAll_eq_map (bs : List Bracketed) : ofBracketedAll bs = bs.map ofBracketed := by
  induction bs with
  | nil => rfl
  | cons b bs ih => simp [ofBracketedAll, ih]

@[simp]
theorem tokensAll_listed (opening : Token) (ts : List Tree) : tokensAll (listed opening ts) = tokensAll ts := by
  unfold listed
  split <;> simp

mutual
theorem tokens_ofBracketed : (b : Bracketed) → (ofBracketed b).tokens = b.tokens
  | .token t => by simp [ofBracketed, Bracketed.tokens]
  | .group opening contents closing => by
    simp [ofBracketed, Bracketed.tokens, tokensAll_ofBracketedAll contents]
theorem tokensAll_ofBracketedAll : (bs : List Bracketed) → tokensAll (ofBracketedAll bs) = Bracketed.tokensAll bs
  | [] => rfl
  | b :: bs => by
    rw [ofBracketedAll, tokensAll_cons, tokens_ofBracketed b, tokensAll_ofBracketedAll bs, Bracketed.tokensAll]
end

/-- The tokens of a tree are those of the bracketed items that it was read from. -/
theorem tokens_parse (source : Text) :
    (parse source).tokens = Bracketed.tokensAll (Bracketed.ofTokens (Token.scan source)) := by
  simp [parse, tokensAll_ofBracketedAll]

/-- The text of a tree is the source that it was read from. -/
@[simp]
theorem render_parse (source : Text) : (parse source).render = source := by
  rw [render, tokens_parse]
  exact (Bracketed.text_ofTokens _).trans (Token.renderAll_scan source)

end Tree

end Interpolation

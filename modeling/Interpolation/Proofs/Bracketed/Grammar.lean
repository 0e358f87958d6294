import Interpolation.Bracketed
import Interpolation.Token.Scan

/-!
# The grammar of bracketed items

A source as a grammar with ordered choice reads it, straight from its characters. An opening bracket is tried as the
start of a group first. The group takes items and trivia as long as there are any and then asks for its closing bracket;
if that is not there, the attempt is given up, the opening bracket is an item of its own, and all that the attempt had
read is read again.

* `Grammar.innerTrivia` — what may stand between the tokens of a group;
* `Grammar.Inside` — what a group reads up to where it stops;
* `Grammar.File` — what a source is read as;
* `Grammar.Inside.rest_unique` — where a group stops is a matter of the text;
* `Grammar.exists_file` — every text is read up to its end.
-/

namespace Interpolation.Grammar

open Token (lexeme?)

/-- The shapes of brackets. -/
def shapes : List (Char × Char) := [('(', ')'), ('[', ']'), ('\x7b', '\x7d')]

def isOpener (c : Char) : Bool := shapes.any fun shape => shape.1 = c

def isCloser (c : Char) : Bool := shapes.any fun shape => shape.2 = c

/-- Trivia and line breaks, and the rest of the text. -/
def innerTrivia (s : Text) : Text × Text :=
  match _h : lineBreak (Trivia.split s).2 with
  | none => Trivia.split s
  | some (brk, rest) => ((Trivia.split s).1 ++ brk ++ (innerTrivia rest).1, (innerTrivia rest).2)
termination_by s.length
decreasing_by
  all_goals
    have hsplit := congrArg List.length (lineBreak_splits _ _ _ _h)
    have hne := List.length_pos_iff.2 (lineBreak_consumes _ _ _ _h)
    have := Trivia.length_split_le s
    rw [List.length_append] at hsplit
    omega

/-- `Inside s bs t rest`: behind an opening bracket the text `s` is read as the items `bs` and then the trivia `t`, and
no more can be read from `rest` on, which is at its end or starts with a closing bracket. -/
inductive Inside : Text → List Bracketed → Text → Text → Prop
  | stop {s t r : Text} (trivia : innerTrivia s = (t, r)) (ends : ∀ c ∈ r.head?, isCloser c = true) : Inside s [] t r
  | group {s t r inner rest t' rest' : Text} {o d : Char} {cs bs : List Bracketed}
      (trivia : innerTrivia s = (t, o :: r)) (attempt : Inside r cs inner (d :: rest)) (paired : (o, d) ∈ shapes)
      (others : Inside rest bs t' rest') :
      Inside s (.group ⟨.operator, t, [o]⟩ cs ⟨.operator, inner, [d]⟩ :: bs) t' rest'
  | unpaired {s t r inner rest t' rest' : Text} {o : Char} {cs bs : List Bracketed}
      (trivia : innerTrivia s = (t, o :: r)) (opens : isOpener o = true) (attempt : Inside r cs inner rest)
      (fails : ∀ d ∈ rest.head?, (o, d) ∉ shapes) (others : Inside r bs t' rest') :
      Inside s (.token ⟨.unknown, t, [o]⟩ :: bs) t' rest'
  | token {s t r text rest t' rest' : Text} {kind : TokenKind} {bs : List Bracketed}
      (trivia : innerTrivia s = (t, r)) (plain : ∀ c ∈ r.head?, isOpener c = false ∧ isCloser c = false)
      (reads : lexeme? r = some (kind, text, rest)) (others : Inside rest bs t' rest') :
      Inside s (.token ⟨kind, t, text⟩ :: bs) t' rest'

/-- `File s bs`: the whole text `s` is read as the items `bs`, the last of which takes the trivia at the end. -/
inductive File : Text → List Bracketed → Prop
  | stop {s t : Text} (trivia : Trivia.split s = (t, [])) : File s [.token ⟨.endMarker, t, []⟩]
  | group {s t r inner rest : Text} {o d : Char} {cs bs : List Bracketed} (trivia : Trivia.split s = (t, o :: r))
      (attempt : Inside r cs inner (d :: rest)) (paired : (o, d) ∈ shapes) (others : File rest bs) :
      File s (.group ⟨.operator, t, [o]⟩ cs ⟨.operator, inner, [d]⟩ :: bs)
  | unpaired {s t r inner rest : Text} {o : Char} {cs bs : List Bracketed} (trivia : Trivia.split s = (t, o :: r))
      (opens : isOpener o = true) (attempt : Inside r cs inner rest) (fails : ∀ d ∈ rest.head?, (o, d) ∉ shapes)
      (others : File r bs) : File s (.token ⟨.unknown, t, [o]⟩ :: bs)
  | token {s t r text rest : Text} {kind : TokenKind} {bs : List Bracketed} (trivia : Trivia.split s = (t, r))
      (plain : ∀ c ∈ r.head?, isOpener c = false) (reads : lexeme? r = some (kind, text, rest))
      (others : File rest bs) : File s (.token ⟨kind, t, text⟩ :: bs)

/-! ## Brackets -/

theorem isOpener_of_mem_shapes {o d : Char} (h : (o, d) ∈ shapes) : isOpener o = true :=
  List.any_eq_true.2 ⟨_, h, by simp⟩

theorem isCloser_of_mem_shapes {o d : Char} (h : (o, d) ∈ shapes) : isCloser d = true :=
  List.any_eq_true.2 ⟨_, h, by simp⟩

theorem isOpener_eq_false_of_isCloser {c : Char} (h : isCloser c = true) : isOpener c = false := by
  simp only [isCloser, shapes, List.any_cons, List.any_nil, Bool.or_false, Bool.or_eq_true, decide_eq_true_eq] at h
  rcases h with rfl | rfl | rfl <;> rfl

/-- What a group stops at is no opening bracket. -/
theorem isOpener_eq_false_of_ends {o : Char} {r : Text} (ends : ∀ c ∈ (o :: r).head?, isCloser c = true) :
    isOpener o = false :=
  isOpener_eq_false_of_isCloser (ends o rfl)

/-- What a group stops at is not read as a token of it. -/
theorem lexeme?_eq_none_of_ends {r : Text} (ends : ∀ c ∈ r.head?, isCloser c = true)
    (plain : ∀ c ∈ r.head?, isOpener c = false ∧ isCloser c = false) : lexeme? r = none := by
  cases r with
  | nil => rfl
  | cons c r =>
    have h := ends c rfl
    rw [(plain c rfl).2] at h
    cases h

/-! ## Where a group stops -/

/-- Where a group stops is a matter of the text. -/
theorem Inside.rest_unique {s t t' rest rest' : Text} {bs bs' : List Bracketed} (h : Inside s bs t rest)
    (h' : Inside s bs' t' rest') : rest = rest' := by
  induction h generalizing bs' t' rest' with
  | stop trivia ends =>
    cases h' with
    | stop trivia' => exact (Prod.mk.inj (trivia.symm.trans trivia')).2
    | group trivia' _ paired' =>
      obtain ⟨-, rfl⟩ := Prod.mk.inj (trivia.symm.trans trivia')
      exact absurd (isOpener_of_mem_shapes paired') (by simp [isOpener_eq_false_of_ends ends])
    | unpaired trivia' opens' =>
      obtain ⟨-, rfl⟩ := Prod.mk.inj (trivia.symm.trans trivia')
      exact absurd opens' (by simp [isOpener_eq_false_of_ends ends])
    | token trivia' plain' reads' =>
      obtain ⟨-, rfl⟩ := Prod.mk.inj (trivia.symm.trans trivia')
      exact absurd reads' (by simp [lexeme?_eq_none_of_ends ends plain'])
  | group trivia attempt paired others ihattempt ihothers =>
    cases h' with
    | stop trivia' ends' =>
      obtain ⟨-, rfl⟩ := Prod.mk.inj (trivia.symm.trans trivia')
      exact absurd (isOpener_of_mem_shapes paired) (by simp [isOpener_eq_false_of_ends ends'])
    | group trivia' attempt' _ others' =>
      obtain ⟨-, rfl⟩ := List.cons.inj (Prod.mk.inj (trivia.symm.trans trivia')).2
      obtain ⟨-, rfl⟩ := List.cons.inj (ihattempt attempt')
      exact ihothers others'
    | unpaired trivia' _ attempt' fails' =>
      obtain ⟨rfl, rfl⟩ := List.cons.inj (Prod.mk.inj (trivia.symm.trans trivia')).2
      have hrest := ihattempt attempt'
      exact absurd paired (fails' _ (by simp [← hrest]))
    | token trivia' plain' =>
      obtain ⟨-, rfl⟩ := Prod.mk.inj (trivia.symm.trans trivia')
      exact absurd (isOpener_of_mem_shapes paired) (by simp [(plain' _ rfl).1])
  | unpaired trivia opens attempt fails others ihattempt ihothers =>
    cases h' with
    | stop trivia' ends' =>
      obtain ⟨-, rfl⟩ := Prod.mk.inj (trivia.symm.trans trivia')
      exact absurd opens (by simp [isOpener_eq_false_of_ends ends'])
    | group trivia' attempt' paired' =>
      obtain ⟨rfl, rfl⟩ := List.cons.inj (Prod.mk.inj (trivia.symm.trans trivia')).2
      have hrest := ihattempt attempt'
      exact absurd paired' (fails _ (by simp [hrest]))
    | unpaired trivia' _ _ _ others' =>
      obtain ⟨-, rfl⟩ := List.cons.inj (Prod.mk.inj (trivia.symm.trans trivia')).2
      exact ihothers others'
    | token trivia' plain' =>
      obtain ⟨-, rfl⟩ := Prod.mk.inj (trivia.symm.trans trivia')
      exact absurd opens (by simp [(plain' _ rfl).1])
  | token trivia plain reads others ih =>
    cases h' with
    | stop trivia' ends' =>
      obtain ⟨-, rfl⟩ := Prod.mk.inj (trivia.symm.trans trivia')
      exact absurd reads (by simp [lexeme?_eq_none_of_ends ends' plain])
    | group trivia' _ paired' =>
      obtain ⟨-, rfl⟩ := Prod.mk.inj (trivia.symm.trans trivia')
      exact absurd (isOpener_of_mem_shapes paired') (by simp [(plain _ rfl).1])
    | unpaired trivia' opens' =>
      obtain ⟨-, rfl⟩ := Prod.mk.inj (trivia.symm.trans trivia')
      exact absurd opens' (by simp [(plain _ rfl).1])
    | token trivia' _ reads' others' =>
      obtain ⟨-, rfl⟩ := Prod.mk.inj (trivia.symm.trans trivia')
      have hread := Option.some.inj (reads.symm.trans reads')
      obtain ⟨-, -, rfl⟩ : _ ∧ _ ∧ _ := by simpa using hread
      exact ih others'

/-! ## Every text is read -/

theorem length_innerTrivia_le (s : Text) : (innerTrivia s).2.length ≤ s.length := by
  fun_induction innerTrivia s with
  | case1 s _ => exact Trivia.length_split_le s
  | case2 s brk rest h ih =>
    have hsplit := congrArg List.length (lineBreak_splits _ _ _ h)
    have := Trivia.length_split_le s
    rw [List.length_append] at hsplit
    dsimp only
    omega

/-- An opening bracket pairs with what is next, or it does not. -/
theorem pairs_or_fails (o : Char) (rest : Text) :
    (∃ d rest', rest = d :: rest' ∧ (o, d) ∈ shapes) ∨ ∀ d ∈ rest.head?, (o, d) ∉ shapes := by
  cases rest with
  | nil => exact .inr (by simp)
  | cons d rest =>
    by_cases h : (o, d) ∈ shapes
    · exact .inl ⟨d, rest, rfl, h⟩
    · exact .inr (by simpa using h)

theorem exists_lexeme?_cons (c : Char) (r : Text) :
    ∃ kind text rest, lexeme? (c :: r) = some (kind, text, rest) := by
  obtain ⟨⟨kind, text, rest⟩, h⟩ :=
    Option.ne_none_iff_exists'.1 (mt Token.lexeme?_eq_none_iff.1 (List.cons_ne_nil c r))
  exact ⟨kind, text, rest, h⟩

/-- Behind an opening bracket every text is read up to some place. -/
theorem exists_inside (s : Text) : ∃ bs t rest, Inside s bs t rest ∧ rest.length ≤ s.length := by
  induction hn : s.length using Nat.strongRecOn generalizing s with
  | ind n ih =>
    subst hn
    obtain ⟨t, r, trivia⟩ : ∃ t r, innerTrivia s = (t, r) := ⟨_, _, rfl⟩
    have hr : r.length ≤ s.length := by simpa [trivia] using length_innerTrivia_le s
    cases r with
    | nil => exact ⟨[], t, [], .stop trivia (by simp), by simp⟩
    | cons c r =>
      rw [List.length_cons] at hr
      by_cases hcloser : isCloser c = true
      · exact ⟨[], t, c :: r, .stop trivia (by simpa using hcloser), hr⟩
      · by_cases hopener : isOpener c = true
        · obtain ⟨cs, inner, rest, attempt, hrest⟩ := ih r.length (by omega) r rfl
          obtain ⟨d, rest, rfl, paired⟩ | fails := pairs_or_fails c rest
          · rw [List.length_cons] at hrest
            obtain ⟨bs, t', rest', others, hrest'⟩ := ih rest.length (by omega) rest rfl
            exact ⟨_, t', rest', .group trivia attempt paired others, by omega⟩
          · exact ⟨_, inner, rest, .unpaired trivia hopener attempt fails attempt, by omega⟩
        · obtain ⟨kind, text, rest, reads⟩ := exists_lexeme?_cons c r
          have hlt := Token.length_lexeme?_lt reads
          rw [List.length_cons] at hlt
          obtain ⟨bs, t', rest', others, hrest'⟩ := ih rest.length (by omega) rest rfl
          exact ⟨_, t', rest', .token trivia (by simp [hopener, hcloser]) reads others, by omega⟩

/-- Every text is read up to its end. -/
theorem exists_file (s : Text) : ∃ bs, File s bs := by
  induction hn : s.length using Nat.strongRecOn generalizing s with
  | ind n ih =>
    subst hn
    obtain ⟨t, r, trivia⟩ : ∃ t r, Trivia.split s = (t, r) := ⟨_, _, rfl⟩
    have hr : r.length ≤ s.length := by simpa [trivia] using Trivia.length_split_le s
    cases r with
    | nil => exact ⟨_, .stop trivia⟩
    | cons c r =>
      rw [List.length_cons] at hr
      by_cases hopener : isOpener c = true
      · obtain ⟨cs, inner, rest, attempt, hrest⟩ := exists_inside r
        obtain ⟨d, rest, rfl, paired⟩ | fails := pairs_or_fails c rest
        · rw [List.length_cons] at hrest
          obtain ⟨bs, others⟩ := ih rest.length (by omega) rest rfl
          exact ⟨_, .group trivia attempt paired others⟩
        · obtain ⟨bs, others⟩ := ih r.length (by omega) r rfl
          exact ⟨_, .unpaired trivia hopener attempt fails others⟩
      · obtain ⟨kind, text, rest, reads⟩ := exists_lexeme?_cons c r
        have hlt := Token.length_lexeme?_lt reads
        rw [List.length_cons] at hlt
        obtain ⟨bs, others⟩ := ih rest.length (by omega) rest rfl
        exact ⟨_, .token trivia (by simp [hopener]) reads others⟩

end Interpolation.Grammar

import Interpolation.Proofs.Bracketed.Grammar
import Interpolation.Proofs.Bracketed.Text

/-!
# The stack reads what the grammar reads

The grammar gives up a group that is not closed and reads its contents again; the stack looks at every token once. What
a group reads up to where it stops leaves some brackets open on the stack, and none of them pairs with what the group
stops at. So a closing bracket finds on the stack the group that the grammar closes.

* `Grammar.Reading` — what the tokens of a group do to a nesting;
* `Grammar.Inside.exists_reading` — every group that the grammar reads is such a reading;
* `Grammar.File.spilled_foldl` — the same for a source;
* `Grammar.File.eq_ofTokens` — the items of the grammar are those of the stack;
* `Tree.exists_file_parse` — every source is read, in one way, and no character of it is lost.
-/

namespace Interpolation

/-! ## Items and open groups -/

namespace Nesting

/-- Some more open groups, the last one first. -/
def push (n : Nesting) (opened : List OpenGroup) : Nesting := { n with stack := opened ++ n.stack }

theorem spilled_add (n : Nesting) (item : Bracketed) : (n.add item).spilled = item :: n.spilled := by
  unfold add
  split
  · next h => simp [spilled, h]
  · next g stack h => simp [spilled, OpenGroup.spilled, h]

theorem openings_add (n : Nesting) (item : Bracketed) :
    (n.add item).stack.map OpenGroup.opening = n.stack.map OpenGroup.opening := by
  unfold add
  split
  · next h => simp [h]
  · next g stack h => simp [h]

/-- Items behind an open bracket are contents of its group. -/
theorem foldl_add_push (items : List Bracketed) (g : OpenGroup) (n : Nesting) :
    items.foldl add (n.push [g]) = n.push [{ g with contents := items.reverse ++ g.contents }] := by
  induction items generalizing g with
  | nil => rfl
  | cons item items ih =>
    have hadd : (n.push [g]).add item = n.push [{ g with contents := item :: g.contents }] := rfl
    rw [List.foldl_cons, hadd, ih]
    simp

theorem push_push (n : Nesting) (opened opened' : List OpenGroup) :
    (n.push opened).push opened' = n.push (opened' ++ opened) := by
  simp [push]

theorem next_of_plain {t : Token} (hopening : t.isOpening = false) (hclosing : t.isClosing = false) (n : Nesting) :
    n.next t = n.add (.token t) := by
  simp [next, hopening, hclosing]

theorem next_of_opening {t : Token} (hopening : t.isOpening = true) (n : Nesting) : n.next t = n.push [⟨t, []⟩] := by
  simp [next, hopening, push]

theorem next_of_closing {t : Token} (hopening : t.isOpening = false) (hclosing : t.isClosing = true) (n : Nesting) :
    n.next t = n.close t := by
  simp [next, hopening, hclosing]

/-- A closing bracket takes the topmost group that it pairs with, and all that stands above that. -/
theorem close_push {t : Token} {opened : List OpenGroup} {g : OpenGroup} (n : Nesting)
    (hopened : ∀ g ∈ opened, g.opening.pairsWith t = false) (hg : g.opening.pairsWith t = true) :
    ((n.push [g]).push opened).close t =
      n.add (.close g.opening (opened.flatMap OpenGroup.spilled ++ g.contents).reverse t) := by
  have hall : ∀ g ∈ opened, (!g.opening.pairsWith t) = true := by simpa using hopened
  simp only [close, push]
  rw [List.dropWhile_append_of_pos hall, List.takeWhile_append_of_pos hall]
  simp [hg]

/-- A closing bracket that pairs with nothing leaves no group open. -/
theorem close_of_unpaired {t : Token} {n : Nesting} (h : ∀ g ∈ n.stack, g.opening.pairsWith t = false) :
    n.close t = ⟨[], .token t :: n.spilled⟩ := by
  have hall : n.stack.dropWhile (!·.opening.pairsWith t) = [] := List.dropWhile_eq_nil_iff.2 (by simpa using h)
  simp [close, hall]

end Nesting

namespace Token

/-- The tokens of a text behind the trivia `z`. -/
def scanFrom (z r : Text) : List Token :=
  match lexeme? r with
  | none => [⟨.endMarker, z, []⟩]
  | some (kind, text, rest) => ⟨kind, z, text⟩ :: scan rest

theorem scan_eq_scanFrom (s : Text) : scan s = scanFrom (Trivia.split s).1 (Trivia.split s).2 := by
  rw [scan, scanFrom]
  split <;> simp_all

theorem scanFrom_of_lexeme? {z r text rest : Text} {kind : TokenKind} (h : lexeme? r = some (kind, text, rest)) :
    scanFrom z r = ⟨kind, z, text⟩ :: scan rest := by
  simp [scanFrom, h]

theorem lexeme?_of_lineBreak {r brk rest : Text} (h : lineBreak r = some (brk, rest)) :
    lexeme? r = some (.newline, brk, rest) := by
  simp [lexeme?, rules, h]

theorem lineBreak_of_lexeme? {r text rest : Text} (h : lexeme? r = some (.newline, text, rest)) :
    lineBreak r = some (text, rest) := by
  obtain ⟨rule, hrule, hr⟩ := exists_rule_of_lexeme? h
  simp only [rules, List.mem_cons, Prod.mk.injEq, reduceCtorEq, false_and, true_and, List.not_mem_nil, or_false] at hrule
  rwa [← hrule]

end Token

/-! ## Brackets as tokens -/

namespace Grammar

open Token (lexeme? scan scanFrom)
open Nesting (add next)

theorem isOpening_stray (z : Text) (c : Char) : (⟨.unknown, z, [c]⟩ : Token).isOpening = isOpener c := by
  simp [Token.isOpening, isOpener, shapes, bracketShapes, eq_comm]

theorem isClosing_stray (z : Text) (c : Char) : (⟨.unknown, z, [c]⟩ : Token).isClosing = isCloser c := by
  simp [Token.isClosing, isCloser, shapes, bracketShapes, eq_comm]

theorem pairsWith_stray (z z' : Text) (o d : Char) :
    (⟨.unknown, z, [o]⟩ : Token).pairsWith ⟨.unknown, z', [d]⟩ = decide ((o, d) ∈ shapes) := by
  simp [Token.pairsWith, shapes, bracketShapes]

theorem lexeme?_bracket {c : Char} (r : Text) (h : isOpener c = true ∨ isCloser c = true) :
    lexeme? (c :: r) = some (.unknown, [c], r) := by
  simp only [isOpener, isCloser, shapes, List.any_cons, List.any_nil, Bool.or_false, Bool.or_eq_true,
    decide_eq_true_eq] at h
  rcases h with (rfl | rfl | rfl) | rfl | rfl | rfl <;> rfl

/-- A token that does not start with a bracket is none. -/
theorem isOpening_isClosing_of_plain {r text rest : Text} {kind : TokenKind}
    (plain : ∀ c ∈ r.head?, isOpener c = false ∧ isCloser c = false) (reads : lexeme? r = some (kind, text, rest))
    (z : Text) : (⟨kind, z, text⟩ : Token).isOpening = false ∧ (⟨kind, z, text⟩ : Token).isClosing = false := by
  have hne := Token.lexeme?_ne_nil reads
  have happend := Token.lexeme?_append reads
  cases text with
  | nil => contradiction
  | cons c text =>
    subst happend
    obtain ⟨hopener, hcloser⟩ := plain c rfl
    by_cases hunknown : kind = .unknown ∧ text = []
    · obtain ⟨rfl, rfl⟩ := hunknown
      exact ⟨by rw [isOpening_stray, hopener], by rw [isClosing_stray, hcloser]⟩
    · constructor
      all_goals
        simp only [Token.isOpening, Token.isClosing, bracketShapes, List.any_cons, List.any_nil]
        grind

/-! ## Line breaks -/

/-- The line breaks in front of a token of a group are tokens of their own. -/
theorem exists_lines (s : Text) : ∃ lines z, (∀ l ∈ lines, l.kind = .newline) ∧
    scan s = lines ++ scanFrom z (innerTrivia s).2 ∧ Token.renderAll lines ++ z = (innerTrivia s).1 ∧
    lineBreak (innerTrivia s).2 = none := by
  fun_induction innerTrivia s with
  | case1 s h => exact ⟨[], (Trivia.split s).1, by simp, Token.scan_eq_scanFrom s, rfl, h⟩
  | case2 s brk rest h ih =>
    obtain ⟨lines, z, hlines, hscan, hrender, hnone⟩ := ih
    refine ⟨⟨.newline, (Trivia.split s).1, brk⟩ :: lines, z, ?_, ?_, ?_, hnone⟩
    · simpa using hlines
    · rw [Token.scan_eq_scanFrom, Token.scanFrom_of_lexeme? (Token.lexeme?_of_lineBreak h), hscan]
      rfl
    · rw [Token.renderAll_cons, List.append_assoc, hrender]

theorem foldl_next_lines {lines : List Token} (h : ∀ l ∈ lines, l.kind = .newline) (n : Nesting) :
    lines.foldl next n = (lines.map Bracketed.token).foldl add n := by
  induction lines generalizing n with
  | nil => rfl
  | cons l lines ih =>
    have hl : l.kind = .newline := h l (by simp)
    have hnext : n.next l = n.add (.token l) :=
      Nesting.next_of_plain (by simp [Token.isOpening, hl]) (by simp [Token.isClosing, hl]) n
    rw [List.foldl_cons, hnext, ih fun l' hl' => h l' (by simp [hl'])]
    rfl

theorem joinLines_lines {lines : List Token} (h : ∀ l ∈ lines, l.kind = .newline) (carried : Text)
    (bs : List Bracketed) : Bracketed.joinLines carried (lines.map .token ++ bs) =
      Bracketed.joinLines (carried ++ Token.renderAll lines) bs := by
  induction lines generalizing carried with
  | nil => simp
  | cons l lines ih =>
    have hl : l.kind = .newline := h l (by simp)
    rw [List.map_cons, List.cons_append, Bracketed.joinLines, if_pos hl, ih fun l' hl' => h l' (by simp [hl'])]
    simp [Token.render]

/-! ## Reading a group -/

/-- What the tokens of `s` up to `rest` do to any nesting: they add `items` to the group that is open in front of them
and leave the brackets of `opened` open. Should that group be closed there, its contents are `bs`, and `t` stands in
front of its closing bracket. -/
structure Reading (s : Text) (bs : List Bracketed) (t rest : Text) where
  tokens : List Token
  items : List Bracketed
  opened : List OpenGroup
  breaks : Text
  trivia : Text
  scan_eq : scan s = tokens ++ scanFrom trivia rest
  run : ∀ n, tokens.foldl next n = (items.foldl add n).push opened
  unpaired : ∀ g ∈ opened, ∀ d ∈ rest.head?, ∀ z, g.opening.pairsWith ⟨.unknown, z, [d]⟩ = false
  joined : Bracketed.joinLines [] (items ++ (opened.flatMap OpenGroup.spilled).reverse) = (bs, breaks)
  left : breaks ++ trivia = t

section Readings

variable {s t r t' rest rest' text : Text} {o d : Char} {kind : TokenKind} {bs cs : List Bracketed}

theorem Reading.stop (trivia : innerTrivia s = (t, r)) : Nonempty (Reading s [] t r) := by
  obtain ⟨lines, z, hlines, hscan, hrender, -⟩ := exists_lines s
  rw [trivia] at hscan hrender
  refine ⟨⟨lines, lines.map .token, [], Token.renderAll lines, z, hscan, ?_, by simp, ?_, hrender⟩⟩
  · exact foldl_next_lines hlines
  · simpa [Bracketed.joinLines] using joinLines_lines hlines [] []

/-- A token that is no bracket is an item. -/
theorem Reading.token (trivia : innerTrivia s = (t, r)) (plain : ∀ c ∈ r.head?, isOpener c = false ∧ isCloser c = false)
    (reads : lexeme? r = some (kind, text, rest)) (others : Reading rest bs t' rest') :
    Nonempty (Reading s (.token ⟨kind, t, text⟩ :: bs) t' rest') := by
  obtain ⟨lines, z, hlines, hscan, hrender, hnone⟩ := exists_lines s
  rw [trivia] at hscan hrender hnone
  obtain ⟨ts, items, opened, breaks, blanks, hts, hrun, hunpaired, hjoined, hleft⟩ := others
  obtain ⟨hopening, hclosing⟩ := isOpening_isClosing_of_plain plain reads z
  have hkind : kind ≠ .newline := by
    rintro rfl
    have := Token.lineBreak_of_lexeme? reads
    simp_all
  refine ⟨⟨lines ++ ⟨kind, z, text⟩ :: ts, lines.map .token ++ .token ⟨kind, z, text⟩ :: items, opened, breaks, blanks,
    ?_, ?_, hunpaired, ?_, hleft⟩⟩
  · rw [hscan, Token.scanFrom_of_lexeme? reads, hts]
    simp
  · intro n
    rw [List.foldl_append, List.foldl_cons, foldl_next_lines hlines, Nesting.next_of_plain hopening hclosing, hrun]
    simp
  · rw [List.append_assoc, joinLines_lines hlines, List.cons_append, Bracketed.joinLines, if_neg hkind, hjoined]
    simp [Token.addTrivia, hrender]

/-- An opening bracket that is not paired stays open, and the items behind it are its contents. -/
theorem Reading.openBracket (trivia : innerTrivia s = (t, o :: r)) (opens : isOpener o = true)
    (fails : ∀ d ∈ rest'.head?, (o, d) ∉ shapes) (others : Reading r bs t' rest') :
    Nonempty (Reading s (.token ⟨.unknown, t, [o]⟩ :: bs) t' rest') := by
  obtain ⟨lines, z, hlines, hscan, hrender, -⟩ := exists_lines s
  rw [trivia] at hscan hrender
  obtain ⟨ts, items, opened, breaks, blanks, hts, hrun, hunpaired, hjoined, hleft⟩ := others
  have hopening : (⟨.unknown, z, [o]⟩ : Token).isOpening = true := by rw [isOpening_stray, opens]
  refine ⟨⟨lines ++ ⟨.unknown, z, [o]⟩ :: ts, lines.map .token, opened ++ [OpenGroup.mk ⟨.unknown, z, [o]⟩ items.reverse],
    breaks, blanks, ?_, ?_, ?_, ?_, hleft⟩⟩
  · rw [hscan, Token.scanFrom_of_lexeme? (lexeme?_bracket r (.inl opens)), hts]
    simp
  · intro n
    rw [List.foldl_append, List.foldl_cons, foldl_next_lines hlines, Nesting.next_of_opening hopening, hrun,
      Nesting.foldl_add_push, Nesting.push_push]
    simp
  · intro g hg d hd z'
    rw [List.mem_append, List.mem_singleton] at hg
    rcases hg with hg | rfl
    · exact hunpaired g hg d hd z'
    · rw [pairsWith_stray]
      exact decide_eq_false (fails d hd)
  · have hspilled : ((opened ++ [OpenGroup.mk ⟨.unknown, z, [o]⟩ items.reverse]).flatMap OpenGroup.spilled).reverse =
        Bracketed.token ⟨.unknown, z, [o]⟩ :: (items ++ (opened.flatMap OpenGroup.spilled).reverse) := by
      simp [OpenGroup.spilled]
    rw [hspilled, joinLines_lines hlines, Bracketed.joinLines, if_neg (by simp), hjoined]
    simp [Token.addTrivia, hrender]

/-- The tokens of a group with its closing bracket add the group as one item. -/
theorem Reading.foldl_group (contents : Reading r cs t' (d :: rest)) (paired : (o, d) ∈ shapes) (z : Text)
    (n : Nesting) :
    (contents.tokens ++ [(⟨.unknown, contents.trivia, [d]⟩ : Token)]).foldl next (n.next ⟨.unknown, z, [o]⟩) =
      n.add (.group ⟨.operator, z, [o]⟩ cs ⟨.operator, t', [d]⟩) := by
  obtain ⟨ts, items, opened, breaks, blanks, hts, hrun, hunpaired, hjoined, rfl⟩ := contents
  have hopening : (⟨.unknown, z, [o]⟩ : Token).isOpening = true := by
    rw [isOpening_stray, isOpener_of_mem_shapes paired]
  have hclosing : (⟨.unknown, blanks, [d]⟩ : Token).isClosing = true := by
    rw [isClosing_stray, isCloser_of_mem_shapes paired]
  have hnot : (⟨.unknown, blanks, [d]⟩ : Token).isOpening = false := by
    rw [isOpening_stray, isOpener_eq_false_of_isCloser (isCloser_of_mem_shapes paired)]
  rw [List.foldl_append, Nesting.next_of_opening hopening, hrun, Nesting.foldl_add_push, List.foldl_cons, List.foldl_nil,
    Nesting.next_of_closing hnot hclosing,
    Nesting.close_push n (fun g hg => hunpaired g hg d rfl blanks) (by rw [pairsWith_stray, decide_eq_true paired])]
  simp [Bracketed.close, hjoined, Token.asPaired, Token.addTrivia]

theorem Reading.scanFrom_group (contents : Reading r cs t' (d :: rest)) (paired : (o, d) ∈ shapes) (z : Text) :
    scanFrom z (o :: r) =
      ⟨.unknown, z, [o]⟩ :: (contents.tokens ++ [⟨.unknown, contents.trivia, [d]⟩]) ++ scan rest := by
  rw [Token.scanFrom_of_lexeme? (lexeme?_bracket r (.inl (isOpener_of_mem_shapes paired))), contents.scan_eq,
    Token.scanFrom_of_lexeme? (lexeme?_bracket rest (.inr (isCloser_of_mem_shapes paired)))]
  simp

/-- A group is an item. -/
theorem Reading.group (trivia : innerTrivia s = (t, o :: r)) (contents : Reading r cs text (d :: rest))
    (paired : (o, d) ∈ shapes) (others : Reading rest bs t' rest') :
    Nonempty (Reading s (.group ⟨.operator, t, [o]⟩ cs ⟨.operator, text, [d]⟩ :: bs) t' rest') := by
  obtain ⟨lines, z, hlines, hscan, hrender, -⟩ := exists_lines s
  rw [trivia] at hscan hrender
  obtain ⟨ts, items, opened, breaks, blanks, hts, hrun, hunpaired, hjoined, hleft⟩ := others
  refine ⟨⟨lines ++ ⟨.unknown, z, [o]⟩ :: (contents.tokens ++ [⟨.unknown, contents.trivia, [d]⟩]) ++ ts,
    lines.map .token ++ .group ⟨.operator, z, [o]⟩ cs ⟨.operator, text, [d]⟩ :: items, opened, breaks, blanks,
    ?_, ?_, hunpaired, ?_, hleft⟩⟩
  · rw [hscan, contents.scanFrom_group paired, hts]
    simp
  · intro n
    rw [List.foldl_append, List.foldl_append, List.foldl_cons, foldl_next_lines hlines, contents.foldl_group paired,
      hrun, List.foldl_append, List.foldl_cons]
  · rw [List.append_assoc, joinLines_lines hlines, List.cons_append, Bracketed.joinLines, hjoined]
    simp [Token.addTrivia, hrender]

/-- Every group that the grammar reads is read so. -/
theorem Inside.exists_reading (h : Inside s bs t rest) : Nonempty (Reading s bs t rest) := by
  induction h with
  | stop trivia _ => exact Reading.stop trivia
  | group trivia _ paired _ ihattempt ihothers =>
    obtain ⟨contents⟩ := ihattempt
    obtain ⟨others⟩ := ihothers
    exact Reading.group trivia contents paired others
  | unpaired trivia opens attempt fails others _ ihothers =>
    obtain ⟨others'⟩ := ihothers
    -- The items behind the bracket stop where the attempt stopped.
    rw [attempt.rest_unique others] at fails
    exact Reading.openBracket trivia opens fails others'
  | token trivia plain reads _ ih =>
    obtain ⟨others⟩ := ih
    exact Reading.token trivia plain reads others

end Readings

/-! ## Reading a source -/

/-- No open bracket of a nesting pairs with what a group stops at whose contents start with `s`. -/
def Unpaired (n : Nesting) (s : Text) : Prop :=
  ∀ opening ∈ n.stack.map OpenGroup.opening, ∀ cs t rest, Inside s cs t rest → ∀ d ∈ rest.head?, ∀ z,
    opening.pairsWith ⟨.unknown, z, [d]⟩ = false

section Sources

variable {s s' t r rest rest' text : Text} {o : Char} {kind : TokenKind} {cs bs : List Bracketed} {n : Nesting}

theorem innerTrivia_of_lexeme? (trivia : Trivia.split s = (t, r)) (reads : lexeme? r = some (kind, text, rest))
    (hkind : kind ≠ .newline) : innerTrivia s = (t, r) := by
  have hnone : lineBreak (Trivia.split s).2 = none := by
    rw [trivia, Option.eq_none_iff_forall_ne_some]
    rintro ⟨brk, rest'⟩ hbreak
    rw [Token.lexeme?_of_lineBreak hbreak] at reads
    simp_all
  rw [innerTrivia]
  split
  · exact trivia
  · simp_all

theorem innerTrivia_of_lineBreak (trivia : Trivia.split s = (t, r)) (reads : lineBreak r = some (text, rest)) :
    (innerTrivia s).2 = (innerTrivia rest).2 := by
  rw [innerTrivia]
  split <;> simp_all

/-- Only what is behind the trivia decides where a group stops. -/
theorem Inside.exists_of_innerTrivia (h : Inside s cs t rest) (heq : (innerTrivia s').2 = (innerTrivia s).2) :
    ∃ cs' t', Inside s' cs' t' rest := by
  have trivia' : ∀ {t r}, innerTrivia s = (t, r) → innerTrivia s' = ((innerTrivia s').1, r) := by
    intro t r trivia
    rw [trivia] at heq
    exact Prod.ext rfl heq
  cases h with
  | stop trivia ends => exact ⟨_, _, .stop (trivia' trivia) ends⟩
  | group trivia attempt paired others => exact ⟨_, _, .group (trivia' trivia) attempt paired others⟩
  | unpaired trivia opens attempt fails others => exact ⟨_, _, .unpaired (trivia' trivia) opens attempt fails others⟩
  | token trivia plain reads others => exact ⟨_, _, .token (trivia' trivia) plain reads others⟩

/-- An item more, when a group that goes on behind it stops where one that starts with it does. -/
theorem Unpaired.add (h : Unpaired n s) (item : Bracketed)
    (hinside : ∀ cs t rest', Inside rest cs t rest' → ∃ cs' t', Inside s cs' t' rest') : Unpaired (n.add item) rest := by
  intro opening hopening cs t rest' hrest
  rw [Nesting.openings_add] at hopening
  obtain ⟨cs', t', hs⟩ := hinside cs t rest' hrest
  exact h opening hopening cs' t' rest' hs

/-- An opening bracket more, when the attempt at its group fails. -/
theorem Unpaired.push (h : Unpaired n s) (trivia : innerTrivia s = (t, o :: r)) (opens : isOpener o = true)
    (attempt : Inside r cs text rest) (fails : ∀ d ∈ rest.head?, (o, d) ∉ shapes) :
    Unpaired (n.push [⟨⟨.unknown, t, [o]⟩, []⟩]) r := by
  intro opening hopening cs' t' rest' hr d hd z
  rw [attempt.rest_unique hr] at fails
  rcases List.mem_cons.1 hopening with rfl | hopening
  · rw [pairsWith_stray]
    exact decide_eq_false (fails d hd)
  · exact h opening hopening _ t' rest' (.unpaired trivia opens hr fails hr) d hd z

/-- A token more that is no opening bracket. A closing bracket leaves no group open, because a group whose contents start
in front of it stops at it. -/
theorem Unpaired.next (h : Unpaired n s) (trivia : Trivia.split s = (t, r)) (plain : ∀ c ∈ r.head?, isOpener c = false)
    (reads : lexeme? r = some (kind, text, rest)) :
    (n.next ⟨kind, t, text⟩).spilled = .token ⟨kind, t, text⟩ :: n.spilled ∧ Unpaired (n.next ⟨kind, t, text⟩) rest := by
  by_cases hkind : kind = .newline
  · subst hkind
    rw [Nesting.next_of_plain (by simp [Token.isOpening]) (by simp [Token.isClosing])]
    have hinner := innerTrivia_of_lineBreak trivia (Token.lineBreak_of_lexeme? reads)
    exact ⟨Nesting.spilled_add _ _, h.add _ fun _ _ _ hrest => hrest.exists_of_innerTrivia hinner⟩
  · have hinner := innerTrivia_of_lexeme? trivia reads hkind
    by_cases hcloser : ∃ c r', r = c :: r' ∧ isCloser c = true
    · obtain ⟨c, r', rfl, hcloser⟩ := hcloser
      have hread := Option.some.inj ((lexeme?_bracket r' (.inr hcloser)).symm.trans reads)
      simp only [Prod.mk.injEq] at hread
      obtain ⟨rfl, rfl, rfl⟩ := hread
      have hstops : Inside s [] t (c :: r') := .stop hinner (by simpa using hcloser)
      have hall : ∀ g ∈ n.stack, g.opening.pairsWith ⟨.unknown, t, [c]⟩ = false :=
        fun g hg => h g.opening (List.mem_map_of_mem hg) [] t (c :: r') hstops c rfl t
      rw [Nesting.next_of_closing (by rw [isOpening_stray, plain c rfl]) (by rw [isClosing_stray, hcloser]),
        Nesting.close_of_unpaired hall]
      exact ⟨rfl, by simp [Unpaired]⟩
    · have hplain : ∀ c ∈ r.head?, isOpener c = false ∧ isCloser c = false := by
        intro c hc
        obtain ⟨r', rfl⟩ := List.head?_eq_some_iff.1 hc
        exact ⟨plain c hc, Bool.eq_false_iff.2 fun hc' => hcloser ⟨c, r', rfl, hc'⟩⟩
      obtain ⟨hopening, hclosing⟩ := isOpening_isClosing_of_plain hplain reads t
      rw [Nesting.next_of_plain hopening hclosing]
      exact ⟨Nesting.spilled_add _ _, h.add _ fun _ _ _ hrest => ⟨_, _, .token hinner hplain reads hrest⟩⟩

/-- What the grammar reads a source as is what the stack spills at its end. -/
theorem File.spilled_foldl (h : File s bs) (hn : Unpaired n s) :
    ((scan s).foldl next n).spilled = bs.reverse ++ n.spilled := by
  induction h generalizing n with
  | @stop s t trivia =>
    have hscan : scan s = [⟨.endMarker, t, []⟩] := by
      rw [Token.scan_eq_scanFrom, trivia]
      rfl
    rw [hscan, List.foldl_cons, List.foldl_nil, Nesting.next_of_plain rfl rfl, Nesting.spilled_add]
    rfl
  | @group s t r inner rest o d cs bs trivia attempt paired others ih =>
    obtain ⟨contents⟩ := attempt.exists_reading
    have hlexeme := lexeme?_bracket r (.inl (isOpener_of_mem_shapes paired))
    have hinner := innerTrivia_of_lexeme? trivia hlexeme (by simp)
    have hrest : Unpaired (n.add (.group ⟨.operator, t, [o]⟩ cs ⟨.operator, inner, [d]⟩)) rest :=
      hn.add _ fun _ _ _ h => ⟨_, _, .group hinner attempt paired h⟩
    rw [Token.scan_eq_scanFrom, trivia, contents.scanFrom_group paired, List.foldl_append, List.foldl_cons,
      contents.foldl_group paired, ih hrest, Nesting.spilled_add]
    simp
  | @unpaired s t r inner rest o cs bs trivia opens attempt fails others ih =>
    have hlexeme := lexeme?_bracket r (.inl opens)
    have hopening : (⟨.unknown, t, [o]⟩ : Token).isOpening = true := by rw [isOpening_stray, opens]
    have hr := hn.push (innerTrivia_of_lexeme? trivia hlexeme (by simp)) opens attempt fails
    rw [Token.scan_eq_scanFrom, trivia, Token.scanFrom_of_lexeme? hlexeme, List.foldl_cons,
      Nesting.next_of_opening hopening, ih hr]
    simp [Nesting.push, Nesting.spilled, OpenGroup.spilled]
  | @token s t r text rest kind bs trivia plain reads others ih =>
    obtain ⟨hspilled, hrest⟩ := hn.next trivia plain reads
    rw [Token.scan_eq_scanFrom, trivia, Token.scanFrom_of_lexeme? reads, List.foldl_cons, ih hrest, hspilled]
    simp

/-- The items that the grammar reads are those that pairing on a stack gives. -/
theorem File.eq_ofTokens (h : File s bs) : bs = Bracketed.ofTokens (scan s) := by
  have hspilled := h.spilled_foldl (n := .empty) (by simp [Unpaired, Nesting.empty])
  rw [Bracketed.ofTokens, hspilled]
  simp [Nesting.spilled, Nesting.empty]

end Sources

end Grammar

namespace Tree

/-- Every source is read by the grammar, up to its end and in one way only. Its tree groups the operands of what the
grammar reads, and the trivia and the texts of the leaves, from left to right, are the source. -/
theorem exists_file_parse (source : Text) : ∃ items, Grammar.File source items ∧
    (∀ items', Grammar.File source items' → items' = items) ∧
    parse source = .node .file (groupOperands false (ofBracketedAll items)) ∧
    ((parse source).tokens.flatMap fun t => t.trivia ++ t.text) = source ∧ (parse source).render = source := by
  obtain ⟨items, hitems⟩ := Grammar.exists_file source
  refine ⟨items, hitems, ?_, ?_, ?_, ?_⟩
  · intro items' hitems'
    rw [hitems'.eq_ofTokens, hitems.eq_ofTokens]
  · rw [parse, hitems.eq_ofTokens]
  · exact render_parse source
  · exact render_parse source

end Tree

end Interpolation

import Interpolation.Proofs.Bracketed.Reading
import Interpolation.Proofs.Bracketed.Window
import Interpolation.Proofs.Token.Settled

/-!
# Reading item by item

The items of a source and the items of a group are read in the same way, but for the line breaks, which are trivia in a
group and tokens outside, and the closing brackets, which end a group.

* `Grammar.Level` — what is trivia, and what no item starts with; `Level.file` and `Level.group` are the two levels;
* `Grammar.Item` — what is read as one item; `File.cons_iff` and `Inside.cons_iff` read a list item by item;
* `Grammar.Inherits` — what is left of a settled text is settled; `Item.inherits` says so behind an item;
* `Grammar.Stops` — the character that a group stops at whose contents start here; `Item.stops` goes past an item.
-/

namespace Interpolation

open Literal (isFirst)
open Text (Settled)
open Token (lexeme?)

namespace Grammar

variable {s s' r t x brk text rest p v : Text} {c : Char} {kind : TokenKind} {bs cs : List Bracketed}

/-! ## Trivia of a group -/

theorem innerTrivia_of_eq_none (h : lineBreak (Trivia.split s).2 = none) : innerTrivia s = Trivia.split s := by
  rw [innerTrivia]
  split <;> simp_all

theorem innerTrivia_of_eq_some (h : lineBreak (Trivia.split s).2 = some (brk, rest)) :
    innerTrivia s = ((Trivia.split s).1 ++ brk ++ (innerTrivia rest).1, (innerTrivia rest).2) := by
  rw [innerTrivia]
  split <;> simp_all

theorem innerTrivia_append (s : Text) : (innerTrivia s).1 ++ (innerTrivia s).2 = s := by
  fun_induction innerTrivia s with
  | case1 s _ => exact Trivia.split_append s
  | case2 s brk rest h ih =>
    have hbreak := lineBreak_splits _ _ _ h
    rw [List.append_assoc, List.append_assoc, ih, hbreak, Trivia.split_append]

theorem innerTrivia_innerTrivia (s : Text) : innerTrivia (innerTrivia s).2 = ([], (innerTrivia s).2) := by
  fun_induction innerTrivia s with
  | case1 s h =>
    have hsplit := Trivia.split_split s
    rw [innerTrivia_of_eq_none (by rwa [hsplit]), hsplit]
  | case2 s brk rest h ih => exact ih

theorem split_innerTrivia (s : Text) : Trivia.split (innerTrivia s).2 = ([], (innerTrivia s).2) := by
  fun_induction innerTrivia s with
  | case1 s _ => exact Trivia.split_split s
  | case2 s brk rest _ ih => exact ih

theorem innerTrivia_split (s : Text) : (innerTrivia (Trivia.split s).2).2 = (innerTrivia s).2 := by
  have hsplit := Trivia.split_split s
  cases h : lineBreak (Trivia.split s).2 with
  | none => rw [innerTrivia_of_eq_none h, innerTrivia_of_eq_none (by rwa [hsplit]), hsplit]
  | some p =>
    obtain ⟨brk, rest⟩ := p
    rw [innerTrivia_of_eq_some h, innerTrivia_of_eq_some (by rwa [hsplit])]

end Grammar

open Grammar (innerTrivia Inside)

/-- Trivia of a group in a settled text are the same whatever literal stands behind it. -/
theorem Text.Settled.innerTrivia {p : Text} {c : Char} {v : Text} (h : Settled p) (hc : isFirst c = true) {z r : Text}
    (htrivia : Grammar.innerTrivia (p ++ c :: v) = (z, r)) (hle : z.length ≤ p.length) :
    ∃ q, p = z ++ q ∧ r = q ++ c :: v ∧ Settled q ∧ Trivia.split q = ([], q) ∧
      ∀ c' v', isFirst c' = true → Grammar.innerTrivia (p ++ c' :: v') = (z, q ++ c' :: v') := by
  generalize hs : p ++ c :: v = s at htrivia
  fun_induction Grammar.innerTrivia s generalizing p z with
  | case1 s hbreak =>
    subst hs
    obtain ⟨q, hp, rfl, hq, hclear, htail⟩ := h.trivia hc htrivia hle
    refine ⟨q, hp, rfl, hq, hclear, fun c' v' hc' => ?_⟩
    rw [Grammar.innerTrivia_of_eq_none, htail c' v' hc']
    rw [htail c' v' hc', Option.eq_none_iff_forall_ne_some]
    rintro ⟨brk, rest⟩ hbreak'
    -- A line break would be a token of the text in front of the literal.
    have hne : q ≠ [] := by
      rintro rfl
      rw [List.nil_append, Literal.lineBreak_eq_none hc'] at hbreak'
      cases hbreak'
    obtain ⟨w, -, -, -, hread⟩ := hq.lexeme hclear hne hc' (Token.lexeme?_of_lineBreak hbreak')
    rw [htrivia, Token.lineBreak_of_lexeme? (hread c v hc)] at hbreak
    contradiction
  | case2 s brk rest hbreak ih =>
    subst hs
    obtain ⟨z₁, r₁, hsplit⟩ : ∃ z₁ r₁, Trivia.split (p ++ c :: v) = (z₁, r₁) := ⟨_, _, rfl⟩
    obtain ⟨z₂, r₂, hinner⟩ : ∃ z₂ r₂, Grammar.innerTrivia rest = (z₂, r₂) := ⟨_, _, rfl⟩
    rw [hsplit] at hbreak
    rw [hsplit, hinner] at htrivia
    obtain ⟨rfl, rfl⟩ := Prod.mk.inj htrivia
    simp only [List.length_append] at hle
    obtain ⟨q₁, rfl, rfl, hq₁, hclear, htail₁⟩ := h.trivia hc hsplit (by omega)
    have hne : q₁ ≠ [] := by
      rintro rfl
      rw [List.nil_append, Literal.lineBreak_eq_none hc] at hbreak
      contradiction
    obtain ⟨w, rfl, rfl, hw, hread⟩ := hq₁.lexeme hclear hne hc (Token.lexeme?_of_lineBreak hbreak)
    rw [List.length_append, List.length_append] at hle
    obtain ⟨q, rfl, rfl, hq, hclear', htail₂⟩ := ih hw (by omega) rfl hinner
    refine ⟨q, by simp, rfl, hq, hclear', fun c' v' hc' => ?_⟩
    have hbreak' : lineBreak (Trivia.split (z₁ ++ (brk ++ (z₂ ++ q)) ++ c' :: v')).2 =
        some (brk, z₂ ++ q ++ c' :: v') := by
      rw [htail₁ c' v' hc']
      exact Token.lineBreak_of_lexeme? (hread c' v' hc')
    rw [Grammar.innerTrivia_of_eq_some hbreak', htail₁ c' v' hc', htail₂ c' v' hc']

namespace Grammar

/-! ## The two levels -/

/-- No literal starts with a bracket. -/
theorem not_bracket_first (hc : isFirst c = true) : isOpener c = false ∧ isCloser c = false := by
  have hnone : ∀ d ∈ Literal.firsts, isOpener d = false ∧ isCloser d = false := by decide
  exact hnone c (Literal.mem_of_isFirst hc)

/-- No trivia start with a literal. -/
theorem split_first (hc : isFirst c = true) (v : Text) : Trivia.split (c :: v) = ([], c :: v) := by
  have hnone : ∀ d ∈ Literal.firsts, Trivia.isBlank d = false ∧ d ≠ '#' ∧ d ≠ '\\' := by decide
  obtain ⟨hblank, hcomment, hjoin⟩ := hnone c (Literal.mem_of_isFirst hc)
  exact Trivia.split_eq_self hblank hcomment hjoin v

theorem innerTrivia_first (hc : isFirst c = true) (v : Text) : innerTrivia (c :: v) = ([], c :: v) := by
  have hsplit := split_first hc v
  rw [innerTrivia_of_eq_none (by rw [hsplit, Literal.lineBreak_eq_none hc]), hsplit]

/-- How items are read that stand side by side: what is trivia between them, and which characters no item starts with.
Trivia are taken to their end and go on with no literal, and in a settled text they are a matter of that text. -/
structure Level where
  trivia : Text → Text × Text
  isEnd : Char → Bool
  append : ∀ s, (trivia s).1 ++ (trivia s).2 = s
  clear : ∀ s, Trivia.split (trivia s).2 = ([], (trivia s).2)
  inner : ∀ s, (innerTrivia (trivia s).2).2 = (innerTrivia s).2
  first : ∀ {c : Char} (v : Text), isFirst c = true → isEnd c = false ∧ trivia (c :: v) = ([], c :: v)
  settled : ∀ {p v z r : Text} {c : Char}, Settled p → isFirst c = true → trivia (p ++ c :: v) = (z, r) →
    z.length ≤ p.length → ∃ q, p = z ++ q ∧ r = q ++ c :: v ∧ Settled q ∧ Trivia.split q = ([], q) ∧
      ∀ c' v', isFirst c' = true → trivia (p ++ c' :: v') = (z, q ++ c' :: v')

/-- The items of a source. -/
def Level.file : Level where
  trivia := Trivia.split
  isEnd _ := false
  append := Trivia.split_append
  clear := Trivia.split_split
  inner := innerTrivia_split
  first v hc := ⟨rfl, split_first hc v⟩
  settled h hc htrivia hle := h.trivia hc htrivia hle

/-- The items of a group. -/
def Level.group : Level where
  trivia := innerTrivia
  isEnd := isCloser
  append := innerTrivia_append
  clear := split_innerTrivia
  inner s := by rw [innerTrivia_innerTrivia]
  first v hc := ⟨(not_bracket_first hc).2, innerTrivia_first hc v⟩
  settled h hc htrivia hle := h.innerTrivia hc htrivia hle

/-- `Item ℓ s b rest`: the item `b` is read at the front of `s`, and `rest` is what is left. -/
inductive Item (ℓ : Level) : Text → Bracketed → Text → Prop
  | group {s t r inner rest : Text} {o d : Char} {cs : List Bracketed} (trivia : ℓ.trivia s = (t, o :: r))
      (attempt : Inside r cs inner (d :: rest)) (paired : (o, d) ∈ shapes) :
      Item ℓ s (.group ⟨.operator, t, [o]⟩ cs ⟨.operator, inner, [d]⟩) rest
  | unpaired {s t r inner rest : Text} {o : Char} {cs : List Bracketed} (trivia : ℓ.trivia s = (t, o :: r))
      (opens : isOpener o = true) (attempt : Inside r cs inner rest) (fails : ∀ d ∈ rest.head?, (o, d) ∉ shapes) :
      Item ℓ s (.token ⟨.unknown, t, [o]⟩) r
  | token {s t r text rest : Text} {kind : TokenKind} (trivia : ℓ.trivia s = (t, r))
      (plain : ∀ c ∈ r.head?, isOpener c = false ∧ ℓ.isEnd c = false) (reads : lexeme? r = some (kind, text, rest)) :
      Item ℓ s (.token ⟨kind, t, text⟩) rest

theorem split_bracket {c : Char} (h : isOpener c = true ∨ isCloser c = true) (r : Text) :
    Trivia.split (c :: r) = ([], c :: r) := by
  have hc : ∀ d ∈ "([\x7b)]\x7d".toList, Trivia.isBlank d = false ∧ d ≠ '#' ∧ d ≠ '\\' := by decide
  have hmem : c ∈ "([\x7b)]\x7d".toList := by
    simp only [isOpener, isCloser, shapes, List.any_cons, List.any_nil, Bool.or_false, Bool.or_eq_true,
      decide_eq_true_eq] at h
    rcases h with (rfl | rfl | rfl) | rfl | rfl | rfl <;> decide
  obtain ⟨hblank, hcomment, hjoin⟩ := hc c hmem
  exact Trivia.split_eq_self hblank hcomment hjoin r

variable {ℓ : Level} {s s' r t x text rest p q v : Text} {c d : Char} {kind : TokenKind} {b : Bracketed}
  {bs cs : List Bracketed} {a : Option Char}

theorem Inside.nil_iff : Inside s [] t x ↔ innerTrivia s = (t, x) ∧ ∀ c ∈ x.head?, isCloser c = true := by
  constructor
  · rintro ⟨⟩
    exact ⟨‹_›, ‹_›⟩
  · rintro ⟨trivia, ends⟩
    exact .stop trivia ends

/-- A group is read item by item. -/
theorem Inside.cons_iff : Inside s (b :: bs) t x ↔ ∃ rest, Item .group s b rest ∧ Inside rest bs t x := by
  constructor
  · intro h
    cases h with
    | group trivia attempt paired others => exact ⟨_, .group trivia attempt paired, others⟩
    | unpaired trivia opens attempt fails others => exact ⟨_, .unpaired trivia opens attempt fails, others⟩
    | token trivia plain reads others => exact ⟨_, .token trivia plain reads, others⟩
  · rintro ⟨rest, hitem, others⟩
    cases hitem with
    | group trivia attempt paired => exact .group trivia attempt paired others
    | unpaired trivia opens attempt fails => exact .unpaired trivia opens attempt fails others
    | token trivia plain reads => exact .token trivia plain reads others

/-- A source is read item by item, up to the end marker. -/
theorem File.cons_iff : File s (b :: bs) ↔
    (∃ t, Trivia.split s = (t, []) ∧ b = .token ⟨.endMarker, t, []⟩ ∧ bs = []) ∨
      ∃ rest, Item .file s b rest ∧ File rest bs := by
  constructor
  · intro h
    cases h with
    | stop trivia => exact .inl ⟨_, trivia, rfl, rfl⟩
    | group trivia attempt paired others => exact .inr ⟨_, .group trivia attempt paired, others⟩
    | unpaired trivia opens attempt fails others => exact .inr ⟨_, .unpaired trivia opens attempt fails, others⟩
    | token trivia plain reads others =>
      exact .inr ⟨_, .token trivia (fun c hc => ⟨plain c hc, rfl⟩) reads, others⟩
  · rintro (⟨t, trivia, rfl, rfl⟩ | ⟨rest, hitem, others⟩)
    · exact .stop trivia
    · cases hitem with
      | group trivia attempt paired => exact .group trivia attempt paired others
      | unpaired trivia opens attempt fails => exact .unpaired trivia opens attempt fails others
      | token trivia plain reads => exact .token trivia (fun c hc => (plain c hc).1) reads others

theorem File.exists_item (h : File s (b :: bs)) (hb : b.isToken .endMarker = false) :
    ∃ rest, Item .file s b rest ∧ File rest bs := by
  obtain ⟨t, -, rfl, -⟩ | h := File.cons_iff.1 h
  · contradiction
  · exact h

/-! ## No character is lost -/

theorem Level.clear_of_eq (h : ℓ.trivia s = (t, r)) : Trivia.split r = ([], r) := by
  have hclear := ℓ.clear s
  rwa [h] at hclear

theorem Level.append_of_eq (h : ℓ.trivia s = (t, r)) : t ++ r = s := by
  have happend := ℓ.append s
  rwa [h] at happend

theorem Inside.append (h : Inside s bs t x) : Bracketed.text bs ++ (t ++ x) = s := by
  induction h with
  | stop trivia _ => simpa using Level.append_of_eq (ℓ := .group) trivia
  | group trivia _ _ _ ihattempt ihothers =>
    rw [← Level.append_of_eq (ℓ := .group) trivia, ← ihattempt, ← ihothers]
    simp [Token.render]
  | unpaired trivia _ _ _ _ _ ihothers =>
    rw [← Level.append_of_eq (ℓ := .group) trivia, ← ihothers]
    simp [Token.render]
  | token trivia _ reads _ ih =>
    rw [← Level.append_of_eq (ℓ := .group) trivia, ← Token.lexeme?_append reads, ← ih]
    simp [Token.render]

theorem Item.trivia_eq {u : Token} (h : Item ℓ s (.token u) rest) : ℓ.trivia s = (u.trivia, u.text ++ rest) := by
  cases h with
  | unpaired trivia _ _ _ => exact trivia
  | token trivia _ reads => rw [trivia, ← Token.lexeme?_append reads]

theorem Item.append (h : Item ℓ s b rest) : Bracketed.text [b] ++ rest = s := by
  cases h with
  | group trivia attempt _ =>
    rw [← Level.append_of_eq trivia, ← attempt.append]
    simp [Token.render]
  | unpaired trivia _ _ _ =>
    rw [← Level.append_of_eq trivia]
    simp [Token.render]
  | token trivia _ reads =>
    rw [← Level.append_of_eq trivia, ← Token.lexeme?_append reads]
    simp [Token.render]

/-! ## What is left is settled -/

/-- What is left of `s` at `s'`: in front of a literal it is settled if all of it is. -/
structure Inherits (s s' : Text) : Prop where
  suffix : s' <:+ s
  settled : ∀ {p q v : Text} {c : Char}, isFirst c = true → s = p ++ c :: v → s' = q ++ c :: v → Settled p → Settled q

namespace Inherits

theorem refl (s : Text) : Inherits s s := by
  refine ⟨List.suffix_refl s, fun {p q v c} _ hp hq h => ?_⟩
  rwa [← List.append_cancel_right (hp.symm.trans hq)]

theorem trans {s s' s'' : Text} (h : Inherits s s') (h' : Inherits s' s'') : Inherits s s'' := by
  refine ⟨h'.suffix.trans h.suffix, fun {p q v c} hc hp hq hsettled => ?_⟩
  obtain ⟨w, hw⟩ := h'.suffix
  subst hq
  exact h'.settled hc (p := w ++ q) (by simpa using hw.symm) rfl (h.settled hc hp (by simpa using hw.symm) hsettled)

theorem trivia (h : ℓ.trivia s = (t, r)) : Inherits s r := by
  have happend := ℓ.append_of_eq h
  refine ⟨⟨t, happend⟩, fun {p q v c} hc hp hq hsettled => ?_⟩
  subst hp hq
  have hlength := congrArg List.length happend
  simp only [List.length_append] at hlength
  obtain ⟨q', -, hq', hsettled', -⟩ := ℓ.settled hsettled hc h (by omega)
  rwa [List.append_cancel_right hq']

theorem token (hclear : Trivia.split s = ([], s)) (h : lexeme? s = some (kind, text, rest)) : Inherits s rest := by
  have happend := Token.lexeme?_append h
  refine ⟨⟨text, happend⟩, fun {p q v c} hc hp hq hsettled => ?_⟩
  subst hp hq
  have hne : p ≠ [] := by
    rintro rfl
    have hlength := congrArg List.length happend
    have := List.length_pos_iff.2 (Token.lexeme?_ne_nil h)
    simp only [List.length_append, List.length_nil] at hlength
    omega
  obtain ⟨p', hp', -, -, hclear', -⟩ := hsettled.trivia hc hclear (Nat.zero_le _)
  obtain rfl : p = p' := hp'
  obtain ⟨w, -, hw, hsettled', -⟩ := hsettled.lexeme hclear' hne hc h
  rwa [List.append_cancel_right hw]

theorem bracket (h : isOpener c = true ∨ isCloser c = true) (r : Text) : Inherits (c :: r) r :=
  token (split_bracket h r) (lexeme?_bracket r h)

end Inherits

theorem Inside.inherits (h : Inside s bs t x) : Inherits s x := by
  induction h with
  | stop trivia _ => exact .trivia (ℓ := .group) trivia
  | group trivia _ paired _ ihattempt ihothers =>
    exact (Inherits.trivia (ℓ := .group) trivia).trans <|
      (Inherits.bracket (.inl (isOpener_of_mem_shapes paired)) _).trans <|
      ihattempt.trans <| (Inherits.bracket (.inr (isCloser_of_mem_shapes paired)) _).trans ihothers
  | unpaired trivia opens _ _ _ _ ihothers =>
    exact (Inherits.trivia (ℓ := .group) trivia).trans <| (Inherits.bracket (.inl opens) _).trans ihothers
  | token trivia _ reads _ ih =>
    have hclear := Level.clear_of_eq (ℓ := .group) trivia
    exact (Inherits.trivia (ℓ := .group) trivia).trans <| (Inherits.token hclear reads).trans ih

theorem Item.inherits (h : Item ℓ s b rest) : Inherits s rest := by
  cases h with
  | group trivia attempt paired =>
    exact (Inherits.trivia trivia).trans <| (Inherits.bracket (.inl (isOpener_of_mem_shapes paired)) _).trans <|
      attempt.inherits.trans <| Inherits.bracket (.inr (isCloser_of_mem_shapes paired)) _
  | unpaired trivia opens _ _ => exact (Inherits.trivia trivia).trans <| Inherits.bracket (.inl opens) _
  | token trivia _ reads => exact (Inherits.trivia trivia).trans <| Inherits.token (Level.clear_of_eq trivia) reads

/-! ## Where a group would stop -/

/-- A group whose contents start with `s` stops at the character `a`, or at the end of the text. -/
def Stops (s : Text) (a : Option Char) : Prop := ∃ bs t x, Inside s bs t x ∧ x.head? = a

theorem exists_stops (s : Text) : ∃ a, Stops s a := by
  obtain ⟨bs, t, x, h, -⟩ := exists_inside s
  exact ⟨_, bs, t, x, h, rfl⟩

theorem Stops.eq_of_inside (h : Stops s a) (hinside : Inside s bs t x) : x.head? = a := by
  obtain ⟨bs', t', x', h', rfl⟩ := h
  rw [hinside.rest_unique h']

theorem Stops.of_innerTrivia (h : Stops s a) (heq : (innerTrivia s').2 = (innerTrivia s).2) : Stops s' a := by
  obtain ⟨bs, t, x, h, rfl⟩ := h
  obtain ⟨bs', t', h'⟩ := h.exists_of_innerTrivia heq
  exact ⟨bs', t', x, h', rfl⟩

theorem Stops.trivia (h : Stops r a) (htrivia : ℓ.trivia s = (t, r)) : Stops s a := by
  have hinner := ℓ.inner s
  rw [htrivia] at hinner
  exact h.of_innerTrivia hinner.symm

theorem innerTrivia_bracket (h : isOpener c = true ∨ isCloser c = true) (r : Text) :
    innerTrivia (c :: r) = ([], c :: r) :=
  innerTrivia_of_lexeme? (split_bracket h r) (lexeme?_bracket r h) (by simp)

/-- The closing bracket that an item is, if it is an unpaired one. -/
def closer? : Bracketed → Option Char
  | .token ⟨.unknown, _, [d]⟩ => if isCloser d then some d else none
  | _ => none

theorem closer?_of_isOpener (h : isOpener c = true) : closer? (.token ⟨.unknown, t, [c]⟩) = none :=
  if_neg fun hcloser => by
    rw [isOpener_eq_false_of_isCloser hcloser] at h
    contradiction

/-- A group whose contents start with an item stops at it or where one stops that starts behind it. -/
theorem Item.stops (h : Item ℓ s b rest) (ha : Stops rest a) : Stops s ((closer? b).or a) := by
  cases h with
  | @group t r inner _ o d cs trivia attempt paired =>
    obtain ⟨bs', t', x', hrest, rfl⟩ := ha
    have hinner := innerTrivia_bracket (.inl (isOpener_of_mem_shapes paired)) r
    exact Stops.trivia ⟨_, _, x', .group hinner attempt paired hrest, rfl⟩ trivia
  | unpaired trivia opens attempt fails =>
    obtain ⟨bs', t', x', hr, rfl⟩ := ha
    have hinner := innerTrivia_bracket (.inl opens) rest
    rw [closer?_of_isOpener opens, Option.none_or]
    rw [attempt.rest_unique hr] at fails
    exact Stops.trivia ⟨_, _, x', .unpaired hinner opens hr fails hr, rfl⟩ trivia
  | @token t r text _ kind trivia plain reads =>
    cases r with
    | nil => simp [Token.lexeme?_eq_none_iff.2 rfl] at reads
    | cons c r =>
      by_cases hcloser : isCloser c = true
      · have hread := Option.some.inj ((lexeme?_bracket r (.inr hcloser)).symm.trans reads)
        simp only [Prod.mk.injEq] at hread
        obtain ⟨rfl, rfl, rfl⟩ := hread
        have hinner := innerTrivia_bracket (.inr hcloser) r
        have hstop : Stops (c :: r) (some c) := ⟨[], [], c :: r, .stop hinner (by simpa using hcloser), rfl⟩
        simpa [closer?, hcloser] using hstop.trivia trivia
      · have hnone : closer? (.token ⟨kind, t, text⟩) = none := by
          unfold closer?
          split
          · next d heq =>
            obtain ⟨rfl, rfl, rfl⟩ := Token.mk.inj (Bracketed.token.inj heq)
            obtain ⟨rfl, -⟩ := List.cons.inj (Token.lexeme?_append reads)
            exact if_neg hcloser
          · rfl
        rw [hnone, Option.none_or]
        refine Stops.trivia ?_ trivia
        by_cases hkind : kind = .newline
        · subst hkind
          exact ha.of_innerTrivia (innerTrivia_of_lineBreak (Level.clear_of_eq trivia) (Token.lineBreak_of_lexeme? reads))
        · obtain ⟨bs', t', x', hrest, rfl⟩ := ha
          have hinner := innerTrivia_of_lexeme? (Level.clear_of_eq trivia) reads hkind
          exact ⟨_, _, x', .token hinner (by simpa [hcloser] using (plain c rfl).1) reads hrest, rfl⟩

/-- A group that starts at either text stops at the same character. -/
def StopsAlike (s s' : Text) : Prop := ∃ a, Stops s a ∧ Stops s' a

theorem StopsAlike.refl (s : Text) : StopsAlike s s := by
  obtain ⟨a, ha⟩ := exists_stops s
  exact ⟨a, ha, ha⟩

theorem Item.stopsAlike {ℓ' : Level} {b' : Bracketed} {rest' : Text} (h : Item ℓ s b rest) (h' : Item ℓ' s' b' rest')
    (hcloser : closer? b = closer? b') (halike : StopsAlike rest rest') : StopsAlike s s' := by
  obtain ⟨a, ha, ha'⟩ := halike
  exact ⟨_, h.stops ha, hcloser ▸ h'.stops ha'⟩

/-! ## Some items in turn -/

/-- The items `bs` are read one after the other at the front of `s`, and `rest` is what is left. -/
inductive Run (ℓ : Level) : Text → List Bracketed → Text → Prop
  | nil {s : Text} : Run ℓ s [] s
  | cons {s s' rest : Text} {b : Bracketed} {bs : List Bracketed} (item : Item ℓ s b s') (others : Run ℓ s' bs rest) :
      Run ℓ s (b :: bs) rest

theorem Run.inside (h : Run .group s bs rest) (others : Inside rest cs t x) : Inside s (bs ++ cs) t x := by
  induction h with
  | nil => exact others
  | cons item _ ih => exact Inside.cons_iff.2 ⟨_, item, ih others⟩

theorem Run.file (h : Run .file s bs rest) (others : File rest cs) : File s (bs ++ cs) := by
  induction h with
  | nil => exact others
  | cons item _ ih => exact File.cons_iff.2 (.inr ⟨_, item, ih others⟩)

theorem Run.inherits (h : Run ℓ s bs rest) : Inherits s rest := by
  induction h with
  | nil => exact .refl _
  | cons item _ ih => exact item.inherits.trans ih

theorem Run.append (h : Run ℓ s bs rest) : Bracketed.text bs ++ rest = s := by
  induction h with
  | nil => rfl
  | @cons _ _ rest b bs item _ ih => rw [← item.append, ← ih, ← List.append_assoc, ← Bracketed.text_append]; rfl

theorem Run.stops (h : Run ℓ s bs rest) (hbs : ∀ b ∈ bs, closer? b = none) (ha : Stops rest a) : Stops s a := by
  induction h with
  | nil => exact ha
  | cons item _ ih =>
    rw [List.forall_mem_cons] at hbs
    simpa [hbs.1] using item.stops (ih hbs.2 ha)

/-! ## The tokens -/

/-- The tokens of a group, apart from operators and brackets, are read as what they are. -/
theorem Inside.exists_lexeme? (h : Inside s bs t x) {u : Token} (hu : u ∈ Bracketed.tokensAll bs)
    (hkind : u.kind ≠ .operator) : ∃ r rest, lexeme? r = some (u.kind, u.text, rest) := by
  induction h with
  | stop => simp [Bracketed.tokensAll] at hu
  | group _ _ _ _ ihattempt ihothers =>
    simp only [Bracketed.tokensAll, Bracketed.tokens, List.cons_append, List.append_assoc, List.mem_cons,
      List.mem_append, List.nil_append] at hu
    rcases hu with rfl | hu | rfl | hu
    · contradiction
    · exact ihattempt hu
    · contradiction
    · exact ihothers hu
  | unpaired _ opens _ _ _ _ ihothers =>
    simp only [Bracketed.tokensAll, Bracketed.tokens, List.singleton_append, List.mem_cons] at hu
    rcases hu with rfl | hu
    · exact ⟨_, _, lexeme?_bracket [] (.inl opens)⟩
    · exact ihothers hu
  | token _ _ reads _ ih =>
    simp only [Bracketed.tokensAll, Bracketed.tokens, List.singleton_append, List.mem_cons] at hu
    rcases hu with rfl | hu
    · exact ⟨_, _, reads⟩
    · exact ih hu

theorem Item.exists_lexeme? (h : Item ℓ s b rest) {u : Token} (hu : u ∈ b.tokens) (hkind : u.kind ≠ .operator) :
    ∃ r rest, lexeme? r = some (u.kind, u.text, rest) := by
  cases h with
  | group _ attempt _ =>
    simp only [Bracketed.tokens, List.mem_cons, List.mem_append, List.not_mem_nil, or_false] at hu
    rcases hu with rfl | hu | rfl
    · contradiction
    · exact attempt.exists_lexeme? hu hkind
    · contradiction
  | unpaired _ opens _ _ =>
    obtain rfl := List.mem_singleton.1 hu
    exact ⟨_, _, lexeme?_bracket [] (.inl opens)⟩
  | token _ _ reads =>
    obtain rfl := List.mem_singleton.1 hu
    exact ⟨_, _, reads⟩

theorem File.exists_lexeme? (h : File s bs) {u : Token} (hu : u ∈ Bracketed.tokensAll bs) (hkind : u.kind ≠ .operator)
    (hend : u.kind ≠ .endMarker) : ∃ r rest, lexeme? r = some (u.kind, u.text, rest) := by
  induction bs generalizing s with
  | nil => cases h
  | cons b bs ih =>
    rcases List.mem_append.1 hu with hb | hbs
    all_goals obtain ⟨t, -, rfl, rfl⟩ | ⟨rest, hitem, others⟩ := File.cons_iff.1 h
    · obtain rfl := List.mem_singleton.1 hb
      contradiction
    · exact hitem.exists_lexeme? hb hkind
    · cases hbs
    · exact ih others hbs

end Grammar

namespace Token

/-- A name is a word. -/
theorem isContinue_of_word {s text rest : Text} (h : word s = some (text, rest)) :
    ∀ c ∈ text, Identifier.isContinue c = true := by
  obtain ⟨first, more, s', hfirst, hmore, rfl⟩ := Recognizer.andThen_eq_some_iff.1 h
  obtain ⟨d, hd, rfl, -⟩ := Recognizer.one_eq_some_iff.1 hfirst
  obtain ⟨rfl, -⟩ := Prod.mk.inj (Option.some.inj hmore)
  have hword : Identifier.isContinue d = true := Identifier.isContinue_of_or Identifier.isContinue_of_isStart hd
  exact List.forall_mem_cons.2 ⟨hword, fun c hc => List.mem_takeWhile_imp hc⟩

theorem isContinue_of_lexeme? {s text rest : Text} (h : lexeme? s = some (.name, text, rest)) :
    ∀ c ∈ text, Identifier.isContinue c = true := by
  obtain ⟨rule, hrule, hread⟩ := exists_rule_of_lexeme? h
  obtain rfl : rule = word := by simpa [rules] using hrule
  exact isContinue_of_word hread

theorem literal_of_lexeme? {s text rest : Text} (h : lexeme? s = some (.string, text, rest)) :
    Literal.literal s = some (text, rest) := by
  obtain ⟨rule, hrule, hread⟩ := exists_rule_of_lexeme? h
  obtain rfl : rule = Literal.literal := by simpa [rules] using hrule
  exact hread

end Token

end Interpolation

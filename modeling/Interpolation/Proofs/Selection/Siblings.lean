import Interpolation.Proofs.Bracketed.Window

/-!
# The expressions among the siblings of a source

* `Bracketed.Within` — the lists of siblings among some items: the items themselves, and the inside of every group;
* `Bracketed.formatPlaces` — the places of the format strings among items, once their operands are grouped;
* `Bracketed.Within.mem_formatPlaces_iff` — what is found in a group does not depend on where the group stands;
* `Pattern.exists_select_iff` — which strings of a source are format strings, by their neighbours alone.
-/

namespace Interpolation

namespace Bracketed

/-- `Within bs n cs` says that `cs` is a list of siblings among the items `bs`: it is `bs` itself, or what stands
between the brackets of a group. There are `n` tokens of `bs` in front of it. -/
inductive Within (bs : List Bracketed) : Nat → List Bracketed → Prop
  | all : Within bs 0 bs
  | group {n : Nat} {pre contents post : List Bracketed} {opening closing : Token}
      (outer : Within bs n (pre ++ .group opening contents closing :: post)) :
      Within bs (n + (tokensAll pre).length + 1) contents

/-- The places of the format strings of all expressions among some items. -/
def formatPlaces (bs : List Bracketed) : List Nat :=
  Tree.placesAll (Tree.groupOperands false (bs.map Tree.ofBracketed))

/-- The tokens of a list of siblings stand together. -/
theorem Within.exists_tokens_eq {bs cs : List Bracketed} {n : Nat} (h : Within bs n cs) :
    ∃ before after, tokensAll bs = before ++ (tokensAll cs ++ after) ∧ before.length = n := by
  induction h with
  | all => exact ⟨[], [], by simp, rfl⟩
  | @group n pre contents post opening closing outer ih =>
    obtain ⟨before, after, htokens, hlength⟩ := ih
    refine ⟨before ++ (tokensAll pre ++ [opening]), closing :: (tokensAll post ++ after), ?_, by simp [hlength]; omega⟩
    rw [htokens]
    simp [tokensAll, tokens]

end Bracketed

namespace Tree

open Bracketed (formatPlaces)

theorem length_tokensAll_map (bs : List Bracketed) :
    (tokensAll (bs.map ofBracketed)).length = (Bracketed.tokensAll bs).length := by
  rw [← ofBracketedAll_eq_map, tokensAll_ofBracketedAll]

/-- Two siblings that hold the same place are one. -/
theorem eq_of_place {pre pre' post post' : List Tree} {a b : Tree} {k : Nat}
    (h : pre ++ a :: post = pre' ++ b :: post') (ha : (tokensAll pre).length ≤ k)
    (ha' : k < (tokensAll pre).length + a.tokens.length) (hb : (tokensAll pre').length ≤ k)
    (hb' : k < (tokensAll pre').length + b.tokens.length) : pre = pre' ∧ a = b ∧ post = post' := by
  obtain ⟨ms, rfl, hms⟩ | ⟨ms, rfl, hms⟩ := List.append_eq_append_iff.1 h
  · cases ms with
    | nil =>
      obtain ⟨rfl, rfl⟩ := List.cons.inj hms
      exact ⟨by simp, rfl, rfl⟩
    | cons m ms =>
      obtain ⟨rfl, _⟩ := List.cons.inj hms
      simp only [tokensAll_append, tokensAll_cons, List.length_append] at hb
      omega
  · cases ms with
    | nil =>
      obtain ⟨rfl, rfl⟩ := List.cons.inj hms
      exact ⟨by simp, rfl, rfl⟩
    | cons m ms =>
      obtain ⟨rfl, _⟩ := List.cons.inj hms
      simp only [tokensAll_append, tokensAll_cons, List.length_append] at ha
      omega

@[simp]
theorem placesAll_listed (opening : Token) (ts : List Tree) : placesAll (listed opening ts) = placesAll ts := by
  unfold listed
  split
  · simp
  · rfl

/-- The format strings in a group are those between its brackets. -/
theorem places_ofBracketed_group (opening closing : Token) (contents : List Bracketed) :
    (ofBracketed (.group opening contents closing)).places = (formatPlaces contents).map (1 + ·) := by
  rw [ofBracketed, places_node (by decide), ofBracketedAll_eq_map]
  simp [formatPlaces]

/-- What stands at a place within a sibling is found in that sibling, or is an expression that starts there. -/
theorem mem_formatPlaces_iff_of_lt {pre post : List Bracketed} {b : Bracketed} {j : Nat} (hj : j < b.tokens.length) :
    (Bracketed.tokensAll pre).length + j ∈ formatPlaces (pre ++ b :: post) ↔ j ∈ (ofBracketed b).places ∨
      (j = 0 ∧ ∃ op operand rest, post = op :: operand :: rest ∧
        IsExpression (ofBracketed b) (ofBracketed op) (ofBracketed operand) ∧
        Bracketed.FreeLeft pre ∧ Bracketed.FreeRight rest) := by
  have hb : j < (ofBracketed b).tokens.length := by rwa [tokens_ofBracketed]
  rw [formatPlaces, mem_placesAll_groupOperands_iff, List.map_append, List.map_cons, placesAll_append, placesAll_cons]
  refine or_congr ?_ ?_
  · simp only [List.mem_append, List.mem_map, length_tokensAll_map, Nat.add_left_cancel_iff, exists_eq_right]
    constructor
    · rintro (h | h | ⟨k, _, hk⟩)
      · have := lt_of_mem_placesAll h
        rw [length_tokensAll_map] at this
        omega
      · exact h
      · omega
    · exact fun h => .inr (.inl h)
  · constructor
    · rintro ⟨pre', s, op, operand, post', heq, hexpression, hleft, hright, hplace⟩
      obtain ⟨u, rfl, _⟩ := Pattern.exists_leaf_of_isToken hexpression.parts.1
      have hlength := length_tokensAll_map pre
      obtain ⟨rfl, hu, hpost⟩ := eq_of_place (k := (Bracketed.tokensAll pre).length + j) heq (by omega) (by omega)
        (by omega) (by rw [tokens_leaf, List.length_singleton]; omega)
      obtain ⟨op, more, rfl, rfl, hmore⟩ := List.map_eq_cons_iff.1 hpost
      obtain ⟨operand, rest, rfl, rfl, rfl⟩ := List.map_eq_cons_iff.1 hmore
      exact ⟨by omega, op, operand, rest, rfl, hu ▸ hexpression, (leftFree_iff pre).1 hleft, (rightFree_iff rest).1 hright⟩
    · rintro ⟨rfl, op, operand, rest, rfl, hexpression, hleft, hright⟩
      exact ⟨_, _, _, _, _, rfl, hexpression, (leftFree_iff pre).2 hleft, (rightFree_iff rest).2 hright,
        by simp [length_tokensAll_map]⟩

/-- What is found between the brackets of a group is found among the siblings of the group. -/
theorem mem_formatPlaces_group_iff {pre post contents : List Bracketed} {opening closing : Token} {j : Nat}
    (hj : j < (Bracketed.tokensAll contents).length) :
    (Bracketed.tokensAll pre).length + (1 + j) ∈ formatPlaces (pre ++ .group opening contents closing :: post) ↔
      j ∈ formatPlaces contents := by
  rw [mem_formatPlaces_iff_of_lt (by simp [Bracketed.tokens]; omega), places_ofBracketed_group]
  simp

end Tree

namespace Bracketed.Within

theorem mem_formatPlaces_iff {bs cs : List Bracketed} {n j : Nat} (h : Within bs n cs)
    (hj : j < (tokensAll cs).length) : n + j ∈ formatPlaces bs ↔ j ∈ formatPlaces cs := by
  induction h generalizing j with
  | all => rw [Nat.zero_add]
  | @group n pre contents post opening closing outer ih =>
    have houter := ih (j := (tokensAll pre).length + (1 + j)) (by simp [tokensAll, tokens]; omega)
    rw [Tree.mem_formatPlaces_group_iff hj] at houter
    rw [← houter, Nat.add_assoc, Nat.add_assoc]

end Bracketed.Within

namespace Pattern

theorem places_parse (source : Text) :
    (Tree.parse source).places = Bracketed.formatPlaces (Bracketed.ofTokens (Token.scan source)) := by
  rw [Tree.parse, Tree.places_node (by decide), Tree.ofBracketedAll_eq_map]
  rfl

/-- The format string of what is found stands at its place. -/
theorem getElem?_placeOf {t : Tree} {m : Match} (h : m ∈ interpolation.found t) : ∃ literal,
    t.subtree? (m.path ++ m.captures.formatString) = some (.leaf literal) ∧ t.tokens[t.placeOf m]? = some literal := by
  obtain ⟨e, he, hshape⟩ := interpolates_of_mem_found h
  obtain ⟨literal, op, operand, rfl, _, _, hformat⟩ := hshape.exists_eq
  obtain ⟨after, hafter⟩ := Tree.exists_tokens_eq he
  refine ⟨literal, ?_, ?_⟩
  · rw [hformat, Tree.subtree?_append, he]
    rfl
  · rw [Tree.placeOf, hformat, Tree.tokensBefore_append he, hafter]
    simp

/-- A string among the siblings of a source is the format string of an expression just where a percent sign and a name
or a tuple of names follow it, nothing in front of it takes it away, and nothing behind them goes on with them. -/
theorem exists_select_iff {source : Text} {n : Nat} {before after : List Bracketed} {s : Token}
    (h : Bracketed.Within (Bracketed.ofTokens (Token.scan source)) n (before ++ .token s :: after))
    (hs : s.kind = .string) :
    (∃ m ∈ interpolation.select (Tree.parse source),
        (Tree.parse source).subtree? (m.path ++ m.captures.formatString) = some (.leaf s) ∧
        ((Tree.parse source).tokensBefore (m.path ++ m.captures.formatString)).length =
          n + (Bracketed.tokensAll before).length) ↔
      (∃ percent operand rest, after = percent :: operand :: rest ∧ percent.isOperator ['%'] = true ∧
        (operand.isToken .name = true ∨ operand.isNameTuple = true) ∧ Bracketed.FreeRight rest) ∧
      Bracketed.FreeLeft before := by
  obtain ⟨left, right, htokens, hlength⟩ := h.exists_tokens_eq
  have hs' : (Tree.parse source).tokens[n + (Bracketed.tokensAll before).length]? = some s := by
    rw [Tree.tokens_parse, htokens, ← hlength]
    simp [Bracketed.tokensAll, Bracketed.tokens]
  have hplaces : n + (Bracketed.tokensAll before).length ∈ (Tree.parse source).places ↔
      (∃ m ∈ interpolation.select (Tree.parse source),
        (Tree.parse source).subtree? (m.path ++ m.captures.formatString) = some (.leaf s) ∧
        ((Tree.parse source).tokensBefore (m.path ++ m.captures.formatString)).length =
          n + (Bracketed.tokensAll before).length) := by
    rw [Tree.places, found_parse, List.mem_map]
    refine exists_congr fun m => and_congr_right fun hm => ⟨fun hplace => ⟨?_, hplace⟩, fun h => h.2⟩
    rw [← found_parse] at hm
    obtain ⟨literal, hliteral, htoken⟩ := getElem?_placeOf hm
    rw [hplace, hs', Option.some.injEq] at htoken
    rw [hliteral, htoken]
  rw [← hplaces, places_parse, h.mem_formatPlaces_iff (by simp [Bracketed.tokensAll, Bracketed.tokens]),
    ← Nat.add_zero (Bracketed.tokensAll before).length,
    Tree.mem_formatPlaces_iff_of_lt (by simp [Bracketed.tokens])]
  simp only [Tree.ofBracketed_token, Tree.places_leaf, List.not_mem_nil, false_or, true_and]
  constructor
  · rintro ⟨op, operand, rest, hafter, hexpression, hleft, hright⟩
    rw [← Tree.ofBracketed_token, Tree.isExpression_iff] at hexpression
    exact ⟨⟨op, operand, rest, hafter, hexpression.2.1, hexpression.2.2, hright⟩, hleft⟩
  · rintro ⟨⟨op, operand, rest, hafter, hpercent, hoperand, hright⟩, hleft⟩
    refine ⟨op, operand, rest, hafter, ?_, hleft, hright⟩
    rw [← Tree.ofBracketed_token, Tree.isExpression_iff]
    exact ⟨by simpa [Bracketed.isToken] using hs, hpercent, hoperand⟩

/-- A literal in brackets, behind a minus sign, with a tuple for its operand. -/
theorem exists_select_behind_minus :
    let source := "f(1 - '%s' % (x, y))".toList
    let op (t : Text) : Token := ⟨.operator, [], t⟩
    let before := [.token ⟨.number, [], ['1']⟩, .token ⟨.operator, [' '], ['-']⟩]
    let s : Token := ⟨.string, [' '], "'%s'".toList⟩
    let names := [.token ⟨.name, [], ['x']⟩, .token (op [',']), .token ⟨.name, [' '], ['y']⟩]
    let after := [.token ⟨.operator, [' '], ['%']⟩, .group ⟨.operator, [' '], ['(']⟩ names (op [')'])]
    Bracketed.Within (Bracketed.ofTokens (Token.scan source)) 2 (before ++ .token s :: after) ∧ s.kind = .string ∧
      ∃ m ∈ interpolation.select (Tree.parse source),
        (Tree.parse source).subtree? (m.path ++ m.captures.formatString) = some (.leaf s) ∧
        ((Tree.parse source).tokensBefore (m.path ++ m.captures.formatString)).length = 2 + 2 := by
  intro source op before s names after
  have hscan : Token.scan source = [⟨.name, [], ['f']⟩, ⟨.unknown, [], ['(']⟩, ⟨.number, [], ['1']⟩,
      ⟨.operator, [' '], ['-']⟩, s, ⟨.operator, [' '], ['%']⟩, ⟨.unknown, [' '], ['(']⟩, ⟨.name, [], ['x']⟩, op [','],
      ⟨.name, [' '], ['y']⟩, ⟨.unknown, [], [')']⟩, ⟨.unknown, [], [')']⟩, ⟨.endMarker, [], []⟩] := by
    decide +kernel
  have hitems : Bracketed.ofTokens (Token.scan source) = [.token ⟨.name, [], ['f']⟩] ++
      .group (op ['(']) (before ++ .token s :: after) (op [')']) :: [.token ⟨.endMarker, [], []⟩] := by
    rw [hscan]
    rfl
  have hwithin : Bracketed.Within (Bracketed.ofTokens (Token.scan source)) 2 (before ++ .token s :: after) := by
    rw [hitems]
    exact .group .all
  refine ⟨hwithin, rfl, (exists_select_iff hwithin rfl).2 ⟨⟨_, _, [], rfl, rfl, .inr rfl, ?_⟩, ?_⟩⟩
  · constructor <;> decide
  · constructor <;> decide

end Pattern

end Interpolation

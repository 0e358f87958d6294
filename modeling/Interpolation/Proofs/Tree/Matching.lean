import Interpolation.Proofs.Bracketed.Lines
import Interpolation.Proofs.Tree.Shape
import Interpolation.Proofs.Tree.WellShaped

/-!
# The brackets of a tree are paired as on a stack

What the stack pairs are the first and last children of the bracket groups of the tree, and what it leaves over are
tokens of no other kind. The line breaks that it encloses are trivia, and no others are.

* `Tree.not_encloses_newline` — no pair encloses a token that is a line break;
* `Tree.matching_parse` — the brackets and line breaks of a source in its tree.
-/

namespace Interpolation.Tree

/-- A bracket that is left over is a single character of no other kind. -/
theorem exists_leaf_of_mem_unpaired {source : Text} {b : Bracket} (h : b ∈ (Matching.ofSource source).unpaired) :
    ∃ p u, (parse source).subtree? p = some (.leaf u) ∧ u.kind = .unknown ∧ u.text.length = 1 ∧
      b = ⟨u.text, (parse source).startOf p⟩ := by
  obtain ⟨⟨place, u⟩, hu, rfl⟩ := List.mem_map.1 ((unpaired_ofSource source).mem_iff.1 h)
  obtain ⟨hlocated, hbracket⟩ := List.mem_filter.1 hu
  obtain ⟨p, hp, rfl⟩ := mem_located_iff.1 hlocated
  have hkind : u.kind = .unknown ∧ u.text.length = 1 := by
    have hshapes : ∀ shape ∈ bracketShapes, shape.1.length = 1 ∧ shape.2.length = 1 := by decide
    simp only [Token.isOpening, Token.isClosing, Bool.or_eq_true, Bool.and_eq_true, decide_eq_true_eq,
      List.any_eq_true] at hbracket
    rcases hbracket with ⟨hkind, shape, hshape, htext⟩ | ⟨hkind, shape, hshape, htext⟩
    · exact ⟨hkind, htext ▸ (hshapes shape hshape).1⟩
    · exact ⟨hkind, htext ▸ (hshapes shape hshape).2⟩
  exact ⟨p, u, hp, hkind.1, hkind.2, by rw [Nat.zero_add]⟩

/-- A leaf directly under a node is not between the brackets of a group next to it. -/
theorem not_between_of_child {pre post : List Tree} {u : Token} {o c : Bracket} {i : Nat}
    (h : (o, c) ∈ pairsAll 0 (pre ++ .leaf u :: post))
    (hfirst : (Token.renderAll (tokensAll pre)).length + u.trivia.length ≤ i)
    (hlast : i < (Token.renderAll (tokensAll pre)).length + u.trivia.length + u.text.length) :
    ¬(o.place < i ∧ i < c.place) := by
  have hrender : u.render.length = u.trivia.length + u.text.length := List.length_append
  rw [pairsAll_append, pairsAll_cons, pairs_leaf, List.nil_append, render_leaf] at h
  rcases List.mem_append.1 h with h | h
  · have hbounds := bounds_of_mem_pairsAll h
    omega
  · have hbounds := bounds_of_mem_pairsAll h
    omega

/-- Line breaks that are tokens stand directly under the file, where no brackets enclose them. -/
theorem not_encloses_newline {source : Text} {p : Path} {u : Token} {i : Nat}
    (hp : (parse source).subtree? p = some (.leaf u)) (hkind : u.kind = .newline)
    (hfirst : (parse source).startOf p ≤ i) (hlast : i < (parse source).startOf p + u.text.length) :
    ¬(Matching.ofSource source).Encloses i := by
  rintro ⟨⟨o, c⟩, hpair, hencloses⟩
  have hlength : p.length = 1 := (shaped_parse source).newline hp hkind
  obtain ⟨j, rfl⟩ := List.length_eq_one_iff.1 hlength
  rw [pairs_ofSource] at hpair
  have hfile : (parse source).kind? = some .file := rfl
  generalize parse source = t at hp hfirst hlast hpair hfile
  obtain ⟨k, pre, s, post, rfl, rfl, hs⟩ := exists_children_eq hp
  obtain rfl : s = .leaf u := by simpa using hs
  obtain rfl : k = .file := by simpa [kind?] using hfile
  rw [pairs_node, ownPair_eq_nil (brackets?_of_kind (by decide) (by decide) _), List.append_nil] at hpair
  rw [startOf_node] at hfirst hlast
  have hstart : (leaf u).startOf [] = u.trivia.length := by simp [startOf, textBefore]
  rw [hstart] at hfirst hlast
  exact not_between_of_child hpair hfirst hlast hencloses

/-- A line break outside of strings and trivia is a token, or enclosed by paired brackets and in the trivia of a
token. -/
theorem newline_or_enclosed {source : Text} {c : Char} {i : Nat} (hc : (c, i) ∈ outside source)
    (hbreak : isBreak c = true) :
    (∃ p u, (parse source).subtree? p = some (.leaf u) ∧ u.kind = .newline ∧ (parse source).startOf p ≤ i ∧
      i < (parse source).startOf p + u.text.length) ∨
    (Matching.ofSource source).Encloses i ∧ ∃ p u, (parse source).subtree? p = some (.leaf u) ∧
      ((parse source).textBefore p).length ≤ i ∧ i < (parse source).startOf p := by
  obtain ⟨place, u, hu, hkind, hfirst, hlast⟩ := exists_newline_of_mem_outside hc hbreak
  rcases Bracketed.line_ofTokens _ place u hu hkind with ⟨v, hv, hvkind, htext⟩ | ⟨⟨pair, hpair, hencloses⟩, htrivia⟩
  · rw [← tokens_parse] at hv
    obtain ⟨p, hp, rfl⟩ := mem_located_iff.1 hv
    rw [← htext] at hlast
    exact .inl ⟨p, v, hp, hvkind, by omega, by omega⟩
  · rw [← pairs_parse, ← pairs_ofSource] at hpair
    rw [← tokens_parse] at htrivia
    obtain ⟨start, v, hv, hstart, hstop⟩ := htrivia
    obtain ⟨p, hp, rfl⟩ := mem_located_iff.1 hv
    have hplace : (parse source).startOf p = ((parse source).textBefore p).length + v.trivia.length := by
      simp [startOf, hp]
    exact .inr ⟨⟨pair, hpair, by omega, by omega⟩, p, v, hp, by omega, by omega⟩

/-- The tree of a source, which is what the grammar reads, has the brackets of the source as a stack pairs them: two
brackets are paired if and only if they are the first and the last child of one bracket group, and every bracket that is
left over is a single character of no other kind. A line break outside of strings, comments and joined lines is a token
if and only if no paired brackets enclose it, and otherwise in the trivia of some token. -/
theorem matching_parse (source : Text) :
    let t := parse source
    let m := Matching.ofSource source
    (∃ items, Grammar.File source items ∧ t = .node .file (groupOperands false (ofBracketedAll items))) ∧
    (∀ o c, (o, c) ∈ m.pairs ↔
      ∃ p k u ts v, t.subtree? p = some (.node k (.leaf u :: (ts ++ [.leaf v]))) ∧ (k = .atom ∨ k = .trailer) ∧
        u.kind = .operator ∧ v.kind = .operator ∧ o = ⟨u.text, t.startOf (p ++ [0])⟩ ∧
        c = ⟨v.text, t.startOf (p ++ [ts.length + 1])⟩) ∧
    (∀ b ∈ m.unpaired, ∃ p u, t.subtree? p = some (.leaf u) ∧ u.kind = .unknown ∧ u.text.length = 1 ∧
      b = ⟨u.text, t.startOf p⟩) ∧
    ∀ c i, (c, i) ∈ outside source → isBreak c = true →
      ((∃ p u, t.subtree? p = some (.leaf u) ∧ u.kind = .newline ∧ t.startOf p ≤ i ∧ i < t.startOf p + u.text.length) ↔
        ¬m.Encloses i) ∧
      (m.Encloses i → ∃ p u, t.subtree? p = some (.leaf u) ∧ (t.textBefore p).length ≤ i ∧ i < t.startOf p) := by
  intro t m
  refine ⟨?_, fun o c => ?_, fun b hb => exists_leaf_of_mem_unpaired hb, fun c i hc hbreak => ?_⟩
  · obtain ⟨items, hitems⟩ := Grammar.exists_file source
    exact ⟨items, hitems, by show parse source = _; rw [parse, hitems.eq_ofTokens]⟩
  · show (o, c) ∈ (Matching.ofSource source).pairs ↔ _
    rw [pairs_ofSource]
    exact mem_pairs_iff
  · have hleaf (h : ∃ p u, t.subtree? p = some (.leaf u) ∧ u.kind = .newline ∧ t.startOf p ≤ i ∧
        i < t.startOf p + u.text.length) : ¬m.Encloses i := by
      obtain ⟨p, u, hp, hkind, hfirst, hlast⟩ := h
      exact not_encloses_newline hp hkind hfirst hlast
    rcases newline_or_enclosed hc hbreak with hnewline | ⟨hencloses, htrivia⟩
    · exact ⟨iff_of_true hnewline (hleaf hnewline), fun h => absurd h (hleaf hnewline)⟩
    · exact ⟨iff_of_false (fun h => hleaf h hencloses) (fun h => h hencloses), fun _ => htrivia⟩

/-- Of brackets that cross each other the pair that is closed first is kept. -/
example : (Matching.ofSource "([)]".toList).pairs = [(⟨['('], 0⟩, ⟨[')'], 2⟩)] := by decide +kernel

end Interpolation.Tree

import Interpolation.Proofs.Selection.Matches
import Interpolation.Proofs.Tree.Place
import Interpolation.Proofs.Operand.Grouping

/-!
# The places of format strings

* `Tree.places` — the places of the format strings of all expressions in a tree, each by the number of tokens in front;
* `Tree.placesAll` — the same for some trees in turn;
* `Tree.places_node`, `Tree.mem_places_term_iff` — a term can add a place of its own, and no other node does.
-/

namespace Interpolation

open Pattern (interpolation)

namespace Tree

/-- The number of tokens of `t` in front of the format string of `m`. -/
def placeOf (t : Tree) (m : Match) : Nat := (t.tokensBefore (m.path ++ m.captures.formatString)).length

/-- The places of the format strings of all that is found in a tree. -/
def places (t : Tree) : List Nat := (interpolation.found t).map t.placeOf

/-- The places in some trees that stand side by side. -/
def placesAll : List Tree → List Nat
  | [] => []
  | c :: cs => c.places ++ (placesAll cs).map (c.tokens.length + ·)

@[simp] theorem placesAll_nil : placesAll [] = [] := rfl

@[simp] theorem placesAll_cons (c : Tree) (cs : List Tree) :
    placesAll (c :: cs) = c.places ++ (placesAll cs).map (c.tokens.length + ·) := rfl

@[simp] theorem places_leaf (t : Token) : (leaf t).places = [] := rfl

@[simp]
theorem placesAll_append (cs ds : List Tree) :
    placesAll (cs ++ ds) = placesAll cs ++ (placesAll ds).map ((tokensAll cs).length + ·) := by
  induction cs with
  | nil => simp
  | cons c cs ih => simp [ih, Function.comp_def, Nat.add_assoc]

theorem placeOf_under (k : NodeKind) (pre post : List Tree) (c : Tree) (m : Match) :
    (node k (pre ++ c :: post)).placeOf (m.under pre.length) = (tokensAll pre).length + c.placeOf m := by
  show ((node k (pre ++ c :: post)).tokensBefore (pre.length :: (m.path ++ m.captures.formatString))).length = _
  rw [tokensBefore_node, List.length_append]
  rfl

/-- What is found in the children of a node has the places that it has in them. -/
theorem map_placeOf_foundFrom (k : NodeKind) (pre cs : List Tree) :
    (interpolation.foundFrom pre.length cs).map (node k (pre ++ cs)).placeOf =
      (placesAll cs).map ((tokensAll pre).length + ·) := by
  induction cs generalizing pre with
  | nil => rfl
  | cons c cs ih =>
    have hrest := ih (pre ++ [c])
    simp only [List.append_assoc, List.singleton_append, List.length_append, List.length_singleton, tokensAll_append,
      tokensAll_cons, tokensAll_nil, List.append_nil] at hrest
    have hfirst : ((interpolation.found c).map (Match.under pre.length)).map (node k (pre ++ c :: cs)).placeOf =
        c.places.map ((tokensAll pre).length + ·) := by
      rw [places, List.map_map, List.map_map]
      exact List.map_congr_left fun m _ => placeOf_under k pre cs c m
    rw [Pattern.foundFrom, List.map_append, hfirst, hrest]
    simp [Function.comp_def, Nat.add_assoc]

theorem map_placeOf_select (k : NodeKind) (cs : List Tree) :
    (interpolation.select (node k cs)).map (node k cs).placeOf = placesAll cs := by
  rw [Pattern.select_node]
  simpa using map_placeOf_foundFrom k [] cs

/-- A node that is no term adds no place. -/
@[simp]
theorem places_node {k : NodeKind} (hk : k ≠ .term) (cs : List Tree) : (node k cs).places = placesAll cs := by
  rw [← map_placeOf_select k cs, places, Pattern.found, Pattern.here?_interpolation_node hk]
  rfl

/-- A term adds the place of its first token, if it is an expression. -/
theorem mem_places_term_iff {cs : List Tree} {k : Nat} :
    k ∈ (node .term cs).places ↔ (k = 0 ∧ ∃ c, Interpolates (node .term cs) c) ∨ k ∈ placesAll cs := by
  rw [← map_placeOf_select .term cs, places, Pattern.found, List.map_append, List.mem_append]
  refine or_congr ?_ Iff.rfl
  constructor
  · intro h
    obtain ⟨m, hm, rfl⟩ := List.mem_map.1 h
    obtain ⟨hpath, hshape⟩ := Pattern.here?_interpolation_eq_some_iff.1 (Option.mem_toList.1 hm)
    refine ⟨?_, _, hshape⟩
    obtain ⟨_, _, _, _, _, _, hformat⟩ := hshape.exists_eq
    simp [placeOf, hpath, hformat]
  · rintro ⟨rfl, c, hshape⟩
    have hhere : interpolation.here? (node .term cs) = some ⟨[], c⟩ :=
      Pattern.here?_interpolation_eq_some_iff.2 ⟨rfl, hshape⟩
    obtain ⟨_, _, _, _, _, _, hformat⟩ := hshape.exists_eq
    refine List.mem_map.2 ⟨⟨[], c⟩, by simp [hhere], ?_⟩
    simp [placeOf, hformat]

/-- The place of a format string is that of a token. -/
theorem lt_of_mem_places {t : Tree} {k : Nat} (h : k ∈ t.places) : k < t.tokens.length := by
  obtain ⟨m, hm, rfl⟩ := List.mem_map.1 h
  obtain ⟨e, he, hshape⟩ := Pattern.interpolates_of_mem_found hm
  obtain ⟨after, hafter⟩ := exists_tokens_eq he
  obtain ⟨s, op, operand, rfl, _, _, hformat⟩ := hshape.exists_eq
  rw [placeOf, hformat, tokensBefore_append he, hafter]
  simp

theorem lt_of_mem_placesAll {ts : List Tree} {k : Nat} (h : k ∈ placesAll ts) : k < (tokensAll ts).length := by
  rw [← places_node (k := .file) (by decide)] at h
  exact lt_of_mem_places h

/-! ## The places in a phrase -/

theorem transparent_placesAll :
    Transparent fun us vs => tokensAll us = tokensAll vs ∧ placesAll us = placesAll vs where
  equivalence := ⟨fun _ => ⟨rfl, rfl⟩, fun h => ⟨h.1.symm, h.2.symm⟩, fun h h' => ⟨h.1.trans h'.1, h.2.trans h'.2⟩⟩
  append h h' := ⟨transparent_tokensAll.append h.1 h'.1, by rw [placesAll_append, placesAll_append, h.1, h.2, h'.2]⟩
  node cs hk := ⟨transparent_tokensAll.node cs hk, by simp [hk]⟩

end Tree

end Interpolation

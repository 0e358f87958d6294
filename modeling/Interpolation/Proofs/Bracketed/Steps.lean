import Interpolation.Proofs.Bracketed.Reading
import Mathlib.Data.List.Induction

/-!
# Pairing, token by token

What one more token does to a nesting, and to the items that were read so far.

* `Nesting.Step`, `Nesting.step_next` — the four things that can happen;
* `Nesting.items` — the items that were read so far, if no further bracket is paired;
* `Bracketed.ofTokens_induct` — the items of a list of tokens come about by appending tokens and by closing groups.
-/

namespace Interpolation

namespace Nesting

/-- What one more token does to a nesting. -/
inductive Step (t : Token) : Nesting → Nesting → Prop
  | push {n : Nesting} (opens : t.isOpening = true) : Step t n (n.push [⟨t, []⟩])
  | add {n : Nesting} (opens : t.isOpening = false) (closes : t.isClosing = false) : Step t n (n.add (.token t))
  | unpaired {n : Nesting} (opens : t.isOpening = false) (closes : t.isClosing = true)
      (fails : ∀ g ∈ n.stack, g.opening.pairsWith t = false) : Step t n ⟨[], .token t :: n.spilled⟩
  | close {n : Nesting} {g : OpenGroup} {opened : List OpenGroup} (opens : t.isOpening = false)
      (closes : t.isClosing = true) (above : ∀ g ∈ opened, g.opening.pairsWith t = false)
      (paired : g.opening.pairsWith t = true) : Step t ((n.push [g]).push opened)
        (n.add (.close g.opening (opened.flatMap OpenGroup.spilled ++ g.contents).reverse t))

/-- No bracket on the stack pairs with a token, or some bracket does and none above it. -/
theorem exists_push_or (n : Nesting) (t : Token) : (∀ g ∈ n.stack, g.opening.pairsWith t = false) ∨
    ∃ (below : Nesting) (g : OpenGroup) (opened : List OpenGroup), n = (below.push [g]).push opened ∧
      (∀ g ∈ opened, g.opening.pairsWith t = false) ∧ g.opening.pairsWith t = true := by
  cases h : n.stack.find? (·.opening.pairsWith t) with
  | none => exact .inl (by simpa using h)
  | some g =>
    obtain ⟨hpaired, opened, below, hstack, habove⟩ := List.find?_eq_some_iff_append.1 h
    refine .inr ⟨⟨below, n.outside⟩, g, opened, ?_, by simpa using habove, hpaired⟩
    show n = ⟨opened ++ ([g] ++ below), n.outside⟩
    rw [List.singleton_append, ← hstack]

theorem step_next (n : Nesting) (t : Token) : Step t n (n.next t) := by
  by_cases hopens : t.isOpening = true
  · rw [next_of_opening hopens]
    exact .push hopens
  · rw [Bool.not_eq_true] at hopens
    by_cases hcloses : t.isClosing = true
    · rw [next_of_closing hopens hcloses]
      obtain hfails | ⟨below, g, opened, rfl, habove, hpaired⟩ := exists_push_or n t
      · rw [close_of_unpaired hfails]
        exact .unpaired hopens hcloses hfails
      · rw [close_push below habove hpaired]
        exact .close hopens hcloses habove hpaired
    · rw [Bool.not_eq_true] at hcloses
      rw [next_of_plain hopens hcloses]
      exact .add hopens hcloses

theorem isOpening_add {n : Nesting} (h : ∀ g ∈ n.stack, g.opening.isOpening = true) (item : Bracketed) :
    ∀ g ∈ (n.add item).stack, g.opening.isOpening = true := by
  have hopenings : ∀ t ∈ n.stack.map OpenGroup.opening, t.isOpening = true := List.forall_mem_map.2 h
  rw [← n.openings_add item] at hopenings
  exact List.forall_mem_map.1 hopenings

/-- The brackets on the stack are opening brackets. -/
theorem isOpening_foldl_next (ts : List Token) : ∀ g ∈ (ts.foldl next .empty).stack, g.opening.isOpening = true := by
  induction ts using List.reverseRecOn with
  | nil => simp [empty]
  | append_singleton ts t ih =>
    rw [List.foldl_append, List.foldl_cons, List.foldl_nil]
    generalize ts.foldl next .empty = n at ih
    have hstep := n.step_next t
    generalize n.next t = n' at hstep
    cases hstep with
    | push opens => exact List.forall_mem_cons.2 ⟨opens, ih⟩
    | add => exact isOpening_add ih _
    | unpaired => simp
    | close => exact isOpening_add (List.forall_mem_cons.1 (List.forall_mem_append.1 ih).2).2 _

/-! ## Items -/

/-- The items that were read so far, if no further bracket is paired. -/
def items (n : Nesting) : List Bracketed := n.spilled.reverse

theorem items_add (n : Nesting) (item : Bracketed) : (n.add item).items = n.items ++ [item] := by
  rw [items, spilled_add, List.reverse_cons, items]

theorem items_push (n : Nesting) (opened : List OpenGroup) :
    (n.push opened).items = n.items ++ (opened.flatMap OpenGroup.spilled).reverse := by
  simp [items, push, spilled]

theorem items_push_push (n : Nesting) (g : OpenGroup) (opened : List OpenGroup) :
    ((n.push [g]).push opened).items =
      n.items ++ .token g.opening :: (opened.flatMap OpenGroup.spilled ++ g.contents).reverse := by
  rw [push_push, items_push]
  simp [OpenGroup.spilled]

/-- The items do not change when the brackets on the stack are given up. -/
theorem items_unpaired (n : Nesting) (t : Token) :
    (⟨[], .token t :: n.spilled⟩ : Nesting).items = n.items ++ [.token t] := by
  simp [items, spilled]

theorem text_items (n : Nesting) : Bracketed.text n.items = n.text := rfl

end Nesting

namespace Bracketed

theorem ofTokens_eq_items (ts : List Token) : ofTokens ts = (ts.foldl Nesting.next .empty).items := rfl

/-- The items of a list of tokens come about by appending tokens and by closing groups. -/
theorem ofTokens_induct {motive : List Token → List Bracketed → Prop} (nil : motive [] [])
    (token : ∀ {ts : List Token} {bs : List Bracketed} (t : Token), text bs = Token.renderAll ts → motive ts bs →
      motive (ts ++ [t]) (bs ++ [.token t]))
    (group : ∀ {ts : List Token} {before contents : List Bracketed} {opening closing : Token},
      opening.isOpening = true → closing.isClosing = true → opening.pairsWith closing = true →
      text (before ++ .token opening :: contents) = Token.renderAll ts →
      motive ts (before ++ .token opening :: contents) →
      motive (ts ++ [closing]) (before ++ [.close opening contents closing])) (ts : List Token) :
    motive ts (ofTokens ts) := by
  induction ts using List.reverseRecOn with
  | nil => exact nil
  | append_singleton ts t ih =>
    have htext : text (ofTokens ts) = Token.renderAll ts := text_ofTokens ts
    have hstack := Nesting.isOpening_foldl_next ts
    rw [ofTokens_eq_items, List.foldl_append, List.foldl_cons, List.foldl_nil]
    rw [ofTokens_eq_items] at ih htext
    generalize ts.foldl Nesting.next .empty = n at ih htext hstack
    have hstep := n.step_next t
    generalize n.next t = n' at hstep
    cases hstep with
    | push =>
      rw [Nesting.items_push]
      exact token t htext ih
    | add =>
      rw [Nesting.items_add]
      exact token t htext ih
    | unpaired =>
      rw [Nesting.items_unpaired]
      exact token t htext ih
    | @close below g opened opens closes above paired =>
      rw [Nesting.items_push_push] at ih htext
      rw [Nesting.items_add]
      exact group (hstack g (by simp [Nesting.push])) closes paired htext ih

/-- A token at the end that is no bracket is an item at the end. -/
theorem ofTokens_concat {t : Token} (hopens : t.isOpening = false) (hcloses : t.isClosing = false) (ts : List Token) :
    ofTokens (ts ++ [t]) = ofTokens ts ++ [.token t] := by
  rw [ofTokens_eq_items, List.foldl_append, List.foldl_cons, List.foldl_nil, Nesting.next_of_plain hopens hcloses,
    Nesting.items_add]
  rfl

end Bracketed

end Interpolation

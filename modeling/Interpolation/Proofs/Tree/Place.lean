import Interpolation.Tree.Path
import Mathlib.Tactic.Common

/-!
# Where a subtree stands

* `Tree.tokensBefore` — the tokens to the left of the subtree at a path;
* `Tree.textBefore` — their text, so that its length is the place of the subtree in the text of the tree;
* `Tree.startOf` and `Tree.stopOf` — the character with which the first token of a subtree starts, the trivia in front
  of it left out, and the character behind the subtree.

`exists_tokens_eq` and `exists_render_eq` cut the tokens and the text of a tree at a subtree, and so do
`exists_tokens_update_eq` and `exists_render_update_eq` whatever is done to that subtree; by `of_subtree?` a subtree has what
every node passes on to its children.
-/

namespace Interpolation.Tree

/-- The tokens of a tree to the left of the subtree at a path. -/
def tokensBefore (t : Tree) : Path → List Token
  | [] => []
  | i :: p => tokensAll (t.children.take i) ++ t.children[i]?.elim [] fun c => c.tokensBefore p

/-- The text of a tree to the left of the subtree at a path. -/
def textBefore (t : Tree) (p : Path) : Text := Token.renderAll (t.tokensBefore p)

/-- The place in the text of a tree at which the first token of the subtree at a path starts. -/
def startOf (t : Tree) (p : Path) : Nat :=
  (t.textBefore p).length + ((t.subtree? p).bind fun s => s.tokens.head?).elim 0 fun u => u.trivia.length

/-- The place in the text of a tree at which the subtree at a path ends. -/
def stopOf (t : Tree) (p : Path) : Nat := (t.textBefore p).length + (t.subtree? p).elim 0 fun s => s.render.length

@[simp] theorem tokensBefore_nil (t : Tree) : t.tokensBefore [] = [] := by rw [tokensBefore]

/-- Nothing stands to the left of the first child. -/
@[simp] theorem tokensBefore_zero (t : Tree) : t.tokensBefore [0] = [] := by
  cases h : t.children[0]? <;> simp [tokensBefore, h]

theorem tokensBefore_node (k : NodeKind) (pre post : List Tree) (c : Tree) (p : Path) :
    (node k (pre ++ c :: post)).tokensBefore (pre.length :: p) = tokensAll pre ++ c.tokensBefore p := by
  simp [tokensBefore, children]

theorem textBefore_node (k : NodeKind) (pre post : List Tree) (c : Tree) (p : Path) :
    (node k (pre ++ c :: post)).textBefore (pre.length :: p) = Token.renderAll (tokensAll pre) ++ c.textBefore p := by
  rw [textBefore, tokensBefore_node, Token.renderAll_append, textBefore]

theorem subtree?_node (k : NodeKind) (pre post : List Tree) (c : Tree) (p : Path) :
    (node k (pre ++ c :: post)).subtree? (pre.length :: p) = c.subtree? p := by
  simp [children]

theorem startOf_node (k : NodeKind) (pre post : List Tree) (c : Tree) (p : Path) :
    (node k (pre ++ c :: post)).startOf (pre.length :: p) = (Token.renderAll (tokensAll pre)).length + c.startOf p := by
  rw [startOf, startOf, textBefore_node, subtree?_node, List.length_append, Nat.add_assoc]

theorem stopOf_node (k : NodeKind) (pre post : List Tree) (c : Tree) (p : Path) :
    (node k (pre ++ c :: post)).stopOf (pre.length :: p) = (Token.renderAll (tokensAll pre)).length + c.stopOf p := by
  rw [stopOf, stopOf, textBefore_node, subtree?_node, List.length_append, Nat.add_assoc]

theorem update_node (f : Tree → Tree) (k : NodeKind) (pre post : List Tree) (c : Tree) (p : Path) :
    (node k (pre ++ c :: post)).update f (pre.length :: p) = node k (pre ++ c.update f p :: post) := by
  have hlength : pre.length < (pre ++ c :: post).length := by simp
  rw [update_node_cons, List.modify_eq_take_cons_drop hlength]
  simp

/-- A child and what stands to the left and to the right of it. -/
theorem exists_children_eq {t s : Tree} {i : Nat} {p : Path} (h : t.subtree? (i :: p) = some s) :
    ∃ k pre c post, t = node k (pre ++ c :: post) ∧ i = pre.length ∧ c.subtree? p = some s := by
  cases t with
  | leaf u => simp [children] at h
  | node k cs =>
    simp only [subtree?_cons, children] at h
    obtain ⟨c, hc, hs⟩ := Option.bind_eq_some_iff.1 h
    obtain ⟨hi, rfl⟩ := List.getElem?_eq_some_iff.1 hc
    refine ⟨k, cs.take i, cs[i], cs.drop (i + 1), ?_, by simp; omega, hs⟩
    rw [← List.drop_eq_getElem_cons hi, List.take_append_drop]

/-- What every node passes on to its children holds of every subtree. -/
theorem of_subtree? {P : Tree → Prop} (hchild : ∀ {k : NodeKind} {cs : List Tree}, P (.node k cs) → ∀ c ∈ cs, P c)
    {t s : Tree} {p : Path} (h : P t) (hs : t.subtree? p = some s) : P s := by
  induction p generalizing t with
  | nil =>
    obtain rfl : t = s := by simpa using hs
    exact h
  | cons i p ih =>
    obtain ⟨k, pre, c, post, rfl, rfl, hc⟩ := exists_children_eq hs
    exact ih (hchild h c (by simp)) hc

/-- Only what a change does to the subtree at its path matters. -/
theorem update_congr {t : Tree} {p : Path} {f g : Tree → Tree} (h : ∀ s, t.subtree? p = some s → f s = g s) :
    t.update f p = t.update g p := by
  induction p generalizing t with
  | nil => simpa using h t
  | cons i p ih =>
    cases t with
    | leaf u => simp
    | node k cs =>
      rw [update_node_cons, update_node_cons]
      congr 1
      apply List.ext_getElem?
      intro j
      rw [List.getElem?_modify, List.getElem?_modify]
      cases hc : cs[j]? with
      | none => rfl
      | some c =>
        show some (if i = j then c.update f p else c) = some (if i = j then c.update g p else c)
        split
        · next hij =>
          subst hij
          rw [ih fun s hs => h s (by simpa [children, hc] using hs)]
        · rfl

@[simp] theorem update_id (t : Tree) (p : Path) : t.update id p = t := by
  induction p generalizing t with
  | nil => simp
  | cons i p ih =>
    cases t with
    | leaf u => simp
    | node k cs =>
      have hchild : (fun c : Tree => c.update id p) = id := funext ih
      rw [update_node_cons, hchild, List.modify_id]

/-- A change that keeps what it is made at keeps the whole tree. -/
theorem update_eq_self {t : Tree} {p : Path} {f : Tree → Tree} (h : ∀ s, t.subtree? p = some s → f s = s) :
    t.update f p = t :=
  (update_congr h).trans (update_id t p)

/-- The tokens of a tree, cut at a subtree, whatever is done to that. -/
theorem exists_tokens_update_eq {t s : Tree} {p : Path} (h : t.subtree? p = some s) :
    ∃ after, ∀ f, (t.update f p).tokens = t.tokensBefore p ++ ((f s).tokens ++ after) := by
  induction p generalizing t with
  | nil =>
    rw [subtree?_nil, Option.some.injEq] at h
    exact ⟨[], by simp [h]⟩
  | cons i p ih =>
    obtain ⟨k, pre, c, post, rfl, rfl, hc⟩ := exists_children_eq h
    obtain ⟨after, hafter⟩ := ih hc
    refine ⟨after ++ tokensAll post, fun f => ?_⟩
    rw [update_node, tokensBefore_node, tokens_node, tokensAll_append, tokensAll_cons, hafter]
    simp

/-- The tokens of a tree, cut at a subtree. -/
theorem exists_tokens_eq {t s : Tree} {p : Path} (h : t.subtree? p = some s) :
    ∃ after, t.tokens = t.tokensBefore p ++ (s.tokens ++ after) := by
  obtain ⟨after, hafter⟩ := exists_tokens_update_eq h
  exact ⟨after, by simpa using hafter id⟩

/-- The text of a tree, cut at a subtree, whatever is done to that. -/
theorem exists_render_update_eq {t s : Tree} {p : Path} (h : t.subtree? p = some s) :
    ∃ after, ∀ f, (t.update f p).render = t.textBefore p ++ ((f s).render ++ after) := by
  obtain ⟨after, hafter⟩ := exists_tokens_update_eq h
  exact ⟨Token.renderAll after, fun f => by simp [render, hafter, textBefore]⟩

/-- The text of a tree, cut at a subtree. -/
theorem exists_render_eq {t s : Tree} {p : Path} (h : t.subtree? p = some s) :
    ∃ after, t.render = t.textBefore p ++ (s.render ++ after) := by
  obtain ⟨after, hafter⟩ := exists_render_update_eq h
  exact ⟨after, by simpa using hafter id⟩

theorem subtree?_append (t : Tree) (p q : Path) : t.subtree? (p ++ q) = (t.subtree? p).bind fun s => s.subtree? q := by
  induction p generalizing t with
  | nil => simp
  | cons i p ih =>
    simp only [List.cons_append, subtree?_cons]
    cases t.children[i]? with
    | none => rfl
    | some c => simpa using ih c

theorem tokensBefore_append {t s : Tree} {p : Path} (h : t.subtree? p = some s) (q : Path) :
    t.tokensBefore (p ++ q) = t.tokensBefore p ++ s.tokensBefore q := by
  induction p generalizing t with
  | nil =>
    rw [subtree?_nil, Option.some.injEq] at h
    simp [h]
  | cons i p ih =>
    obtain ⟨k, pre, c, post, rfl, rfl, hc⟩ := exists_children_eq h
    rw [List.cons_append, tokensBefore_node, tokensBefore_node, ih hc, List.append_assoc]

theorem startOf_append {t s : Tree} {p : Path} (h : t.subtree? p = some s) (q : Path) :
    t.startOf (p ++ q) = (t.textBefore p).length + s.startOf q := by
  rw [startOf, startOf, subtree?_append, h, Option.bind_some, textBefore, tokensBefore_append h, Token.renderAll_append,
    List.length_append, Nat.add_assoc]
  rfl

theorem stopOf_eq {t s : Tree} {p : Path} (h : t.subtree? p = some s) :
    t.stopOf p = (t.textBefore p).length + s.render.length := by
  rw [stopOf, h]
  rfl

end Interpolation.Tree

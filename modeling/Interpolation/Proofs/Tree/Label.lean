import Interpolation.Proofs.Tree.Parallel
import Interpolation.Proofs.Tree.Place

/-!
# What stands at the paths of a tree

A tree is looked at path by path: each leads to a token, to a node of some kind with some number of children, or nowhere.
A change at a path shows at that path and behind it; everywhere else there stands what stood there.

* `Label`, `Tree.labelAt?` — what stands where a path leads;
* `Tree.subtree?_update_append` — at a path and behind it there stands what the change makes of it;
* `Tree.labelAt?_update_of_not_prefix` — elsewhere there stands what stood there;
* `Tree.labelAt?_setText`, `Tree.labelAt?_takeChildren` — the same for a new text, and for children that are dropped.
-/

namespace Interpolation

/-- What can stand somewhere in a tree: a token, or a node with its kind and the number of its children. -/
inductive Label where
  | token (token : Token)
  | node (kind : NodeKind) (children : Nat)
  deriving DecidableEq

/-- A token with another text. -/
def Label.withText (text : Text) : Label → Label
  | .token t => .token { t with text }
  | .node k n => .node k n

namespace Tree

/-- What stands at the root of a tree. -/
def label : Tree → Label
  | .leaf t => .token t
  | .node k cs => .node k cs.length

/-- What stands where a path leads. -/
def labelAt? (t : Tree) (p : Path) : Option Label := (t.subtree? p).map label

@[simp] theorem labelAt?_nil (t : Tree) : t.labelAt? [] = some t.label := rfl

theorem labelAt?_node_cons (k : NodeKind) (cs : List Tree) (i : Nat) (p : Path) :
    (node k cs).labelAt? (i :: p) = cs[i]?.bind fun c => c.labelAt? p := by
  rw [labelAt?, subtree?_cons, Option.map_bind]
  rfl

theorem labelAt?_append (t : Tree) (p q : Path) : t.labelAt? (p ++ q) = (t.subtree? p).bind fun s => s.labelAt? q := by
  rw [labelAt?, subtree?_append, Option.map_bind]
  rfl

theorem tokenAt?_eq_some_iff {t : Tree} {p : Path} {u : Token} :
    t.tokenAt? p = some u ↔ p ≠ [] ∧ t.subtree? p = some (leaf u) := by
  unfold tokenAt? below?
  by_cases hp : p = []
  · simp [hp]
  · rw [if_neg hp, Option.bind_eq_some_iff]
    constructor
    · rintro ⟨s, hs, hu⟩
      cases s with
      | leaf v => exact ⟨hp, by rw [hs, Option.some.inj hu]⟩
      | node k cs => cases hu
    · rintro ⟨-, hs⟩
      exact ⟨leaf u, hs, rfl⟩

/-! ## Changes -/

variable {p q : Path}

/-- What stands at the path of a change, and behind it. -/
theorem subtree?_update_append (f : Tree → Tree) (t : Tree) (p q : Path) :
    (t.update f p).subtree? (p ++ q) = (t.subtree? p).bind fun s => (f s).subtree? q := by
  induction p generalizing t with
  | nil => simp
  | cons i p ih =>
    cases t with
    | leaf u => simp [children]
    | node k cs =>
      rw [update_node_cons, List.cons_append, subtree?_cons, subtree?_cons, children, children, List.getElem?_modify]
      cases cs[i]? with
      | none => rfl
      | some c => simpa using ih c

theorem subtree?_update_self (f : Tree → Tree) (t : Tree) (p : Path) :
    (t.update f p).subtree? p = (t.subtree? p).map f := by
  have hself := subtree?_update_append f t p []
  rw [List.append_nil] at hself
  rw [hself]
  cases t.subtree? p <;> simp

/-- What stands elsewhere. -/
theorem labelAt?_update_of_not_prefix (h : ¬p <+: q) (f : Tree → Tree) (t : Tree) :
    (t.update f p).labelAt? q = t.labelAt? q := by
  induction p generalizing q t with
  | nil => exact absurd List.nil_prefix h
  | cons i p ih =>
    cases t with
    | leaf u => rw [update_leaf_cons]
    | node k cs =>
      rw [update_node_cons]
      cases q with
      | nil => simp [label]
      | cons j q =>
        rw [labelAt?_node_cons, labelAt?_node_cons, List.getElem?_modify]
        cases cs[j]? with
        | none => rfl
        | some c =>
          show (if i = j then c.update f p else c).labelAt? q = c.labelAt? q
          split
          · next hij => exact ih (fun hq => h (List.cons_prefix_cons.2 ⟨hij, hq⟩)) c
          · rfl

/-- A new text shows at the path of its token alone. -/
theorem labelAt?_setText (t : Tree) (p q : Path) (text : Text) :
    (t.setText p text).labelAt? q = if q = p then (t.labelAt? q).map (Label.withText text) else t.labelAt? q := by
  by_cases hprefix : p <+: q
  · obtain ⟨r, rfl⟩ := hprefix
    rw [setText, labelAt?, subtree?_update_append, labelAt?_append]
    cases t.subtree? p with
    | none => simp
    | some s =>
      cases r <;> cases s <;> simp [withText, label, Label.withText, labelAt?, children]
  · have hne : q ≠ p := fun heq => hprefix (heq ▸ List.prefix_refl q)
    rw [setText, labelAt?_update_of_not_prefix hprefix, if_neg hne]

theorem subtree?_takeChildren (t : Tree) (n i : Nat) (p : Path) :
    (t.takeChildren n).subtree? (i :: p) = if i < n then t.subtree? (i :: p) else none := by
  cases t with
  | leaf u => simp [takeChildren, children]
  | node k cs =>
    rw [takeChildren, subtree?_cons, subtree?_cons, children, children, List.getElem?_take]
    split <;> rfl

/-- Of what is behind a node that is cut short, the children that are dropped are no longer there. -/
theorem subtree?_truncate_append (t : Tree) (p : Path) (n i : Nat) (q : Path) :
    (t.truncate p n).subtree? (p ++ i :: q) = if i < n then t.subtree? (p ++ i :: q) else none := by
  rw [truncate, subtree?_update_append, subtree?_append]
  cases t.subtree? p with
  | none => simp
  | some s => exact subtree?_takeChildren s n i q

/-- Nothing stands in the children that are dropped, and in the others there stands what stood there. -/
theorem labelAt?_takeChildren (t : Tree) (n i : Nat) (p : Path) :
    (t.takeChildren n).labelAt? (i :: p) = if i < n then t.labelAt? (i :: p) else none := by
  rw [labelAt?, subtree?_takeChildren, labelAt?]
  split <;> rfl

end Tree

end Interpolation

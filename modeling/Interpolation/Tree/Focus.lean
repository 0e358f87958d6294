import Interpolation.Tree.Path

/-!
# Reading and writing at a path

A path that does not leave the tree leads to a place at which the tree can be read and written.

* `Focus` — a place in a tree: what stands there, and the tree with something else there;
* `Branch` — an inner node, with its kind and its children;
* `Tree.focus?`, `Tree.focusToken?`, `Tree.focusBranch?` — the place to which a path leads, of a leaf or a node, of a leaf
  only and of a node only. The empty path leads to the tree itself, and that for the last of them alone;
* `Change`, `Change.apply` — a leaf gets another text, or a node loses its last children.
-/

namespace Interpolation

/-- A place in a tree. -/
structure Focus (α : Type) where
  /-- What stands there. -/
  value : α
  /-- The tree with something else there. -/
  replace : α → Tree

/-- An inner node. -/
structure Branch where
  kind : NodeKind
  children : List Tree
  deriving DecidableEq

/-- An inner node as a tree. -/
def Branch.tree (b : Branch) : Tree := .node b.kind b.children

/-- The node that a tree is, if it is no leaf. -/
def Tree.branch? : Tree → Option Branch
  | .leaf _ => none
  | .node kind children => some { kind, children }

namespace Focus

variable {α : Type}

/-- The tree with what stands at a place changed by `f`. -/
def modify (x : Focus α) (f : α → α) : Tree := x.replace (f x.value)

/-- The same place, if a leaf stands there. -/
def token? (x : Focus Tree) : Option (Focus Token) := x.value.token?.map fun u => ⟨u, fun v => x.replace (.leaf v)⟩

/-- The same place, if a node stands there. -/
def branch? (x : Focus Tree) : Option (Focus Branch) := x.value.branch?.map fun b => ⟨b, fun c => x.replace c.tree⟩

end Focus

namespace Tree

/-- The place to which a path leads, if it stays in the tree and is not empty. -/
def focus? : Tree → Path → Option (Focus Tree)
  | .node k cs, i :: p => cs[i]?.bind fun c =>
    (if p = [] then some ⟨c, id⟩ else c.focus? p).map fun x => ⟨x.value, fun s => .node k (cs.set i (x.replace s))⟩
  | _, _ => none

/-- The place of the leaf to which a path leads. -/
def focusToken? (t : Tree) (p : Path) : Option (Focus Token) := (t.focus? p).bind Focus.token?

/-- The place of the node to which a path leads; the empty path leads to the tree itself. -/
def focusBranch? (t : Tree) (p : Path) : Option (Focus Branch) :=
  if p = [] then t.branch?.map fun b => ⟨b, Branch.tree⟩ else (t.focus? p).bind Focus.branch?

end Tree

/-- What is written through a place. -/
inductive Change where
  /-- Another text for the leaf at a path. -/
  | setText (path : Path) (text : Text)
  /-- The first `n` children only for the node at a path. -/
  | truncate (path : Path) (n : Nat)
  deriving DecidableEq

namespace Change

/-- Where the change is made. -/
def path : Change → Path
  | .setText p _ => p
  | .truncate p _ => p

/-- The tree after the change. There is nothing to change where the path leads to no leaf, or to no node. -/
def apply (t : Tree) : Change → Tree
  | .setText p text => (t.focusToken? p).elim t fun x => x.modify fun u => { u with text }
  | .truncate p n => (t.focusBranch? p).elim t fun x => x.modify fun b => { b with children := b.children.take n }

end Change

end Interpolation

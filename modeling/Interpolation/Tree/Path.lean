import Interpolation.Tree.Basic

/-!
# Paths

A path leads from a tree down to one of its subtrees, by the index of a child at every step.

* `Tree.subtree?` — where a path leads; the empty path leads to the tree itself;
* `Tree.below?`, `Tree.tokenAt?`, `Tree.nodeAt?` — the same for proper subtrees, tokens and nodes;
* `Tree.update` — change the subtree at a path; `Tree.setText`, `Tree.truncate`, `Tree.setTokenKind` and
  `Tree.setNodeKind` are made from it;
* `Tree.descendants` — all proper subtrees with their paths, in document order.
-/

namespace Interpolation

/-- The indices of the children on the way down. -/
abbrev Path := List Nat

namespace Tree

/-- The subtree at a path, or `none` where the path leaves the tree. -/
def subtree? (t : Tree) : Path → Option Tree
  | [] => some t
  | i :: p => t.children[i]?.bind fun c => c.subtree? p

/-- The proper subtree at a path. -/
def below? (t : Tree) (p : Path) : Option Tree := if p = [] then none else t.subtree? p

/-- The token of the leaf that a path leads to, which is not the tree itself. -/
def tokenAt? (t : Tree) (p : Path) : Option Token := (t.below? p).bind token?

/-- The node that a path leads to; the empty path leads to the tree itself. -/
def nodeAt? (t : Tree) (p : Path) : Option Tree := (t.subtree? p).filter fun s => s.kind?.isSome

/-- The tree with the subtree at a path changed by `f`. Where the path leaves the tree nothing changes. -/
def update (f : Tree → Tree) (t : Tree) : Path → Tree
  | [] => f t
  | i :: p =>
    match t with
    | .leaf u => .leaf u
    | .node k cs => .node k (cs.modify i fun c => c.update f p)

/-- A leaf with another text. -/
def withText (text : Text) : Tree → Tree
  | .leaf t => .leaf { t with text }
  | .node k cs => .node k cs

/-- A node with its first `n` children only. -/
def takeChildren (n : Nat) : Tree → Tree
  | .leaf t => .leaf t
  | .node k cs => .node k (cs.take n)

/-- A leaf of another kind. -/
def withTokenKind (kind : TokenKind) : Tree → Tree
  | .leaf t => .leaf { t with kind }
  | .node k cs => .node k cs

/-- A node of another kind. -/
def withNodeKind (kind : NodeKind) : Tree → Tree
  | .leaf t => .leaf t
  | .node _ cs => .node kind cs

/-- Give the leaf at a path another text. -/
def setText (t : Tree) (p : Path) (text : Text) : Tree := t.update (withText text) p

/-- Drop all children but the first `n` of the node at a path. -/
def truncate (t : Tree) (p : Path) (n : Nat) : Tree := t.update (takeChildren n) p

/-- Give the leaf at a path another kind. -/
def setTokenKind (t : Tree) (p : Path) (kind : TokenKind) : Tree := t.update (withTokenKind kind) p

/-- Give the node at a path another kind. -/
def setNodeKind (t : Tree) (p : Path) (kind : NodeKind) : Tree := t.update (withNodeKind kind) p

mutual
/-- All proper subtrees with their paths in document order: a node stands before what is below it. -/
def descendants : Tree → List (Path × Tree)
  | .leaf _ => []
  | .node _ cs => descendantsFrom 0 cs
/-- The trees of a list and all that is below them, the first of the list being the child `i`. -/
def descendantsFrom (i : Nat) : List Tree → List (Path × Tree)
  | [] => []
  | c :: cs => ([i], c) :: c.descendants.map (fun (p, t) => (i :: p, t)) ++ descendantsFrom (i + 1) cs
end

/-! ## First lemmas -/

@[simp] theorem subtree?_nil (t : Tree) : t.subtree? [] = some t := by rw [subtree?]

@[simp] theorem subtree?_cons (t : Tree) (i : Nat) (p : Path) :
    t.subtree? (i :: p) = t.children[i]?.bind fun c => c.subtree? p := by rw [subtree?]

@[simp] theorem update_nil (f : Tree → Tree) (t : Tree) : t.update f [] = f t := by rw [update]

@[simp] theorem update_leaf_cons (f : Tree → Tree) (u : Token) (i : Nat) (p : Path) :
    (leaf u).update f (i :: p) = leaf u := by rw [update]

@[simp] theorem update_node_cons (f : Tree → Tree) (k : NodeKind) (cs : List Tree) (i : Nat) (p : Path) :
    (node k cs).update f (i :: p) = node k (cs.modify i fun c => c.update f p) := by rw [update]

end Tree

end Interpolation

import Interpolation.Token.Basic

/-!
# Syntax trees

* `Tree` — tokens at the leaves, `NodeKind`s at the inner nodes;
* `Tree.tokens` — the tokens of a tree from left to right;
* `Tree.render` — the text of a tree. It depends on the tokens alone, so that regrouping a tree never
  changes what it prints.
-/

namespace Interpolation

/-- The syntactic categories of inner nodes. -/
inductive NodeKind where
  /-- A whole source. -/
  | file
  /-- A bracket group, or a run of adjacent string literals. -/
  | atom
  /-- What stands between round brackets that have a comma directly between them. -/
  | exprList
  /-- A dotted name, call or subscript behind an operand. -/
  | trailer
  /-- An operand with trailers, `await` or an exponent. -/
  | power
  /-- A signed operand. -/
  | factor
  /-- Operands joined by multiplicative operators. -/
  | term
  deriving DecidableEq, Repr

/-- A syntax tree. -/
inductive Tree where
  | leaf (token : Token)
  | node (kind : NodeKind) (children : List Tree)
  deriving Repr

namespace Tree

/-- A property of all trees follows from its holding of leaves, and of a node when it holds of its children. -/
@[elab_as_elim, induction_eliminator]
theorem induct {motive : Tree → Prop} (leaf : ∀ t, motive (.leaf t))
    (node : ∀ k cs, (∀ c ∈ cs, motive c) → motive (.node k cs)) (t : Tree) : motive t :=
  Tree.rec (motive_1 := motive) (motive_2 := fun cs => ∀ c ∈ cs, motive c) leaf node
    (by simp) (fun _ _ hc hcs => by simpa using ⟨hc, hcs⟩) t

mutual
/-- Whether two trees are the same. -/
def decEq : (s t : Tree) → Decidable (s = t)
  | .leaf a, .leaf b => if h : a = b then isTrue (h ▸ rfl) else isFalse fun e => h (Tree.leaf.inj e)
  | .node k cs, .node l ds =>
    if h : k = l then
      match decEqAll cs ds with
      | isTrue e => isTrue (h ▸ e ▸ rfl)
      | isFalse e => isFalse fun f => e (Tree.node.inj f).2
    else isFalse fun e => h (Tree.node.inj e).1
  | .leaf _, .node _ _ => isFalse nofun
  | .node _ _, .leaf _ => isFalse nofun
/-- Whether two lists of trees are the same. -/
def decEqAll : (cs ds : List Tree) → Decidable (cs = ds)
  | [], [] => isTrue rfl
  | c :: cs, d :: ds =>
    match decEq c d, decEqAll cs ds with
    | isTrue h, isTrue e => isTrue (h ▸ e ▸ rfl)
    | isFalse h, _ => isFalse fun f => h (List.cons.inj f).1
    | _, isFalse e => isFalse fun f => e (List.cons.inj f).2
  | [], _ :: _ => isFalse nofun
  | _ :: _, [] => isFalse nofun
end

instance : DecidableEq Tree := decEq

/-! ## Looking at the root -/

/-- The children of a node; a leaf has none. -/
def children : Tree → List Tree
  | .leaf _ => []
  | .node _ cs => cs

/-- The token of a leaf. -/
def token? : Tree → Option Token
  | .leaf t => some t
  | .node _ _ => none

/-- The kind of a node. -/
def kind? : Tree → Option NodeKind
  | .leaf _ => none
  | .node k _ => some k

/-- Whether the tree is a token of the kind `k`. -/
def isToken (k : TokenKind) : Tree → Bool
  | .leaf t => t.kind = k
  | .node _ _ => false

/-- Whether the tree is the operator `op`. -/
def isOperator (op : Text) : Tree → Bool
  | .leaf t => t.isOperator op
  | .node _ _ => false

/-- Whether the tree is the reserved word `word`. -/
def isKeyword (word : Text) : Tree → Bool
  | .leaf t => t.kind = .keyword && t.text = word
  | .node _ _ => false

/-! ## Tokens and text -/

mutual
/-- The tokens of a tree from left to right. -/
def tokens : Tree → List Token
  | .leaf t => [t]
  | .node _ cs => tokensAll cs
/-- The tokens of some trees in turn. -/
def tokensAll : List Tree → List Token
  | [] => []
  | c :: cs => c.tokens ++ tokensAll cs
end

theorem tokensAll_eq (cs : List Tree) : tokensAll cs = cs.flatMap tokens := by
  induction cs with
  | nil => rfl
  | cons c cs ih => simp [tokensAll, ih]

@[simp] theorem tokensAll_nil : tokensAll [] = [] := rfl

@[simp] theorem tokensAll_cons (c : Tree) (cs : List Tree) : tokensAll (c :: cs) = c.tokens ++ tokensAll cs := rfl

@[simp] theorem tokensAll_append (cs ds : List Tree) : tokensAll (cs ++ ds) = tokensAll cs ++ tokensAll ds := by
  simp [tokensAll_eq]

@[simp] theorem tokens_leaf (t : Token) : (leaf t).tokens = [t] := rfl

@[simp] theorem tokens_node (k : NodeKind) (cs : List Tree) : (node k cs).tokens = tokensAll cs := rfl

/-- The text of a tree: every token with its trivia, in order. -/
def render (t : Tree) : Text := Token.renderAll t.tokens

end Tree

end Interpolation

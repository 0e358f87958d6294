import Interpolation.Token.Scan
import Interpolation.Bracketed
import Interpolation.Tree.Operand

/-!
# Reading a source

A source is scanned, its brackets are paired, and the operands on each level of brackets are grouped. Reading
cannot fail: what fits nowhere stays a leaf among its siblings.
-/

namespace Interpolation.Tree

/-- The siblings between a pair of brackets. Between round brackets a comma makes a list of them. -/
def listed (opening : Token) (ts : List Tree) : List Tree :=
  if opening.text = ['('] && ts.any (isOperator [',']) then [.node .exprList ts] else ts

mutual
/-- The tree of a bracketed item. -/
def ofBracketed : Bracketed → Tree
  | .token t => .leaf t
  | .group opening contents closing =>
    .node .atom (.leaf opening :: (listed opening (groupOperands false (ofBracketedAll contents)) ++ [.leaf closing]))
/-- The trees of some bracketed items, before their operands are grouped. -/
def ofBracketedAll : List Bracketed → List Tree
  | [] => []
  | b :: bs => ofBracketed b :: ofBracketedAll bs
end

/-- The tree of a source. -/
def parse (source : Text) : Tree :=
  .node .file (groupOperands false (ofBracketedAll (Bracketed.ofTokens (Token.scan source))))

end Interpolation.Tree

import Interpolation.Diff.Hunk
import Interpolation.Text.Line

/-!
# Unified diffs

`unifiedDiff` shows the changes from one text to another: two lines with the labels of the texts, and for each hunk
a line with its place and length in both texts, followed by its lines, each behind a mark.
-/

namespace Interpolation

/-- The mark in front of a line: a space, a minus or a plus sign. -/
def EditOp.mark : EditOp → Char
  | .keep => ' '
  | .delete => '-'
  | .insert => '+'

namespace Hunk

/-- The note behind a line without a line feed. -/
def missingNewline : Text := "\n\\ No newline at end of file\n".toList

/-- A line of a hunk behind its mark. -/
def renderEdit (e : Edit Text) : Text := e.op.mark :: (e.line ++ if e.line.endsLine then [] else missingNewline)

/-- The place of a hunk in one of the texts: its first line, counting from one, and its length. A hunk without lines
in that text is placed at the line in front of it. -/
def renderRange (before length : Nat) : Text :=
  Nat.toDigits 10 (if length = 0 then before else before + 1) ++ ',' :: Nat.toDigits 10 length

/-- The line that places a hunk in both texts. -/
def renderHeader (first : Edit Text) (edits : List (Edit Text)) : Text :=
  "@@ -".toList ++ renderRange first.old (edits.countP (·.op ≠ .insert)) ++
    " +".toList ++ renderRange first.new (edits.countP (·.op ≠ .delete)) ++ " @@\n".toList

/-- A hunk with its lines. -/
def render : List (Edit Text) → Text
  | [] => []
  | e :: es => renderHeader e (e :: es) ++ (e :: es).flatMap renderEdit

end Hunk

/-- The changes from one text to another; nothing where the texts are the same. -/
def unifiedDiff (old new oldLabel newLabel : Text) : Text :=
  if old = new then []
  else
    "--- ".toList ++ oldLabel ++ "\n+++ ".toList ++ newLabel ++ '\n' ::
      (Hunk.all (Edit.script old.lines new.lines)).flatMap Hunk.render

end Interpolation

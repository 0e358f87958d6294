import Interpolation.Main
import Interpolation.Tree.Queue
import Interpolation.Pattern.Search
import Interpolation.Tree.Focus
import Interpolation.Proofs.Operand.Grouping
import Interpolation.Proofs.Bracketed.Text
import Interpolation.Proofs.Pattern.Derivation
import Interpolation.Proofs.Selection.Shape
import Interpolation.Proofs.Selection.Matches
import Interpolation.Proofs.Text.Replacement
import Interpolation.Proofs.Tree.Place
import Interpolation.Proofs.Transform.Attempts
import Interpolation.Proofs.Transform.Edits
import Interpolation.Proofs.Run.Consent
import Interpolation.Proofs.Selection.Places
import Interpolation.Proofs.Selection.Window
import Interpolation.Proofs.Bracketed.Window
import Interpolation.Proofs.Selection.Siblings
import Interpolation.Proofs.Bracketed.Grammar
import Interpolation.Proofs.Bracketed.Reading
import Interpolation.Proofs.Diff.PatchText
import Interpolation.Proofs.LineEnding.Transform
import Interpolation.Proofs.Rewriting.Again
import Interpolation.Proofs.Transform.Order
import Interpolation.Proofs.Transform.Counts
import Interpolation.Proofs.Bracketed.Steps
import Interpolation.Proofs.Operand.Regrouping
import Interpolation.Proofs.Token.Lexeme
import Interpolation.Proofs.Tree.Shape
import Interpolation.Proofs.Tree.WellShaped
import Interpolation.Proofs.Bracketed.Matching
import Interpolation.Proofs.Tree.Brackets
import Interpolation.Proofs.Bracketed.Simulation
import Interpolation.Proofs.Bracketed.Lines
import Interpolation.Proofs.Tree.Matching
import Interpolation.Proofs.Transform.Size
import Interpolation.Proofs.Run.Course
import Interpolation.Proofs.Run.Stop
import Interpolation.Proofs.Run.Totals
import Interpolation.Proofs.Run.Assent
import Interpolation.Proofs.Diff.Shortest
import Interpolation.Proofs.Transform.Pruning
import Interpolation.Proofs.Run.Transcript
import Interpolation.Proofs.Run.Order
import Interpolation.Proofs.Pattern.Language
import Interpolation.Proofs.Selection.Selected
import Interpolation.Proofs.Text.Utf8
import Interpolation.Proofs.Placeholder.Places
import Interpolation.Proofs.Rewriting.Letters
import Interpolation.Proofs.Rewriting.Form
import Interpolation.Proofs.Tree.Label
import Interpolation.Proofs.Transform.Expression
import Interpolation.Proofs.Transform.Skipped
import Interpolation.Proofs.Selection.DocumentOrder
import Interpolation.Proofs.Pattern.Repetition
import Interpolation.Proofs.Pattern.Captures
import Interpolation.Proofs.Operand.Complete
import Interpolation.Proofs.Tree.Grouped
import Interpolation.Proofs.Diff.Frame
import Interpolation.Proofs.Diff.Table
import Interpolation.Proofs.Text.ByteOrder
import Interpolation.Proofs.Store.Descent
import Interpolation.Proofs.Store.Walk
import Interpolation.Proofs.Store.Search
import Interpolation.Proofs.Run.Directories
import Interpolation.Proofs.Operand.Queue
import Interpolation.Proofs.Tree.Focus
import Interpolation.Proofs.Pattern.Search

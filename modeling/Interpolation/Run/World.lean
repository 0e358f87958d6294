import Interpolation.Store.Path
import Interpolation.Text.Line

/-!
# What a run deals with

* `World` — the files, what the user types, and what was printed;
* `World.print` — print a text, as far as the output takes it;
* `World.beginReading` — the first look at what the user types. Some paths can become directories at that moment: it is
  the one point of a run at which something else may touch the files.
-/

namespace Interpolation

/-- The files, the input and the output of a run. -/
structure World where
  store : Store
  /-- The lines that the user types and that are not read yet. -/
  input : List Bytes
  /-- What was printed. -/
  output : Bytes
  /-- The number of bytes that the output still takes, if it is limited. -/
  room : Option Nat
  /-- Paths that become empty directories as soon as the input is looked at. -/
  replaced : List Text

namespace World

/-- Print a text. If it does not fit, what fits is printed. -/
def print (w : World) (t : Text) : Option IoError × World :=
  match w.room with
  | none => (none, { w with output := w.output ++ t.utf8 })
  | some n =>
    if t.utf8.length ≤ n then
      (none, { w with output := w.output ++ t.utf8, room := some (n - t.utf8.length) })
    else (some .outputClosed, { w with output := w.output ++ t.utf8.take n, room := some 0 })

/-- An output without limit takes everything. -/
theorem print_of_room {w : World} (h : w.room = none) (t : Text) :
    w.print t = (none, { w with output := w.output ++ t.utf8 }) := by
  rw [print, h]

/-- Look at what the user types. -/
def beginReading (w : World) : World :=
  { w with store := w.replaced.foldl (fun s path => s.place path .directory) w.store, replaced := [] }

/-- A world with an output of its own. -/
def withOutput (w : World) (room : Option Nat) : World := { w with output := [], room }

end World

end Interpolation

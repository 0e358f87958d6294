import Interpolation.Event
import Interpolation.Run.World
import Interpolation.Text.WhiteSpace

/-!
# Asking the user

* `Reply` — what the user can answer;
* `Exchange` — a question with all that the user typed until it was settled;
* `World.ask` — repeat a question until a line is understood or there are no more lines.
-/

namespace Interpolation

/-- An answer to the question whether a file is to be changed. -/
inductive Reply where
  | yes
  | no
  /-- Yes to this question and all that follow. -/
  | all
  /-- No to this question and all that follow. -/
  | quit
  deriving DecidableEq, Repr

/-- The words for each reply, in lower case. -/
def Reply.words : List (Text × Reply) :=
  [("y".toList, .yes), ("yes".toList, .yes), ("n".toList, .no), ("no".toList, .no),
   ("a".toList, .all), ("all".toList, .all), ("q".toList, .quit), ("quit".toList, .quit)]

/-- What is understood of a line: white space around it and the case of ASCII letters do not count. -/
def normalizeAnswer (line : Text) : Text := line.trimmed.map Char.toLower

/-- The reply that a line stands for. -/
def Reply.ofLine? (line : Text) : Option Reply := Reply.words.lookup (normalizeAnswer line)

/-- How a question was settled. -/
inductive Ending where
  | answered (reply : Reply)
  /-- There were no more lines. -/
  | inputEnded
  /-- The question could not be printed, or a line is no text. -/
  | broken (cause : IoError)
  deriving DecidableEq, Repr

/-- A question: the answers that were not understood, and how it was settled. -/
structure Exchange where
  ignored : List Text
  ending : Ending
  deriving DecidableEq, Repr

namespace Exchange

/-- Whether the user agreed. -/
def accepts (x : Exchange) : Bool := x.ending = .answered .yes || x.ending = .answered .all

/-- Whether the user agreed to all further changes as well. -/
def acceptsAll (x : Exchange) : Bool := x.ending = .answered .all

/-- Whether the user wants no more. To type nothing more is to quit. -/
def quits (x : Exchange) : Bool := x.ending = .answered .quit || x.ending = .inputEnded

/-- What broke the question off. -/
def failure? (x : Exchange) : Option Failure := match x.ending with
  | .broken e => some (.console e)
  | _ => none

def events (x : Exchange) : List Event := x.ignored.map .unrecognised ++ if x.quits then [.stopped] else []

end Exchange

namespace World

/-- Ask a question whose answers are the lines `input`. -/
def askFrom (w : World) (question : Text) (input : List Bytes) : Exchange × World :=
  match w.print question with
  | (some e, w) => (⟨[], .broken e⟩, { w with input })
  | (none, w) =>
    match input with
    | [] => (⟨[], .inputEnded⟩, { w.beginReading with input := [] })
    | line :: rest =>
      match line.text? with
      | none => (⟨[], .broken .invalidText⟩, { w.beginReading with input := rest })
      | some line =>
        match Reply.ofLine? line with
        | some reply => (⟨[], .answered reply⟩, { w.beginReading with input := rest })
        | none =>
          let (x, w) := w.beginReading.askFrom question rest
          ({ x with ignored := normalizeAnswer line :: x.ignored }, w)

/-- Ask a question. -/
def ask (w : World) (question : Text) : Exchange × World := w.askFrom question w.input

variable {w : World} {t : Text} {line : Bytes}

/-- A line that is understood settles a question. -/
theorem askFrom_of_reply (hroom : w.room = none) (htext : line.text? = some t) {r : Reply}
    (hreply : Reply.ofLine? t = some r) (question : Text) (rest : List Bytes) :
    w.askFrom question (line :: rest) =
      (⟨[], .answered r⟩, { w.beginReading with input := rest, output := w.output ++ question.utf8 }) := by
  simp only [askFrom, print_of_room hroom, htext, hreply]
  rfl

theorem ask_of_reply (hroom : w.room = none) {rest : List Bytes} (hinput : w.input = line :: rest)
    (htext : line.text? = some t) {r : Reply} (hreply : Reply.ofLine? t = some r) (question : Text) :
    w.ask question =
      (⟨[], .answered r⟩, { w.beginReading with input := rest, output := w.output ++ question.utf8 }) := by
  rw [ask, hinput]
  exact askFrom_of_reply hroom htext hreply question rest

/-- After a line that is not understood a question is put once more. -/
theorem askFrom_of_ignored (hroom : w.room = none) (htext : line.text? = some t) (hreply : Reply.ofLine? t = none)
    (question : Text) (rest : List Bytes) :
    w.askFrom question (line :: rest) =
      (let (x, u) := ({ w.beginReading with output := w.output ++ question.utf8 } : World).askFrom question rest
       ({ x with ignored := normalizeAnswer t :: x.ignored }, u)) := by
  rw [askFrom, print_of_room hroom]
  simp only [htext, hreply]
  rfl

end World

end Interpolation

import Interpolation.Diff.Unified
import Interpolation.Run.Question
import Interpolation.Transform

/-!
# Visiting one source

A source is read and transformed. If something changed, the difference is printed; then, if files are to be written at
all, the user is asked, unless there is no need to, and the file is written.

* `Options` — whether to ask and whether to write;
* `Fate` — what became of a source; `Visit` — a source with its fate;
* `World.visit` — the visit itself;
* `Visit.events`, `Visit.summary` — what a visit adds to the log and to the totals.
-/

namespace Interpolation

/-- How to deal with changed files. -/
structure Options where
  /-- Ask before each file is written. -/
  interactive : Bool := true
  /-- Write changed files; otherwise only show what would change. -/
  write : Bool := true
  deriving DecidableEq, Repr

/-- The options for two switches: without input there is no asking, and without writing nothing to ask for. -/
def Options.ofSwitches (noInput noWrite : Bool) : Options := ⟨!noInput && !noWrite, !noWrite⟩

/-- What became of a source. -/
inductive Fate where
  | unreadable (cause : IoError)
  | unchanged (t : Transformation)
  /-- The difference could not be printed. -/
  | unprintable (t : Transformation) (cause : IoError)
  /-- The difference was printed, and nothing is to be written. -/
  | shown (t : Transformation)
  /-- The user was asked and did not agree. -/
  | refused (t : Transformation) (talk : Exchange)
  /-- There was no need to ask, or the user agreed; and how it went when the file was written. -/
  | accepted (t : Transformation) (talk : Option Exchange) (writing : Writing)
  deriving Repr

/-- A source with its fate. -/
structure Visit where
  path : Text
  fate : Fate
  deriving Repr

/-- Totals over sources. -/
structure Summary where
  files : Nat := 0
  changed : Nat := 0
  written : Nat := 0
  interpolated : Nat := 0
  skipped : Nat := 0
  /-- Files that could not be read or written, and placeholders that could not be filled. -/
  errors : Nat := 0
  deriving DecidableEq, Repr

def Summary.add (a b : Summary) : Summary :=
  ⟨a.files + b.files, a.changed + b.changed, a.written + b.written, a.interpolated + b.interpolated, a.skipped + b.skipped,
    a.errors + b.errors⟩

namespace Fate

/-- The transformation of a source that could be read. -/
def transformation? : Fate → Option Transformation
  | .unreadable _ => none
  | .unchanged t | .unprintable t _ | .shown t | .refused t _ | .accepted t _ _ => some t

/-- The question to the user. -/
def talk? : Fate → Option Exchange
  | .refused _ talk => some talk
  | .accepted _ talk _ => talk
  | _ => none

/-- Whether the source would change. -/
def isChanged : Fate → Bool
  | .unreadable _ | .unchanged _ => false
  | _ => true

def isWritten : Fate → Bool
  | .accepted _ _ .whole => true
  | _ => false

/-- What makes the whole run fail. -/
def failure? : Fate → Option Failure
  | .unprintable _ e => some (.console e)
  | .refused _ talk => talk.failure?
  | _ => none

/-- Whether no more sources are to be visited. -/
def stops (f : Fate) : Bool := f.failure?.isSome || f.talk?.any Exchange.quits

/-- Whether the user need not be asked any more. -/
def settlesAll (f : Fate) : Bool := f.talk?.any Exchange.acceptsAll

/-- What went wrong with the file alone, so that the run goes on. -/
def fileFailure? (path : Text) : Fate → Option Failure
  | .unreadable e => some (.read path e)
  | .accepted _ _ writing => writing.cause?.map (.write path)
  | _ => none

end Fate

namespace Visit

/-- The log of a visit. -/
def events (v : Visit) : List Event :=
  (v.fate.transformation?.elim [] Transformation.log) ++ (v.fate.talk?.elim [] Exchange.events) ++
    match v.fate with
    | .unreadable e => [.failed (.read v.path e)]
    | .unchanged _ => [.unchanged v.path]
    | .accepted t _ writing =>
      match writing.cause? with
      | none => [.wrote v.path t.interpolated]
      | some e => [.failed (.write v.path e)]
    | _ => []

/-- The totals over one visit. -/
def summary (v : Visit) : Summary where
  files := 1
  changed := v.fate.isChanged.toNat
  written := v.fate.isWritten.toNat
  interpolated := v.fate.transformation?.elim 0 Transformation.interpolated
  skipped := v.fate.transformation?.elim 0 Transformation.skipped
  errors := (v.fate.fileFailure? v.path).isSome.toNat + v.fate.transformation?.elim 0 Transformation.failed

end Visit

/-- The question whether to write a file. -/
def questionFor (path : Text) : Text := "Apply these changes to ".toList ++ path ++ "? [y,n,a,q] ".toList

namespace World

/-- Write a transformed source. -/
def commit (w : World) (path : Text) (t : Transformation) (talk : Option Exchange) : Fate × World :=
  let (writing, store) := w.store.write path t.output.utf8
  (.accepted t talk writing, { w with store })

/-- Print what would change in a source, and write it if that is wanted. -/
def propose (w : World) (options : Options) (asking : Bool) (path source : Text) (t : Transformation) : Fate × World :=
  match w.print (unifiedDiff source t.output path path) with
  | (some e, w) => (.unprintable t e, w)
  | (none, w) =>
    if !options.write then (.shown t, w)
    else if asking then
      match w.ask (questionFor path) with
      | (talk, w) => if talk.accepts then w.commit path t (some talk) else (.refused t talk, w)
    else w.commit path t none

/-- Visit one source. -/
def visit (w : World) (options : Options) (asking : Bool) (path : Text) : Fate × World :=
  match w.store.read path with
  | .error e => (.unreadable e, w)
  | .ok source =>
    let t := Pattern.interpolation.transform source
    if t.isChanged then w.propose options asking path source t else (.unchanged t, w)

end World

end Interpolation

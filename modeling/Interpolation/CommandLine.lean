import Interpolation.Run.Report

/-!
# The command line

* `Invocation` — what the arguments of a command ask for;
* `Answer` — what a command leaves behind: its exit code, and what it wrote to its two outputs;
* `CommandLine.execute` — carry out a command.
-/

namespace Interpolation

/-- What the arguments of a command ask for. -/
inductive Invocation where
  | help
  /-- The arguments make no sense. -/
  | misuse
  | run (options : Options) (paths : List Text)
  deriving DecidableEq, Repr

namespace Invocation

/-- Read arguments, the switches and paths so far being given. Behind `--` everything is a path, and `-` always is one.
An argument that asks for help or makes no sense settles the matter at once; an empty path does so when the next
switch or the end comes. -/
def read (onlyPaths noInput noWrite : Bool) (paths : List Text) : List Text → Invocation
  | [] =>
    if paths = [] || [] ∈ paths then .misuse else .run (Options.ofSwitches noInput noWrite) paths
  | a :: as =>
    if onlyPaths || a.head? ≠ some '-' || a = ['-'] then read onlyPaths noInput noWrite (paths ++ [a]) as
    else if a = "--".toList then read true noInput noWrite paths as
    else if [] ∈ paths then .misuse
    else if a = "--help".toList || a.take 2 = "-h".toList then .help
    else if a = "--no-input".toList && !noInput then read false true noWrite paths as
    else if a = "--no-write".toList && !noWrite then read false noInput true paths as
    else .misuse

/-- What some arguments ask for. -/
def ofArguments (arguments : List Text) : Invocation := read false false false [] arguments

end Invocation

/-- What a command leaves behind. -/
structure Answer where
  exitCode : Nat
  output : Bytes
  errorOutput : Bytes
  /-- Whether the user was asked for more than was typed. -/
  wantsInput : Bool
  deriving DecidableEq, Repr

namespace CommandLine

/-- The help text. -/
def helpText : Text :=
  "Rewrite '%s' % name interpolation into f-strings\n\nUsage: fstringify [OPTIONS] <FILES>...\n\nArguments:\n  <FILES>...  Python files or directories to search for them\n\nOptions:\n      --no-input  Write every change without asking\n      --no-write  Only print diffs, leave files untouched\n  -h, --help      Print help\n".toList

/-- The hint for arguments that make no sense. -/
def usageText : Text := "Usage: fstringify [OPTIONS] <FILES>...\n".toList

/-- A cause in a report, behind its number; further lines of it are indented. -/
def renderCause (number cause : Text) : Text :=
  "    ".toList ++ number ++ ": ".toList ++ cause.flatMap (fun c => if c = '\n' then "\n       ".toList else [c]) ++ ['\n']

/-- The report of a failed run. -/
def renderFailure (f : Failure) : Text :=
  "Error: fstringify failed\n\nCaused by:\n".toList ++ renderCause ['0'] f.message ++ renderCause ['1'] f.cause.message

/-- The exit code of a run: zero if it did not fail and no file was in error. -/
def exitCode (r : Report) : Nat := if r.failure.isNone && r.summary.errors = 0 then 0 else 1

/-- Carry out a command. -/
def execute (arguments : List Text) (w : World) : Answer × World :=
  match Invocation.ofArguments arguments with
  | .help => (⟨0, helpText.utf8, [], false⟩, w)
  | .misuse => (⟨2, [], usageText.utf8, false⟩, w)
  | .run options paths =>
    let (report, w) := w.run options paths
    (⟨exitCode report, w.output, report.failure.elim [] fun f => (renderFailure f).utf8, report.wantsInput⟩, w)

end CommandLine

end Interpolation

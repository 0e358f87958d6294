import Interpolation.CommandLine

/-!
# The command

The command works on a snapshot of the files that its arguments lead to (`Snapshot.ofPaths`). It is carried out with
the lines typed so far; where that leaves a question open, another line is read and it is carried out again, which
repeats what was printed and written already and goes on from there.
-/

namespace Interpolation.Snapshot

/-- The path of a location. -/
def pathOf (l : Location) : String := String.ofList ('/' :: ['/'].intercalate l)

/-- The location that a path leads to, links followed. -/
def realLocation (path : String) : IO Location := do
  return FilePath.names (← IO.FS.realPath path).toString.toList

/-- Put an entry into a store, and the directories above it. -/
def put (s : Store) (l : Location) (e : Entry) : Store :=
  let above := (List.range l.length).foldl (fun s k =>
    if (s.entry? (l.take k)).isNone then s.insert (l.take k) .directory else s) s
  if above.isDirectory l then above else above.insert l e

/-- How much of a location is needed. -/
inductive Need where
  /-- What kind of entry it is. -/
  | kind
  /-- The content of a file. -/
  | content
  /-- The content of a file, or everything below a directory. -/
  | all
  deriving DecidableEq

/-- What is needed of an entry of a directory that is searched: the content only if its name is that of a source. -/
def Need.ofName (name : Text) : Need := if isSourceName name then .content else .kind

/-- Put what is at a location into a store, and return what else is needed. A link to nothing is a link to a name that
no file has. -/
def load (s : Store) (l : Location) (need : Need) : IO (Store × List (Location × Need)) := do
  let file := (← IO.FS.realPath "/") / pathOf l
  match (← file.symlinkMetadata).type with
  | .dir =>
    let below ← if need = .all then file.readDir else pure #[]
    return (put s l .directory, ← below.toList.mapM fun e => do
      let name := e.fileName.toList
      let isDir ← pure ((← e.path.symlinkMetadata).type == .dir)
      return (l ++ [name], if isDir then .all else Need.ofName name))
  | .symlink =>
    if ← file.pathExists then
      let target ← realLocation (pathOf l)
      return (put s l (.link (pathOf target).toList), [(target, need)])
    else return (put s l (.link ['\x00']), [])
  | _ =>
    if need = .kind && (s.entry? l).isSome then return (s, [])
    let content ← if need = .kind then pure .empty else IO.FS.readBinFile file
    return (put s l (.file content.data.toList), [])

/-- The locations on the way along a path, as far as there are any. -/
def along (path : Text) : IO (List Location) := do
  let start := if FilePath.isAbsolute path then "/" else "."
  let names := FilePath.names path
  let mut found := []
  for k in List.range names.length do
    let parent := String.ofList ((names.take k).foldl FilePath.join start.toList)
    try
      let l ← realLocation parent
      match names.drop k with
      | n :: _ =>
        if n = ['.'] || n = ['.', '.'] then found := (← realLocation (parent ++ "/" ++ String.ofList n)) :: found
        else found := (l ++ [n]) :: found
      | [] => pure ()
    catch _ => break
  return found

/-- The files that some paths lead to. -/
def ofPaths (here : Location) (paths : List Text) : IO Store := do
  let mut store := Store.empty here
  let mut needed : List (Location × Need) := []
  for path in paths do
    match ← along path with
    | [] => if FilePath.isAbsolute path then needed := ([], .all) :: needed
    | last :: before => needed := (last, .all) :: before.map (·, .kind) ++ needed
  while !needed.isEmpty do
    match needed with
    | [] => pure ()
    | (l, need) :: rest =>
      needed := rest
      try
        let (s, more) ← load store l need
        store := s
        needed := more ++ needed
      catch _ => pure ()
  return store

/-- Write the files that differ from those in `before`. -/
def save (before after : Store) : IO Unit := do
  for (l, content) in after.files do
    if before.entry? l ≠ some (.file content) then IO.FS.writeBinFile (pathOf l) ⟨content.toArray⟩

/-- Read one line, with its line feed; nothing at the end of the input. -/
def readLine (input : IO.FS.Stream) : IO Bytes := do
  let mut line : Bytes := []
  let mut reading := true
  while reading do
    match (← input.read 1).data.toList with
    | [] => reading := false
    | b :: _ =>
      line := b :: line
      reading := b ≠ 10
  return line.reverse

end Interpolation.Snapshot

open Interpolation in
/-- Carry out a command. -/
def main (arguments : List String) : IO UInt32 := do
  let arguments := arguments.map String.toList
  let here ← Snapshot.realLocation "."
  let store ← match Invocation.ofArguments arguments with
    | .run _ paths => Snapshot.ofPaths here paths
    | _ => pure (Store.empty here)
  let stdin ← IO.getStdin
  let stdout ← IO.getStdout
  let stderr ← IO.getStderr
  let mut saved := store
  let mut printed := 0
  let mut input : List Bytes := []
  let mut code : UInt32 := 0
  let mut running := true
  while running do
    let (answer, w) := CommandLine.execute arguments ⟨store, input, [], none, []⟩
    Snapshot.save saved w.store
    saved := w.store
    stdout.write ⟨(answer.output.drop printed).toArray⟩
    stdout.flush
    printed := answer.output.length
    let line ← if answer.wantsInput then Snapshot.readLine stdin else pure []
    if line.isEmpty then
      stderr.write ⟨answer.errorOutput.toArray⟩
      code := answer.exitCode.toUInt32
      running := false
    else input := input ++ [line]
  return code

import Interpolation.Store.Basic

/-!
# Paths to files

A path is a text; its names stand between slashes.

* `FilePath.steps` — the names of a path. A slash at the end asks for a directory, as one more name `.` would;
* `LastName` — what is made of the last name of a path;
* `Store.resolve` — follow names and links from a directory, through at most so many links;
* `Store.locate` — where a path leads; `Store.locateLink` does not follow a link that the path ends with;
* `Store.read` — the content of the file that a path leads to;
* `Store.write` — write the file that a path leads to, or make it;
* `Store.place` — put something new at a path.
-/

namespace Interpolation

namespace FilePath

/-- Cut a text at each slash. -/
def splitSlashes : Text → List Text
  | [] => [[]]
  | c :: s =>
    if c = '/' then [] :: splitSlashes s
    else
      match splitSlashes s with
      | [] => [[c]]
      | n :: ns => (c :: n) :: ns

/-- The names between the slashes of a path. -/
def names (path : Text) : List Text := (splitSlashes path).filter (· ≠ [])

/-- The names to follow. -/
def steps (path : Text) : List Text := names path ++ if path.getLast? = some '/' then [['.']] else []

/-- Whether a path starts at the root. -/
def isAbsolute (path : Text) : Bool := path.head? = some '/'

/-- A path with one more name. -/
def join (path name : Text) : Text := if path.getLast? = some '/' then path ++ name else path ++ '/' :: name

end FilePath

/-- What is made of the last name of a path. -/
inductive LastName where
  /-- A link of this name is followed. -/
  | follow
  /-- A link of this name is not followed. -/
  | keep
  /-- A link of this name is followed, and where nothing has this name a file of this name can be made. -/
  | make
  deriving DecidableEq, Repr

namespace Store

/-- Follow some names from the location `start`, through at most `links` links. Every name asks for a directory in
front of it. -/
def resolve (s : Store) (last : LastName) (links : Nat) (start : Location) : List Text → Except IoError Location
  | [] => .ok start
  | n :: ns =>
    match s.entry? start with
    | none => .error .notFound
    | some .directory =>
      if n = ['.'] then s.resolve last links start ns
      else if n = ['.', '.'] then s.resolve last links start.dropLast ns
      else
        match s.entry? (start ++ [n]) with
        | none => if ns = [] && last = .make then .ok (start ++ [n]) else .error .notFound
        | some (.link target) =>
          if ns = [] && last = .keep then .ok (start ++ [n])
          else
            match links with
            | 0 => .error .tooManyLinks
            | links + 1 =>
              s.resolve last links (if FilePath.isAbsolute target then [] else start) (FilePath.steps target ++ ns)
        | some _ => s.resolve last links (start ++ [n]) ns
    | some _ => .error .notDirectory
termination_by ns => (links, ns.length)

/-- The number of links that a path may lead through. -/
def maxLinks : Nat := 40

/-- Where a path leads. -/
def locateWith (s : Store) (last : LastName) (path : Text) : Except IoError Location :=
  if path = [] then .error .notFound
  else s.resolve last maxLinks (if FilePath.isAbsolute path then [] else s.here) (FilePath.steps path)

/-- Where a path leads, links followed. -/
def locate (s : Store) (path : Text) : Except IoError Location := s.locateWith .follow path

/-- Where a path leads, without following a link that it ends with. -/
def locateLink (s : Store) (path : Text) : Except IoError Location := s.locateWith .keep path

/-- The content of the file that a path leads to. -/
def readBytes (s : Store) (path : Text) : Except IoError Bytes :=
  match s.locate path with
  | .error e => .error e
  | .ok l =>
    match s.entry? l with
    | some (.file content) => .ok content
    | some .directory => .error .isDirectory
    | _ => .error .notFound

/-- The text of the file that a path leads to. -/
def read (s : Store) (path : Text) : Except IoError Text :=
  match s.readBytes path with
  | .error e => .error e
  | .ok content => match content.text? with
    | none => .error .invalidText
    | some t => .ok t

/-- Where the file is that is written at a path, or that is made there. -/
def target (s : Store) (path : Text) : Except IoError Location :=
  match s.locateWith .make path with
  | .error e => .error e
  | .ok l =>
    match s.entry? l with
    | some (.file _) | none => .ok l
    | some _ => .error .isDirectory

/-- Write the file that a path leads to, or make it. -/
def write (s : Store) (path : Text) (content : Bytes) : Writing × Store :=
  match s.target path with
  | .error e => (.refused e, s)
  | .ok l => s.writeAt l content

/-- Go from a directory to one of its directories, following links, and make it if there is none. -/
def enter (s : Store) (parent : Location) (name : Text) : Store × Location :=
  match s.entry? (parent ++ [name]) with
  | none => (s.insert (parent ++ [name]) .directory, parent ++ [name])
  | some _ => (s, (s.resolve .follow maxLinks parent [name]).toOption.getD (parent ++ [name]))

/-- Put an entry at a path, in the place of what was there, with all directories on the way. A directory that is there
already stays as it is. -/
def place (s : Store) (path : Text) (e : Entry) : Store :=
  let names := FilePath.names path
  let (s, parent) := names.dropLast.foldl (fun (s, parent) name => s.enter parent name) (s, s.here)
  match names.getLast? with
  | none => s
  | some n => if e = .directory && s.isDirectory (parent ++ [n]) then s else s.insert (parent ++ [n]) e

end Store

end Interpolation

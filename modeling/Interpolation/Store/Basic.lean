import Interpolation.Failure

/-!
# A store of files

* `Location` — where something is stored: the names on the way down from the root;
* `Entry` — a file, a directory or a symbolic link;
* `Writing` — how it goes when a file is written: it can be refused, or break off with part of the bytes written;
* `Store` — entries by location, in the order of their locations, name by name, the working directory, and how the
  writing of each file is going to go;
* `Store.writeAt` — write the file at a location.

The working directory and all directories above it are always there and have no entries of their own.
-/

namespace Interpolation

/-- The names on the way down from the root. -/
abbrev Location := List Text

/-- What is stored at a location. -/
inductive Entry where
  | file (content : Bytes)
  | directory
  /-- A symbolic link to the path `target`, which is seen from the directory of the link. -/
  | link (target : Text)
  deriving DecidableEq, Repr

/-- How it goes when bytes are written to a file. -/
inductive Writing where
  /-- All of them are written. -/
  | whole
  /-- The file cannot be opened. It stays as it is, and none is made. -/
  | refused (cause : IoError)
  /-- The file is opened, which leaves nothing in it, and takes no more than `room` bytes. -/
  | cut (room : Nat) (cause : IoError)
  deriving DecidableEq, Repr

namespace Writing

/-- What went wrong, if anything. -/
def cause? : Writing → Option IoError
  | .whole => none
  | .refused e | .cut _ e => some e

/-- Whether the file was opened, so that it does not hold what it held. -/
def opens : Writing → Bool
  | .refused _ => false
  | _ => true

/-- How it goes with certain bytes: those that fit are all written. -/
def ofContent (content : Bytes) : Writing → Writing
  | .cut room e => if content.length ≤ room then .whole else .cut room e
  | w => w

/-- What a file holds that was opened. -/
def kept? (content : Bytes) : Writing → Option Bytes
  | .whole => some content
  | .refused _ => none
  | .cut room _ => some (content.take room)

end Writing

/-- Put an entry at a location into a list that is sorted by location. -/
def insertSorted (l : Location) (e : Entry) : List (Location × Entry) → List (Location × Entry)
  | [] => [(l, e)]
  | (m, x) :: rest =>
    if l = m then (l, e) :: rest
    else if l < m then (l, e) :: (m, x) :: rest
    else (m, x) :: insertSorted l e rest

theorem mem_insertSorted {l : Location} {e : Entry} {entries : List (Location × Entry)} {p : Location × Entry}
    (h : p ∈ insertSorted l e entries) : p = (l, e) ∨ p ∈ entries := by
  fun_induction insertSorted l e entries with
  | case1 => simpa using h
  | case2 => simp only [List.mem_cons] at h ⊢; exact h.imp_right Or.inr
  | case3 => simpa using h
  | case4 m x rest _ _ ih =>
    simp only [List.mem_cons] at h ⊢
    rcases h with h | h
    · exact .inr (.inl h)
    · exact (ih h).imp_right .inr

theorem sorted_insertSorted {l : Location} {e : Entry} {entries : List (Location × Entry)}
    (h : entries.Pairwise (·.1 < ·.1)) : (insertSorted l e entries).Pairwise (·.1 < ·.1) := by
  fun_induction insertSorted l e entries with
  | case1 => simp
  | case2 => simpa using h
  | case3 m x rest _ hlt =>
    refine List.pairwise_cons.2 ⟨fun p hp => ?_, h⟩
    rcases List.mem_cons.1 hp with rfl | hp
    · exact hlt
    · exact List.lt_trans hlt ((List.pairwise_cons.1 h).1 p hp)
  | case4 m x rest hne hnlt ih =>
    obtain ⟨hm, hr⟩ := List.pairwise_cons.1 h
    refine List.pairwise_cons.2 ⟨fun p hp => ?_, ih hr⟩
    rcases mem_insertSorted hp with rfl | hp
    · exact Std.lt_of_le_of_ne (Std.not_lt.1 hnlt) (Ne.symm hne)
    · exact hm p hp

/-- Files, directories and links, and the directory that relative paths start from. -/
structure Store where
  here : Location
  entries : List (Location × Entry)
  sorted : entries.Pairwise (·.1 < ·.1)
  /-- How it goes when the file at a location is written for the first time, for the second time, and so on. Where
  nothing more is said all bytes are written. -/
  disk : Location → List Writing

namespace Store

/-- A store with nothing in it. -/
def empty (here : Location) : Store := ⟨here, [], .nil, fun _ => []⟩

/-- What is stored at a location. -/
def entry? (s : Store) (l : Location) : Option Entry :=
  if l.isPrefixOf s.here then some .directory else s.entries.lookup l

/-- Put an entry at a location, in the place of what was there. -/
def insert (s : Store) (l : Location) (e : Entry) : Store :=
  { s with entries := insertSorted l e s.entries, sorted := sorted_insertSorted s.sorted }

/-- Give the entry at a location, if there is one, another value. -/
def set (s : Store) (l : Location) (e : Entry) : Store where
  here := s.here
  entries := s.entries.map fun (m, x) => (m, if m = l then e else x)
  sorted := by
    rw [List.pairwise_map]
    exact s.sorted
  disk := s.disk

/-- How it goes when certain bytes are written to the file at a location next. -/
def writing (s : Store) (l : Location) (content : Bytes) : Writing := ((s.disk l).headD .whole).ofContent content

/-- The same files, after one more attempt to write the one at a location. -/
def attempt (s : Store) (l : Location) : Store :=
  { s with disk := fun m => if m = l then (s.disk l).tail else s.disk m }

/-- Let the file at a location hold certain bytes. It is made if it is not there. -/
def fill (s : Store) (l : Location) (content : Bytes) : Store :=
  match s.entry? l with
  | none => s.insert l (.file content)
  | some _ => s.set l (.file content)

/-- Write the file at a location. -/
def writeAt (s : Store) (l : Location) (content : Bytes) : Writing × Store :=
  let writing := s.writing l content
  (writing, match writing.kept? content with
    | none => s.attempt l
    | some kept => (s.attempt l).fill l kept)

def isDirectory (s : Store) (l : Location) : Bool := s.entry? l = some .directory

/-- The locations of all files with their content, in order. -/
def files (s : Store) : List (Location × Bytes) :=
  s.entries.filterMap fun (l, e) => match e with
    | .file content => some (l, content)
    | _ => none

end Store

end Interpolation

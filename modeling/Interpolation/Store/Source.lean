import Interpolation.Store.Path

/-!
# The sources under some paths

A path to a file is a source itself, whatever its name. A path to a directory stands for all that lies below it, is no
directory, and has a name that ends in `.py`; a link there is never entered. `Store.sources` lists the sources under
some paths in turn, each directory in the order of its names; `Store.sources_eq_error_iff` says when there is none.
-/

namespace Interpolation

/-- Whether a name ends in `.py` and has something in front of that. -/
def isSourceName (name : Text) : Bool := 3 < name.length && name.drop (name.length - 3) = ['.', 'p', 'y']

namespace Store

/-- Whether all locations on the way from the directory `d` down to `l` are directories. -/
def isReachable (s : Store) (d l : Location) : Bool :=
  d.isPrefixOf l && d ≠ l && (List.range l.length).all fun k => k ≤ d.length || s.isDirectory (l.take k)

/-- The sources below a directory, as locations seen from it. -/
def sourcesBelow (s : Store) (d : Location) : List Location :=
  (s.entries.filter fun (l, e) => s.isReachable d l && e ≠ .directory && isSourceName (l.getLastD [])).map
    fun (l, _) => l.drop d.length

/-- Whether a path, links not followed at its end, leads to a link with the name of a source. -/
def isSourceLink (s : Store) (path : Text) : Bool :=
  match s.locateLink path with
  | .error _ => false
  | .ok l =>
    match s.entry? l with
    | some (.link _) => isSourceName (l.getLastD [])
    | _ => false

/-- The sources under a path. -/
def sourcesAt (s : Store) (path : Text) : Except IoError (List Text) :=
  (s.locate path).map fun d =>
    if s.isDirectory d then
      (if s.isSourceLink path then [path] else []) ++ (s.sourcesBelow d).map fun l => l.foldl FilePath.join path
    else [path]

/-- The sources under some paths. The first path that leads nowhere is what fails. -/
def sources (s : Store) : List Text → Except Failure (List Text)
  | [] => .ok []
  | p :: ps =>
    match s.sourcesAt p with
    | .error e => .error (.read p e)
    | .ok here => (s.sources ps).map (here ++ ·)

theorem sources_cons_of_error {s : Store} {p : Text} {e : IoError} (h : s.locate p = .error e) (ps : List Text) :
    s.sources (p :: ps) = .error (.read p e) := by
  rw [sources, sourcesAt, h]
  rfl

theorem exists_sources_cons_of_ok {s : Store} {p : Text} {l : Location} (h : s.locate p = .ok l) (ps : List Text) :
    ∃ here, s.sources (p :: ps) = (s.sources ps).map (here ++ ·) := by
  rw [sources, sourcesAt, h]
  exact ⟨_, rfl⟩

/-- What fails is the first path that leads nowhere. -/
theorem sources_eq_error_iff {s : Store} {paths : List Text} {failure : Failure} :
    s.sources paths = .error failure ↔ ∃ before p behind e, paths = before ++ p :: behind ∧
      (∀ q ∈ before, ∃ l, s.locate q = .ok l) ∧ s.locate p = .error e ∧ failure = .read p e := by
  induction paths with
  | nil => simp [sources]
  | cons q ps ih =>
    cases hq : s.locate q with
    | error d =>
      rw [sources_cons_of_error hq]
      constructor
      · intro h
        exact ⟨[], q, ps, d, rfl, by simp, hq, (Except.error.inj h).symm⟩
      · rintro ⟨before, p, behind, e, heq, hbefore, hp, rfl⟩
        cases before with
        | nil =>
          obtain ⟨rfl, rfl⟩ := List.cons.inj heq
          rw [hp] at hq
          rw [Except.error.inj hq]
        | cons r before =>
          obtain ⟨rfl, -⟩ := List.cons.inj heq
          obtain ⟨l, hl⟩ := hbefore _ List.mem_cons_self
          rw [hl] at hq
          contradiction
    | ok l =>
      obtain ⟨here, hsources⟩ := exists_sources_cons_of_ok hq ps
      have herror : (s.sources ps).map (here ++ ·) = .error failure ↔ s.sources ps = .error failure := by
        cases s.sources ps <;> simp [Except.map]
      rw [hsources, herror, ih]
      constructor
      · rintro ⟨before, p, behind, e, rfl, hbefore, hp⟩
        exact ⟨q :: before, p, behind, e, rfl, List.forall_mem_cons.2 ⟨⟨l, hq⟩, hbefore⟩, hp⟩
      · rintro ⟨before, p, behind, e, heq, hbefore, hp, hfailure⟩
        cases before with
        | nil =>
          obtain ⟨rfl, rfl⟩ := List.cons.inj heq
          rw [hp] at hq
          contradiction
        | cons r before =>
          obtain ⟨rfl, rfl⟩ := List.cons.inj heq
          exact ⟨before, p, behind, e, rfl, (List.forall_mem_cons.1 hbefore).2, hp, hfailure⟩

theorem exists_sources_eq_error {s : Store} {paths : List Text} {p : Text} {e : IoError} (hp : p ∈ paths)
    (he : s.locate p = .error e) : ∃ failure, s.sources paths = .error failure := by
  induction paths with
  | nil => simp at hp
  | cons q ps ih =>
    cases hq : s.locate q with
    | error d => exact ⟨_, sources_cons_of_error hq ps⟩
    | ok l =>
      have hmem : p ∈ ps := by
        rcases List.mem_cons.1 hp with rfl | hp
        · rw [he] at hq
          contradiction
        · exact hp
      obtain ⟨here, hsources⟩ := exists_sources_cons_of_ok hq ps
      obtain ⟨failure, hfailure⟩ := ih hmem
      exact ⟨failure, by rw [hsources, hfailure]; rfl⟩

end Store

end Interpolation

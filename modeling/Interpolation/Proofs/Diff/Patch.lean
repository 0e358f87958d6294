import Interpolation.Proofs.Diff.Hunks
import Interpolation.Proofs.Diff.Search
import Interpolation.Text.Line

/-!
# Patches

* `Patch` — hunks, each with its place and length in two texts and its lines;
* `Patch.apply` — a patch applied strictly: every place must be the true one, and every kept or deleted line must be the
  line that stands there;
* `Patch.inverse` — the patch that leads back;
* `Patch.apply_ofHunks` — the hunks that cut a script lead where the script leads.
-/

namespace Interpolation

open Edit (Leads)

/-- A hunk of a patch: where it starts in both texts, how many lines it takes there, and its lines. A hunk with lines
starts at the first of them, counting from one, a hunk without lines behind the line with the number of its start. -/
structure Patch.Hunk where
  oldStart : Nat
  oldLength : Nat
  newStart : Nat
  newLength : Nat
  edits : List (EditOp × Text)
  deriving DecidableEq, Repr

/-- The hunks of a patch, first to last. -/
abbrev Patch := List Patch.Hunk

namespace Patch

/-! ## Applying a patch -/

/-- The number of lines in front of a hunk. -/
def linesBefore? : (start length : Nat) → Option Nat
  | start, 0 => some start
  | 0, _ + 1 => none
  | start + 1, _ + 1 => some start

/-- Make some edits at the front of some lines: the lines that come of it, and those that are left. -/
def makeEdits : List (EditOp × Text) → List Text → Option (List Text × List Text)
  | [], lines => some ([], lines)
  | (.insert, t) :: es, lines => (makeEdits es lines).map fun (made, rest) => (t :: made, rest)
  | (.keep, t) :: es, l :: lines =>
    if l = t then (makeEdits es lines).map fun (made, rest) => (t :: made, rest) else none
  | (.delete, t) :: es, l :: lines => if l = t then makeEdits es lines else none
  | (.keep, _) :: _, [] => none
  | (.delete, _) :: _, [] => none

/-- Apply hunks to the lines of a text from the line `i` on, which are the lines from `j` on of the new text. The lines
between the hunks are kept. -/
def applyFrom (i j : Nat) : Patch → List Text → Option (List Text)
  | [], lines => some lines
  | h :: hs, lines => do
    let before ← linesBefore? h.oldStart h.oldLength
    let before' ← linesBefore? h.newStart h.newLength
    let gap := before - i
    if i ≤ before ∧ gap ≤ lines.length ∧ before' = j + gap then
      let (made, rest) ← makeEdits h.edits (lines.drop gap)
      let behind ← applyFrom (before + h.oldLength) (before' + h.newLength) hs rest
      return lines.take gap ++ (made ++ behind)
    else none

end Patch

/-- The edit that leads back. -/
def EditOp.inverse : EditOp → EditOp
  | .keep => .keep
  | .delete => .insert
  | .insert => .delete

namespace Patch

/-- The hunk that leads back. -/
def Hunk.inverse (h : Patch.Hunk) : Patch.Hunk :=
  ⟨h.newStart, h.newLength, h.oldStart, h.oldLength, h.edits.map fun (op, t) => (op.inverse, t)⟩

/-- The patch that leads back. -/
def inverse (p : Patch) : Patch := p.map Hunk.inverse

/-! ## Hunks of a script -/

/-- Where a hunk starts, with some lines in front of it. -/
def startOf (before length : Nat) : Nat := if length = 0 then before else before + 1

@[simp]
theorem linesBefore?_startOf (before length : Nat) : linesBefore? (startOf before length) length = some before := by
  cases length <;> rfl

/-- The number of old and of new lines that some edits take. -/
def oldLength (es : List (Edit Text)) : Nat := es.countP (·.op ≠ .insert)

@[inherit_doc oldLength]
def newLength (es : List (Edit Text)) : Nat := es.countP (·.op ≠ .delete)

/-- The lines of a hunk as a patch shows them. -/
def shown (es : List (Edit Text)) : List (EditOp × Text) := es.map fun e => (e.op, e.line)

/-- Some edits of a script as a hunk of a patch; `first` is the first of them. -/
def hunkOf (first : Edit Text) (es : List (Edit Text)) : Patch.Hunk :=
  ⟨startOf first.old (oldLength es), oldLength es, startOf first.new (newLength es), newLength es, shown es⟩

/-- The hunks of a script as a patch. -/
def ofHunks : List (List (Edit Text)) → Patch
  | [] => []
  | [] :: hunks => ofHunks hunks
  | (e :: es) :: hunks => hunkOf e (e :: es) :: ofHunks hunks

/-- The lines of a hunk make of the old lines in front the new ones. -/
theorem exists_of_leads_append {i j : Nat} {es fs : List (Edit Text)} {as bs : List Text}
    (h : Leads i j (es ++ fs) as bs) :
    ∃ made rest rest', bs = made ++ rest' ∧ makeEdits (shown es) as = some (made, rest) ∧
      Leads (i + oldLength es) (j + newLength es) fs rest rest' := by
  induction es generalizing i j as bs with
  | nil => exact ⟨[], as, bs, rfl, rfl, h⟩
  | cons e es ih =>
    cases h with
    | keep h =>
      obtain ⟨made, rest, rest', rfl, hmake, hrest⟩ := ih h
      refine ⟨_ :: made, rest, rest', rfl, ?_, ?_⟩
      · simp only [shown, List.map_cons, makeEdits, if_pos] at hmake ⊢
        rw [hmake, Option.map_some]
      · simpa [oldLength, newLength, Nat.add_assoc, Nat.add_comm 1] using hrest
    | delete h =>
      obtain ⟨made, rest, rest', rfl, hmake, hrest⟩ := ih h
      refine ⟨made, rest, rest', rfl, ?_, ?_⟩
      · simpa only [shown, List.map_cons, makeEdits, if_pos] using hmake
      · simpa [oldLength, newLength, Nat.add_assoc, Nat.add_comm 1] using hrest
    | insert h =>
      obtain ⟨made, rest, rest', rfl, hmake, hrest⟩ := ih h
      refine ⟨_ :: made, rest, rest', rfl, ?_, ?_⟩
      · simp only [shown, List.map_cons, makeEdits] at hmake ⊢
        rw [hmake, Option.map_some]
      · simpa [oldLength, newLength, Nat.add_assoc, Nat.add_comm 1] using hrest

/-- Where nothing is changed the lines in front are the same on both sides. -/
theorem exists_of_leads_kept {i j : Nat} {gap fs : List (Edit Text)} {as bs : List Text}
    (hkept : ∀ e ∈ gap, e.op = .keep) (h : Leads i j (gap ++ fs) as bs) :
    ∃ same as' bs', as = same ++ as' ∧ bs = same ++ bs' ∧ Leads (i + same.length) (j + same.length) fs as' bs' := by
  induction gap generalizing i j as bs with
  | nil => exact ⟨[], as, bs, rfl, rfl, h⟩
  | cons e gap ih =>
    have hkeep := hkept e List.mem_cons_self
    cases h with
    | keep h =>
      obtain ⟨same, as', bs', rfl, rfl, hrest⟩ := ih (fun e he => hkept e (List.mem_cons_of_mem _ he)) h
      exact ⟨_ :: same, as', bs', rfl, rfl, by simpa [Nat.add_assoc, Nat.add_comm 1] using hrest⟩
    | delete h => cases hkeep
    | insert h => cases hkeep

/-- The first edit of a script has the place where the script starts. -/
theorem place_of_leads_cons {i j : Nat} {e : Edit Text} {es : List (Edit Text)} {as bs : List Text}
    (h : Leads i j (e :: es) as bs) : e.old = i ∧ e.new = j := by
  cases h <;> exact ⟨rfl, rfl⟩

/-- The hunks that cut a script lead where the script leads. -/
theorem applyFrom_ofHunks {i j : Nat} {es : List (Edit Text)} {hunks : List (List (Edit Text))} {as bs : List Text}
    (hcut : Interpolation.Hunk.Cut es hunks) (h : Leads i j es as bs) :
    applyFrom i j (ofHunks hunks) as = some bs := by
  induction hcut generalizing i j as bs with
  | @last gap hkept =>
    rw [← List.append_nil gap] at h
    obtain ⟨same, as', bs', rfl, rfl, hrest⟩ := exists_of_leads_kept hkept h
    cases hrest
    rfl
  | @hunk gap hunk rest hunks hkept hne hnext ih =>
    obtain ⟨same, as', bs', rfl, rfl, hhunk⟩ := exists_of_leads_kept hkept h
    obtain ⟨e, es, rfl⟩ := List.exists_cons_of_ne_nil hne
    obtain ⟨hold, hnew⟩ := place_of_leads_cons hhunk
    obtain ⟨made, left, behind, rfl, hmake, hrest⟩ := exists_of_leads_append hhunk
    have hgap : i + same.length - i = same.length := Nat.add_sub_cancel_left ..
    have hlength : same.length ≤ (same ++ as').length := by simp
    rw [ofHunks, applyFrom]
    simp only [hunkOf, linesBefore?_startOf, hold, hnew, Option.bind_eq_bind, Option.bind_some, hgap]
    rw [if_pos ⟨Nat.le_add_right _ _, hlength, trivial⟩, List.drop_left, hmake, Option.bind_some]
    simp [ih hrest]

/-! ## The way back -/

/-- An edit with its sides exchanged. -/
def invert (e : Edit Text) : Edit Text := ⟨e.op.inverse, e.line, e.new, e.old⟩

theorem leads_invert {i j : Nat} {es : List (Edit Text)} {as bs : List Text} (h : Leads i j es as bs) :
    Leads j i (es.map invert) bs as := by
  induction h with
  | nil => exact .nil
  | keep rest ih => exact .keep ih
  | delete rest ih => exact .insert ih
  | insert rest ih => exact .delete ih

theorem keep_of_mem_map_invert {gap : List (Edit Text)} (hkept : ∀ e ∈ gap, e.op = .keep) :
    ∀ e ∈ gap.map invert, e.op = .keep := by
  intro e he
  obtain ⟨e', he', rfl⟩ := List.mem_map.1 he
  simp [invert, hkept e' he', EditOp.inverse]

theorem cut_invert {es : List (Edit Text)} {hunks : List (List (Edit Text))} (h : Interpolation.Hunk.Cut es hunks) :
    Interpolation.Hunk.Cut (es.map invert) (hunks.map (List.map invert)) := by
  induction h with
  | last hkept => exact .last (keep_of_mem_map_invert hkept)
  | hunk hkept hne hnext ih =>
    rw [List.map_append, List.map_append, List.map_cons]
    exact .hunk (keep_of_mem_map_invert hkept) (by simpa using hne) ih

theorem oldLength_invert (es : List (Edit Text)) : oldLength (es.map invert) = newLength es := by
  rw [oldLength, newLength, List.countP_map]
  refine List.countP_congr fun e _ => ?_
  rcases e with ⟨_ | _ | _, _, _, _⟩ <;> simp [invert, EditOp.inverse]

theorem newLength_invert (es : List (Edit Text)) : newLength (es.map invert) = oldLength es := by
  rw [oldLength, newLength, List.countP_map]
  refine List.countP_congr fun e _ => ?_
  rcases e with ⟨_ | _ | _, _, _, _⟩ <;> simp [invert, EditOp.inverse]

theorem inverse_hunkOf (first : Edit Text) (es : List (Edit Text)) :
    (hunkOf first es).inverse = hunkOf (invert first) (es.map invert) := by
  rw [hunkOf, hunkOf, oldLength_invert, newLength_invert]
  simp [Hunk.inverse, shown, invert]

theorem inverse_ofHunks (hunks : List (List (Edit Text))) :
    inverse (ofHunks hunks) = ofHunks (hunks.map (List.map invert)) := by
  induction hunks using ofHunks.induct with
  | case1 => rfl
  | case2 hunks ih => exact ih
  | case3 e es hunks ih =>
    have hcons : inverse (hunkOf e (e :: es) :: ofHunks hunks) =
        hunkOf (invert e) ((e :: es).map invert) :: ofHunks (hunks.map (List.map invert)) := by
      rw [← inverse_hunkOf, ← ih]
      rfl
    exact hcons

/-- A patch applied to a text, as a whole and strictly. -/
def apply (p : Patch) (t : Text) : Option Text := (applyFrom 0 0 p t.lines).map List.flatten

/-- A script between the lines of two texts, cut into hunks, is a patch that leads from each text to the other. -/
theorem apply_ofHunks {old new : Text} {es : List (Edit Text)} {hunks : List (List (Edit Text))}
    (hcut : Interpolation.Hunk.Cut es hunks) (h : Leads 0 0 es old.lines new.lines) :
    (ofHunks hunks).apply old = some new ∧ (ofHunks hunks).inverse.apply new = some old := by
  constructor
  · rw [apply, applyFrom_ofHunks hcut h, Option.map_some, Text.lines, flatten_splitAfter]
  · rw [inverse_ofHunks, apply, applyFrom_ofHunks (cut_invert hcut) (leads_invert h), Option.map_some, Text.lines,
      flatten_splitAfter]

end Patch

end Interpolation

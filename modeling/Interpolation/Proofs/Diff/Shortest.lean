import Interpolation.Proofs.Diff.Search

/-!
# Shortest edit scripts

* `Edit.Leads.places`, `Edit.Leads.place`, `Edit.Leads.line` — a script that leads from one list to another names every
  line of both once, in order, and at its true place;
* `Edit.kept` — the lines that a script keeps; `Edit.Leads.cost_add` counts its changes by them;
* `Edit.exists_leads_of_sublist` — whatever lines both lists have in common, some script keeps them;
* `LongestCommon` — a longest list of lines that both lists have in common;
* `Edit.script_shortest` — the script that is found is a valid one, and keeps such lines.
-/

namespace Interpolation

variable {α : Type}

namespace Edit

namespace Leads

variable {i j : Nat} {es : List (Edit α)} {as bs : List α}

/-! ## Places -/

/-- The lines that are not inserted have the places of the old lines, and those that are not deleted the places of the
new lines. -/
theorem places (h : Leads i j es as bs) :
    (es.filter (·.op ≠ .insert)).map (·.old) = List.range' i as.length ∧
      (es.filter (·.op ≠ .delete)).map (·.new) = List.range' j bs.length := by
  induction h with
  | nil => exact ⟨rfl, rfl⟩
  | keep _ ih => simpa [List.range'_succ] using ih
  | delete _ ih => simpa [List.range'_succ] using ih
  | insert _ ih => simpa [List.range'_succ] using ih

/-- The place of an edit is given by the old and the new lines that the edits in front of it take. -/
theorem place {before after : List (Edit α)} {e : Edit α} (h : Leads i j (before ++ e :: after) as bs) :
    e.old = i + before.countP (·.op ≠ .insert) ∧ e.new = j + before.countP (·.op ≠ .delete) := by
  induction before generalizing i j as bs with
  | nil => cases h <;> exact ⟨rfl, rfl⟩
  | cons d before ih =>
    cases h with
    | keep rest => simpa [Nat.add_assoc, Nat.add_comm 1] using ih rest
    | delete rest => simpa [Nat.add_assoc, Nat.add_comm 1] using ih rest
    | insert rest => simpa [Nat.add_assoc, Nat.add_comm 1] using ih rest

/-- An edit shows the line at its place. -/
theorem line (h : Leads i j es as bs) {e : Edit α} (he : e ∈ es) :
    (e.op ≠ .insert → ∃ k, e.old = i + k ∧ as[k]? = some e.line) ∧
      (e.op ≠ .delete → ∃ k, e.new = j + k ∧ bs[k]? = some e.line) := by
  have later {n p : Nat} {c : α} {cs : List α} (hrest : ∃ k, p = n + 1 + k ∧ cs[k]? = some e.line) :
      ∃ k, p = n + k ∧ (c :: cs)[k]? = some e.line := by
    obtain ⟨k, hp, hk⟩ := hrest
    exact ⟨k + 1, by rw [hp, Nat.add_assoc, Nat.add_comm 1], hk⟩
  induction h with
  | nil => contradiction
  | keep _ ih =>
    rcases List.mem_cons.1 he with rfl | he
    · exact ⟨fun _ => ⟨0, rfl, rfl⟩, fun _ => ⟨0, rfl, rfl⟩⟩
    · exact ⟨fun hop => later ((ih he).1 hop), fun hop => later ((ih he).2 hop)⟩
  | delete _ ih =>
    rcases List.mem_cons.1 he with rfl | he
    · exact ⟨fun _ => ⟨0, rfl, rfl⟩, fun hop => absurd rfl hop⟩
    · exact ⟨fun hop => later ((ih he).1 hop), (ih he).2⟩
  | insert _ ih =>
    rcases List.mem_cons.1 he with rfl | he
    · exact ⟨fun hop => absurd rfl hop, fun _ => ⟨0, rfl, rfl⟩⟩
    · exact ⟨(ih he).1, fun hop => later ((ih he).2 hop)⟩

end Leads

/-! ## Lines in common -/

/-- The lines that a script keeps. -/
def kept (es : List (Edit α)) : List α := (es.filter (·.op = .keep)).map (·.line)

@[simp]
theorem kept_cons (e : Edit α) (es : List (Edit α)) :
    kept (e :: es) = if e.op = .keep then e.line :: kept es else kept es := by
  by_cases h : e.op = .keep <;> simp [kept, h]

namespace Leads

variable {i j : Nat} {es : List (Edit α)} {as bs : List α}

/-- What is kept are lines of both lists. -/
theorem kept_sublist (h : Leads i j es as bs) : List.Sublist (kept es) as ∧ List.Sublist (kept es) bs := by
  induction h with
  | nil => exact ⟨.slnil, .slnil⟩
  | keep _ ih => exact ⟨ih.1.cons_cons _, ih.2.cons_cons _⟩
  | delete _ ih => exact ⟨ih.1.cons _, ih.2⟩
  | insert _ ih => exact ⟨ih.1, ih.2.cons _⟩

/-- Every line of the two lists is changed or is kept together with one of the other list. -/
theorem cost_add (h : Leads i j es as bs) : cost es + 2 * (kept es).length = as.length + bs.length := by
  induction h with
  | nil => rfl
  | keep _ ih => simp; omega
  | delete _ ih => simp; omega
  | insert _ ih => simp; omega

end Leads

/-- Whatever lines both lists have in common, some script keeps them, and no others. -/
theorem exists_leads_of_sublist (i j : Nat) {common as bs : List α} (has : common.Sublist as) (hbs : common.Sublist bs) :
    ∃ es, Leads i j es as bs ∧ kept es = common := by
  match has, hbs with
  | .slnil, .slnil => exact ⟨[], .nil, rfl⟩
  | .cons a has, hbs =>
    obtain ⟨es, hes, hkept⟩ := exists_leads_of_sublist (i + 1) j has hbs
    exact ⟨_, .delete hes, hkept⟩
  | has, .cons b hbs =>
    obtain ⟨es, hes, hkept⟩ := exists_leads_of_sublist i (j + 1) has hbs
    exact ⟨_, .insert hes, hkept⟩
  | .cons_cons a has, .cons_cons _ hbs =>
    obtain ⟨es, hes, hkept⟩ := exists_leads_of_sublist (i + 1) (j + 1) has hbs
    exact ⟨_, .keep hes, congrArg (a :: ·) hkept⟩
termination_by as.length + bs.length

end Edit

/-- There are no longer lists of lines that both lists have in common, each of them in this order. -/
structure LongestCommon (old new common : List α) : Prop where
  inOld : common.Sublist old
  inNew : common.Sublist new
  longest : ∀ l : List α, l.Sublist old → l.Sublist new → l.length ≤ common.length

namespace Edit

/-- Where no script has fewer changes, what is kept could not be longer. -/
theorem Leads.longestCommon {es : List (Edit α)} {old new : List α} (h : Leads 0 0 es old new)
    (hleast : ∀ fs, Leads 0 0 fs old new → cost es ≤ cost fs) : LongestCommon old new (kept es) := by
  refine ⟨h.kept_sublist.1, h.kept_sublist.2, fun l hold hnew => ?_⟩
  obtain ⟨fs, hfs, rfl⟩ := exists_leads_of_sublist 0 0 hold hnew
  have hle := hleast fs hfs
  have hes := h.cost_add
  have hfs := hfs.cost_add
  omega

/-- The script that is found is a valid one: it takes every old and every new line once and in order, shows the line that
stands there, and gives each of its edits the numbers of old and of new lines in front of it. None is shorter: the lines
that it does not change are a longest list of lines that the old and the new list have in common. -/
theorem script_shortest [DecidableEq α] (old new : List α) :
    ((script old new).filter (·.op ≠ .insert)).map (·.old) = List.range old.length ∧
    ((script old new).filter (·.op ≠ .delete)).map (·.new) = List.range new.length ∧
    (∀ e ∈ script old new,
      (e.op ≠ .insert → old[e.old]? = some e.line) ∧ (e.op ≠ .delete → new[e.new]? = some e.line)) ∧
    (∀ before e after, script old new = before ++ e :: after →
      e.old = before.countP (·.op ≠ .insert) ∧ e.new = before.countP (·.op ≠ .delete)) ∧
    LongestCommon old new (kept (script old new)) ∧
    ∀ common, LongestCommon old new common →
      (script old new).countP (·.op ≠ .keep) = old.length + new.length - 2 * common.length := by
  have hleads : Leads 0 0 (script old new) old new := leads_script old new
  have hlongest : LongestCommon old new (kept (script old new)) := hleads.longestCommon fun _ => cost_script_le
  refine ⟨?_, ?_, fun e he => ⟨fun hop => ?_, fun hop => ?_⟩, fun before e after heq => ?_, hlongest,
    fun common hcommon => ?_⟩
  · rw [List.range_eq_range']
    exact hleads.places.1
  · rw [List.range_eq_range']
    exact hleads.places.2
  · obtain ⟨k, hk, hline⟩ := (hleads.line he).1 hop
    rwa [hk, Nat.zero_add]
  · obtain ⟨k, hk, hline⟩ := (hleads.line he).2 hop
    rwa [hk, Nat.zero_add]
  · rw [heq] at hleads
    simpa only [Nat.zero_add] using hleads.place
  · -- Two longest lists are equally long.
    have hle := hlongest.longest common hcommon.inOld hcommon.inNew
    have hge := hcommon.longest (kept (script old new)) hlongest.inOld hlongest.inNew
    have hcost := hleads.cost_add
    rw [cost] at hcost
    omega

example : script [1, 2, 3, 1] [2, 1, 1] =
    [⟨.delete, 1, 0, 0⟩, ⟨.keep, 2, 1, 0⟩, ⟨.delete, 3, 2, 1⟩, ⟨.keep, 1, 3, 1⟩, ⟨.insert, 1, 4, 2⟩] := by
  decide +kernel

end Edit

end Interpolation

import Interpolation.Diff.Script
import Mathlib.Logic.Function.Iterate
import Mathlib.Tactic.Common

/-!
# The search for an edit script

* `Edit.Leads` — a script that leads from one list to another, each of its lines with its true place;
* `Reach.IsPoint` — what the search knows of a point: the lines that are left, and the script that leads there;
* `Reach.IsFront` — the points of a round, one for each diagonal;
* `Edit.leads_script` — the script that is found leads from the old list to the new one;
* `Edit.cost_script_le` — no other script from one to the other has fewer changes.

A point beyond the end of a list carries no script. That such a point is never the first end comes from
`IsFront.pastOld` and `IsFront.pastNew`: where a point has gone beyond one list, another point of the same round has
done better on the other.
-/

namespace Interpolation

variable {α : Type}

namespace Edit

/-- A script leads from some old lines to some new lines, the first of which have `i` and `j` lines in front of them. -/
inductive Leads : (i j : Nat) → List (Edit α) → (old new : List α) → Prop
  | nil {i j : Nat} : Leads i j [] [] []
  | keep {i j : Nat} {a : α} {es : List (Edit α)} {as bs : List α} (rest : Leads (i + 1) (j + 1) es as bs) :
      Leads i j (⟨.keep, a, i, j⟩ :: es) (a :: as) (a :: bs)
  | delete {i j : Nat} {a : α} {es : List (Edit α)} {as bs : List α} (rest : Leads (i + 1) j es as bs) :
      Leads i j (⟨.delete, a, i, j⟩ :: es) (a :: as) bs
  | insert {i j : Nat} {b : α} {es : List (Edit α)} {as bs : List α} (rest : Leads i (j + 1) es as bs) :
      Leads i j (⟨.insert, b, i, j⟩ :: es) as (b :: bs)

theorem Leads.append {i j : Nat} {es fs : List (Edit α)} {as bs cs ds : List α} (h : Leads i j es as bs)
    (h' : Leads (i + as.length) (j + bs.length) fs cs ds) : Leads i j (es ++ fs) (as ++ cs) (bs ++ ds) := by
  induction h with
  | nil => exact h'
  | keep rest ih => exact .keep (ih (by simpa only [List.length_cons, Nat.add_right_comm, Nat.add_assoc] using h'))
  | delete rest ih => exact .delete (ih (by simpa only [List.length_cons, Nat.add_right_comm, Nat.add_assoc] using h'))
  | insert rest ih => exact .insert (ih (by simpa only [List.length_cons, Nat.add_right_comm, Nat.add_assoc] using h'))

theorem Leads.take_append {old new cs ds : List α} {i j : Nat} {es fs : List (Edit α)}
    (h : Leads 0 0 es (old.take i) (new.take j)) (hi : i ≤ old.length) (hj : j ≤ new.length) (h' : Leads i j fs cs ds) :
    Leads 0 0 (es ++ fs) (old.take i ++ cs) (new.take j ++ ds) :=
  h.append (by rwa [List.length_take_of_le hi, List.length_take_of_le hj, Nat.zero_add, Nat.zero_add])

theorem leads_deletes (i j : Nat) (as : List α) : ∃ es, Leads i j es as [] ∧ es.length = as.length := by
  induction as generalizing i with
  | nil => exact ⟨[], .nil, rfl⟩
  | cons a as ih =>
    obtain ⟨es, hes, hlength⟩ := ih (i + 1)
    exact ⟨_, .delete hes, by simp [hlength]⟩

/-- Deleting all old and inserting all new lines is a script. -/
theorem exists_leads (i j : Nat) (as bs : List α) : ∃ es, Leads i j es as bs ∧ es.length = as.length + bs.length := by
  induction bs generalizing j with
  | nil => exact leads_deletes i j as
  | cons b bs ih =>
    obtain ⟨es, hes, hlength⟩ := ih (j + 1)
    exact ⟨_, .insert hes, by simp [hlength, Nat.add_assoc]⟩

/-- The number of lines that a script deletes or inserts. -/
def cost (es : List (Edit α)) : Nat := es.countP (·.op ≠ .keep)

@[simp]
theorem cost_cons (e : Edit α) (es : List (Edit α)) : cost (e :: es) = cost es + if e.op = .keep then 0 else 1 := by
  by_cases h : e.op = .keep <;> simp [cost, h]

theorem cost_append (es fs : List (Edit α)) : cost (es ++ fs) = cost es + cost fs := List.countP_append

theorem cost_reverse (es : List (Edit α)) : cost es.reverse = cost es := List.countP_reverse

end Edit

namespace Reach

variable {old new : List α} {r s : Reach α} {d : Nat}

/-! ## Points -/

theorem exists_of_drop_eq_cons {l as : List α} {a : α} {i : Nat} (h : l.drop i = a :: as) :
    i < l.length ∧ l[i]? = some a ∧ as = l.drop (i + 1) := by
  refine ⟨?_, ?_, ?_⟩
  · by_contra hle
    simp [List.drop_of_length_le (Nat.not_lt.1 hle)] at h
  · rw [← List.head?_drop, h, List.head?_cons]
  · rw [← List.tail_drop, h, List.tail_cons]

/-- A point of the search from `old` to `new`: the lines behind it are what is left of both lists, and unless it lies
beyond one of them its script leads there with `d` changes. -/
structure IsPoint (old new : List α) (d : Nat) (r : Reach α) : Prop where
  oldRest_eq : r.oldRest = old.drop r.old
  newRest_eq : r.newRest = new.drop r.new
  leads : r.old ≤ old.length → r.new ≤ new.length →
    Edit.Leads 0 0 r.script.reverse (old.take r.old) (new.take r.new) ∧ Edit.cost r.script = d

/-- The ends are the points that have all lines of both lists in front of them. -/
theorem IsPoint.isEnd_iff (h : IsPoint old new d r) : r.isEnd = true ↔ old.length ≤ r.old ∧ new.length ≤ r.new := by
  simp [isEnd, h.oldRest_eq, h.newRest_eq]

@[simp]
theorem delete_old (r : Reach α) : r.delete.old = r.old + 1 := by
  unfold delete
  split <;> rfl

@[simp]
theorem delete_new (r : Reach α) : r.delete.new = r.new := by
  unfold delete
  split <;> rfl

@[simp]
theorem insert_old (r : Reach α) : r.insert.old = r.old := by
  unfold insert
  split <;> rfl

@[simp]
theorem insert_new (r : Reach α) : r.insert.new = r.new + 1 := by
  unfold insert
  split <;> rfl

theorem IsPoint.delete (h : IsPoint old new d r) : IsPoint old new (d + 1) r.delete := by
  unfold Reach.delete
  split
  · next hrest =>
    have hlength : old.length ≤ r.old := by simpa [h.oldRest_eq] using hrest
    refine ⟨?_, h.newRest_eq, fun hle => absurd hle (Nat.not_le.2 (Nat.lt_succ_of_le hlength))⟩
    exact hrest.trans (List.drop_of_length_le (Nat.le_succ_of_le hlength)).symm
  · next a as hrest =>
    obtain ⟨hlt, hget, hdrop⟩ := exists_of_drop_eq_cons (h.oldRest_eq.symm.trans hrest)
    refine ⟨hdrop, h.newRest_eq, fun _ hnew => ?_⟩
    obtain ⟨hleads, hcost⟩ := h.leads (Nat.le_of_lt hlt) hnew
    have hnext := hleads.take_append (Nat.le_of_lt hlt) hnew (.delete (a := a) .nil)
    exact ⟨by simpa [List.take_add_one, hget] using hnext, by simp [Edit.cost, ← hcost]⟩

theorem IsPoint.insert (h : IsPoint old new d r) : IsPoint old new (d + 1) r.insert := by
  unfold Reach.insert
  split
  · next hrest =>
    have hlength : new.length ≤ r.new := by simpa [h.newRest_eq] using hrest
    refine ⟨h.oldRest_eq, ?_, fun _ hle => absurd hle (Nat.not_le.2 (Nat.lt_succ_of_le hlength))⟩
    exact hrest.trans (List.drop_of_length_le (Nat.le_succ_of_le hlength)).symm
  · next b bs hrest =>
    obtain ⟨hlt, hget, hdrop⟩ := exists_of_drop_eq_cons (h.newRest_eq.symm.trans hrest)
    refine ⟨h.oldRest_eq, hdrop, fun hold _ => ?_⟩
    obtain ⟨hleads, hcost⟩ := h.leads hold (Nat.le_of_lt hlt)
    have hnext := hleads.take_append hold (Nat.le_of_lt hlt) (.insert (b := b) .nil)
    exact ⟨by simpa [List.take_add_one, hget] using hnext, by simp [Edit.cost, ← hcost]⟩

/-! ## Lines that agree -/

/-- Both lists begin with the same line. -/
def Agree (as bs : List α) : Prop := ∃ a as' bs', as = a :: as' ∧ bs = a :: bs'

variable [DecidableEq α]

/-- A slide takes all lines that agree, and keeps each of them. -/
theorem exists_slideFrom (i j : Nat) (script : List (Edit α)) (as bs : List α) :
    ∃ es common as' bs', as = common ++ as' ∧ bs = common ++ bs' ∧ ¬Agree as' bs' ∧
      (Edit.Leads i j es common common ∧ Edit.cost es = 0) ∧
      slideFrom i j script as bs = ⟨i + common.length, j + common.length, as', bs', es.reverse ++ script⟩ := by
  fun_induction slideFrom i j script as bs with
  | case1 i j script as a bs ih =>
    obtain ⟨es, common, as', bs', rfl, rfl, hstop, ⟨hleads, hcost⟩, hslide⟩ := ih
    refine ⟨_, a :: common, as', bs', rfl, rfl, hstop, ⟨.keep hleads, by simpa [Edit.cost] using hcost⟩, ?_⟩
    simp [hslide, Nat.add_assoc, Nat.add_comm 1]
  | case2 i j script a as b bs hne =>
    refine ⟨[], [], a :: as, b :: bs, rfl, rfl, ?_, ⟨.nil, rfl⟩, rfl⟩
    rintro ⟨c, as', bs', has, hbs⟩
    exact hne ((List.cons.inj has).1.trans (List.cons.inj hbs).1.symm)
  | case3 i j script as bs hstop =>
    refine ⟨[], [], as, bs, rfl, rfl, ?_, ⟨.nil, rfl⟩, rfl⟩
    rintro ⟨c, as', bs', has, hbs⟩
    exact hstop c as' c bs' has hbs

theorem not_agree_slide (r : Reach α) : ¬Agree r.slide.oldRest r.slide.newRest := by
  obtain ⟨es, common, as', bs', -, -, hstop, -, hslide⟩ := exists_slideFrom r.old r.new r.script r.oldRest r.newRest
  rw [slide, hslide]
  exact hstop

/-- A slide stays on its diagonal and ends within both lists, unless it does not move at all. -/
theorem IsPoint.exists_slide (h : IsPoint old new d r) :
    ∃ k ≤ old.length - r.old, k ≤ new.length - r.new ∧ r.slide.old = r.old + k ∧ r.slide.new = r.new + k := by
  obtain ⟨es, common, as', bs', has, hbs, -, -, hslide⟩ := exists_slideFrom r.old r.new r.script r.oldRest r.newRest
  refine ⟨common.length, ?_, ?_, by rw [slide, hslide], by rw [slide, hslide]⟩
  · rw [← List.length_drop, ← h.oldRest_eq, has, List.length_append]
    exact Nat.le_add_right _ _
  · rw [← List.length_drop, ← h.newRest_eq, hbs, List.length_append]
    exact Nat.le_add_right _ _

theorem IsPoint.slide (h : IsPoint old new d r) : IsPoint old new d r.slide := by
  obtain ⟨es, common, as', bs', has, hbs, -, ⟨hkeep, hfree⟩, hslide⟩ :=
    exists_slideFrom r.old r.new r.script r.oldRest r.newRest
  have hold := h.oldRest_eq.symm.trans has
  have hnew := h.newRest_eq.symm.trans hbs
  rw [Reach.slide, hslide]
  constructor
  · rw [← List.drop_drop, hold, List.drop_left]
  · rw [← List.drop_drop, hnew, List.drop_left]
  · intro hle hle'
    have hle : r.old ≤ old.length := Nat.le_trans (Nat.le_add_right _ _) hle
    have hle' : r.new ≤ new.length := Nat.le_trans (Nat.le_add_right _ _) hle'
    obtain ⟨hleads, hcost⟩ := h.leads hle hle'
    constructor
    · have hnext := hleads.take_append hle hle' hkeep
      rwa [List.reverse_append, List.reverse_reverse, List.take_add, List.take_add, hold, hnew, List.take_left,
        List.take_left]
    · rw [Edit.cost_append, Edit.cost_reverse, hfree, hcost, Nat.zero_add]

/-! ## Fronts -/

omit [DecidableEq α] in
/-- Each point above a front comes from one of the two points next to it. -/
theorem above_origin {front : List (Reach α)} {i : Nat} (h : (above front)[i]? = some s) :
    (∃ p, front[i]? = some p ∧ s = p.delete) ∨ ∃ p, front[i + 1]? = some p ∧ s = p.insert := by
  induction front using above.induct generalizing i with
  | case1 => simp [above] at h
  | case2 r =>
    cases i with
    | zero => exact .inl ⟨r, rfl, by simpa [above] using h.symm⟩
    | succ i => simp [above] at h
  | case3 low high front ih =>
    cases i with
    | zero =>
      obtain rfl : (if low.old < high.old then high.insert else low.delete) = s := by simpa [above] using h
      split
      · exact .inr ⟨high, rfl, rfl⟩
      · exact .inl ⟨low, rfl, rfl⟩
    | succ i => exact ih (by simpa [above] using h)

omit [DecidableEq α] in
/-- A point above a front is at least as far as both points next to it lead. -/
theorem above_further {front : List (Reach α)} {i : Nat} {p : Reach α} :
    (front[i]? = some p → ∃ s, (above front)[i]? = some s ∧ p.old + 1 ≤ s.old) ∧
      (front[i + 1]? = some p → ∃ s, (above front)[i]? = some s ∧ p.old ≤ s.old) := by
  induction front using above.induct generalizing i with
  | case1 => simp
  | case2 r =>
    cases i with
    | zero =>
      refine ⟨?_, by simp⟩
      rintro ⟨⟩
      exact ⟨p.delete, rfl, by simp⟩
    | succ i => simp
  | case3 low high front ih =>
    cases i with
    | zero =>
      simp only [above, List.getElem?_cons_zero, List.getElem?_cons_succ, Option.some.injEq, exists_eq_left']
      constructor
      · rintro rfl
        split
        · simpa
        · simp
      · rintro rfl
        split
        · simp
        · next hle => simp; omega
    | succ i => simpa [above] using ih

/-- A point of the next round comes from a point on a diagonal next to its own, by an insertion or a deletion. -/
theorem nextFront_origin {front : List (Reach α)} {i : Nat} (h : (nextFront front)[i]? = some s) :
    (∃ p, front[i]? = some p ∧ s = p.insert.slide) ∨ ∃ j p, i = j + 1 ∧ front[j]? = some p ∧ s = p.delete.slide := by
  cases front with
  | nil => simp [nextFront] at h
  | cons r front =>
    rw [nextFront, List.getElem?_map, Option.map_eq_some_iff] at h
    obtain ⟨t, ht, rfl⟩ := h
    cases i with
    | zero => exact .inl ⟨r, rfl, by rw [← Option.some.inj ht]⟩
    | succ i =>
      rcases above_origin (List.getElem?_cons_succ ▸ ht) with ⟨p, hp, rfl⟩ | ⟨p, hp, rfl⟩
      · exact .inr ⟨i, p, rfl, hp, rfl⟩
      · exact .inl ⟨p, hp, rfl⟩

theorem old_le_slide (r : Reach α) : r.old ≤ r.slide.old := by
  obtain ⟨es, common, as', bs', -, -, -, -, hslide⟩ := exists_slideFrom r.old r.new r.script r.oldRest r.newRest
  rw [slide, hslide]
  exact Nat.le_add_right _ _

/-- The points on both diagonals next to that of a point are in the next round at least as far as it leads. -/
theorem nextFront_further {front : List (Reach α)} {i : Nat} {p : Reach α} (h : front[i]? = some p) :
    (∃ s, (nextFront front)[i]? = some s ∧ p.old ≤ s.old) ∧
      ∃ s, (nextFront front)[i + 1]? = some s ∧ p.old + 1 ≤ s.old := by
  cases front with
  | nil => simp at h
  | cons r front =>
    have hslide {t : Reach α} {j n : Nat} (ht : (r.insert :: above (r :: front))[j]? = some t) (hle : n ≤ t.old) :
        ∃ s, (nextFront (r :: front))[j]? = some s ∧ n ≤ s.old :=
      ⟨t.slide, by rw [nextFront, List.getElem?_map, ht, Option.map_some], Nat.le_trans hle (old_le_slide t)⟩
    constructor
    · cases i with
      | zero =>
        obtain rfl : r = p := by simpa using h
        exact hslide List.getElem?_cons_zero (by simp)
      | succ i =>
        obtain ⟨t, ht, hle⟩ := above_further.2 h
        exact hslide (List.getElem?_cons_succ.trans ht) hle
    · obtain ⟨t, ht, hle⟩ := above_further.1 h
      exact hslide (List.getElem?_cons_succ.trans ht) hle

/-- The front of the round `d` of the search from `old` to `new`. -/
structure IsFront (old new : List α) (d : Nat) (front : List (Reach α)) : Prop where
  point : ∀ p ∈ front, IsPoint old new d p
  stopped : ∀ p ∈ front, ¬Agree p.oldRest p.newRest
  diagonal : ∀ i p, front[i]? = some p → p.old + d = p.new + 2 * i
  pastOld : ∀ p ∈ front, old.length < p.old → ∃ q ∈ front, old.length ≤ q.old ∧ p.new < q.new
  pastNew : ∀ p ∈ front, new.length < p.new → ∃ q ∈ front, new.length ≤ q.new ∧ p.old < q.old

namespace IsFront

variable {front : List (Reach α)}

theorem isPoint_start (old new : List α) :
    IsPoint old new 0 (slideFrom 0 0 [] old new) ∧ ∃ k ≤ old.length, k ≤ new.length ∧
      (slideFrom 0 0 [] old new).old = k ∧ (slideFrom 0 0 [] old new).new = k := by
  have hstart : IsPoint old new 0 ⟨0, 0, old, new, []⟩ := ⟨rfl, rfl, fun _ _ => ⟨.nil, rfl⟩⟩
  obtain ⟨k, hk, hk', hold, hnew⟩ := hstart.exists_slide
  exact ⟨hstart.slide, k, hk, hk', hold.trans (Nat.zero_add k), hnew.trans (Nat.zero_add k)⟩

theorem start (old new : List α) : IsFront old new 0 [slideFrom 0 0 [] old new] := by
  obtain ⟨hpoint, k, hk, hk', hold, hnew⟩ := isPoint_start old new
  constructor
  · simpa using hpoint
  · simp only [List.mem_singleton, forall_eq]
    exact not_agree_slide ⟨0, 0, old, new, []⟩
  · intro i p hp
    cases i with
    | zero =>
      obtain rfl := Option.some.inj hp
      omega
    | succ i => simp at hp
  · simp only [List.mem_singleton, forall_eq]
    omega
  · simp only [List.mem_singleton, forall_eq]
    omega

/-- A point of the next round, with the point of this round that it comes from. -/
theorem origin (h : IsFront old new d front) {i : Nat} (hs : (nextFront front)[i]? = some s) :
    ∃ p ∈ front, ∃ t, IsPoint old new (d + 1) t ∧ s = t.slide ∧
      (front[i]? = some p ∧ t.old = p.old ∧ t.new = p.new + 1 ∨
        ∃ j, i = j + 1 ∧ front[j]? = some p ∧ t.old = p.old + 1 ∧ t.new = p.new) := by
  rcases nextFront_origin hs with ⟨p, hp, rfl⟩ | ⟨j, p, rfl, hp, rfl⟩
  · have hmem := List.mem_of_getElem? hp
    exact ⟨p, hmem, p.insert, (h.point p hmem).insert, rfl, .inl ⟨hp, by simp, by simp⟩⟩
  · have hmem := List.mem_of_getElem? hp
    exact ⟨p, hmem, p.delete, (h.point p hmem).delete, rfl, .inr ⟨j, rfl, hp, by simp, by simp⟩⟩

theorem diagonal_next (h : IsFront old new d front) {i : Nat} (hs : (nextFront front)[i]? = some s) :
    s.old + (d + 1) = s.new + 2 * i := by
  obtain ⟨p, -, t, ht, rfl, hstep⟩ := h.origin hs
  obtain ⟨k, -, -, hold, hnew⟩ := ht.exists_slide
  rcases hstep with ⟨hp, h1, h2⟩ | ⟨j, rfl, hp, h1, h2⟩
  · have := h.diagonal _ _ hp
    omega
  · have := h.diagonal _ _ hp
    omega

/-- In the next round there is a point on the diagonal below and one on the diagonal above each point of this round,
both as far as it leads. -/
theorem further (h : IsFront old new d front) {p : Reach α} (hp : p ∈ front) :
    (∃ s ∈ nextFront front, p.old ≤ s.old ∧ s.old + (p.new + 1) = s.new + p.old) ∧
      ∃ s ∈ nextFront front, p.old + 1 ≤ s.old ∧ s.old + p.new = s.new + (p.old + 1) := by
  obtain ⟨i, hi⟩ := List.getElem?_of_mem hp
  have hdiagonal := h.diagonal i p hi
  obtain ⟨⟨s, hs, hle⟩, ⟨t, ht, hle'⟩⟩ := nextFront_further hi
  have hs' := h.diagonal_next hs
  have ht' := h.diagonal_next ht
  exact ⟨⟨s, List.mem_of_getElem? hs, hle, by omega⟩, ⟨t, List.mem_of_getElem? ht, hle', by omega⟩⟩

/-- A point beyond the end of a list has not slid. -/
theorem origin_past (h : IsFront old new d front) (hs : s ∈ nextFront front)
    (hpast : old.length < s.old ∨ new.length < s.new) :
    ∃ p ∈ front, s.old = p.old ∧ s.new = p.new + 1 ∨ s.old = p.old + 1 ∧ s.new = p.new := by
  obtain ⟨i, hi⟩ := List.getElem?_of_mem hs
  obtain ⟨p, hp, t, ht, rfl, hstep⟩ := h.origin hi
  obtain ⟨k, hk, hk', hold, hnew⟩ := ht.exists_slide
  have hzero : k = 0 := by omega
  refine ⟨p, hp, ?_⟩
  rcases hstep with ⟨-, h1, h2⟩ | ⟨j, -, -, h1, h2⟩ <;> omega

theorem next (h : IsFront old new d front) : IsFront old new (d + 1) (nextFront front) where
  point := by
    intro s hs
    obtain ⟨i, hi⟩ := List.getElem?_of_mem hs
    obtain ⟨p, -, t, ht, rfl, -⟩ := h.origin hi
    exact ht.slide
  stopped := by
    intro s hs
    obtain ⟨i, hi⟩ := List.getElem?_of_mem hs
    obtain ⟨p, -, t, -, rfl, -⟩ := h.origin hi
    exact not_agree_slide t
  diagonal := fun _ _ hs => h.diagonal_next hs
  pastOld := by
    intro s hs hpast
    obtain ⟨p, hp, ⟨hold, hnew⟩ | ⟨hold, hnew⟩⟩ := h.origin_past hs (.inl hpast)
    · obtain ⟨q, hq, hqold, hqnew⟩ := h.pastOld p hp (by omega)
      obtain ⟨⟨u, hu, huold, hunew⟩, -⟩ := h.further hq
      exact ⟨u, hu, by omega, by omega⟩
    · obtain ⟨⟨u, hu, huold, hunew⟩, -⟩ := h.further hp
      exact ⟨u, hu, by omega, by omega⟩
  pastNew := by
    intro s hs hpast
    obtain ⟨p, hp, ⟨hold, hnew⟩ | ⟨hold, hnew⟩⟩ := h.origin_past hs (.inr hpast)
    · obtain ⟨-, u, hu, huold, hunew⟩ := h.further hp
      exact ⟨u, hu, by omega, by omega⟩
    · obtain ⟨q, hq, hqnew, hqold⟩ := h.pastNew p hp (by omega)
      obtain ⟨-, u, hu, huold, hunew⟩ := h.further hq
      exact ⟨u, hu, by omega, by omega⟩

/-- No point of a round is at the end or beyond it. -/
def Endless (front : List (Reach α)) : Prop := ∀ p ∈ front, p.isEnd = false

/-- All ends of a front are the end of both lists. -/
def EndsExactly (old new : List α) (front : List (Reach α)) : Prop :=
  ∀ p ∈ front, p.isEnd = true → p.old = old.length ∧ p.new = new.length

theorem endsExactly_start (old new : List α) : EndsExactly old new [slideFrom 0 0 [] old new] := by
  obtain ⟨hpoint, k, hk, hk', hold, hnew⟩ := isPoint_start old new
  intro p hp hend
  obtain rfl := List.mem_singleton.1 hp
  have := hpoint.isEnd_iff.1 hend
  omega

/-- The ends of the first round that has any do not lie beyond the end of a list: otherwise a point of the round before
would have been an end. -/
theorem endsExactly_next (h : IsFront old new d front) (hendless : Endless front) :
    EndsExactly old new (nextFront front) := by
  intro s hs hend
  obtain ⟨hold, hnew⟩ := (h.next.point s hs).isEnd_iff.1 hend
  have hshort (p) (hp : p ∈ front) : ¬(old.length ≤ p.old ∧ new.length ≤ p.new) := by
    rw [← (h.point p hp).isEnd_iff, hendless p hp]
    exact Bool.false_ne_true
  constructor
  · by_contra hne
    obtain ⟨p, hp, ⟨h1, h2⟩ | ⟨h1, h2⟩⟩ := h.origin_past hs (.inl (by omega))
    · obtain ⟨q, hq, hqold, hqnew⟩ := h.pastOld p hp (by omega)
      exact hshort q hq (by omega)
    · exact hshort p hp (by omega)
  · by_contra hne
    obtain ⟨p, hp, ⟨h1, h2⟩ | ⟨h1, h2⟩⟩ := h.origin_past hs (.inr (by omega))
    · exact hshort p hp (by omega)
    · obtain ⟨q, hq, hqnew, hqold⟩ := h.pastNew p hp (by omega)
      exact hshort q hq (by omega)

/-- A script that starts in front of a point of a round, on its diagonal, cannot get ahead of the search: after as many
rounds as it has changes there is an end. -/
theorem exists_isEnd (h : IsFront old new d front) {es : List (Edit α)} {as bs : List α} {i j : Nat} {p : Reach α}
    (hleads : Edit.Leads i j es as bs) (has : as = old.drop i) (hbs : bs = new.drop j) (hp : p ∈ front)
    (hi : i ≤ old.length) (hj : j ≤ new.length) (hle : i ≤ p.old) (hdiagonal : i + p.new = j + p.old) :
    ∃ q ∈ nextFront^[Edit.cost es] front, q.isEnd = true := by
  induction hleads generalizing front d p with
  | nil =>
    refine ⟨p, hp, (h.point p hp).isEnd_iff.2 ?_⟩
    have := List.drop_eq_nil_iff.1 has.symm
    have := List.drop_eq_nil_iff.1 hbs.symm
    omega
  | @keep i j a es as bs rest ih =>
    obtain ⟨hlt, -, has'⟩ := exists_of_drop_eq_cons has.symm
    obtain ⟨hlt', -, hbs'⟩ := exists_of_drop_eq_cons hbs.symm
    have hahead : i + 1 ≤ p.old := by
      by_contra hnot
      have hold : p.old = i := by omega
      have hnew : p.new = j := by omega
      refine h.stopped p hp ⟨a, as, bs, ?_, ?_⟩
      · rw [(h.point p hp).oldRest_eq, hold, has]
      · rw [(h.point p hp).newRest_eq, hnew, hbs]
    exact ih h has' hbs' hp hlt hlt' hahead (by omega)
  | delete rest ih =>
    obtain ⟨hlt, -, has'⟩ := exists_of_drop_eq_cons has.symm
    obtain ⟨-, s, hs, hold, hnew⟩ := h.further hp
    rw [Edit.cost_cons, if_neg (by simp), Function.iterate_succ_apply]
    exact ih h.next has' hbs hs hlt hj (by omega) (by omega)
  | insert rest ih =>
    obtain ⟨hlt, -, hbs'⟩ := exists_of_drop_eq_cons hbs.symm
    obtain ⟨⟨s, hs, hold, hnew⟩, -⟩ := h.further hp
    rw [Edit.cost_cons, if_neg (by simp), Function.iterate_succ_apply]
    exact ih h.next has hbs' hs hi hlt (by omega) (by omega)

/-- The search finds the first end, if there is one in the rounds that are left, and its script. -/
theorem leads_search (h : IsFront old new d front) (hexact : EndsExactly old new front) {rounds k : Nat}
    (hk : k ≤ rounds) (hend : ∃ q ∈ nextFront^[k] front, q.isEnd = true) :
    Edit.Leads 0 0 (search rounds front) old new ∧ Edit.cost (search rounds front) ≤ d + k := by
  fun_induction search rounds front generalizing d k with
  | case1 rounds front r hfind =>
    have hr := List.mem_of_find?_eq_some hfind
    obtain ⟨hold, hnew⟩ := hexact r hr (List.find?_some hfind)
    obtain ⟨hleads, hcost⟩ := (h.point r hr).leads (Nat.le_of_eq hold) (Nat.le_of_eq hnew)
    rw [hold, hnew, List.take_length, List.take_length] at hleads
    exact ⟨hleads, by rw [Edit.cost_reverse, hcost]; exact Nat.le_add_right _ _⟩
  | case2 front hfind =>
    obtain rfl : k = 0 := Nat.le_zero.1 hk
    obtain ⟨q, hq, hq'⟩ := hend
    exact absurd hq' (by simpa using List.find?_eq_none.1 hfind q hq)
  | case3 front hfind rounds ih =>
    have hendless : Endless front := fun p hp => by simpa using List.find?_eq_none.1 hfind p hp
    cases k with
    | zero =>
      obtain ⟨q, hq, hq'⟩ := hend
      exact absurd hq' (by simpa using hendless q hq)
    | succ k =>
      have hrest := ih h.next (h.endsExactly_next hendless) (Nat.le_of_succ_le_succ hk) hend
      exact ⟨hrest.1, by omega⟩

end IsFront

end Reach

namespace Edit

variable [DecidableEq α]

/-- After as many rounds as a script has changes the search has reached an end. -/
theorem leads_script_of_leads {old new : List α} {es : List (Edit α)} (h : Leads 0 0 es old new)
    (hcost : cost es ≤ old.length + new.length) :
    Leads 0 0 (script old new) old new ∧ cost (script old new) ≤ cost es := by
  obtain ⟨-, k, -, -, hold, hnew⟩ := Reach.IsFront.isPoint_start old new
  have hend := (Reach.IsFront.start old new).exists_isEnd h List.drop_zero.symm List.drop_zero.symm
    (List.mem_singleton_self _) (Nat.zero_le _) (Nat.zero_le _) (Nat.zero_le _) (by omega)
  have hfound := (Reach.IsFront.start old new).leads_search (Reach.IsFront.endsExactly_start old new) hcost hend
  rwa [Nat.zero_add] at hfound

/-- The script that is found leads from the old list to the new one. -/
theorem leads_script (old new : List α) : Leads 0 0 (script old new) old new := by
  obtain ⟨es, hes, hlength⟩ := exists_leads 0 0 old new
  exact (leads_script_of_leads hes (hlength ▸ List.countP_le_length)).1

/-- No script from the old list to the new one has fewer changes than the one that is found. -/
theorem cost_script_le {old new : List α} {es : List (Edit α)} (h : Leads 0 0 es old new) :
    cost (script old new) ≤ cost es := by
  by_cases hcost : cost es ≤ old.length + new.length
  · exact (leads_script_of_leads h hcost).2
  · obtain ⟨fs, hfs, hlength⟩ := exists_leads 0 0 old new
    have hle : cost fs ≤ old.length + new.length := hlength ▸ List.countP_le_length
    have := (leads_script_of_leads hfs hle).2
    omega

end Edit

end Interpolation

import Interpolation.Diff.Table
import Interpolation.Proofs.Diff.Search

/-!
# The search with a table stays in bounds

* `Table.Holds` — the table has the points of a front;
* `Table.exists_round?` — a round reads nothing but these, and leaves the points of the next front;
* `Table.WalksBack` — from every point of a front the way back ends at the start and yields the script of the point;
* `Table.Ready` — what the search knows in front of a round, with `Ready.first` and `Ready.next`;
* `Table.find?_eq` — the search finds what `Edit.script` does, and nothing on the way fails.
-/

namespace Interpolation

/-! ## Entries at signed places -/

section Places

variable {α : Type} {l : List α}

@[simp]
theorem at?_natCast (l : List α) (n : Nat) : at? l (n : Int) = l[n]? := rfl

theorem exists_put? {i : Int} (hi : 0 ≤ i) (hlt : i < l.length) (x : α) :
    ∃ l', put? l i x = some l' ∧ l'.length = l.length ∧ at? l' i = some x ∧ ∀ j, j ≠ i → at? l' j = at? l j := by
  obtain ⟨n, rfl⟩ := Int.eq_ofNat_of_zero_le hi
  have hn : n < l.length := by omega
  refine ⟨l.set n x, ?_, List.length_set, ?_, fun j hj => ?_⟩
  · show (if n < l.length then some (l.set n x) else none) = _
    rw [if_pos hn]
  · rw [at?_natCast, List.getElem?_set_self hn]
  · cases j with
    | ofNat m =>
      show (l.set n x)[m]? = l[m]?
      exact List.getElem?_set_ne fun h => hj (by rw [h]; rfl)
    | negSucc m => rfl

theorem exists_part? {i j : Int} (hi : 0 ≤ i) (hij : i ≤ j + 1) (hlt : j < l.length) (hj : 0 ≤ j) :
    ∃ p, part? l i j = some p ∧ ∀ k, i ≤ k → k ≤ j → at? p (k - i) = at? l k := by
  obtain ⟨n, rfl⟩ := Int.eq_ofNat_of_zero_le hi
  obtain ⟨m, rfl⟩ := Int.eq_ofNat_of_zero_le hj
  refine ⟨(l.drop n).take (m + 1 - n), ?_, fun k hk hk' => ?_⟩
  · show (if n ≤ m + 1 ∧ m < l.length then some ((l.drop n).take (m + 1 - n)) else none) = _
    rw [if_pos ⟨by omega, by omega⟩]
  · obtain ⟨k, rfl⟩ := Int.eq_ofNat_of_zero_le (Int.le_trans hi hk)
    have hsub : (k : Int) - n = ((k - n : Nat) : Int) := by omega
    rw [hsub, at?_natCast, at?_natCast, List.getElem?_take_of_lt (by omega), List.getElem?_drop,
      Nat.add_sub_cancel' (by omega)]

end Places

namespace Table

open Reach (IsPoint IsFront above nextFront)
open Reach.IsFront (Endless EndsExactly)

variable {α : Type} {old new : List α} {table : List Int} {shift : Int} {d : Nat}

/-- How many more old than new lines a point has in front of it. -/
def diagonal (p : Reach α) : Int := p.old - p.new

/-- The table has the points of a front at the places of their diagonals. -/
def Holds (table : List Int) (shift : Int) (front : List (Reach α)) : Prop :=
  ∀ p ∈ front, at? table (diagonal p + shift) = some (p.old : Int)

theorem start?_congr {table' : List Int} {d k : Int} (hlow : at? table' (k - 1 + shift) = at? table (k - 1 + shift))
    (hhigh : at? table' (k + 1 + shift) = at? table (k + 1 + shift)) :
    start? table' shift d k = start? table shift d k := by
  simp only [start?, comesFromAbove?, hlow, hhigh]

/-! ## Where the points of a round come from -/

/-- The points of the next round, before they slide. -/
def starts : List (Reach α) → List (Reach α)
  | [] => []
  | r :: front => r.insert :: above (r :: front)

theorem nextFront_eq [DecidableEq α] (front : List (Reach α)) : nextFront front = (starts front).map Reach.slide := by
  cases front <;> rfl

theorem getElem?_above (front : List (Reach α)) (i : Nat) :
    (above front)[i]? = front[i]?.map fun low =>
      front[i + 1]?.elim low.delete fun high => if low.old < high.old then high.insert else low.delete := by
  fun_induction above front generalizing i with
  | case1 => rfl
  | case2 r => cases i <;> rfl
  | case3 low high front ih =>
    cases i with
    | zero => rfl
    | succ i => exact ih i

theorem length_starts {front : List (Reach α)} (h : front ≠ []) : (starts front).length = front.length + 1 := by
  have hlength (front : List (Reach α)) : (above front).length = front.length := by
    fun_induction above front with
    | case1 => rfl
    | case2 r => rfl
    | case3 low high front ih => simpa [above] using ih
  cases front with
  | nil => exact absurd rfl h
  | cons r front => rw [starts, List.length_cons, hlength]

variable {front : List (Reach α)}

/-- Every point of the next round comes from a point of this round that the table tells. -/
theorem exists_origin (h : IsFront old new d front) (hlength : front.length = d + 1) (holds : Holds table shift front)
    {i : Nat} {t : Reach α} (ht : (starts front)[i]? = some t) :
    diagonal t = 2 * i - (d + 1) ∧ ∃ p ∈ front,
      (t = p.insert ∧ diagonal p = diagonal t + 1 ∧ comesFromAbove? table shift (d + 1) (diagonal t) = some true) ∨
      (t = p.delete ∧ diagonal p = diagonal t - 1 ∧ comesFromAbove? table shift (d + 1) (diagonal t) = some false) := by
  have hdiagonal {j : Nat} {p : Reach α} (hp : front[j]? = some p) : diagonal p = 2 * j - d := by
    have := h.diagonal j p hp
    unfold diagonal
    omega
  have hinsert (p : Reach α) : diagonal p.insert = diagonal p - 1 := by
    simp only [diagonal, Reach.insert_old, Reach.insert_new]
    omega
  have hdelete (p : Reach α) : diagonal p.delete = diagonal p + 1 := by
    simp only [diagonal, Reach.delete_old, Reach.delete_new]
    omega
  cases front with
  | nil => simp [starts] at ht
  | cons r front =>
    cases i with
    | zero =>
      obtain rfl : r.insert = t := by simpa [starts] using ht
      have hr := hdiagonal (j := 0) (p := r) rfl
      have hk : diagonal r.insert = -(d + 1) := by rw [hinsert, hr]; omega
      refine ⟨by omega, r, List.mem_cons_self, .inl ⟨rfl, by rw [hinsert]; omega, ?_⟩⟩
      rw [comesFromAbove?, if_pos hk]
    | succ i =>
      rw [starts, List.getElem?_cons_succ, getElem?_above, Option.map_eq_some_iff] at ht
      obtain ⟨low, hlow, rfl⟩ := ht
      have hlt := (List.getElem?_eq_some_iff.1 hlow).1
      have hlowdiagonal := hdiagonal hlow
      cases hhigh : (r :: front)[i + 1]? with
      | none =>
        have hi : i = d := by
          have := List.getElem?_eq_none_iff.1 hhigh
          omega
        have hk : diagonal low.delete = d + 1 := by rw [hdelete, hlowdiagonal]; omega
        refine ⟨by simp only [Option.elim_none]; omega, low, List.mem_of_getElem? hlow,
          .inr ⟨rfl, by simp only [Option.elim_none, hdelete]; omega, ?_⟩⟩
        rw [Option.elim_none, comesFromAbove?, if_neg (by omega), if_pos hk]
      | some high =>
        have hlt' := (List.getElem?_eq_some_iff.1 hhigh).1
        have hhighdiagonal := hdiagonal hhigh
        have hlowentry := holds low (List.mem_of_getElem? hlow)
        have hhighentry := holds high (List.mem_of_getElem? hhigh)
        -- The diagonal lies between two of this round, and the table has the points of both.
        have hbetween {k : Int} (hk : k = 2 * i + 1 - d) :
            comesFromAbove? table shift (d + 1) k = some (decide (low.old < high.old)) := by
          rw [comesFromAbove?, if_neg (by omega), if_neg (by omega),
            show k - 1 + shift = diagonal low + shift by omega, show k + 1 + shift = diagonal high + shift by omega,
            hlowentry, hhighentry]
          simp
        simp only [Option.elim_some]
        split
        · next hfurther =>
          have hk : diagonal high.insert = 2 * i + 1 - d := by rw [hinsert, hhighdiagonal]; omega
          refine ⟨by omega, high, List.mem_of_getElem? hhigh, .inl ⟨rfl, by omega, ?_⟩⟩
          rw [hbetween hk, decide_eq_true hfurther]
        · next hfurther =>
          have hk : diagonal low.delete = 2 * i + 1 - d := by rw [hdelete, hlowdiagonal]; omega
          refine ⟨by omega, low, List.mem_of_getElem? hlow, .inr ⟨rfl, by omega, ?_⟩⟩
          rw [hbetween hk, decide_eq_false hfurther]

/-- The first point of a diagonal of the next round is read off the table. -/
theorem start?_eq (h : IsFront old new d front) (hlength : front.length = d + 1) (holds : Holds table shift front)
    {i : Nat} {t : Reach α} (ht : (starts front)[i]? = some t) :
    start? table shift (d + 1) (diagonal t) = some (t.old : Int) := by
  obtain ⟨-, p, hp, ⟨rfl, hdiagonal, habove⟩ | ⟨rfl, hdiagonal, habove⟩⟩ := exists_origin h hlength holds ht
  · simp [start?, habove, ← hdiagonal, holds p hp]
  · simp [start?, habove, ← hdiagonal, holds p hp]

/-! ## One round -/

variable [DecidableEq α]

/-- A slide in the table is that of the point. -/
theorem slide?_eq {r : Reach α} (hold : r.oldRest = old.drop r.old) (hnew : r.newRest = new.drop r.new) :
    slide? old new r.old r.new = some ((r.slide.old : Int), (r.slide.new : Int)) := by
  obtain ⟨i, j, as, bs, script⟩ := r
  simp only [Reach.slide] at hold hnew ⊢
  fun_induction Reach.slideFrom i j script as bs with
  | case1 i j script as a bs ih =>
    obtain ⟨hi, hget, has⟩ := Reach.exists_of_drop_eq_cons hold.symm
    obtain ⟨hj, hget', hbs⟩ := Reach.exists_of_drop_eq_cons hnew.symm
    rw [slide?, if_pos ⟨by omega, by omega⟩]
    simpa [hget, hget'] using ih has hbs
  | case2 i j script a as b bs hne =>
    obtain ⟨hi, hget, -⟩ := Reach.exists_of_drop_eq_cons hold.symm
    obtain ⟨hj, hget', -⟩ := Reach.exists_of_drop_eq_cons hnew.symm
    rw [slide?, if_pos ⟨by omega, by omega⟩]
    simp [hget, hget', hne]
  | case3 i j script as bs hstop =>
    rw [slide?, if_neg]
    rintro ⟨hi, hj⟩
    have hi : i < old.length := by omega
    have hj : j < new.length := by omega
    exact hstop _ _ _ _ (hold.trans (List.drop_eq_getElem_cons hi)) (hnew.trans (List.drop_eq_getElem_cons hj))

/-- A round from the diagonal `k` on goes through the points of its diagonals and leaves them in the table. It changes
nothing below. -/
theorem exists_round? {starts : List (Reach α)} {n : Nat} {d k : Int} (hpoint : ∀ t ∈ starts, IsPoint old new n t)
    (hdiagonal : ∀ (i : Nat) t, starts[i]? = some t → diagonal t = k + 2 * i)
    (hstart : ∀ t ∈ starts, start? table shift d (diagonal t) = some (t.old : Int))
    (hlength : k + 2 * starts.length = d + 2) (hlow : 0 ≤ k + shift) (hhigh : d + shift < table.length) :
    ∃ table', round? old new shift d k table = some (table', (starts.map Reach.slide).any Reach.isEnd) ∧
      table'.length = table.length ∧ (∀ j < k + shift, at? table' j = at? table j) ∧
      (Endless (starts.map Reach.slide) → Holds table' shift (starts.map Reach.slide)) := by
  induction starts generalizing k table with
  | nil =>
    refine ⟨table, ?_, rfl, fun _ _ => rfl, fun _ => by simp [Holds]⟩
    rw [round?, if_neg (by simp at hlength; omega)]
    rfl
  | cons t starts ih =>
    simp only [List.length_cons] at hlength
    have hpt := hpoint t List.mem_cons_self
    have hk : diagonal t = k := by simpa using hdiagonal 0 t rfl
    have hsame : diagonal t.slide = k := by
      obtain ⟨m, -, -, hold, hnew⟩ := hpt.exists_slide
      unfold diagonal at hk ⊢
      omega
    obtain ⟨table₁, hput, hlength₁, hentry, hother⟩ :=
      exists_put? (l := table) hlow (by omega) (t.slide.old : Int)
    have hround : round? old new shift d k table =
        if t.slide.isEnd then some (table₁, true) else round? old new shift d (k + 2) table₁ := by
      have hnew : (t.old : Int) - k = t.new := by unfold diagonal at hk; omega
      have hstart := hstart t List.mem_cons_self
      rw [hk] at hstart
      rw [round?, if_pos (by omega), hstart]
      simp only [Option.bind_eq_bind, Option.bind_some, hnew, slide?_eq hpt.oldRest_eq hpt.newRest_eq, hput, hpt.slide.isEnd_iff,
        Int.ofNat_le]
    cases hend : t.slide.isEnd with
    | true =>
      refine ⟨table₁, by simp [hround, hend], hlength₁, fun j hj => hother j (by omega), fun hendless => ?_⟩
      have := hendless t.slide (by simp)
      simp [this] at hend
    | false =>
      have hrest : ∀ (i : Nat) u, starts[i]? = some u → diagonal u = k + 2 + 2 * i := fun i u hu => by
        have := hdiagonal (i + 1) u hu
        omega
      -- What is read above was not touched.
      have hread : ∀ u ∈ starts, start? table₁ shift d (diagonal u) = some (u.old : Int) := by
        intro u hu
        obtain ⟨i, hi⟩ := List.getElem?_of_mem hu
        have := hrest i u hi
        rw [start?_congr (hother _ (by omega)) (hother _ (by omega)), hstart u (List.mem_cons_of_mem t hu)]
      obtain ⟨table', hround', hlength', hbelow, hholds⟩ :=
        ih (fun u hu => hpoint u (List.mem_cons_of_mem t hu)) hrest hread (by omega) (by omega) (by omega)
      refine ⟨table', by simp [hround, hend, hround'], hlength'.trans hlength₁, fun j hj => ?_, fun hendless => ?_⟩
      · rw [hbelow j (by omega), hother j (by omega)]
      · refine List.forall_mem_cons.2 ⟨?_, hholds fun p hp => hendless p (List.mem_cons_of_mem _ hp)⟩
        rw [hsame, hbelow _ (by omega), hentry]

/-! ## The way back -/

/-- The lines of a script, without their texts. -/
def steps (es : List (Edit α)) : List Step := es.map fun e => (e.op, e.old, e.new)

/-- The next `n` lines behind `i` old and `j` new ones, all of them kept. -/
def keeps (i j n : Nat) : List Step := (List.range n).map fun m => (.keep, i + m, j + m)

omit [DecidableEq α] in
@[simp]
theorem steps_append (es fs : List (Edit α)) : steps (es ++ fs) = steps es ++ steps fs := List.map_append

@[simp]
theorem step?_natCast (op : EditOp) (i j : Nat) : step? op i j = some (op, i, j) := rfl

theorem slideBack?_eq {x y : Int} {i j : Nat} (hx : x ≤ i) (hy : y ≤ j) (hstop : x = i ∨ y = j) (n : Nat)
    (script : List Step) :
    slideBack? x y (i + n : Nat) (j + n : Nat) script = some ((i : Int), (j : Int), keeps i j n ++ script) := by
  induction n generalizing script with
  | zero =>
    rw [slideBack?, if_neg (by omega)]
    rfl
  | succ n ih =>
    have hi : ((i + (n + 1) : Nat) : Int) - 1 = (i + n : Nat) := by omega
    have hj : ((j + (n + 1) : Nat) : Int) - 1 = (j + n : Nat) := by omega
    rw [slideBack?, if_pos (by omega), hi, hj, step?_natCast]
    simp only [Option.bind_eq_bind, Option.bind_some, ih, keeps, List.range_succ, List.map_append, List.map_cons,
      List.map_nil, List.append_assoc, List.singleton_append]

/-- A slide adds kept lines to the script of a point. -/
theorem exists_slide (r : Reach α) : ∃ n, r.slide.old = r.old + n ∧ r.slide.new = r.new + n ∧
    steps r.slide.script.reverse = steps r.script.reverse ++ keeps r.old r.new n := by
  obtain ⟨i, j, as, bs, script⟩ := r
  simp only [Reach.slide]
  fun_induction Reach.slideFrom i j script as bs with
  | case1 i j script as a bs ih =>
    obtain ⟨n, hold, hnew, hsteps⟩ := ih
    refine ⟨n + 1, by rw [hold]; omega, by rw [hnew]; omega, ?_⟩
    rw [hsteps, List.reverse_cons, steps_append, List.append_assoc]
    simp [keeps, steps, List.range_succ_eq_map, Nat.add_assoc, Nat.add_comm 1, Function.comp_def]
  | case2 | case3 => exact ⟨0, rfl, rfl, (List.append_nil _).symm⟩

omit [DecidableEq α] in
theorem steps_insert {p : Reach α} (h : IsPoint old new d p) (hnew : p.new < new.length) :
    steps p.insert.script.reverse = steps p.script.reverse ++ [(.insert, p.old, p.new)] := by
  unfold Reach.insert
  split
  · next hrest =>
    rw [h.newRest_eq, List.drop_eq_nil_iff] at hrest
    omega
  · simp [steps]

omit [DecidableEq α] in
theorem steps_delete {p : Reach α} (h : IsPoint old new d p) (hold : p.old < old.length) :
    steps p.delete.script.reverse = steps p.script.reverse ++ [(.delete, p.old, p.new)] := by
  unfold Reach.delete
  split
  · next hrest =>
    rw [h.oldRest_eq, List.drop_eq_nil_iff] at hrest
    omega
  · simp [steps]

section Walk

variable {part : List Int} {trace : List (List Int)} {i j n : Nat}

/-- Back over kept lines to the start. -/
theorem walk?_first (part : List Int) (n : Nat) (script : List Step) :
    walk? [part] n n script = some (0, 0, keeps 0 0 n ++ script) := by
  have hback := slideBack?_eq (x := 0) (y := -1) (i := 0) (j := 0) (Int.le_refl _) (by omega) (.inl rfl) n script
  rw [Nat.zero_add] at hback
  rw [walk?]
  simp only [List.length_nil, Int.natCast_zero, Int.sub_self, comesFromAbove?, Int.neg_zero, if_true, Option.bind_eq_bind,
    Option.bind_some, Int.zero_add, Int.zero_sub, hback]
  rfl

/-- Back over kept lines and over an inserted one. -/
theorem walk?_insert (htrace : trace.length = d + 1)
    (habove : comesFromAbove? part (d + 1) (d + 1) (i - (j + 1)) = some true)
    (hentry : at? part (i - j + (d + 1)) = some (i : Int)) (script : List Step) :
    walk? (part :: trace) (i + n : Nat) (j + 1 + n : Nat) script =
      walk? trace i j ((.insert, i, j) :: (keeps i (j + 1) n ++ script)) := by
  have hslide := slideBack?_eq (x := i) (y := j) (i := i) (j := j + 1) (Int.le_refl _) (by omega) (.inl rfl) n script
  have hk : ((i + n : Nat) : Int) - (j + 1 + n : Nat) = i - (j + 1) := by omega
  have hk' : (i : Int) - (j + 1) + 1 = i - j := by omega
  have hy : (i : Int) - (i - j) = j := by omega
  have hj : ((j + 1 : Nat) : Int) - 1 = j := by omega
  rw [walk?, htrace, hk, show ((d + 1 : Nat) : Int) = d + 1 from rfl, habove]
  simp only [Option.bind_eq_bind, Option.bind_some, if_true, hk', hentry, hy, hslide, hj, step?_natCast,
    if_neg (show ¬(d : Int) + 1 = 0 by omega)]

/-- Back over kept lines and over a deleted one. -/
theorem walk?_delete (htrace : trace.length = d + 1)
    (habove : comesFromAbove? part (d + 1) (d + 1) (i + 1 - j) = some false)
    (hentry : at? part (i - j + (d + 1)) = some (i : Int)) (script : List Step) :
    walk? (part :: trace) (i + 1 + n : Nat) (j + n : Nat) script =
      walk? trace i j ((.delete, i, j) :: (keeps (i + 1) j n ++ script)) := by
  have hslide := slideBack?_eq (x := i) (y := j) (i := i + 1) (j := j) (by omega) (Int.le_refl _) (.inr rfl) n script
  have hk : ((i + 1 + n : Nat) : Int) - (j + n : Nat) = i + 1 - j := by omega
  have hk' : (i : Int) + 1 - j - 1 = i - j := by omega
  have hy : (i : Int) - (i - j) = j := by omega
  have hi : ((i + 1 : Nat) : Int) - 1 = i := by omega
  rw [walk?, htrace, hk, show ((d + 1 : Nat) : Int) = d + 1 from rfl, habove]
  simp only [Option.bind_eq_bind, Option.bind_some, Bool.false_eq_true, if_false, hk', hentry, hy, hslide, hi, step?_natCast,
    if_neg (show ¬(d : Int) + 1 = 0 by omega), if_neg (show ¬((i + 1 : Nat) : Int) = i by omega)]

end Walk

/-- From every point of a front within both lists the way back leads to the start, by the script of the point. -/
def WalksBack (old new : List α) (trace : List (List Int)) (front : List (Reach α)) : Prop :=
  ∀ p ∈ front, p.old ≤ old.length → p.new ≤ new.length → ∀ script,
    walk? trace p.old p.new script = some (0, 0, steps p.script.reverse ++ script)

theorem walksBack_first (old new : List α) (part : List Int) :
    WalksBack old new [part] [Reach.slideFrom 0 0 [] old new] := by
  intro p hp _ _ script
  obtain rfl := List.mem_singleton.1 hp
  obtain ⟨n, hold, hnew, hsteps⟩ := exists_slide (⟨0, 0, old, new, []⟩ : Reach α)
  simp only [Reach.slide, Nat.zero_add] at hold hnew hsteps
  rw [hold, hnew, hsteps, walk?_first]
  rfl

/-- If the way back leads to the start from all points of a front, it does so from all points of the next front: the part
that was put aside in between tells from which point each of them comes. -/
theorem WalksBack.next {front : List (Reach α)} {trace : List (List Int)} {part : List Int} (h : IsFront old new d front)
    (hlength : front.length = d + 1) (htrace : trace.length = d + 1) (holds : Holds part (d + 1) front)
    (hback : WalksBack old new trace front) : WalksBack old new (part :: trace) (nextFront front) := by
  intro s hs hsold hsnew script
  rw [nextFront_eq] at hs
  obtain ⟨t, ht, rfl⟩ := List.mem_map.1 hs
  obtain ⟨i, hi⟩ := List.getElem?_of_mem ht
  obtain ⟨-, p, hp, horigin⟩ := exists_origin h hlength holds hi
  obtain ⟨n, hold, hnew, hsteps⟩ := exists_slide t
  have hpoint := h.point p hp
  have hentry := holds p hp
  rcases horigin with ⟨rfl, -, habove⟩ | ⟨rfl, -, habove⟩
  · simp only [diagonal, Reach.insert_old, Reach.insert_new] at hold hnew hsteps habove
    rw [hold, hnew, walk?_insert htrace habove hentry, hback p hp (by omega) (by omega), hsteps,
      steps_insert hpoint (by omega)]
    simp
  · simp only [diagonal, Reach.delete_old, Reach.delete_new] at hold hnew hsteps habove
    rw [hold, hnew, walk?_delete htrace habove hentry, hback p hp (by omega) (by omega), hsteps,
      steps_delete hpoint (by omega)]
    simp

/-! ## All rounds -/

/-- What the search knows in front of the round `d`: the points of the round before they slide, which the table tells,
and that the way back leads to the start from wherever they slide to. -/
structure Ready (old new : List α) (shift : Int) (d : Nat) (table : List Int) (trace : List (List Int))
    (starts : List (Reach α)) : Prop where
  point : ∀ t ∈ starts, IsPoint old new d t
  length : starts.length = d + 1
  diagonal : ∀ (i : Nat) t, starts[i]? = some t → diagonal t = 2 * i - d
  start : ∀ t ∈ starts, start? table shift d (Table.diagonal t) = some (t.old : Int)
  front : IsFront old new d (starts.map Reach.slide)
  exact : EndsExactly old new (starts.map Reach.slide)
  trace_length : trace.length = d
  back : ∀ part, part? table (shift - d) (shift + d) = some part →
    WalksBack old new (part :: trace) (starts.map Reach.slide)

/-- The search begins with the point in front of both lists, which a table of zeros tells. -/
theorem Ready.first (old new : List α) (hshift : 0 ≤ shift + 1) (hlength : shift + 1 < table.length)
    (hzero : ∀ x ∈ table, x = 0) : Ready old new shift 0 table [] [⟨0, 0, old, new, []⟩] where
  point := by
    simp only [List.mem_singleton, forall_eq]
    exact ⟨rfl, rfl, fun _ _ => ⟨.nil, rfl⟩⟩
  length := rfl
  diagonal := by
    intro i t ht
    cases i with
    | zero => rw [← Option.some.inj ht]; rfl
    | succ i => simp at ht
  start := by
    simp only [List.mem_singleton, forall_eq]
    obtain ⟨n, hn⟩ := Int.eq_ofNat_of_zero_le hshift
    have hlt : n < table.length := by omega
    have hentry : at? table (1 + shift) = some 0 := by
      rw [show 1 + shift = n by omega, at?_natCast, List.getElem?_eq_getElem hlt,
        hzero _ (List.getElem_mem hlt)]
    have hdiagonal : Table.diagonal (⟨0, 0, old, new, []⟩ : Reach α) = 0 := rfl
    simp [start?, comesFromAbove?, hdiagonal, hentry]
  front := IsFront.start old new
  exact := IsFront.endsExactly_start old new
  trace_length := rfl
  back := fun part _ => walksBack_first old new part

namespace Ready

variable {trace : List (List Int)} {ts : List (Reach α)}

/-- The round finds an end exactly if there is one, and if not the search is ready for the next round. -/
theorem next (h : Ready old new shift d table trace ts) (hlow : d < shift) (hhigh : d + 1 + shift < table.length) :
    ∃ part table', part? table (shift - d) (shift + d) = some part ∧
      round? old new shift d (-d) table = some (table', (ts.map Reach.slide).any Reach.isEnd) ∧
      table'.length = table.length ∧
      (Endless (ts.map Reach.slide) →
        Ready old new shift (d + 1) table' (part :: trace) (starts (ts.map Reach.slide))) := by
  have hfrontlength : (ts.map Reach.slide).length = d + 1 := by rw [List.length_map, h.length]
  obtain ⟨part, hpart, -⟩ := exists_part? (l := table) (i := shift - d) (j := shift + d) (by omega) (by omega) (by omega)
    (by omega)
  obtain ⟨table', hround, hlength, -, hholds⟩ := exists_round? (k := -(d : Int)) h.point
    (fun i t ht => by rw [h.diagonal i t ht]; omega) h.start (by rw [h.length]; omega) (by omega) (by omega)
  refine ⟨part, table', hpart, hround, hlength, fun hendless => ?_⟩
  have hholds := hholds hendless
  constructor
  case point =>
    intro t ht
    obtain ⟨i, hi⟩ := List.getElem?_of_mem ht
    obtain ⟨-, p, hp, ⟨rfl, -⟩ | ⟨rfl, -⟩⟩ := exists_origin h.front hfrontlength hholds hi
    · exact (h.front.point p hp).insert
    · exact (h.front.point p hp).delete
  case length => rw [length_starts (List.ne_nil_of_length_eq_add_one hfrontlength), hfrontlength]
  case diagonal => exact fun i t ht => (exists_origin h.front hfrontlength hholds ht).1
  case start =>
    intro t ht
    obtain ⟨i, hi⟩ := List.getElem?_of_mem ht
    exact start?_eq h.front hfrontlength hholds hi
  case front =>
    rw [← nextFront_eq]
    exact h.front.next
  case exact =>
    rw [← nextFront_eq]
    exact h.front.endsExactly_next hendless
  case trace_length => rw [List.length_cons, h.trace_length]
  case back =>
    intro part' hpart'
    rw [← nextFront_eq]
    refine (h.back part hpart).next h.front hfrontlength (by rw [List.length_cons, h.trace_length]) fun p hp => ?_
    -- What is put aside are the diagonals of the points.
    obtain ⟨q, hq, hsame⟩ := exists_part? (l := table') (i := shift - (d + 1 : Nat)) (j := shift + (d + 1 : Nat)) (by omega)
      (by omega) (by omega) (by omega)
    obtain rfl : q = part' := Option.some.inj (hq.symm.trans hpart')
    obtain ⟨i, hi⟩ := List.getElem?_of_mem hp
    have hlt := (List.getElem?_eq_some_iff.1 hi).1
    have hdiagonal : Table.diagonal p = 2 * i - d := by
      have := h.front.diagonal i p hi
      unfold Table.diagonal
      omega
    have hentry := hsame (Table.diagonal p + shift) (by omega) (by omega)
    rw [show Table.diagonal p + shift - (shift - (d + 1 : Nat)) = Table.diagonal p + (d + 1) by omega] at hentry
    rw [hentry, hholds p hp]

/-- Where a point of the round is an end, the search stops, and the way back yields the script of the first such point. -/
theorem exists_search?_of_end (h : Ready old new shift d table trace ts) (rounds : Nat) (hlow : d < shift)
    (hhigh : d + 1 + shift < table.length) {r : Reach α} (hfind : (ts.map Reach.slide).find? Reach.isEnd = some r) :
    ∃ trace', search? old new shift (rounds + 1) d table trace = some (some d, trace') ∧
      walk? trace' old.length new.length [] = some (0, 0, steps r.script.reverse) := by
  obtain ⟨part, table', hpart, hround, -, -⟩ := h.next hlow hhigh
  have hr := List.mem_of_find?_eq_some hfind
  have hend := List.find?_some hfind
  have hany : (ts.map Reach.slide).any Reach.isEnd = true := List.any_eq_true.2 ⟨r, hr, hend⟩
  obtain ⟨hold, hnew⟩ := h.exact r hr hend
  refine ⟨part :: trace, ?_, ?_⟩
  · simp only [search?, hpart, hround, hany, Option.bind_eq_bind, Option.bind_some, if_true]
  · have hback := h.back part hpart r hr (Nat.le_of_eq hold) (Nat.le_of_eq hnew) []
    rwa [hold, hnew, List.append_nil] at hback

/-- Where no point of the round is an end, the search goes on, ready for the next round. -/
theorem exists_search?_of_endless (h : Ready old new shift d table trace ts) (rounds : Nat) (hlow : d < shift)
    (hhigh : d + 1 + shift < table.length) (hendless : Endless (ts.map Reach.slide)) :
    ∃ part table', search? old new shift (rounds + 1) d table trace =
        search? old new shift rounds (d + 1) table' (part :: trace) ∧
      table'.length = table.length ∧
      Ready old new shift (d + 1) table' (part :: trace) (starts (ts.map Reach.slide)) := by
  obtain ⟨part, table', hpart, hround, hlength, hnext⟩ := h.next hlow hhigh
  have hany : (ts.map Reach.slide).any Reach.isEnd = false :=
    List.any_eq_false.2 fun p hp => by simp [hendless p hp]
  refine ⟨part, table', ?_, hlength, hnext hendless⟩
  simp only [search?, hpart, hround, hany, Option.bind_eq_bind, Option.bind_some, Bool.false_eq_true, if_false]

/-- The search stops within the rounds that are left, if there is an end in one of them, and the way back from there
yields the script that is found with fronts. -/
theorem exists_search? (h : Ready old new shift d table trace ts) (rounds : Nat) {k : Nat} (hlow : d + rounds < shift)
    (hhigh : d + rounds + 1 + shift < table.length) (hk : k ≤ rounds)
    (hend : ∃ q ∈ nextFront^[k] (ts.map Reach.slide), q.isEnd = true) :
    ∃ d' ≤ d + rounds, ∃ trace', search? old new shift (rounds + 1) d table trace = some (some d', trace') ∧
      walk? trace' old.length new.length [] = some (0, 0, steps (Reach.search rounds (ts.map Reach.slide))) := by
  induction rounds generalizing d k table trace ts with
  | zero =>
    obtain rfl : k = 0 := Nat.le_zero.1 hk
    obtain ⟨r, hfind⟩ : ∃ r, (ts.map Reach.slide).find? Reach.isEnd = some r :=
      Option.isSome_iff_exists.1 (List.find?_isSome.2 hend)
    obtain ⟨trace', hsearch, hwalk⟩ := h.exists_search?_of_end 0 (by omega) (by omega) hfind
    exact ⟨d, Nat.le_refl _, trace', hsearch, by rwa [Reach.search, hfind]⟩
  | succ rounds ih =>
    cases hfind : (ts.map Reach.slide).find? Reach.isEnd with
    | some r =>
      obtain ⟨trace', hsearch, hwalk⟩ := h.exists_search?_of_end (rounds + 1) (by omega) (by omega) hfind
      exact ⟨d, Nat.le_add_right _ _, trace', hsearch, by rwa [Reach.search, hfind]⟩
    | none =>
      have hendless : Endless (ts.map Reach.slide) := fun p hp => by simpa using List.find?_eq_none.1 hfind p hp
      cases k with
      | zero =>
        obtain ⟨q, hq, hq'⟩ := hend
        exact absurd hq' (by simpa using hendless q hq)
      | succ k =>
        obtain ⟨part, table', hsearch, hlength, hready⟩ :=
          h.exists_search?_of_endless (rounds + 1) (by omega) (by omega) hendless
        rw [Function.iterate_succ_apply, nextFront_eq] at hend
        obtain ⟨d', hd', trace', hsearch', hwalk⟩ := ih hready (by omega) (by omega) (Nat.le_of_succ_le_succ hk) hend
        refine ⟨d', by omega, trace', hsearch.trans hsearch', ?_⟩
        rwa [Reach.search, hfind, nextFront_eq]

end Ready

/-- The search with a table never looks up or changes anything at a place that does not exist, nor steps back in front of
the first line: it succeeds. It stops at an end that it finds in a round within the sum of both lengths, the way back ends
in front of both lists, and the script is that of the search by fronts. -/
theorem find?_eq (old new : List α) : ∃ d ≤ old.length + new.length,
    find? old new = some ⟨some d, (0, 0), (Edit.script old new).map fun e => (e.op, e.old, e.new)⟩ := by
  obtain ⟨es, hes, hlength⟩ := Edit.exists_leads 0 0 old new
  have hcost : Edit.cost es ≤ old.length + new.length := hlength ▸ List.countP_le_length
  obtain ⟨-, k, -, -, hold, hnew⟩ := IsFront.isPoint_start old new
  have hend := (IsFront.start old new).exists_isEnd hes List.drop_zero.symm List.drop_zero.symm
    (List.mem_singleton_self _) (Nat.zero_le _) (Nat.zero_le _) (Nat.zero_le _) (by omega)
  have hready : Ready old new (old.length + new.length + 1) 0 (List.replicate (2 * (old.length + new.length) + 3) 0) []
      [⟨0, 0, old, new, []⟩] :=
    Ready.first old new (by omega) (by rw [List.length_replicate]; omega) fun _ => List.eq_of_mem_replicate
  obtain ⟨d, hd, trace, hsearch, hwalk⟩ := hready.exists_search? (old.length + new.length) (by omega)
    (by rw [List.length_replicate]; omega) hcost hend
  refine ⟨d, by omega, ?_⟩
  have hshift : ((old.length + new.length : Nat) : Int) + 1 = old.length + new.length + 1 := by omega
  simp only [find?, hshift, hsearch, hwalk, Option.bind_eq_bind, Option.bind_some]
  rfl

end Table

end Interpolation

/-!
# Keeping account

What a computation does on its way is written down here entry by entry. It may come to no end, and then has no result.

* `Account` — computations with entries;
* `Account.enter` — one entry more;
* `Account.Ends` — a computation comes to an end, and all its entries are of a kind.
-/

namespace Interpolation

/-- A computation that makes entries and comes to a result, if it comes to an end. -/
abbrev Account (ε : Type) := StateT (List ε) Option

namespace Account

variable {ε α β : Type}

/-- Make an entry. -/
def enter (e : ε) : Account ε Unit := modify (· ++ [e])

/-- The computation comes to an end with the result `a`, and `p` holds of every entry that it makes. -/
def Ends (p : ε → Prop) (x : Account ε α) (a : α) : Prop :=
  ∀ entries, ∃ made, x.run entries = some (a, entries ++ made) ∧ ∀ e ∈ made, p e

variable {p : ε → Prop} {x : Account ε α} {f : α → Account ε β} {a : α} {b : β}

theorem ends_pure (p : ε → Prop) (a : α) : Ends p (pure a) a := fun entries =>
  ⟨[], by rw [List.append_nil]; rfl, by simp⟩

theorem ends_enter {e : ε} (h : p e) : Ends p (enter e) () := fun entries => ⟨[e], rfl, by simpa using h⟩

theorem Ends.bind (h : Ends p x a) (hf : Ends p (f a) b) : Ends p (x >>= f) b := by
  intro entries
  obtain ⟨made, hx, hmade⟩ := h entries
  obtain ⟨made', hrun, hmade'⟩ := hf (entries ++ made)
  refine ⟨made ++ made', ?_, List.forall_mem_append.2 ⟨hmade, hmade'⟩⟩
  rw [StateT.run_bind, hx, ← List.append_assoc]
  exact hrun

theorem ends_mapM {f : α → Account ε β} {g : α → β} {as : List α} (h : ∀ a ∈ as, Ends p (f a) (g a)) :
    Ends p (as.mapM f) (as.map g) := by
  induction as with
  | nil => exact ends_pure p []
  | cons a as ih =>
    rw [List.mapM_cons]
    have hfirst := h a List.mem_cons_self
    have hothers := ih fun a' ha' => h a' (List.mem_cons_of_mem a ha')
    exact hfirst.bind (hothers.bind (ends_pure p _))

end Account

end Interpolation

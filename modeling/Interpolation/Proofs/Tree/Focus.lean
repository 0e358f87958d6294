import Interpolation.Proofs.Tree.Label
import Interpolation.Tree.Focus
import Mathlib.Data.List.Basic

/-!
# The laws of reading and writing at a path

Writing through a place is a change at its path (`focus?_eq`, `focusToken?_eq`, `focusBranch?_eq`), so that what is known of
`Tree.update` holds of it.

* `Tree.Agree` — the ways of reading at a path come to the same;
* `Tree.IsLens`, `Tree.isLens_of_eq` — what was written is what is read next, and what is written last counts;
* `Change.apply_setText`, `Change.apply_truncate` — the changes are those that `Tree.setText` and `Tree.truncate` make;
* `Change.TextOnly`, `Change.textOnly_setText` — a new text shows in one leaf, and in the text of the tree there alone;
* `Change.ChildrenOnly`, `Change.childrenOnly_truncate` — dropping children takes away the paths into those alone;
* `Change.apply_apply_of_parallel` — changes at parallel paths can be made in either order.

`Tree.focus_laws` is all of this for the paths of a tree that is a node.
-/

namespace Interpolation

open Interpolation.Path (Parallel)

namespace Tree

theorem token?_eq_some_iff {s : Tree} {u : Token} : s.token? = some u ↔ s = leaf u := by
  cases s <;> simp [token?]

theorem branch?_eq_some_iff {s : Tree} {b : Branch} : s.branch? = some b ↔ s = b.tree := by
  cases s with
  | leaf u => simp [branch?, Branch.tree]
  | node k cs =>
    obtain ⟨l, ds⟩ := b
    simp [branch?, Branch.tree]

/-! ## Writing is a change at the path -/

theorem update_eq_set {cs : List Tree} {i : Nat} {c : Tree} (hc : cs[i]? = some c) (f : Tree → Tree) (k : NodeKind)
    (p : Path) : (node k cs).update f (i :: p) = node k (cs.set i (c.update f p)) := by
  rw [update_node_cons, List.modify_eq_set_getElem?, hc]
  rfl

theorem focus?_eq (t : Tree) (p : Path) :
    t.focus? p = (t.below? p).map fun s => ⟨s, fun s' => t.update (fun _ => s') p⟩ := by
  induction p generalizing t with
  | nil => cases t <;> rfl
  | cons i p ih =>
    cases t with
    | leaf u => simp [focus?, below?, children]
    | node k cs =>
      rw [focus?, below?, if_neg (List.cons_ne_nil i p), subtree?_cons, children]
      cases hc : cs[i]? with
      | none => rfl
      | some c =>
        simp only [update_eq_set hc, Option.bind_some]
        by_cases hp : p = []
        · subst hp
          simp
        · rw [if_neg hp, ih c, below?, if_neg hp, Option.map_map]
          rfl

/-- Through the place of a leaf a leaf is written. -/
theorem focusToken?_eq (t : Tree) (p : Path) :
    t.focusToken? p = (t.tokenAt? p).map fun u => ⟨u, fun v => t.update (fun _ => leaf v) p⟩ := by
  rw [focusToken?, focus?_eq, tokenAt?]
  cases t.below? p with
  | none => rfl
  | some s => cases s <;> rfl

/-- Through the place of a node a node is written. -/
theorem focusBranch?_eq (t : Tree) (p : Path) : t.focusBranch? p =
    ((t.subtree? p).bind branch?).map fun b => ⟨b, fun c => t.update (fun _ => c.tree) p⟩ := by
  rw [focusBranch?]
  split
  · next hp =>
    subst hp
    simp
  · next hp =>
    rw [focus?_eq, below?, if_neg hp]
    cases t.subtree? p with
    | none => rfl
    | some s => cases s <;> rfl

/-! ## Reading -/

/-- What is read at a path is the same in every way of reading there. -/
structure Agree (t : Tree) (p : Path) : Prop where
  focus : (t.focus? p).map Focus.value = t.below? p
  focusToken : (t.focusToken? p).map Focus.value = (t.below? p).bind token?
  tokenAt : t.tokenAt? p = (t.below? p).bind token?
  focusBranch : (t.focusBranch? p).map Focus.value = (if p = [] then some t else t.below? p).bind branch?
  nodeAt : t.nodeAt? p = (t.focusBranch? p).map fun x => x.value.tree

theorem agree (t : Tree) (p : Path) : t.Agree p := by
  have hbranch : (t.focusBranch? p).map Focus.value = (t.subtree? p).bind branch? := by
    rw [focusBranch?_eq, Option.map_map]
    exact Option.map_id'
  constructor
  case focus =>
    rw [focus?_eq, Option.map_map]
    exact Option.map_id'
  case focusToken =>
    rw [focusToken?_eq, Option.map_map]
    exact Option.map_id'
  case tokenAt => rfl
  case focusBranch =>
    rw [hbranch, below?]
    split
    · next hp => rw [hp, subtree?_nil]
    · rfl
  case nodeAt =>
    rw [← Function.comp_def, ← Option.map_map, hbranch, nodeAt?]
    cases t.subtree? p with
    | none => rfl
    | some s => cases s <;> rfl

/-! ## The laws of a lens -/

section Lens

variable {α : Type}

/-- Writing what stands at a place changes nothing, and what is written there is what is read next, at the same place: what
is written last counts. -/
structure IsLens (get : Tree → Option (Focus α)) : Prop where
  replace_value : ∀ t x, get t = some x → x.replace x.value = t
  get_replace : ∀ t x, get t = some x → ∀ a, get (x.replace a) = some ⟨a, x.replace⟩

theorem update_update_same (f g : Tree → Tree) (t : Tree) (p : Path) :
    (t.update f p).update g p = t.update (fun s => g (f s)) p := by
  induction p generalizing t with
  | nil => simp
  | cons i p ih =>
    cases t with
    | leaf u => simp
    | node k cs =>
      simp only [update_node_cons, List.modify_modify_eq]
      congr 2
      funext c
      exact ih c

theorem isLens_of_eq {get : Tree → Option (Focus α)} {read : Tree → Option α} {write : α → Tree} (p : Path)
    (hread : ∀ s a, read s = some a ↔ s = write a)
    (hget : ∀ t, get t = ((t.subtree? p).bind read).map fun a => ⟨a, fun b => t.update (fun _ => write b) p⟩) :
    IsLens get := by
  constructor
  case replace_value =>
    intro t x hx
    rw [hget, Option.map_eq_some_iff] at hx
    obtain ⟨a, ha, rfl⟩ := hx
    obtain ⟨s, hs, ha⟩ := Option.bind_eq_some_iff.1 ha
    refine update_eq_self fun s' hs' => ?_
    obtain rfl : s = s' := Option.some.inj (hs.symm.trans hs')
    exact ((hread s a).1 ha).symm
  case get_replace =>
    intro t x hx a
    rw [hget, Option.map_eq_some_iff] at hx
    obtain ⟨b, hb, rfl⟩ := hx
    obtain ⟨s, hs, -⟩ := Option.bind_eq_some_iff.1 hb
    rw [hget, subtree?_update_self, hs, Option.map_some, Option.bind_some, (hread _ a).2 rfl]
    simp only [update_update_same, Option.map_some]

theorem isLens_of_eq_none {get : Tree → Option (Focus α)} (hget : ∀ t, get t = none) : IsLens get := by
  constructor
  all_goals
    intro t x hx
    rw [hget] at hx
    cases hx

end Lens

theorem isLens_focus? (p : Path) : IsLens fun t => t.focus? p := by
  by_cases hp : p = []
  · exact isLens_of_eq_none fun t => by rw [focus?_eq, below?, if_pos hp, Option.map_none]
  · have hread : ∀ s a : Tree, some s = some a ↔ s = id a := fun s a => Option.some_inj
    refine isLens_of_eq p hread fun t => ?_
    rw [focus?_eq, below?, if_neg hp, Option.bind_fun_some]
    rfl

theorem isLens_focusToken? (p : Path) : IsLens fun t => t.focusToken? p := by
  by_cases hp : p = []
  · exact isLens_of_eq_none fun t => by rw [focusToken?_eq, tokenAt?, below?, if_pos hp]; rfl
  · exact isLens_of_eq p (fun _ _ => token?_eq_some_iff) fun t => by rw [focusToken?_eq, tokenAt?, below?, if_neg hp]

theorem isLens_focusBranch? (p : Path) : IsLens fun t => t.focusBranch? p :=
  isLens_of_eq p (fun _ _ => branch?_eq_some_iff) fun t => focusBranch?_eq t p

end Tree

namespace Change

open Interpolation.Tree

variable {t : Tree}

/-! ## Changes -/

/-- The one leaf that has no place is a tree that is a leaf itself. -/
theorem apply_setText {p : Path} (h : p = [] → t.kind?.isSome) (text : Text) :
    (setText p text).apply t = t.setText p text := by
  rw [apply, focusToken?_eq, Tree.setText]
  cases hu : t.tokenAt? p with
  | none =>
    symm
    refine update_eq_self fun s hs => ?_
    cases s with
    | leaf u =>
      have hp : p = [] := by_contra fun hp => by simp [tokenAt?_eq_some_iff.2 ⟨hp, hs⟩] at hu
      subst hp
      obtain rfl : t = leaf u := Option.some.inj hs
      cases h rfl
    | node k cs => rfl
  | some u =>
    refine update_congr fun s hs => ?_
    obtain rfl : s = leaf u := Option.some.inj (hs.symm.trans (tokenAt?_eq_some_iff.1 hu).2)
    rfl

theorem apply_truncate (t : Tree) (p : Path) (n : Nat) : (truncate p n).apply t = t.truncate p n := by
  rw [apply, focusBranch?_eq, Tree.truncate]
  cases hb : (t.subtree? p).bind branch? with
  | none =>
    symm
    refine update_eq_self fun s hs => ?_
    cases s with
    | leaf u => rfl
    | node k cs => simp [hs, branch?] at hb
  | some b =>
    obtain ⟨s, hs, hb⟩ := Option.bind_eq_some_iff.1 hb
    refine update_congr fun s' hs' => ?_
    obtain rfl : s = s' := Option.some.inj (hs.symm.trans hs')
    rw [branch?_eq_some_iff.1 hb]
    rfl

/-- What a change does where it is made. -/
def edit : Change → Tree → Tree
  | .setText _ text => withText text
  | .truncate _ n => takeChildren n

/-- A change is made at its path, unless the empty path leads to a leaf. -/
theorem apply_eq_update {c : Change} (h : c.path = [] → t.kind?.isSome) : c.apply t = t.update c.edit c.path := by
  cases c with
  | setText p text => exact apply_setText h text
  | truncate p n => exact apply_truncate t p n

/-- Changes at parallel paths can be made in either order. -/
theorem apply_apply_of_parallel {c d : Change} (h : Parallel c.path d.path) (t : Tree) :
    d.apply (c.apply t) = c.apply (d.apply t) := by
  have hc : ∀ t : Tree, c.apply t = t.update c.edit c.path := fun t =>
    apply_eq_update fun hnil => absurd (hnil ▸ h) (Path.not_parallel_nil_left _)
  have hd : ∀ t : Tree, d.apply t = t.update d.edit d.path := fun t =>
    apply_eq_update fun hnil => absurd (hnil ▸ h) (Path.not_parallel_nil_right _)
  rw [hc, hd, hd, hc, update_update_of_parallel h]

/-- `s` is `t` but for the text of the leaf `u` at the path `p`: that leaf has the text `text` and keeps its kind and its
trivia, every other path leads to what it led to, and the text of the tree has `text` where it had the text of `u`. -/
structure TextOnly (t s : Tree) (p : Path) (u : Token) (text : Text) : Prop where
  tokenAt : s.tokenAt? p = some { u with text }
  label : ∀ q, q ≠ p → s.labelAt? q = t.labelAt? q
  render : ∃ after, t.render = t.textBefore p ++ u.trivia ++ u.text ++ after ∧
    s.render = t.textBefore p ++ u.trivia ++ text ++ after

theorem textOnly_setText {p : Path} {u : Token} (h : t.tokenAt? p = some u) (text : Text) :
    TextOnly t (t.setText p text) p u text := by
  obtain ⟨hp, hu⟩ := tokenAt?_eq_some_iff.1 h
  constructor
  case tokenAt =>
    have hat : (t.setText p text).subtree? p = some (leaf { u with text }) := by
      rw [Tree.setText, subtree?_update_self, hu, Option.map_some, withText]
    exact tokenAt?_eq_some_iff.2 ⟨hp, hat⟩
  case label =>
    intro q hq
    rw [labelAt?_setText, if_neg hq]
  case render =>
    obtain ⟨after, hafter⟩ := exists_render_update_eq hu
    refine ⟨after, ?_, ?_⟩
    · simpa [Tree.render] using hafter id
    · simpa [Tree.setText, Tree.render, withText] using hafter (withText text)

/-- `s` is `t` without the children from `n` on of the node `b` at the path `p`: no path into one of those leads anywhere,
and every other path leads to what it led to, the ways to that node leading to nodes of the same kind, with the same number
of children. -/
structure ChildrenOnly (t s : Tree) (p : Path) (b : Branch) (n : Nat) : Prop where
  nodeAt : s.nodeAt? p = some (node b.kind (b.children.take n))
  dropped : ∀ i q, n ≤ i → s.subtree? (p ++ i :: q) = none
  kept : ∀ q, ¬q <+: p → (∀ i r, n ≤ i → q ≠ p ++ i :: r) → s.subtree? q = t.subtree? q
  label : ∀ q, q <+: p → q ≠ p → s.labelAt? q = t.labelAt? q

theorem childrenOnly_truncate {p : Path} {b : Branch} (h : t.nodeAt? p = some b.tree) (n : Nat) :
    ChildrenOnly t (t.truncate p n) p b n := by
  have hb : t.subtree? p = some b.tree := (Option.filter_eq_some_iff.1 h).1
  constructor
  case nodeAt =>
    rw [nodeAt?, Tree.truncate, subtree?_update_self, hb]
    rfl
  case dropped =>
    intro i q hi
    rw [subtree?_truncate_append, if_neg (Nat.not_lt.2 hi)]
  case kept =>
    intro q hqp hq
    -- either the path goes on through a child of the node, which is then one of the first `n`, or it is parallel
    by_cases hpq : p <+: q
    · obtain ⟨_ | ⟨i, r⟩, rfl⟩ := hpq
      · exact absurd (by simp) hqp
      · have hi : i < n := Nat.lt_of_not_le fun hi => hq i r hi rfl
        rw [subtree?_truncate_append, if_pos hi]
    · exact subtree?_update_of_parallel ⟨hpq, hqp⟩ _ t
  case label =>
    intro q hqp hne
    exact labelAt?_update_of_not_prefix (fun hpq => hne (hqp.eq_of_length_le hpq.length_le)) _ t

end Change

namespace Tree

/-- Below a node, all ways of reading and writing at a path agree on what stands there and have the laws of a lens. A new
text for a leaf shows in that leaf alone, and in the text of the tree there alone. Dropping the last children of a node takes
away the paths into those children and no other. Two such changes come out the same in either order if neither path is the
start of the other. -/
theorem focus_laws (k : NodeKind) (cs : List Tree) :
    (∀ p, (node k cs).Agree p ∧
      IsLens (fun t => t.focus? p) ∧ IsLens (fun t => t.focusToken? p) ∧ IsLens fun t => t.focusBranch? p) ∧
    (∀ p text, (Change.setText p text).apply (node k cs) = (node k cs).setText p text ∧
      ∀ u, (node k cs).tokenAt? p = some u →
        Change.TextOnly (node k cs) ((Change.setText p text).apply (node k cs)) p u text) ∧
    (∀ p n, (Change.truncate p n).apply (node k cs) = (node k cs).truncate p n ∧
      ∀ b : Branch, (node k cs).nodeAt? p = some b.tree →
        Change.ChildrenOnly (node k cs) ((Change.truncate p n).apply (node k cs)) p b n) ∧
    ∀ c d : Change, Parallel c.path d.path → d.apply (c.apply (node k cs)) = c.apply (d.apply (node k cs)) := by
  have hset (p : Path) (text : Text) : (Change.setText p text).apply (node k cs) = (node k cs).setText p text :=
    Change.apply_setText (fun _ => rfl) text
  refine ⟨fun p => ⟨agree _ p, isLens_focus? p, isLens_focusToken? p, isLens_focusBranch? p⟩,
    fun p text => ⟨hset p text, fun u hu => ?_⟩, fun p n => ⟨Change.apply_truncate _ p n, fun b hb => ?_⟩,
    fun c d h => Change.apply_apply_of_parallel h _⟩
  · rw [hset]
    exact Change.textOnly_setText hu text
  · rw [Change.apply_truncate]
    exact Change.childrenOnly_truncate hb n

/-- Another argument, its tuple cut short, and another format string. -/
theorem focus_laws_tuple :
    let string : Token := ⟨.string, [], ['s']⟩
    let name : Token := ⟨.name, [], ['a']⟩
    let tuple : Branch := ⟨.atom, [leaf ⟨.operator, [' '], ['(']⟩, leaf name, leaf ⟨.operator, [], [')']⟩]⟩
    let children := [leaf string, leaf ⟨.operator, [' '], ['%']⟩, tuple.tree]
    let t := node .term children
    let rename := Change.setText [2, 1] ['b']
    let shorten := Change.truncate [2] 1
    let reword := Change.setText [0] ['f']
    t.tokenAt? [2, 1] = some name ∧ Change.TextOnly t (rename.apply t) [2, 1] name ['b'] ∧
      (rename.apply t).render = ['s', ' ', '%', ' ', '(', 'b', ')'] ∧
      t.nodeAt? [2] = some tuple.tree ∧ Change.ChildrenOnly t (shorten.apply t) [2] tuple 1 ∧
      Parallel reword.path shorten.path ∧ shorten.apply (reword.apply t) = reword.apply (shorten.apply t) ∧
      (shorten.apply (reword.apply t)).render = ['f', ' ', '%', ' ', '('] := by
  intro string name tuple children t rename shorten reword
  obtain ⟨-, hset, htruncate, hcomm⟩ := focus_laws .term children
  have hname : t.tokenAt? [2, 1] = some name := by decide
  have htuple : t.nodeAt? [2] = some tuple.tree := by decide
  have hparallel : Parallel reword.path shorten.path := ⟨by decide, by decide⟩
  exact ⟨hname, (hset [2, 1] ['b']).2 name hname, by decide, htuple, (htruncate [2] 1).2 tuple htuple, hparallel,
    hcomm reword shorten hparallel, by decide⟩

end Tree

end Interpolation

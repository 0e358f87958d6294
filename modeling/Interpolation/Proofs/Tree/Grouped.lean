import Interpolation.Proofs.Operand.Complete
import Interpolation.Proofs.Tree.WellShaped

/-!
# Trees that are grouped throughout

Nowhere in the tree of a source is anything left to group: neither between the tokens and groups of the whole source nor
between any two brackets.

* `Tree.GroupedWithin` — what stands between brackets is fully grouped, for all brackets of a tree;
* `Regroups.groupedWithin` — grouping operands leaves what stands between brackets as it is;
* `Tree.GroupedThroughout`, `Tree.groupedThroughout_parse` — that for the tree of a source, and its own siblings.
-/

namespace Interpolation.Tree

/-! ## What stands between brackets -/

/-- Whatever stands between a pair of brackets in the tree is fully grouped. -/
inductive GroupedWithin : Tree → Prop
  | leaf (u : Token) : GroupedWithin (.leaf u)
  | node {k : NodeKind} {cs : List Tree} (own : ∀ opening ts closing, cs = .leaf opening :: (ts ++ [.leaf closing]) →
      IsGroup k cs → FullyGrouped (direct ts)) (children : ∀ c ∈ cs, GroupedWithin c) : GroupedWithin (.node k cs)

theorem IsGroup.isSome_brackets? {k : NodeKind} {cs : List Tree} (h : IsGroup k cs) :
    (Tree.node k cs).brackets?.isSome = true := by
  obtain ⟨hkind, opening, ts, closing, rfl, opens, closes, -⟩ := h
  rw [brackets?_eq_some_iff.2 ⟨k, ts, rfl, hkind, opens, closes⟩]
  rfl

/-- Grouping operands makes no bracket groups, and leaves those there are as they are. -/
theorem Regroups.groupedWithin {us ts : List Tree} (h : Regroups us ts) (hus : ∀ u ∈ us, GroupedWithin u) :
    ∀ t ∈ ts, GroupedWithin t := by
  induction h with
  | refl => exact hus
  | trans _ _ ihfirst ihsecond => exact ihsecond (ihfirst hus)
  | append _ _ ihleft ihright =>
    obtain ⟨hleft, hright⟩ := List.forall_mem_append.1 hus
    exact List.forall_mem_append.2 ⟨ihleft hleft, ihright hright⟩
  | node _ noGroup =>
    refine List.forall_mem_singleton.2 (.node (fun _ _ _ _ hgroup => ?_) hus)
    simpa [noGroup] using hgroup.isSome_brackets?
  | @trailer t group =>
    have ht : GroupedWithin t := hus t (by simp)
    unfold isCallOrSubscript at group
    split at group
    · cases ht with
      | node own children =>
        refine List.forall_mem_singleton.2 (.node (fun opening ts closing hcs hgroup => ?_) children)
        exact own opening ts closing hcs ⟨.inl rfl, hgroup.2⟩
    · contradiction

/-- The brackets in a part of a tree are brackets of the tree. -/
theorem GroupedWithin.subtree {t s : Tree} {p : Path} (h : GroupedWithin t) (hs : t.subtree? p = some s) :
    GroupedWithin s := by
  refine of_subtree? (fun {k cs} hnode => ?_) h hs
  cases hnode with
  | node _ children => exact children

/-! ## The tree of a source -/

theorem fullyGrouped_groupOperands {ts : List Tree} (hts : ∀ t ∈ ts, IsUngrouped t) :
    FullyGrouped (groupOperands false ts) :=
  (grouping_groupOperands [] ts).fullyGrouped hts

/-- Grouping makes no lists. -/
theorem direct_listed (opening : Token) {ts us : List Tree} (h : Groups ts us) (hts : ∀ t ∈ ts, IsUngrouped t) :
    direct (listed opening us) = us := by
  unfold listed
  split
  · rfl
  · unfold direct
    split
    · next vs =>
      rcases h.mem_or (List.mem_singleton_self _) with hmem | hoperand | hterm
      · simpa [IsUngrouped, kind?] using hts _ hmem
      · simp [isOperand, isAtom, kind?] at hoperand
      · simp [kind?] at hterm
    · rfl

theorem groupedWithin_listed (opening : Token) {ts : List Tree} (hts : ∀ t ∈ ts, GroupedWithin t) :
    ∀ t ∈ listed opening ts, GroupedWithin t := by
  unfold listed
  split
  · refine List.forall_mem_singleton.2 (.node (fun _ _ _ _ hgroup => ?_) hts)
    simpa using hgroup.1
  · exact hts

theorem isUngrouped_ofBracketed {b : Bracketed} (h : b.Sound) : IsUngrouped (ofBracketed b) := by
  cases h with
  | token => exact .inl (by rw [ofBracketed_token]; rfl)
  | group opens closes paired =>
    refine .inr ⟨rfl, ?_⟩
    rw [ofBracketed]
    exact IsGroup.isSome_brackets? ⟨.inl rfl, _, _, _, rfl, opens, closes, paired⟩

theorem groupedWithin_ofBracketed {b : Bracketed} (h : b.Sound) : GroupedWithin (ofBracketed b) := by
  induction h with
  | token =>
    rw [ofBracketed_token]
    exact .leaf _
  | @group opening closing contents opens closes paired inner noBreak ih =>
    have hungrouped : ∀ t ∈ ofBracketedAll contents, IsUngrouped t := by
      rw [ofBracketedAll_eq_map]
      exact List.forall_mem_map.2 fun b hb => isUngrouped_ofBracketed (inner b hb)
    have hwithin : ∀ t ∈ ofBracketedAll contents, GroupedWithin t := by
      rw [ofBracketedAll_eq_map]
      exact List.forall_mem_map.2 ih
    have hgroups := groups_groupOperands (ofBracketedAll contents)
    rw [ofBracketed]
    refine .node (fun opening' ts closing' hcs _ => ?_) ?_
    · obtain ⟨hopening, hcs⟩ := List.cons.inj hcs
      obtain ⟨rfl, -⟩ := List.append_inj' hcs rfl
      rw [direct_listed _ hgroups hungrouped]
      exact fullyGrouped_groupOperands hungrouped
    · have hlisted := groupedWithin_listed opening (hgroups.regroups.groupedWithin hwithin)
      refine List.forall_mem_cons.2 ⟨.leaf opening, List.forall_mem_append.2 ⟨hlisted, ?_⟩⟩
      exact List.forall_mem_singleton.2 (.leaf closing)

/-- A tree in which nothing is left to group. -/
structure GroupedThroughout (tree : Tree) : Prop where
  /-- The tree is a file, and its siblings are fully grouped. -/
  file : ∃ cs, tree = .node .file cs ∧ FullyGrouped cs
  /-- What stands between two brackets is fully grouped, in a list or not. -/
  group : ∀ p k opening ts closing, tree.subtree? p = some (.node k (.leaf opening :: (ts ++ [.leaf closing]))) →
    IsGroup k (.leaf opening :: (ts ++ [.leaf closing])) → FullyGrouped (direct ts)

theorem GroupedWithin.groupedThroughout {cs : List Tree} (h : GroupedWithin (.node .file cs)) (hcs : FullyGrouped cs) :
    (Tree.node .file cs).GroupedThroughout where
  file := ⟨cs, rfl, hcs⟩
  group p k opening ts closing hs hgroup := by
    cases h.subtree hs with
    | node own _ => exact own opening ts closing rfl hgroup

/-- In the tree of a source nothing is left to group. -/
theorem groupedThroughout_parse (source : Text) : (parse source).GroupedThroughout := by
  obtain ⟨bs, hsound, z, hsiblings⟩ := exists_siblings source
  have hungrouped : ∀ t ∈ ofBracketedAll (Bracketed.ofTokens (Token.scan source)), IsUngrouped t := by
    rw [hsiblings]
    refine List.forall_mem_append.2 ⟨List.forall_mem_map.2 fun b hb => isUngrouped_ofBracketed (hsound b hb), ?_⟩
    exact List.forall_mem_singleton.2 (.inl rfl)
  have hwithin : ∀ t ∈ ofBracketedAll (Bracketed.ofTokens (Token.scan source)), GroupedWithin t := by
    rw [hsiblings]
    refine List.forall_mem_append.2 ⟨List.forall_mem_map.2 fun b hb => groupedWithin_ofBracketed (hsound b hb), ?_⟩
    exact List.forall_mem_singleton.2 (.leaf _)
  refine GroupedWithin.groupedThroughout (.node (fun _ _ _ _ hgroup => ?_) ?_) (fullyGrouped_groupOperands hungrouped)
  · simpa using hgroup.1
  · exact (groups_groupOperands _).regroups.groupedWithin hwithin

end Interpolation.Tree

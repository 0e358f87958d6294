import Interpolation.Proofs.Bracketed.Steps
import Interpolation.Proofs.Bracketed.Window
import Interpolation.Proofs.Operand.Regrouping
import Interpolation.Proofs.Token.Lexeme

/-!
# The shape of a tree

Every node of the tree of a source has the shape of its kind. The shapes say what the children of a node can be, and
with that where a node of each kind can stand.

* `Bracketed.Sound` — a token as it is read, or a group of such items in paired brackets, with no line break in it;
* `Tree.Shaped` — a tree all of whose nodes have their shapes;
* `Regroups.shaped` — grouping operands keeps the shapes;
* `Tree.exists_siblings` — the siblings of a source, before they are grouped, end with the end marker;
* `Tree.shaped_parse` — the tree of a source is shaped;
* `Tree.WellShaped`, `Tree.wellShaped_parse` — what that means kind by kind.
-/

namespace Interpolation

/-! ## Bracketed items -/

namespace Bracketed

/-- A token as it is read, or such items between paired brackets. Line breaks in brackets are no items. -/
inductive Sound : Bracketed → Prop
  | token {t : Token} (lexeme : t.IsLexeme) : Sound (.token t)
  | group {opening closing : Token} {contents : List Bracketed} (opens : opening.kind = .operator)
      (closes : closing.kind = .operator) (paired : opening.pairsWith closing = true)
      (inner : ∀ b ∈ contents, Sound b) (noBreak : ∀ b ∈ contents, b.isToken .newline = false) :
      Sound (.group opening contents closing)

theorem sound_joinLines {bs : List Bracketed} (h : ∀ b ∈ bs, b.Sound) (carried : Text) :
    ∀ b ∈ (joinLines carried bs).1, b.Sound ∧ b.isToken .newline = false := by
  fun_induction joinLines carried bs with
  | case1 => simp
  | case2 carried t rest _ ih => exact ih (List.forall_mem_cons.1 h).2
  | case3 carried t rest hkind ih =>
    obtain ⟨ht, hrest⟩ := List.forall_mem_cons.1 h
    refine List.forall_mem_cons.2 ⟨⟨?_, decide_eq_false hkind⟩, ih hrest⟩
    cases ht with
    | token lexeme => exact .token lexeme
  | case4 carried opening contents closing rest ih =>
    obtain ⟨hgroup, hrest⟩ := List.forall_mem_cons.1 h
    refine List.forall_mem_cons.2 ⟨⟨?_, rfl⟩, ih hrest⟩
    cases hgroup with
    | group opens closes paired inner noBreak => exact .group opens closes paired inner noBreak

theorem sound_ofTokens {ts : List Token} (h : ∀ t ∈ ts, t.IsLexeme) : ∀ b ∈ ofTokens ts, b.Sound := by
  refine ofTokens_induct (motive := fun ts bs => (∀ t ∈ ts, t.IsLexeme) → ∀ b ∈ bs, b.Sound) ?_ ?_ ?_ ts h
  · simp
  · intro ts bs t _ ih h
    obtain ⟨hts, ht⟩ := List.forall_mem_append.1 h
    exact List.forall_mem_append.2 ⟨ih hts, by simpa using Sound.token (ht t (by simp))⟩
  · intro ts before contents opening closing _ _ paired _ ih h
    obtain ⟨hbefore, hrest⟩ := List.forall_mem_append.1 (ih (List.forall_mem_append.1 h).1)
    have hjoined := sound_joinLines (List.forall_mem_cons.1 hrest).2 []
    have hclosed : (Bracketed.close opening contents closing).Sound :=
      .group rfl rfl paired (fun b hb => (hjoined b hb).1) fun b hb => (hjoined b hb).2
    exact List.forall_mem_append.2 ⟨hbefore, by simpa using hclosed⟩

end Bracketed

namespace Tree

/-! ## Shaped trees -/

/-- Whether a token can be a leaf: unless it is the end marker it has a text, and one of no other kind is a single
character. -/
def IsLeaf (t : Token) : Prop := t.kind ≠ .endMarker → t.text ≠ [] ∧ (t.kind = .unknown → t.text.length = 1)

/-- A tree all of whose nodes have the shapes of their kinds. -/
inductive Shaped : Tree → Prop
  | leaf {t : Token} (token : IsLeaf t) : Shaped (.leaf t)
  | node {k : NodeKind} {cs : List Tree} (shape : Shape k cs) (children : ∀ c ∈ cs, Shaped c) : Shaped (.node k cs)

/-- Grouping operands keeps the shapes. -/
theorem Regroups.shaped {us ts : List Tree} (h : Regroups us ts) (hus : ∀ u ∈ us, Shaped u) : ∀ t ∈ ts, Shaped t := by
  induction h with
  | refl => exact hus
  | trans _ _ ihfirst ihsecond => exact ihsecond (ihfirst hus)
  | append _ _ ihleft ihright =>
    obtain ⟨hleft, hright⟩ := List.forall_mem_append.1 hus
    exact List.forall_mem_append.2 ⟨ihleft hleft, ihright hright⟩
  | node shape _ => simpa using Shaped.node shape hus
  | @trailer t group =>
    have ht : Shaped t := hus t (by simp)
    unfold isCallOrSubscript at group
    split at group
    · next opening cs =>
      cases ht with
      | node shape children =>
        cases shape with
        | strings all =>
          obtain ⟨u, rfl, hu⟩ := Pattern.exists_leaf_of_isToken (all opening (by simp))
          simp [isOperator, Token.isOperator, hu] at group
        | @group _ opening closing ts _ opens closes paired contents =>
          have hround : opening.text ≠ ['\x7b'] := by
            rintro hbrace
            simp [isOperator, Token.isOperator, hbrace] at group
          have hshape : Shape .trailer (.leaf opening :: (ts ++ [.leaf closing])) :=
            .group (.inr ⟨rfl, hround⟩) opens closes paired contents
          simpa [asTrailer] using Shaped.node hshape children
    · contradiction

theorem isItem_of_isOperand {t : Tree} (h : t.isOperand = true) : t.isItem = true ∧ t.kind? ≠ some .term := by
  cases t with
  | leaf u =>
    refine ⟨?_, by simp [kind?]⟩
    simp only [isOperand, isAtom, kind?, Token.isOperator, isItem] at h ⊢
    revert h
    cases u.kind <;> simp
  | node k cs =>
    simp only [isOperand, isAtom, kind?, isItem] at h ⊢
    revert h
    cases k <;> simp

theorem isItem_of_isTerm {t : Tree} (h : t.kind? = some .term) : t.isItem = true := by
  cases t with
  | leaf u => simp [kind?] at h
  | node k cs =>
    obtain rfl : k = .term := by simpa [kind?] using h
    rfl

/-- What siblings are grouped into are items, where they are. -/
theorem Groups.isItem {us ts : List Tree} (h : Groups us ts) {t : Tree} (ht : t ∈ ts) : t ∈ us ∨ t.isItem = true :=
  (h.mem_or ht).imp_right fun h => h.elim (fun h => (isItem_of_isOperand h).1) isItem_of_isTerm

theorem isLeaf_of_isLexeme {t : Token} (h : t.IsLexeme) : IsLeaf t :=
  fun _ => ⟨h.text_ne_nil, h.length_of_unknown⟩

theorem isLeaf_of_pairsWith {opening closing : Token} (opens : opening.kind = .operator)
    (closes : closing.kind = .operator) (paired : opening.pairsWith closing = true) :
    IsLeaf opening ∧ IsLeaf closing := by
  have hshape : ∀ shape ∈ bracketShapes, shape.1 ≠ [] ∧ shape.2 ≠ [] := by decide
  obtain ⟨hopening, hclosing⟩ := hshape _ (of_decide_eq_true paired)
  exact ⟨fun _ => ⟨hopening, by simp [opens]⟩, fun _ => ⟨hclosing, by simp [closes]⟩⟩

theorem contents_listed (opening : Token) {ts : List Tree} (h : ∀ t ∈ ts, t.isItem = true) :
    Contents opening (listed opening ts) := by
  unfold listed
  split
  · next hlisted => exact .listed (by simp_all)
  · next hlisted => exact .items h fun hround => by simpa [hround] using hlisted

theorem shaped_listed (opening : Token) {ts : List Tree} (hitems : ∀ t ∈ ts, t.isItem = true)
    (hshaped : ∀ t ∈ ts, Shaped t) : ∀ t ∈ listed opening ts, Shaped t := by
  unfold listed
  split
  · next hlisted =>
    rw [Bool.and_eq_true] at hlisted
    simpa using Shaped.node (.list hitems hlisted.2) hshaped
  · exact hshaped

/-- The tree of a bracketed item is an item, unless the item ends a line. -/
theorem isItem_ofBracketed {b : Bracketed} (h : b.Sound) :
    (ofBracketed b).isItem = true ∨ (ofBracketed b).isToken .newline = true := by
  cases h with
  | @token t lexeme =>
    rw [ofBracketed_token]
    by_cases hbreak : t.kind = .newline
    · exact .inr (decide_eq_true hbreak)
    · exact .inl (by simp [isItem, hbreak, lexeme.kind_ne_endMarker])
  | group => left; simp [ofBracketed, isItem]

theorem shaped_ofBracketed {b : Bracketed} (h : b.Sound) : Shaped (ofBracketed b) := by
  induction h with
  | token lexeme =>
    rw [ofBracketed_token]
    exact .leaf (isLeaf_of_isLexeme lexeme)
  | @group opening closing contents opens closes paired inner noBreak ih =>
    have hitems : ∀ t ∈ ofBracketedAll contents, t.isItem = true := by
      rw [ofBracketedAll_eq_map]
      refine List.forall_mem_map.2 fun b hb => (isItem_ofBracketed (inner b hb)).resolve_right ?_
      simp [noBreak b hb]
    have hshaped : ∀ t ∈ ofBracketedAll contents, Shaped t := by
      rw [ofBracketedAll_eq_map]
      exact List.forall_mem_map.2 ih
    have hgroups := groups_groupOperands (ofBracketedAll contents)
    have hitems' : ∀ t ∈ groupOperands false (ofBracketedAll contents), t.isItem = true := fun t ht =>
      (hgroups.isItem ht).elim (hitems t) id
    obtain ⟨hopening, hclosing⟩ := isLeaf_of_pairsWith opens closes paired
    rw [ofBracketed]
    refine .node (.group (.inl rfl) opens closes paired (contents_listed opening hitems')) ?_
    refine List.forall_mem_cons.2 ⟨.leaf hopening, List.forall_mem_append.2 ⟨?_, by simpa using Shaped.leaf hclosing⟩⟩
    exact shaped_listed opening hitems' (hgroups.regroups.shaped hshaped)

/-- The siblings of a source are items and the end marker. -/
theorem exists_siblings (source : Text) : ∃ bs : List Bracketed, (∀ b ∈ bs, b.Sound) ∧ ∃ z : Text,
    ofBracketedAll (Bracketed.ofTokens (Token.scan source)) = bs.map ofBracketed ++ [.leaf ⟨.endMarker, z, []⟩] := by
  obtain ⟨ts, z, hscan, hlexemes⟩ := Token.exists_scan_eq source
  refine ⟨Bracketed.ofTokens ts, Bracketed.sound_ofTokens hlexemes, z, ?_⟩
  rw [hscan, Bracketed.ofTokens_concat rfl rfl, ofBracketedAll_eq_map, List.map_append, List.map_singleton,
    ofBracketed_token]

theorem shaped_parse (source : Text) : Shaped (parse source) := by
  obtain ⟨bs, hsound, z, hsiblings⟩ := exists_siblings source
  have hgroups := groups_groupOperands (ofBracketedAll (Bracketed.ofTokens (Token.scan source)))
  rw [hsiblings] at hgroups
  obtain ⟨us, hus, hgroups⟩ := hgroups.exists_concat rfl
  rw [parse, hsiblings, hus]
  refine .node (.file (fun t ht => ?_) rfl) (List.forall_mem_append.2 ⟨?_, ?_⟩)
  · refine (hgroups.isItem ht).elim (fun h => ?_) .inl
    obtain ⟨b, hb, rfl⟩ := List.mem_map.1 h
    exact isItem_ofBracketed (hsound b hb)
  · exact hgroups.regroups.shaped (List.forall_mem_map.2 fun b hb => shaped_ofBracketed (hsound b hb))
  · simpa using Shaped.leaf fun h => absurd rfl h

end Tree

end Interpolation

import Interpolation.Proofs.Selection.Window
import Interpolation.Proofs.Bracketed.Text

/-!
# Where an expression can stand among bracketed items

The items of a source are its tokens and bracket groups, before any operand is grouped. What decides on an expression
is said here of items; the trees of the items agree.

* `Bracketed.isAtomLike`, `Bracketed.startsFactor` — an operand without signs, and where one starts;
* `Bracketed.isNameTuple` — names with commas between them in round brackets;
* `Bracketed.FreeLeft`, `Bracketed.FreeRight` — what may stand in front of an expression, and what may follow it;
* `Tree.isExpression_iff`, `Tree.leftFree_iff`, `Tree.rightFree_iff` — the same of trees.
-/

namespace Interpolation

namespace Bracketed

/-- Whether the item is a token of the kind `k`. -/
def isToken (k : TokenKind) : Bracketed → Bool
  | .token t => t.kind = k
  | .group _ _ _ => false

/-- Whether the item is the operator `op`. -/
def isOperator (op : Text) : Bracketed → Bool
  | .token t => t.isOperator op
  | .group _ _ _ => false

/-- Whether the item is the reserved word `await`. -/
def isAwait : Bracketed → Bool
  | .token t => t.kind = .keyword && t.text = "await".toList
  | .group _ _ _ => false

/-- Whether the item is a name, a number, a string, the operator `...` or a group. -/
def isAtomLike : Bracketed → Bool
  | .token t => t.kind = .name || t.kind = .number || t.kind = .string || t.isOperator "...".toList
  | .group _ _ _ => true

def isSign (b : Bracketed) : Bool := ["+".toList, "-".toList, "~".toList].any fun op => b.isOperator op

/-- Whether the item is an operator that binds at least as strongly as a multiplication. -/
def isProductOrPower (b : Bracketed) : Bool :=
  ["*".toList, "/".toList, "//".toList, "%".toList, "@".toList, "**".toList].any fun op => b.isOperator op

/-- Whether the item is a group in round or square brackets. -/
def isCallOrSubscript : Bracketed → Bool
  | .token _ => false
  | .group opening _ _ => opening.isOperator ['('] || opening.isOperator ['[']

/-- Whether a factor starts here: any number of signs, and then an operand, or `await` and an operand. -/
def startsFactor : List Bracketed → Bool
  | [] => false
  | b :: bs => if b.isSign then startsFactor bs else if b.isAwait then bs.head?.any isAtomLike else b.isAtomLike

/-- Names with a comma between any two of them, and perhaps one behind the last. -/
def isNameList : List Bracketed → Bool
  | [] => false
  | [n] => n.isToken .name
  | n :: c :: rest => n.isToken .name && c.isOperator [','] && (rest.isEmpty || isNameList rest)

/-- Whether the item is a list of names in round brackets, with at least one comma. -/
def isNameTuple : Bracketed → Bool
  | .token _ => false
  | .group opening contents closing =>
    opening.isOperator ['('] && closing.isOperator [')'] && isNameList contents && contents.any (isOperator [','])

/-- The items in front of a string leave it alone: it is not joined to a string, awaited, the right side of an operator
that has a left side, or signed. -/
structure FreeLeft (before : List Bracketed) : Prop where
  string : before.getLast?.any (isToken .string) = false
  await : before.getLast?.any isAwait = false
  operator : before.getLast?.any isProductOrPower = true → before.dropLast.getLast?.any isAtomLike = false
  sign : before.getLast?.any isSign = true → before.dropLast.getLast?.any isAtomLike = true

/-- The items behind an operand do not go on with it: no call, no subscript, no member and no operator with a right
side. -/
structure FreeRight (rest : List Bracketed) : Prop where
  group : rest.head?.any isCallOrSubscript = false
  member : rest.head?.any (isOperator ['.']) = true → rest.tail.head?.any (isToken .name) = false
  operator : rest.head?.any isProductOrPower = true → startsFactor rest.tail = false

end Bracketed

namespace Tree

/-! ## The trees of items -/

@[simp] theorem ofBracketed_token (t : Token) : ofBracketed (.token t) = .leaf t := by rw [ofBracketed]

@[simp] theorem isToken_ofBracketed (k : TokenKind) (b : Bracketed) : (ofBracketed b).isToken k = b.isToken k := by
  cases b <;> simp [ofBracketed, isToken, Bracketed.isToken]

@[simp] theorem isOperator_ofBracketed (op : Text) (b : Bracketed) :
    (ofBracketed b).isOperator op = b.isOperator op := by
  cases b <;> simp [ofBracketed, isOperator, Bracketed.isOperator]

@[simp] theorem isAwait_ofBracketed (b : Bracketed) : (ofBracketed b).isAwait = b.isAwait := by
  cases b <;> simp [ofBracketed, isAwait, isKeyword, Bracketed.isAwait]

@[simp] theorem isAtom_ofBracketed (b : Bracketed) : (ofBracketed b).isAtom = b.isAtomLike := by
  cases b <;> simp [ofBracketed, isAtom, Bracketed.isAtomLike]

@[simp] theorem isSign_ofBracketed (b : Bracketed) : (ofBracketed b).isSign = b.isSign := by
  simp [isSign, Bracketed.isSign]

theorem isProductOrPower_ofBracketed (b : Bracketed) :
    ((ofBracketed b).isMultiplicative || (ofBracketed b).isPower) = b.isProductOrPower := by
  simp [isMultiplicative, isPower, Bracketed.isProductOrPower, Bool.or_assoc]

@[simp] theorem isCallOrSubscript_ofBracketed (b : Bracketed) :
    (ofBracketed b).isCallOrSubscript = b.isCallOrSubscript := by
  cases b <;> simp [ofBracketed, isCallOrSubscript, Bracketed.isCallOrSubscript, isOperator]

theorem startsFactor_map (bs : List Bracketed) : startsFactor (bs.map ofBracketed) = Bracketed.startsFactor bs := by
  induction bs with
  | nil => rfl
  | cons b bs ih =>
    have hhead : (bs.map ofBracketed).head?.any isAtom = bs.head?.any Bracketed.isAtomLike := by
      cases bs <;> simp
    rw [List.map_cons, startsFactor, Bracketed.startsFactor, ih, hhead]
    simp

theorem isNameList_map (bs : List Bracketed) : isNameList (bs.map ofBracketed) = Bracketed.isNameList bs := by
  fun_induction Bracketed.isNameList bs with
  | case1 => rfl
  | case2 n => simp [isNameList]
  | case3 n c rest ih => simp [isNameList, ih]

/-- The last of some trees is what the last of the items is. -/
theorem endsWith_map {p : Tree → Bool} {q : Bracketed → Bool} (h : ∀ b, p (ofBracketed b) = q b)
    (bs : List Bracketed) : endsWith p (bs.map ofBracketed) = bs.getLast?.any q := by
  rw [endsWith, List.getLast?_map]
  cases bs.getLast? with
  | none => rfl
  | some b => exact h b

/-! ## What may stand next to an expression -/

theorem leftFree_iff (before : List Bracketed) : LeftFree (before.map ofBracketed) ↔ Bracketed.FreeLeft before := by
  have hstring := endsWith_map (isToken_ofBracketed .string) before
  have hawait := endsWith_map isAwait_ofBracketed before
  have hoperator := endsWith_map (p := fun t => t.isMultiplicative || t.isPower) isProductOrPower_ofBracketed before
  have hsign := endsWith_map isSign_ofBracketed before
  have hatom := endsWith_map isAtom_ofBracketed before.dropLast
  rw [List.map_dropLast] at hatom
  constructor
  · rintro ⟨h1, h2, h3, h4⟩
    rw [hatom] at h3 h4
    exact ⟨hstring ▸ h1, hawait ▸ h2, hoperator ▸ h3, hsign ▸ h4⟩
  · rintro ⟨h1, h2, h3, h4⟩
    rw [← hatom] at h3 h4
    exact ⟨hstring ▸ h1, hawait ▸ h2, hoperator ▸ h3, hsign ▸ h4⟩

theorem rightFree_iff (rest : List Bracketed) : RightFree (rest.map ofBracketed) ↔ Bracketed.FreeRight rest := by
  cases rest with
  | nil => exact ⟨fun _ => ⟨rfl, nofun, nofun⟩, fun _ => ⟨rfl, rfl, rfl⟩⟩
  | cons b bs =>
    have htrailer : startsTrailer ((b :: bs).map ofBracketed) =
        (b.isCallOrSubscript || (b.isOperator ['.'] && bs.head?.any (Bracketed.isToken .name))) := by
      cases bs <;> simp [startsTrailer]
    have hoperator : ∀ p : Tree → Bool, startsOperator p ((b :: bs).map ofBracketed) =
        (p (ofBracketed b) && Bracketed.startsFactor bs) := by
      intro p
      rw [List.map_cons, startsOperator, startsFactor_map]
    have hclass := isProductOrPower_ofBracketed b
    constructor
    · rintro ⟨h1, h2, h3⟩
      rw [htrailer, Bool.or_eq_false_iff] at h1
      rw [hoperator] at h2 h3
      refine ⟨h1.1, fun h => ?_, fun h => ?_⟩
      · rw [List.head?_cons, Option.any_some] at h
        simpa [h] using h1.2
      · rw [List.head?_cons, Option.any_some, ← hclass, Bool.or_eq_true] at h
        rcases h with h | h
        · simpa [h] using h3
        · simpa [h] using h2
    · rintro ⟨h1, h2, h3⟩
      simp only [List.head?_cons, Option.any_some, List.tail_cons, ← hclass, Bool.or_eq_true] at h1 h2 h3
      refine ⟨?_, ?_, ?_⟩
      · rw [htrailer, h1, Bool.false_or]
        by_cases h : b.isOperator ['.'] = true
        · rw [h2 h, Bool.and_false]
        · simp [h]
      · rw [hoperator]
        by_cases h : (ofBracketed b).isPower = true
        · rw [h3 (.inr h), Bool.and_false]
        · simp [h]
      · rw [hoperator]
        by_cases h : (ofBracketed b).isMultiplicative = true
        · rw [h3 (.inl h), Bool.and_false]
        · simp [h]

/-! ## What an expression is made of -/

/-- Names with commas between them are left alone by grouping. -/
theorem groupOperands_of_isNameList {ts : List Tree} (h : isNameList ts = true) (behindOperand : Bool) :
    groupOperands behindOperand ts = ts := by
  have hname : ∀ {t : Tree}, t.isToken .name = true → t.isAtom = true ∧ t.isToken .string = false := by
    intro t ht
    obtain ⟨u, rfl, hu⟩ := Pattern.exists_leaf_of_isToken ht
    simp [isAtom, isToken, hu]
  fun_induction isNameList ts generalizing behindOperand with
  | case1 => contradiction
  | case2 n =>
    obtain ⟨hatom, hstring⟩ := hname h
    rw [groupOperands_of_term? (isSign_eq_false_of_isAtom hatom) (term?_atom hatom ⟨rfl, rfl, rfl⟩ (by simp [hstring])),
      groupOperands]
  | case3 n c rest ih =>
    simp only [Bool.and_eq_true, Bool.or_eq_true, List.isEmpty_iff] at h
    obtain ⟨⟨hn, hcomma⟩, hrest⟩ := h
    obtain ⟨hatom, hstring⟩ := hname hn
    obtain ⟨u, rfl, hu⟩ := Pattern.exists_leaf_of_isOperator hcomma
    simp only [Token.isOperator, Bool.and_eq_true, decide_eq_true_eq] at hu
    have hfree : RightFree (leaf u :: rest) := by
      constructor <;> simp [startsTrailer, isCallOrSubscript, startsOperator, isPower, isMultiplicative, isOperator,
        Token.isOperator, hu]
    have hnone : term? (leaf u :: rest) = none := by
      rw [term?_eq_none_iff]
      simp [startsFactor, isSign, isAwait, isKeyword, isAtom, isOperator, Token.isOperator, hu]
    rw [groupOperands_of_term? (isSign_eq_false_of_isAtom hatom) (term?_atom hatom hfree (by simp [hstring])),
      groupOperands_of_term?_eq_none hnone]
    rcases hrest with rfl | hrest
    · rw [groupOperands]
    · rw [ih hrest]

theorem head?_of_isNameList {ts : List Tree} (h : isNameList ts = true) :
    ts.head?.any (isToken .string) = false := by
  obtain ⟨n, hn, hname⟩ : ∃ n, ts.head? = some n ∧ n.isToken .name = true := by
    fun_cases isNameList ts with
    | case1 => contradiction
    | case2 n => exact ⟨n, rfl, h⟩
    | case3 n c rest =>
      simp only [isNameList, Bool.and_eq_true] at h
      exact ⟨n, rfl, h.1.1⟩
  obtain ⟨u, rfl, hu⟩ := Pattern.exists_leaf_of_isToken hname
  simp [hn, isToken, hu]

theorem any_isOperator_map (op : Text) (bs : List Bracketed) :
    (bs.map ofBracketed).any (isOperator op) = bs.any (Bracketed.isOperator op) := by
  simp [Function.comp_def]

/-- The inside of a group is a list of names just where its items are names with commas between them. -/
theorem listed_eq_iff {opening : Token} {contents : List Bracketed} {names : List Tree}
    (hopens : opening.isOperator ['('] = true) (hnames : isNameList names = true) :
    listed opening (groupOperands false (contents.map ofBracketed)) = [.node .exprList names] ↔
      contents.map ofBracketed = names ∧ contents.any (Bracketed.isOperator [',']) = true := by
  have hgrouping := grouping_groupOperands [] (contents.map ofBracketed)
  rw [show endsWith isAtom [] = false from rfl] at hgrouping
  have htext : opening.text = ['('] := by
    simp only [Token.isOperator, Bool.and_eq_true, decide_eq_true_eq] at hopens
    exact hopens.2
  unfold listed
  constructor
  · intro h
    by_cases hcomma : (groupOperands false (contents.map ofBracketed)).any (isOperator [',']) = true
    · simp only [htext, hcomma, decide_true, Bool.and_self, if_true] at h
      obtain rfl : groupOperands false (contents.map ofBracketed) = names := by simpa using h
      have hraw := hgrouping.eq_of_isSimple fun u hu => by
        obtain ⟨v, rfl⟩ := Pattern.exists_leaf_of_isNameList hnames u hu
        exact isSimple_leaf v
      rw [hraw, any_isOperator_map] at hcomma
      exact ⟨hraw.symm, hcomma⟩
    · -- No list is made without a comma, and none is there before.
      rw [Bool.not_eq_true] at hcomma
      simp only [hcomma, Bool.and_false, Bool.false_eq_true, if_false] at h
      have hraw := hgrouping.eq_of_isSimple fun u hu => by
        obtain rfl : u = .node .exprList names := by simpa [h] using hu
        exact ⟨by simp [kind?], head?_of_isNameList hnames⟩
      rw [h] at hraw
      obtain ⟨b, -, hb⟩ : ∃ b ∈ contents, ofBracketed b = .node .exprList names :=
        List.mem_map.1 (hraw ▸ List.mem_singleton_self _)
      cases b <;> simp [ofBracketed] at hb
  · rintro ⟨rfl, hcomma⟩
    rw [groupOperands_of_isNameList hnames, any_isOperator_map]
    simp [htext, hcomma]

theorem isExpression_iff (s op operand : Bracketed) :
    IsExpression (ofBracketed s) (ofBracketed op) (ofBracketed operand) ↔
      s.isToken .string = true ∧ op.isOperator ['%'] = true ∧
        (operand.isToken .name = true ∨ operand.isNameTuple = true) := by
  constructor
  · intro h
    obtain ⟨hstring, hpercent, _⟩ := h.parts
    refine ⟨by simpa using hstring, by simpa using hpercent, ?_⟩
    obtain ⟨c, hc⟩ := h
    generalize hs : ofBracketed s = s' at hc
    generalize hop : ofBracketed op = op' at hc
    generalize hoperand : ofBracketed operand = operand' at hc
    cases hc with
    | name _ _ name =>
      left
      rw [← isToken_ofBracketed, hoperand]
      simpa [isToken] using name
    | @tuple _ _ opening closing names _ _ opens closes listed =>
      right
      cases operand with
      | token t => simp at hoperand
      | group o contents c =>
        rw [ofBracketed, ofBracketedAll_eq_map] at hoperand
        obtain ⟨hopening, hinside⟩ := List.cons.inj (node.inj hoperand).2
        obtain rfl := leaf.inj hopening
        obtain ⟨hlisted, hclosing⟩ : _ = [.node .exprList names] ∧ [leaf c] = [leaf closing] :=
          List.append_inj' hinside rfl
        obtain rfl := leaf.inj (List.cons.inj hclosing).1
        obtain ⟨hcontents, hcomma⟩ := (listed_eq_iff opens listed).1 hlisted
        rw [← hcontents, isNameList_map] at listed
        simp only [Bracketed.isNameTuple, opens, closes, listed, hcomma, Bool.and_self]
  · rintro ⟨hstring, hpercent, hoperand⟩
    cases s with
    | group => simp [Bracketed.isToken] at hstring
    | token s =>
      cases op with
      | group => simp [Bracketed.isOperator] at hpercent
      | token op =>
        replace hstring : s.kind = .string := by simpa [Bracketed.isToken] using hstring
        cases operand with
        | token n =>
          have hname : n.kind = .name := by simpa [Bracketed.isToken, Bracketed.isNameTuple] using hoperand
          simp only [ofBracketed_token]
          exact ⟨_, .name hstring hpercent hname⟩
        | group o contents c =>
          simp only [Bracketed.isToken, Bool.false_eq_true, false_or, Bracketed.isNameTuple, Bool.and_eq_true] at hoperand
          obtain ⟨⟨⟨opens, closes⟩, hnames⟩, hcomma⟩ := hoperand
          rw [← isNameList_map] at hnames
          rw [ofBracketed_token, ofBracketed_token, ofBracketed, ofBracketedAll_eq_map,
            (listed_eq_iff opens hnames).2 ⟨rfl, hcomma⟩]
          exact ⟨_, .tuple hstring hpercent opens closes hnames⟩

end Tree

end Interpolation

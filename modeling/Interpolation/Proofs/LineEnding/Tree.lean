import Interpolation.Tree.Parse
import Interpolation.Proofs.Bracketed.Text
import Interpolation.Proofs.LineEnding.Scan

/-!
# Trees with either line ending

`Tree.withReturns` gives every token of a tree returns. No bracket, operator or keyword has a line break in it, so that
brackets pair up and operands are grouped as before: `Tree.parse_withReturns`.
-/

namespace Interpolation

/-! ## Tokens -/

namespace Token

@[simp] theorem withReturns_kind (t : Token) : t.withReturns.kind = t.kind := by cases t; rfl

@[simp] theorem withReturns_trivia (t : Token) : t.withReturns.trivia = t.trivia.withReturns := by cases t; rfl

@[simp] theorem withReturns_text (t : Token) : t.withReturns.text = t.text.withReturns := by cases t; rfl

@[simp] theorem render_withReturns (t : Token) : t.withReturns.render = t.render.withReturns := by simp [render]

theorem renderAll_withReturns (ts : List Token) : renderAll (ts.map withReturns) = (renderAll ts).withReturns := by
  induction ts with
  | nil => rfl
  | cons t ts ih => simp [ih]

theorem isOperator_withReturns {op : Text} (h : '\n' ∉ op) (t : Token) :
    t.withReturns.isOperator op = t.isOperator op := by
  simp [isOperator, Text.withReturns_eq_iff h]

@[simp] theorem isOpening_withReturns (t : Token) : t.withReturns.isOpening = t.isOpening := by
  simp [isOpening, bracketShapes, Text.withReturns_eq_iff]

@[simp] theorem isClosing_withReturns (t : Token) : t.withReturns.isClosing = t.isClosing := by
  simp [isClosing, bracketShapes, Text.withReturns_eq_iff]

@[simp] theorem pairsWith_withReturns (t u : Token) : t.withReturns.pairsWith u.withReturns = t.pairsWith u := by
  simp [pairsWith, bracketShapes, Text.withReturns_eq_iff]

@[simp] theorem asPaired_withReturns (t : Token) : t.withReturns.asPaired = t.asPaired.withReturns := rfl

@[simp] theorem addTrivia_withReturns (z : Text) (t : Token) :
    t.withReturns.addTrivia z.withReturns = (t.addTrivia z).withReturns := by
  simp [addTrivia, withReturns]

end Token

/-! ## Brackets -/

namespace Bracketed

mutual
/-- An item with returns in all of its tokens. -/
def withReturns : Bracketed → Bracketed
  | .token t => .token t.withReturns
  | .group opening contents closing => .group opening.withReturns (withReturnsAll contents) closing.withReturns
@[inherit_doc withReturns]
def withReturnsAll : List Bracketed → List Bracketed
  | [] => []
  | b :: bs => withReturns b :: withReturnsAll bs
end

theorem withReturnsAll_eq_map (bs : List Bracketed) : withReturnsAll bs = bs.map withReturns := by
  induction bs with
  | nil => rfl
  | cons b bs ih => rw [withReturnsAll, ih, List.map_cons]

@[simp] theorem withReturns_token (t : Token) : withReturns (.token t) = .token t.withReturns := by rw [withReturns]

@[simp] theorem withReturns_group (opening closing : Token) (contents : List Bracketed) :
    withReturns (.group opening contents closing) =
      .group opening.withReturns (contents.map withReturns) closing.withReturns := by
  rw [withReturns, withReturnsAll_eq_map]

theorem joinLines_withReturns (carried : Text) (bs : List Bracketed) :
    joinLines carried.withReturns (bs.map withReturns) =
      ((joinLines carried bs).1.map withReturns, (joinLines carried bs).2.withReturns) := by
  fun_induction joinLines carried bs with
  | case1 => rfl
  | case2 carried t rest h ih => simpa [joinLines, h] using ih
  | case3 carried t rest h ih =>
    rw [Text.withReturns_nil] at ih
    simp [joinLines, h, ih]
  | case4 carried opening contents closing rest ih =>
    rw [Text.withReturns_nil] at ih
    simp [joinLines, ih]

theorem close_withReturns (opening closing : Token) (contents : List Bracketed) :
    close opening.withReturns (contents.map withReturns) closing.withReturns =
      (close opening contents closing).withReturns := by
  have hjoin := joinLines_withReturns [] contents
  rw [Text.withReturns_nil] at hjoin
  simp [close, hjoin]

end Bracketed

/-- An unpaired opening bracket and what follows it, with returns. -/
def OpenGroup.withReturns (g : OpenGroup) : OpenGroup :=
  ⟨g.opening.withReturns, g.contents.map Bracketed.withReturns⟩

namespace Nesting

/-- The unpaired brackets and all that was read, with returns. -/
def withReturns (n : Nesting) : Nesting :=
  ⟨n.stack.map OpenGroup.withReturns, n.outside.map Bracketed.withReturns⟩

theorem flatMap_spilled_withReturns (stack : List OpenGroup) :
    (stack.map OpenGroup.withReturns).flatMap OpenGroup.spilled =
      (stack.flatMap OpenGroup.spilled).map Bracketed.withReturns := by
  induction stack with
  | nil => rfl
  | cons g stack ih => simp [ih, OpenGroup.spilled, OpenGroup.withReturns]

theorem spilled_withReturns (n : Nesting) : n.withReturns.spilled = n.spilled.map Bracketed.withReturns := by
  simp [spilled, withReturns, flatMap_spilled_withReturns]

theorem add_withReturns (n : Nesting) (item : Bracketed) :
    n.withReturns.add item.withReturns = (n.add item).withReturns := by
  obtain ⟨_ | ⟨g, stack⟩, outside⟩ := n <;> simp [add, withReturns, OpenGroup.withReturns]

theorem close_withReturns (n : Nesting) (closing : Token) :
    n.withReturns.close closing.withReturns = (n.close closing).withReturns := by
  have hpairs : (fun g : OpenGroup => !g.opening.pairsWith closing.withReturns) ∘ OpenGroup.withReturns =
      fun g => !g.opening.pairsWith closing := by
    funext g
    simp [OpenGroup.withReturns]
  have hdrop : n.withReturns.stack.dropWhile (!·.opening.pairsWith closing.withReturns) =
      (n.stack.dropWhile (!·.opening.pairsWith closing)).map OpenGroup.withReturns := by
    rw [withReturns, List.dropWhile_map, hpairs]
  have htake : n.withReturns.stack.takeWhile (!·.opening.pairsWith closing.withReturns) =
      (n.stack.takeWhile (!·.opening.pairsWith closing)).map OpenGroup.withReturns := by
    rw [withReturns, List.takeWhile_map, hpairs]
  unfold close
  rw [hdrop, htake]
  cases n.stack.dropWhile (!·.opening.pairsWith closing) with
  | nil =>
    simp only [List.map_nil, spilled_withReturns]
    simp [withReturns]
  | cons g stack =>
    simp only [List.map_cons]
    rw [← add_withReturns, ← Bracketed.close_withReturns, flatMap_spilled_withReturns]
    simp [OpenGroup.withReturns, withReturns]

theorem next_withReturns (n : Nesting) (t : Token) : n.withReturns.next t.withReturns = (n.next t).withReturns := by
  unfold next
  rw [Token.isOpening_withReturns, Token.isClosing_withReturns]
  split
  · rfl
  · split
    · exact close_withReturns n t
    · rw [← add_withReturns, Bracketed.withReturns_token]

end Nesting

theorem Bracketed.ofTokens_withReturns (ts : List Token) :
    ofTokens (ts.map Token.withReturns) = (ofTokens ts).map withReturns := by
  have hfold (n : Nesting) : (ts.map Token.withReturns).foldl Nesting.next n.withReturns =
      (ts.foldl Nesting.next n).withReturns := by
    induction ts generalizing n with
    | nil => rfl
    | cons t ts ih => rw [List.map_cons, List.foldl_cons, List.foldl_cons, Nesting.next_withReturns, ih]
  have hempty := hfold .empty
  rw [ofTokens, ofTokens, List.map_reverse, ← Nesting.spilled_withReturns, ← hempty]
  rfl

/-! ## Trees -/

namespace Tree

mutual
/-- A tree with returns in all of its tokens. -/
def withReturns : Tree → Tree
  | .leaf t => .leaf t.withReturns
  | .node k cs => .node k (withReturnsAll cs)
@[inherit_doc withReturns]
def withReturnsAll : List Tree → List Tree
  | [] => []
  | c :: cs => withReturns c :: withReturnsAll cs
end

theorem withReturnsAll_eq_map (cs : List Tree) : withReturnsAll cs = cs.map withReturns := by
  induction cs with
  | nil => rfl
  | cons c cs ih => rw [withReturnsAll, ih, List.map_cons]

@[simp] theorem withReturns_leaf (t : Token) : withReturns (.leaf t) = .leaf t.withReturns := by rw [withReturns]

@[simp] theorem withReturns_node (k : NodeKind) (cs : List Tree) :
    withReturns (.node k cs) = .node k (cs.map withReturns) := by
  rw [withReturns, withReturnsAll_eq_map]

theorem tokensAll_withReturns {cs : List Tree}
    (h : ∀ c ∈ cs, c.withReturns.tokens = c.tokens.map Token.withReturns) :
    tokensAll (cs.map withReturns) = (tokensAll cs).map Token.withReturns := by
  induction cs with
  | nil => rfl
  | cons c cs ih =>
    obtain ⟨hc, hcs⟩ := List.forall_mem_cons.1 h
    simp [hc, ih hcs]

theorem tokens_withReturns (t : Tree) : t.withReturns.tokens = t.tokens.map Token.withReturns := by
  induction t with
  | leaf t => simp
  | node k cs ih => simp [tokensAll_withReturns ih]

theorem render_withReturns (t : Tree) : t.withReturns.render = t.render.withReturns := by
  rw [render, tokens_withReturns, Token.renderAll_withReturns, render]

/-! ### What a tree can be -/

@[simp] theorem isToken_withReturns (k : TokenKind) (t : Tree) : t.withReturns.isToken k = t.isToken k := by
  cases t <;> simp [isToken]

theorem isOperator_withReturns {op : Text} (h : '\n' ∉ op) (t : Tree) :
    t.withReturns.isOperator op = t.isOperator op := by
  cases t with
  | leaf t => simpa [isOperator] using Token.isOperator_withReturns h t
  | node k cs => simp [isOperator]

@[simp] theorem isSign_withReturns (t : Tree) : t.withReturns.isSign = t.isSign := by
  simp [isSign, isOperator_withReturns]

@[simp] theorem isMultiplicative_withReturns (t : Tree) : t.withReturns.isMultiplicative = t.isMultiplicative := by
  simp [isMultiplicative, isOperator_withReturns]

@[simp] theorem isPower_withReturns (t : Tree) : t.withReturns.isPower = t.isPower := isOperator_withReturns (by decide) t

@[simp] theorem isAwait_withReturns (t : Tree) : t.withReturns.isAwait = t.isAwait := by
  cases t with
  | leaf t =>
    simp [isAwait, isKeyword, Text.withReturns_eq_iff]
  | node k cs => simp [isAwait, isKeyword]

@[simp] theorem isAtom_withReturns (t : Tree) : t.withReturns.isAtom = t.isAtom := by
  cases t with
  | leaf t => simp [isAtom, Token.isOperator_withReturns]
  | node k cs => simp [isAtom]

@[simp] theorem isCallOrSubscript_withReturns (t : Tree) : t.withReturns.isCallOrSubscript = t.isCallOrSubscript := by
  cases t with
  | leaf t => simp [isCallOrSubscript]
  | node k cs =>
    rw [withReturns_node]
    unfold isCallOrSubscript
    cases cs with
    | nil => cases k <;> rfl
    | cons opening cs => cases k <;> simp [isOperator_withReturns]

/-! ### Operands -/

theorem collapse_withReturns (k : NodeKind) (ts : List Tree) :
    collapse k (ts.map withReturns) = (collapse k ts).withReturns := by
  match ts with
  | [] => simp [collapse]
  | [t] => simp [collapse]
  | t :: u :: ts => simp [collapse]

theorem asTrailer_withReturns (t : Tree) : t.withReturns.asTrailer = t.asTrailer.withReturns := by
  cases t <;> simp [asTrailer]

theorem atom?_withReturns (ts : List Tree) :
    atom? (ts.map withReturns) = (atom? ts).map fun (a, rest) => (a.withReturns, rest.map withReturns) := by
  cases ts with
  | nil => rfl
  | cons t ts =>
    have hstring : isToken .string ∘ withReturns = isToken .string := by
      funext t
      simp
    have hcollapse := collapse_withReturns .atom (t :: ts.takeWhile (isToken .string))
    rw [List.map_cons] at hcollapse
    simp only [List.map_cons, atom?, isAtom_withReturns, isToken_withReturns, List.takeWhile_map, List.dropWhile_map,
      hstring, hcollapse]
    split
    · rfl
    · split <;> rfl

theorem trailers_withReturns (ts : List Tree) :
    trailers (ts.map withReturns) = ((trailers ts).1.map withReturns, (trailers ts).2.map withReturns) := by
  fun_induction trailers ts with
  | case1 => rfl
  | case2 t ts h ih =>
    rw [List.map_cons, trailers.eq_def]
    simp [h, ih, asTrailer_withReturns]
  | case3 t h => simp [trailers, h]
  | case4 t h n ts hmember ih =>
    simp only [Bool.and_eq_true] at hmember
    simp [trailers, h, ih, hmember, isOperator_withReturns]
  | case5 t h n ts hmember =>
    have hmember' : t.isOperator ['.'] = true → n.isToken .name = false := by simpa using hmember
    simpa [trailers, h, isOperator_withReturns] using hmember'

theorem primary?_withReturns (ts : List Tree) : primary? (ts.map withReturns) =
    (primary? ts).map fun (parts, rest) => (parts.map withReturns, rest.map withReturns) := by
  cases ts with
  | nil => rfl
  | cons t ts =>
    have hwhole := atom?_withReturns (t :: ts)
    rw [List.map_cons] at hwhole
    simp only [List.map_cons, primary?, isAwait_withReturns, hwhole, atom?_withReturns]
    split
    · cases atom? ts <;> simp [trailers_withReturns]
    · cases atom? (t :: ts) <;> simp [trailers_withReturns]

/-- A factor without a sign, read without regard to termination. -/
theorem factor?_of_not_isSign {t : Tree} (h : t.isSign = false) (ts : List Tree) : factor? (t :: ts) =
    match primary? (t :: ts) with
    | none => none
    | some (parts, []) => some (collapse .power parts, [])
    | some (parts, op :: rest) =>
      match if op.isPower then factor? rest else none with
      | some (exponent, rest) => some (.node .power (parts ++ [op, exponent]), rest)
      | none => some (collapse .power parts, op :: rest) := by
  rw [factor?]
  simp only [h, Bool.false_eq_true, if_false]
  split
  · next heq => rw [heq]
  · next heq => rw [heq]
  · next heq => exact heq ▸ rfl

theorem factor?_withReturns (ts : List Tree) :
    factor? (ts.map withReturns) = (factor? ts).map fun (f, rest) => (f.withReturns, rest.map withReturns) := by
  have hprimary {t : Tree} {ts : List Tree} {p : Option (List Tree × List Tree)} (h : primary? (t :: ts) = p) :
      primary? (t.withReturns :: ts.map withReturns) =
        p.map fun (parts, rest) => (parts.map withReturns, rest.map withReturns) :=
    h ▸ primary?_withReturns (t :: ts)
  fun_induction factor? ts with
  | case1 => simp [factor?]
  | case2 t ts hsign ih =>
    rw [List.map_cons, factor?, isSign_withReturns, if_pos hsign, ih]
    cases factor? ts <;> simp
  | case3 t ts hsign h =>
    rw [List.map_cons, factor?_of_not_isSign (by simpa using hsign), hprimary h]
    rfl
  | case4 t ts hsign parts h =>
    rw [List.map_cons, factor?_of_not_isSign (by simpa using hsign), hprimary h]
    simp [collapse_withReturns]
  | case5 t ts hsign parts op rest h exponent rest' hpower ih =>
    rw [List.map_cons, factor?_of_not_isSign (by simpa using hsign), hprimary h]
    split at hpower
    · next hop =>
      simp [hop, ih, hpower]
    · simp at hpower
  | case6 t ts hsign parts op rest h hpower ih =>
    rw [List.map_cons, factor?_of_not_isSign (by simpa using hsign), hprimary h]
    by_cases hop : op.isPower = true
    · have hnone : factor? rest = none := by simpa [hop] using hpower
      simp [hop, ih, hnone, collapse_withReturns]
    · simp [hop, collapse_withReturns]

theorem multiplied_of_factor? {op f : Tree} {ts rest : List Tree} (hop : op.isMultiplicative = true)
    (h : factor? ts = some (f, rest)) :
    multiplied (op :: ts) = (op :: f :: (multiplied rest).1, (multiplied rest).2) := by
  rw [multiplied]
  split
  · next f' rest' h' =>
    rw [if_pos hop, h, Option.some.injEq, Prod.mk.injEq] at h'
    rw [h'.1, h'.2]
  · next h' =>
    rw [if_pos hop, h] at h'
    contradiction

theorem multiplied_of_none {op : Tree} {ts : List Tree} (h : (if op.isMultiplicative then factor? ts else none) = none) :
    multiplied (op :: ts) = ([], op :: ts) := by
  rw [multiplied]
  split
  · next h' => simp [h] at h'
  · rfl

theorem multiplied_withReturns (ts : List Tree) :
    multiplied (ts.map withReturns) = ((multiplied ts).1.map withReturns, (multiplied ts).2.map withReturns) := by
  fun_induction multiplied ts with
  | case1 => simp [multiplied]
  | case2 op ts f rest h ih =>
    split at h
    · next hop =>
      have hfactor : factor? (ts.map withReturns) = some (f.withReturns, rest.map withReturns) := by
        rw [factor?_withReturns, h, Option.map_some]
      rw [List.map_cons, multiplied_of_factor? (by simpa using hop) hfactor, ih]
      rfl
    · simp at h
  | case3 op ts h =>
    rw [List.map_cons, multiplied_of_none]
    · rfl
    · rw [isMultiplicative_withReturns, factor?_withReturns]
      split at h
      · next hop => simp [hop, h]
      · next hop => simp [hop]

theorem term?_withReturns (ts : List Tree) :
    term? (ts.map withReturns) = (term? ts).map fun (t, rest) => (t.withReturns, rest.map withReturns) := by
  rw [term?, term?, factor?_withReturns]
  cases factor? ts with
  | none => rfl
  | some p =>
    obtain ⟨f, rest⟩ := p
    have hcollapse := collapse_withReturns .term (f :: (multiplied rest).1)
    rw [List.map_cons] at hcollapse
    simp [multiplied_withReturns, hcollapse]

theorem groupOperands_withReturns (behindOperand : Bool) (ts : List Tree) :
    groupOperands behindOperand (ts.map withReturns) = (groupOperands behindOperand ts).map withReturns := by
  have hterm (b : Bool) (t : Tree) (ts : List Tree) :
      (if b && t.withReturns.isSign then none else term? (t.withReturns :: ts.map withReturns)) =
        (if b && t.isSign then none else term? (t :: ts)).map fun (t, rest) => (t.withReturns, rest.map withReturns) := by
    rw [isSign_withReturns, ← List.map_cons, term?_withReturns]
    split <;> rfl
  fun_induction groupOperands behindOperand ts with
  | case1 => simp [groupOperands]
  | case2 behindOperand t ts operand rest h ih =>
    have hreturns := hterm behindOperand t ts
    rw [dite_eq_ite] at h
    rw [h, Option.map_some] at hreturns
    rw [List.map_cons, groupOperands]
    split
    · next operand' rest' h' =>
      rw [hreturns, Option.some.injEq, Prod.mk.injEq] at h'
      rw [← h'.1, ← h'.2, ih, List.map_cons]
    · next h' => cases hreturns.symm.trans h'
  | case3 behindOperand t ts h ih =>
    have hreturns := hterm behindOperand t ts
    rw [dite_eq_ite] at h
    rw [h, Option.map_none] at hreturns
    rw [List.map_cons, groupOperands]
    split
    · next h' => cases hreturns.symm.trans h'
    · rw [ih, List.map_cons]

/-! ### Sources -/

theorem listed_withReturns (opening : Token) (ts : List Tree) :
    listed opening.withReturns (ts.map withReturns) = (listed opening ts).map withReturns := by
  have hcomma : isOperator [','] ∘ withReturns = isOperator [','] := by
    funext t
    exact isOperator_withReturns (by decide) t
  unfold listed
  rw [List.any_map, hcomma]
  simp only [Token.withReturns_text, Text.withReturns_eq_iff (u := ['(']) (by decide)]
  split <;> simp

mutual
theorem ofBracketed_withReturns : (b : Bracketed) → ofBracketed b.withReturns = (ofBracketed b).withReturns
  | .token t => by simp [ofBracketed]
  | .group opening contents closing => by
    simp [ofBracketed, ofBracketedAll_withReturns contents, groupOperands_withReturns, listed_withReturns]
theorem ofBracketedAll_withReturns : (bs : List Bracketed) →
    ofBracketedAll (bs.map Bracketed.withReturns) = (ofBracketedAll bs).map withReturns
  | [] => rfl
  | b :: bs => by simp [ofBracketedAll, ofBracketed_withReturns b, ofBracketedAll_withReturns bs]
end

/-- A source has the same tree with either line ending, unless a string between single marks goes over several lines. -/
theorem parse_withReturns {source : Text} (hreturn : '\r' ∉ source)
    (h : ∀ t ∈ Token.scan source, t.isJoined = false) : parse source.withReturns = (parse source).withReturns := by
  rw [parse, Token.scan_withReturns hreturn h, Bracketed.ofTokens_withReturns, ofBracketedAll_withReturns,
    groupOperands_withReturns, parse, withReturns_node]

end Tree

end Interpolation

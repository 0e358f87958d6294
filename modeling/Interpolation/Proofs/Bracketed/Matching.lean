import Interpolation.Proofs.Token.Lexeme

/-!
# Brackets as on a stack

The brackets of a source, taken as characters one after the other.

* `outside` — the characters of a source that are neither in strings nor in trivia, each with its place;
* `brackets` — the brackets among them;
* `Matching`, `Matching.next` — a stack of opening brackets; a closing bracket takes the topmost of its shape, and what
  it finds no partner for is discarded;
* `brackets_eq` — the brackets of a source are tokens by themselves, so that they are those of its tokens;
* `exists_newline_of_mem_outside` — a line break outside of strings and trivia is a token with its like.
-/

namespace Interpolation

/-! ## Places -/

namespace Token

/-- Some tokens, each with the place at which its text starts, if the trivia of the first one start at `first`. -/
def located (first : Nat) : List Token → List (Nat × Token)
  | [] => []
  | t :: ts => (first + t.trivia.length, t) :: located (first + t.render.length) ts

@[simp] theorem located_nil (first : Nat) : located first [] = [] := rfl

@[simp] theorem located_cons (first : Nat) (t : Token) (ts : List Token) :
    located first (t :: ts) = (first + t.trivia.length, t) :: located (first + t.render.length) ts := rfl

theorem located_append (first : Nat) (ts us : List Token) :
    located first (ts ++ us) = located first ts ++ located (first + (renderAll ts).length) us := by
  induction ts generalizing first with
  | nil => rfl
  | cons t ts ih =>
    rw [List.cons_append, located_cons, ih, located_cons, List.cons_append, renderAll_cons, List.length_append, render,
      Nat.add_assoc]

theorem mem_of_mem_located {first place : Nat} {t : Token} {ts : List Token} (h : (place, t) ∈ located first ts) :
    t ∈ ts := by
  induction ts generalizing first with
  | nil => simp at h
  | cons u ts ih =>
    rcases List.mem_cons.1 h with h | h
    · simp [(Prod.mk.inj h).2]
    · exact List.mem_cons_of_mem _ (ih h)

end Token

/-- A bracket and its place in a source. -/
structure Bracket where
  text : Text
  place : Nat
  deriving DecidableEq, Repr

namespace Bracket

def isOpening (b : Bracket) : Bool := bracketShapes.any fun (opening, _) => b.text = opening

def isClosing (b : Bracket) : Bool := bracketShapes.any fun (_, closing) => b.text = closing

/-- Whether an opening and a closing bracket have the same shape. -/
def pairsWith (opening closing : Bracket) : Bool := bracketShapes.contains (opening.text, closing.text)

theorem mem_brackets {c : Char} {place : Nat}
    (h : (isOpening ⟨[c], place⟩ || isClosing ⟨[c], place⟩) = true) : c ∈ Token.brackets := by
  simp only [isOpening, isClosing, bracketShapes, List.any_cons, List.any_nil, Bool.or_eq_true, decide_eq_true_eq,
    List.cons.injEq, and_true, Bool.or_false] at h
  rcases h with (rfl | rfl | rfl) | rfl | rfl | rfl <;> decide

end Bracket

/-- The characters of a source, each with its place, that are neither in strings nor in trivia, which are blanks,
comments and joined lines. -/
def outside (source : Text) : List (Char × Nat) :=
  (Token.located 0 (Token.scan source)).flatMap fun (place, t) => if t.kind = .string then [] else t.text.zipIdx place

/-- The brackets of a source in order. -/
def brackets (source : Text) : List Bracket :=
  ((outside source).map fun (c, place) => ⟨[c], place⟩).filter fun b => b.isOpening || b.isClosing

/-! ## The stack -/

/-- What has become of the brackets so far. -/
structure Matching where
  /-- The opening brackets that can still be paired, the last one first. -/
  stack : List Bracket
  /-- The brackets that are paired. -/
  pairs : List (Bracket × Bracket)
  /-- The brackets that are left without a partner. -/
  discarded : List Bracket

namespace Matching

/-- No bracket yet. -/
def empty : Matching := ⟨[], [], []⟩

/-- One more bracket. An opening bracket is pushed. A closing bracket is paired with the topmost opening bracket of its
shape and those above it are discarded; if there is none, all of them are discarded. -/
def next (m : Matching) (b : Bracket) : Matching :=
  if b.isOpening then { m with stack := b :: m.stack }
  else
    match m.stack.dropWhile (!·.pairsWith b) with
    | [] => ⟨[], m.pairs, m.discarded ++ b :: m.stack⟩
    | o :: below => ⟨below, m.pairs ++ [(o, b)], m.discarded ++ m.stack.takeWhile (!·.pairsWith b)⟩

/-- The matching of some brackets in order. -/
def ofBrackets (bs : List Bracket) : Matching := bs.foldl next empty

/-- The matching of the brackets of a source. -/
def ofSource (source : Text) : Matching := ofBrackets (brackets source)

/-- The brackets that are not paired: those that were discarded and the opening brackets that are left at the end. -/
def unpaired (m : Matching) : List Bracket := m.discarded ++ m.stack

/-- The place is between two brackets that are paired. -/
def Encloses (m : Matching) (place : Nat) : Prop := ∃ pair ∈ m.pairs, pair.1.place < place ∧ place < pair.2.place

theorem next_of_opening {b : Bracket} (h : b.isOpening = true) (m : Matching) :
    m.next b = { m with stack := b :: m.stack } := if_pos h

/-- A closing bracket that pairs with nothing leaves no bracket on the stack. -/
theorem next_of_unpaired {m : Matching} {b : Bracket} (hb : b.isOpening = false)
    (h : ∀ o ∈ m.stack, o.pairsWith b = false) : m.next b = ⟨[], m.pairs, m.discarded ++ b :: m.stack⟩ := by
  have hall : m.stack.dropWhile (!·.pairsWith b) = [] := List.dropWhile_eq_nil_iff.2 (by simpa using h)
  simp [next, hb, hall]

/-- A closing bracket takes the topmost bracket that it pairs with, and those above that are discarded. -/
theorem next_of_paired {b o : Bracket} {above below discarded : List Bracket} {pairs : List (Bracket × Bracket)}
    (hb : b.isOpening = false) (habove : ∀ o ∈ above, o.pairsWith b = false) (ho : o.pairsWith b = true) :
    (⟨above ++ o :: below, pairs, discarded⟩ : Matching).next b = ⟨below, pairs ++ [(o, b)], discarded ++ above⟩ := by
  have hall : ∀ o ∈ above, (!o.pairsWith b) = true := by simpa using habove
  simp only [next, hb]
  rw [List.dropWhile_append_of_pos hall, List.takeWhile_append_of_pos hall]
  simp [ho]

end Matching

/-! ## Brackets are tokens -/

/-- The brackets among some tokens. -/
def bracketsOf (first : Nat) (ts : List Token) : List Bracket :=
  ((Token.located first ts).filter fun (_, t) => t.isOpening || t.isClosing).map fun (place, t) => ⟨t.text, place⟩

theorem bracketsOf_append (first : Nat) (ts us : List Token) :
    bracketsOf first (ts ++ us) = bracketsOf first ts ++ bracketsOf (first + (Token.renderAll ts).length) us := by
  simp only [bracketsOf, Token.located_append, List.filter_append, List.map_append]

theorem bracketsOf_cons_of_plain {t : Token} (hopens : t.isOpening = false) (hcloses : t.isClosing = false)
    (first : Nat) (ts : List Token) : bracketsOf first (t :: ts) = bracketsOf (first + t.render.length) ts := by
  simp [bracketsOf, hopens, hcloses]

theorem bracketsOf_cons_of_bracket {t : Token} (h : t.isOpening = true ∨ t.isClosing = true) (first : Nat)
    (ts : List Token) : bracketsOf first (t :: ts) =
      ⟨t.text, first + t.trivia.length⟩ :: bracketsOf (first + t.render.length) ts := by
  simp only [bracketsOf, Token.located_cons]
  rw [List.filter_cons_of_pos (by simpa using h), List.map_cons]

/-- The characters of a token among which a bracket stands are that bracket. -/
theorem brackets_token {t : Token} (h : t.IsLexeme ∨ t.text = []) (first : Nat) :
    ((if t.kind = .string then [] else t.text.zipIdx (first + t.trivia.length)).map
      fun (c, place) => (⟨[c], place⟩ : Bracket)).filter (fun b => b.isOpening || b.isClosing) =
      bracketsOf first [t] := by
  by_cases hunknown : t.kind = .unknown
  · rcases h with h | h
    · obtain ⟨c, hc⟩ := List.length_eq_one_iff.1 (h.length_of_unknown hunknown)
      have hopening : t.isOpening = Bracket.isOpening ⟨[c], first + t.trivia.length⟩ := by
        simp [Token.isOpening, Bracket.isOpening, hunknown, hc]
      have hclosing : t.isClosing = Bracket.isClosing ⟨[c], first + t.trivia.length⟩ := by
        simp [Token.isClosing, Bracket.isClosing, hunknown, hc]
      simp only [bracketsOf, Token.located_cons, Token.located_nil, List.filter_cons, List.filter_nil, hopening,
        hclosing, hc, hunknown, List.zipIdx_cons, List.zipIdx_nil, if_neg (by decide : TokenKind.unknown ≠ .string),
        List.map_cons, List.map_nil]
      split
      · rw [List.map_singleton, hc]
      · rfl
    · have hplain : t.isOpening = false ∧ t.isClosing = false := by
        simp [Token.isOpening, Token.isClosing, h, bracketShapes]
      rw [bracketsOf_cons_of_plain hplain.1 hplain.2, h]
      simp [bracketsOf]
  · rw [bracketsOf_cons_of_plain (by simp [Token.isOpening, hunknown]) (by simp [Token.isClosing, hunknown])]
    refine List.filter_eq_nil_iff.2 fun b hb hbracket => ?_
    obtain ⟨⟨c, place⟩, hc, rfl⟩ := List.mem_map.1 hb
    split at hc
    · simp at hc
    · next hstring =>
      have hmem : c ∈ t.text := List.fst_mem_of_mem_zipIdx hc
      rcases h with h | h
      · exact hunknown (h.unknown_of_bracket hstring hmem (Bracket.mem_brackets hbracket))
      · simp [h] at hmem

/-- The brackets of a source are those of its tokens. -/
theorem brackets_eq (source : Text) : brackets source = bracketsOf 0 (Token.scan source) := by
  have hall : ∀ t ∈ Token.scan source, t.IsLexeme ∨ t.text = [] := fun t => Token.isLexeme_or_nil_of_mem_scan
  rw [brackets, outside]
  generalize Token.scan source = ts at hall
  generalize 0 = first
  induction ts generalizing first with
  | nil => rfl
  | cons t ts ih =>
    obtain ⟨ht, hts⟩ := List.forall_mem_cons.1 hall
    have happend : bracketsOf first (t :: ts) = bracketsOf first [t] ++ bracketsOf (first + t.render.length) ts := by
      have h := bracketsOf_append first [t] ts
      rwa [List.singleton_append, Token.renderAll, List.flatMap_singleton] at h
    rw [happend, ← brackets_token ht, ← ih hts, Token.located_cons, List.flatMap_cons, List.map_append,
      List.filter_append]

/-- A line break that is not in a string or trivia is in a token that is a line break. -/
theorem exists_newline_of_mem_outside {source : Text} {c : Char} {i : Nat} (h : (c, i) ∈ outside source)
    (hbreak : isBreak c = true) : ∃ place t, (place, t) ∈ Token.located 0 (Token.scan source) ∧ t.kind = .newline ∧
      place ≤ i ∧ i < place + t.text.length := by
  obtain ⟨⟨place, t⟩, ht, hc⟩ := List.mem_flatMap.1 h
  dsimp only at hc
  split at hc
  · simp at hc
  · next hstring =>
    have hmem : c ∈ t.text := List.fst_mem_of_mem_zipIdx hc
    obtain ⟨hfirst, hlast, -⟩ := List.mem_zipIdx hc
    rcases Token.isLexeme_or_nil_of_mem_scan (Token.mem_of_mem_located ht) with hlexeme | hnil
    · exact ⟨place, t, ht, hlexeme.newline_of_isBreak hstring hmem hbreak, hfirst, hlast⟩
    · simp [hnil] at hmem

end Interpolation

import Interpolation.Token.Literal
import Interpolation.Token.Trivia
import Interpolation.Token.Number
import Interpolation.Proofs.Text.Recognizer

/-!
# Line endings

* `Text.withReturns` — a text with a carriage return in front of every line feed;
* `Recognizer.Commutes` — a recognizer that takes the same piece whichever line ending a text uses. Every recognizer
  that takes no line break commutes, and so do the combinations of those that do;
* `lineBreak_withReturns`, `Trivia.split_withReturns` — line breaks, and trivia with joined lines, commute where there
  was no return before.
-/

namespace Interpolation

/-- A text with a carriage return in front of every line feed. -/
def Text.withReturns (t : Text) : Text := t.flatMap fun c => if c = '\n' then ['\r', '\n'] else [c]

namespace Text

@[simp] theorem withReturns_nil : withReturns [] = [] := rfl

@[simp]
theorem withReturns_append (t u : Text) : withReturns (t ++ u) = t.withReturns ++ u.withReturns := List.flatMap_append

@[simp] theorem withReturns_newline (t : Text) : withReturns ('\n' :: t) = '\r' :: '\n' :: t.withReturns := rfl

theorem withReturns_cons {c : Char} (h : c ≠ '\n') (t : Text) : withReturns (c :: t) = c :: t.withReturns := by
  simp [withReturns, h]

/-- A text in one line stays as it is. -/
theorem withReturns_eq_self {t : Text} (h : '\n' ∉ t) : t.withReturns = t := by
  induction t with
  | nil => rfl
  | cons c t ih =>
    obtain ⟨hc, ht⟩ : '\n' ≠ c ∧ '\n' ∉ t := by simpa using h
    rw [withReturns_cons hc.symm, ih ht]

@[simp]
theorem newline_mem_withReturns (t : Text) : '\n' ∈ t.withReturns ↔ '\n' ∈ t := by
  induction t with
  | nil => rfl
  | cons c t ih =>
    by_cases hc : c = '\n'
    · simp [hc]
    · rw [withReturns_cons hc, List.mem_cons, ih, List.mem_cons]

@[simp]
theorem withReturns_eq_nil_iff (t : Text) : t.withReturns = [] ↔ t = [] := by
  cases t with
  | nil => simp
  | cons c t =>
    by_cases hc : c = '\n'
    · simp [hc]
    · simp [withReturns_cons hc]

/-- A piece without line breaks at the front is the same whichever line ending the text uses. -/
theorem exists_of_withReturns_eq_append {t u rest : Text} (hfeed : '\n' ∉ u) (hreturn : '\r' ∉ u)
    (h : t.withReturns = u ++ rest) : ∃ rest', t = u ++ rest' ∧ rest = rest'.withReturns := by
  induction u generalizing t with
  | nil => exact ⟨t, rfl, h.symm⟩
  | cons c u ih =>
    obtain ⟨hc, hu⟩ : '\n' ≠ c ∧ '\n' ∉ u := by simpa using hfeed
    obtain ⟨hc', hu'⟩ : '\r' ≠ c ∧ '\r' ∉ u := by simpa using hreturn
    cases t with
    | nil => simp at h
    | cons d t =>
      by_cases hd : d = '\n'
      · subst hd
        simp [hc'] at h
      · rw [withReturns_cons hd, List.cons_append, List.cons.injEq] at h
        obtain ⟨rest', rfl, hrest⟩ := ih hu hu' h.2
        exact ⟨rest', by rw [h.1, List.cons_append], hrest⟩

/-- Texts that differ have different forms with returns, as far as those in one line are concerned. -/
theorem withReturns_eq_iff {t u : Text} (hu : '\n' ∉ u) : t.withReturns = u ↔ t = u := by
  constructor
  · intro h
    have ht : '\n' ∉ t := fun hmem => hu (h ▸ (newline_mem_withReturns t).2 hmem)
    rwa [withReturns_eq_self ht] at h
  · rintro rfl
    exact withReturns_eq_self hu

end Text

namespace Recognizer

/-- The piece and the rest with returns. -/
def addReturns (p : Text × Text) : Text × Text := (p.1.withReturns, p.2.withReturns)

/-- At the text `s` the recognizer takes the same piece whichever line ending the text uses. -/
def CommutesAt (a : Recognizer) (s : Text) : Prop := a s.withReturns = (a s).map addReturns

/-- The recognizer takes the same pieces whichever line ending a text uses. -/
def Commutes (a : Recognizer) : Prop := ∀ s, a.CommutesAt s

/-- A class of characters that are no line breaks. -/
def InLine (p : Char → Bool) : Prop := p '\n' = false ∧ p '\r' = false

instance (p : Char → Bool) : Decidable (InLine p) := inferInstanceAs (Decidable (_ ∧ _))

theorem commutes_one {p : Char → Bool} (hp : InLine p) : Commutes (one p) := by
  intro s
  cases s with
  | nil => rfl
  | cons c s =>
    by_cases hc : c = '\n'
    · subst hc
      simp [CommutesAt, one, hp.1, hp.2]
    · rw [CommutesAt, Text.withReturns_cons hc, one, one]
      split
      · simp [addReturns, Text.withReturns_cons hc]
      · rfl

theorem takeWhile_withReturns {p : Char → Bool} (hp : InLine p) (s : Text) :
    s.withReturns.takeWhile p = Text.withReturns (s.takeWhile p) ∧
      s.withReturns.dropWhile p = Text.withReturns (s.dropWhile p) := by
  induction s with
  | nil => exact ⟨rfl, rfl⟩
  | cons c s ih =>
    by_cases hc : c = '\n'
    · subst hc
      simp [hp.1, hp.2]
    · rw [Text.withReturns_cons hc]
      cases hpc : p c
      · simp [hpc, Text.withReturns_cons hc]
      · simp [hpc, ih, Text.withReturns_cons hc]

theorem commutes_many {p : Char → Bool} (hp : InLine p) : Commutes (many p) := by
  intro s
  obtain ⟨htake, hdrop⟩ := takeWhile_withReturns hp s
  rw [CommutesAt, many, htake, hdrop]
  rfl

/-- A recognizer that is given by the pieces it takes, none of which has a line break. -/
theorem commutes_of_pieces {a : Recognizer} {piece : Text → Prop}
    (ha : ∀ s t rest, a s = some (t, rest) ↔ piece t ∧ s = t ++ rest)
    (hpiece : ∀ t, piece t → '\n' ∉ t ∧ '\r' ∉ t) : Commutes a := by
  intro s
  rw [CommutesAt]
  ext ⟨t, rest⟩
  simp only [Option.map_eq_some_iff, addReturns, Prod.exists, Prod.mk.injEq, ha]
  constructor
  · rintro ⟨ht, hs⟩
    obtain ⟨hfeed, hreturn⟩ := hpiece t ht
    obtain ⟨rest', rfl, rfl⟩ := Text.exists_of_withReturns_eq_append hfeed hreturn hs
    exact ⟨t, rest', ⟨ht, rfl⟩, Text.withReturns_eq_self hfeed, rfl⟩
  · rintro ⟨u, rest', ⟨hu, rfl⟩, rfl, rfl⟩
    rw [Text.withReturns_eq_self (hpiece u hu).1, Text.withReturns_append, Text.withReturns_eq_self (hpiece u hu).1]
    exact ⟨hu, rfl⟩

theorem commutes_exactly {u : Text} (hfeed : '\n' ∉ u) (hreturn : '\r' ∉ u) : Commutes (exactly u) :=
  commutes_of_pieces (fun _ _ _ => exactly_eq_some_iff) (by simpa using ⟨hfeed, hreturn⟩)

theorem commutes_caseless {u : Text} (hfeed : '\n' ∉ u) (hreturn : '\r' ∉ u) : Commutes (caseless u) := by
  refine commutes_of_pieces (fun _ _ _ => caseless_eq_some_iff) ?_
  rintro t rfl
  exact ⟨fun h => hfeed (List.mem_map.2 ⟨_, h, by decide⟩), fun h => hreturn (List.mem_map.2 ⟨_, h, by decide⟩)⟩

/-! ## Combinations -/

theorem CommutesAt.andThen {a b : Recognizer} {s : Text} (ha : a.CommutesAt s)
    (hb : ∀ t rest, a s = some (t, rest) → b.CommutesAt rest) : (a.andThen b).CommutesAt s := by
  rw [CommutesAt, Recognizer.andThen, Recognizer.andThen, ha]
  cases hs : a s with
  | none => rfl
  | some p =>
    obtain ⟨t, rest⟩ := p
    have hrest := hb t rest hs
    rw [CommutesAt] at hrest
    simp only [Option.map_some, addReturns, Option.bind_some, hrest, Option.map_map]
    congr 1
    funext q
    simp [addReturns]

theorem CommutesAt.orElse {a b : Recognizer} {s : Text} (ha : a.CommutesAt s) (hb : b.CommutesAt s) :
    (a.orElse b).CommutesAt s := by
  rw [CommutesAt, Recognizer.orElse, Recognizer.orElse, ha, hb]
  cases a s <;> rfl

theorem CommutesAt.optional {a : Recognizer} {s : Text} (ha : a.CommutesAt s) : a.optional.CommutesAt s := by
  rw [CommutesAt, Recognizer.optional, Recognizer.optional, ha]
  cases a s <;> rfl

theorem Commutes.andThen {a b : Recognizer} (ha : Commutes a) (hb : Commutes b) : Commutes (a.andThen b) :=
  fun s => (ha s).andThen fun _ _ _ => hb _

theorem Commutes.orElse {a b : Recognizer} (ha : Commutes a) (hb : Commutes b) : Commutes (a.orElse b) :=
  fun s => (ha s).orElse (hb s)

theorem Commutes.optional {a : Recognizer} (ha : Commutes a) : Commutes a.optional := fun s => (ha s).optional

theorem commutes_firstOf {rs : List Recognizer} (h : ∀ r ∈ rs, Commutes r) : Commutes (firstOf rs) := by
  intro s
  induction rs with
  | nil => rfl
  | cons r rs ih =>
    obtain ⟨hr, hrs⟩ := List.forall_mem_cons.1 h
    rw [firstOf_cons]
    exact (hr s).orElse (ih hrs)

theorem Commutes.restrict {a : Recognizer} (ha : Commutes a) {p : Text → Bool} (hp : ∀ t, p t.withReturns = p t) :
    Commutes (a.restrict p) := by
  intro s
  rw [CommutesAt, Recognizer.restrict, Recognizer.restrict, ha s]
  cases hs : a s with
  | none => rfl
  | some q => simp only [Option.map_some, Option.filter_some, addReturns, hp]; split <;> rfl

end Recognizer

/-! ## Numbers -/

namespace Number

open Recognizer

theorem commutes_digits : Commutes digits := (commutes_one (by decide)).andThen (commutes_many (by decide))

theorem commutes_based {letter : Char} {isDigit : Char → Bool} (hletter : InLine (·.toLower = letter))
    (hdigit : InLine isDigit) : Commutes (based letter isDigit) := by
  have hlow : InLine fun c => isDigit c || c = '_' := by simp [InLine, hdigit.1, hdigit.2]
  exact ((commutes_one (by decide)).andThen (commutes_one hletter)).andThen
    ((commutes_one hlow).andThen (commutes_many hlow))

theorem commutes_exponent : Commutes exponent :=
  ((commutes_one (by decide)).andThen (commutes_one (by decide)).optional).andThen commutes_digits

theorem commutes_decimal : Commutes decimal :=
  ((commutes_digits.andThen ((commutes_one (by decide)).andThen commutes_digits.optional).optional).orElse
    ((commutes_one (by decide)).andThen commutes_digits)).andThen commutes_exponent.optional

theorem commutes_number : Commutes number := by
  refine (commutes_firstOf ?_).andThen ((commutes_one (by decide)).orElse (commutes_one (by decide))).optional
  simp only [List.forall_mem_cons, List.not_mem_nil, false_implies, implies_true, and_true]
  exact ⟨commutes_based (by decide) (by decide), commutes_based (by decide) (by decide),
    commutes_based (by decide) (by decide), commutes_decimal⟩

end Number

/-! ## Line breaks and trivia -/

theorem lineBreak_withReturns {s : Text} (h : '\r' ∉ s) : lineBreak.CommutesAt s := by
  cases s with
  | nil => rfl
  | cons c s =>
    by_cases hc : c = '\n'
    · subst hc
      rfl
    · have hc' : c ≠ '\r' := fun heq => h (heq ▸ List.mem_cons_self)
      rw [Recognizer.CommutesAt, Text.withReturns_cons hc]
      simp [lineBreak, Recognizer.firstOf, Recognizer.exactly, hc, hc']

theorem Trivia.split_withReturns {s : Text} (h : '\r' ∉ s) :
    Trivia.split s.withReturns = ((Trivia.split s).1.withReturns, (Trivia.split s).2.withReturns) := by
  fun_induction Trivia.split s with
  | case1 => rfl
  | case2 c s hblank ih =>
    have hc : c ≠ '\n' := by
      rintro rfl
      exact absurd hblank (by decide)
    have hrest := ih fun hmem => h (List.mem_cons_of_mem _ hmem)
    rw [Text.withReturns_cons hc, split_blank hblank, hrest, Text.withReturns_cons hc]
  | case3 s hblank =>
    obtain ⟨htake, hdrop⟩ := Recognizer.takeWhile_withReturns (p := (!isBreak ·)) (by decide) ('#' :: s)
    rw [Text.withReturns_cons (by decide)] at htake hdrop ⊢
    rw [split_comment, htake, hdrop]
  | case4 => simp at h
  | case5 => simp at h
  | case6 s _ _ ih =>
    have hrest := ih fun hmem => h (by simp [hmem])
    rw [Text.withReturns_cons (by decide), Text.withReturns_newline, split]
    simp only [hrest]
    simp [isBlank, Text.withReturns_cons]
  | case7 s hpair hreturn hfeed hblank _ =>
    rw [Text.withReturns_cons (by decide)]
    cases s with
    | nil => rfl
    | cons d s =>
      have hd : d ≠ '\n' := fun heq => hfeed s (heq ▸ rfl)
      have hd' : d ≠ '\r' := fun heq => hreturn s (heq ▸ rfl)
      rw [Text.withReturns_cons hd]
      simp [split, isBlank, hd, hd']
  | case8 c s hblank hcomment hjoin =>
    by_cases hc : c = '\n'
    · subst hc
      exact split_eq_self (by decide) (by decide) (by decide) _
    · rw [Text.withReturns_cons hc, split_eq_self (by simpa using hblank) hcomment hjoin]
      rfl

end Interpolation

import Interpolation.Proofs.Rewriting.Output
import Interpolation.Proofs.Transform.Size

/-!
# The leading letters of a literal

A literal is marked by an `f`, and a format string that starts with an `f` is taken for marked. The letters in front of a
literal make it a single string where they are one of `Literal.leads`. So a format string without letters, with `r`, or
with an `f` as its first letter gives a literal with one `f`; behind any other letters the mark is an `f` too many, or
does not go with them.

* `Literal.letters` — the letters in front of a literal;
* `Literal.lead_eq_some_iff` — which letters can lead a literal;
* `Literal.MarkedOnce` — a literal that is a single string with one `f` among its letters;
* `Literal.markedOnce_markInterpolated_iff` — the format strings that give such a literal;
* `Pattern.markedOnce_iff` — the same for what becomes of the expressions of a source.
-/

namespace Interpolation

open Identifier (isContinue)
open Pattern (interpolation)
open Token (lexeme?)

namespace Literal

/-- The letters in front of a literal. -/
def letters (t : Text) : Text := t.takeWhile isLetter

/-- The literal is a single string, and one of its letters is an `f` in either case. -/
@[mk_iff]
structure MarkedOnce (t : Text) : Prop where
  string : lexeme? t = some (.string, t, [])
  once : ((letters t).map Char.toLower).count 'f' = 1

instance (t : Text) : Decidable (MarkedOnce t) := decidable_of_iff _ (markedOnce_iff t).symm

variable {l s t rest : Text} {as : List Text}

/-- Where no choice is longer than one in front of it, a text that is one of the choices is taken as a whole. -/
theorem firstOf_caseless {us : List Text} (hus : us.Pairwise fun u v => v.length ≤ u.length)
    (h : l.map Char.toLower ∈ us) : Recognizer.firstOf (us.map .caseless) l = some (l, []) := by
  induction us with
  | nil => cases h
  | cons u us ih =>
    rw [List.pairwise_cons] at hus
    rw [List.map_cons, Recognizer.firstOf_cons, Recognizer.orElse]
    cases hu : Recognizer.caseless u l with
    | none =>
      have hne : l.map Char.toLower ≠ u := by
        intro heq
        rw [Recognizer.caseless_eq_some_iff.2 ⟨heq, (List.append_nil l).symm⟩] at hu
        cases hu
      rw [Option.none_or]
      exact ih hus.2 ((List.mem_cons.1 h).resolve_left hne)
    | some p =>
      obtain ⟨t, rest⟩ := p
      obtain ⟨rfl, rfl⟩ := Recognizer.caseless_eq_some_iff.1 hu
      have hle : (t ++ rest).length ≤ t.length := by
        rcases List.mem_cons.1 h with heq | hmem
        · simpa using (congrArg List.length heq).le
        · simpa using hus.1 _ hmem
      have hrest : rest = [] := by
        rw [List.length_append] at hle
        exact List.length_eq_zero_iff.1 (by omega)
      rw [hrest, List.append_nil, Option.some_or]

/-- Letters lead a literal if they are one of the choices, in either case. -/
theorem lead_eq_some_iff : lead l = some (l, []) ↔ l.map Char.toLower ∈ leads := by
  constructor
  · intro h
    obtain ⟨a, ha, hs⟩ := List.exists_of_findSome?_eq_some h
    obtain ⟨u, hu, rfl⟩ := List.mem_map.1 ha
    obtain ⟨rfl, -⟩ := Recognizer.caseless_eq_some_iff.1 hs
    exact hu
  · exact firstOf_caseless (by decide)

/-- A literal with an `f` in front is a single string if its letters can lead it. -/
theorem Interpolated.lexeme?_iff (h : Interpolated t) :
    lexeme? t = some (.string, t, []) ↔ (letters t).map Char.toLower ∈ leads := by
  obtain @⟨l, b, q, hl, hq, hb, hcontent⟩ := h
  obtain ⟨marks, hmarks⟩ := q.exists_delimiter_eq
  have hfront : 'f' :: l ++ (q.delimiter ++ b) = 'f' :: l ++ q.mark :: (marks ++ b) := by rw [hmarks]; rfl
  have hletters : letters ('f' :: l ++ (q.delimiter ++ b)) = 'f' :: l := by
    rw [hfront]
    exact (takeWhile_letters hq (List.forall_mem_cons.2 ⟨by decide, hl⟩) _).1
  rw [hletters, ← lead_eq_some_iff]
  constructor
  · intro hstring
    by_contra hlead
    rw [hfront, lexeme?_name hq hl hlead] at hstring
    cases hstring
  · intro hlead
    simpa using lexeme?_lettered hq hb hcontent hlead []

/-- A literal is made of its letters and what begins with its mark. -/
theorem exists_of_letters (hs : literal (s ++ rest) = some (s, rest)) : ∃ q ∈ Quote.all, ∃ u,
    s = letters s ++ q.mark :: u ∧ (letters s = [] ∨ (letters s).map Char.toLower ∈ leads) := by
  obtain ⟨l, u, s', q, hlead, hq, hquoted, rfl⟩ := exists_of_literal hs
  obtain ⟨u, rfl, -⟩ := Quote.exists_of_quoted hquoted
  have hletters : letters (l ++ q.mark :: u) = l := (takeWhile_letters hq (isLetter_of_lead hlead) u).1
  exact ⟨q, hq, u, by rw [hletters], by rw [hletters]; exact mem_leads_of_lead hlead⟩

/-- Filling the placeholders keeps the letters in front, so that it is the letters that are marked. -/
theorem letters_markInterpolated (hs : literal (s ++ rest) = some (s, rest))
    (hwords : ∀ a ∈ as, ∀ c ∈ a, isContinue c = true) (ht : substitute s as = .ok t) :
    letters (markInterpolated t) = markInterpolated (letters s) := by
  obtain ⟨q, hq, u, heq, -⟩ := exists_of_letters hs
  have hl : ∀ c ∈ letters s, isLetter c = true := fun c hc => List.mem_takeWhile_imp hc
  have hmark : q.mark ≠ '%' ∧ q.mark ≠ 'f' := by rcases Quote.mark_of_mem hq with h | h <;> rw [h] <;> decide
  rw [heq] at ht
  obtain ⟨t, rfl, ht'⟩ := (filled_of_substitute hwords ht).of_append (percent_not_mem hl)
  obtain ⟨t, rfl, -⟩ := ht'.of_cons hmark.1
  have hletters : letters (letters s ++ q.mark :: t) = letters s := (takeWhile_letters hq hl t).1
  have hhead : (letters s ++ q.mark :: t).head? = some 'f' ↔ (letters s).head? = some 'f' := by
    cases letters s <;> simp [hmark.2]
  unfold markInterpolated
  by_cases hf : (letters s).head? = some 'f'
  · rw [if_pos (hhead.2 hf), if_pos hf, hletters]
  · rw [if_neg (mt hhead.1 hf), if_neg hf, letters, List.takeWhile_cons_of_pos (by decide), ← letters, hletters]

/-- A format string gives a single string with one `f` among its letters if its first letter is an `f`, or if it has no
letters but `r`. -/
theorem markedOnce_markInterpolated_iff (hs : literal (s ++ rest) = some (s, rest)) (hcount : placeholderCount s ≠ 0)
    (hwords : ∀ a ∈ as, ∀ c ∈ a, isContinue c = true) (ht : substitute s as = .ok t) :
    MarkedOnce (markInterpolated t) ↔ (letters s).head? = some 'f' ∨ ∀ c ∈ letters s, c.toLower = 'r' := by
  have hstring := (interpolated_of_substitute hs hcount hwords ht).lexeme?_iff
  obtain ⟨-, -, -, -, hleads⟩ := exists_of_letters hs
  rw [markedOnce_iff, hstring, letters_markInterpolated hs hwords ht, markInterpolated]
  by_cases hf : (letters s).head? = some 'f'
  · rw [if_pos hf]
    have hmem : (letters s).map Char.toLower ∈ leads := by
      refine hleads.resolve_left fun hnil => ?_
      rw [hnil] at hf
      cases hf
    have hone : ∀ u ∈ leads, 'f' ∈ u → u.count 'f' = 1 := by decide
    have hlower : 'f' ∈ (letters s).map Char.toLower := List.mem_map.2 ⟨'f', List.mem_of_head? hf, by decide⟩
    exact ⟨fun _ => .inl hf, fun _ => ⟨hmem, hone _ hmem hlower⟩⟩
  · rw [if_neg hf, or_iff_right hf]
    have hmark : ∀ u ∈ [] :: leads, ('f' :: u ∈ leads ∧ ('f' :: u).count 'f' = 1) ↔ ∀ c ∈ u, c = 'r' := by decide
    have hletters := hmark ((letters s).map Char.toLower) (List.mem_cons.2 (hleads.imp_left (by simp [·])))
    rw [List.forall_mem_map] at hletters
    exact hletters

end Literal

namespace Pattern

open Literal (MarkedOnce letters)

/-- Of the literals that a transformation makes, those are single strings with one `f` among their letters whose format
string has an `f` as its first letter, or no letters but `r`. -/
theorem markedOnce_literal_iff (source : Text) : ∀ a ∈ (interpolation.transform source).attempts, ∀ e literal,
    a.visited = some (e, .interpolated literal) →
      ∃ s, e.tokenAt? a.selected.captures.formatString = some s ∧ s.kind = .string ∧
        (MarkedOnce literal ↔ (letters s.text).head? = some 'f' ∨ ∀ c ∈ letters s.text, c.toLower = 'r') := by
  intro a ha e literal hvisited
  rw [attempts_transform] at ha
  obtain ⟨e', he, hshape, hvisited'⟩ := interpolates_of_mem_attempts ha
  obtain ⟨rfl, houtcome⟩ := Prod.mk.inj (Option.some.inj (hvisited'.symm.trans hvisited))
  obtain ⟨s, op, operand, rfl, hstring, -, hformat⟩ := hshape.exists_eq
  obtain ⟨hcount, text, hsubstitute, rfl⟩ := (Tree.literal?_eq_some_iff ⟨_, hshape⟩).1
    (Tree.literal?_of_interpolates hshape houtcome)
  have hitems : ∀ u ∈ s :: operand.tokens, u ∈ Bracketed.tokensAll (Bracketed.ofTokens (Token.scan source)) := by
    obtain ⟨after, hafter⟩ := Tree.exists_tokens_eq he
    rw [← Tree.tokens_parse, hafter]
    intro u hu
    rcases List.mem_cons.1 hu with rfl | hu
    · simp
    · simp [hu]
  have hwords := isContinue_of_names fun u hu => hitems u (List.mem_cons_of_mem _ hu)
  obtain ⟨r, rest, hread⟩ := exists_literal_of_string (hitems s List.mem_cons_self) hstring
  have hsplit := Literal.literal_splits r s.text rest hread
  rw [← hsplit] at hread
  have hholes : placeholderCount s.text ≠ 0 := by
    rw [hcount]
    exact mt List.length_eq_zero_iff.1 (Tree.names_ne_nil_of_interpolates hshape)
  refine ⟨s, ?_, hstring, Literal.markedOnce_markInterpolated_iff hread hholes hwords hsubstitute⟩
  rw [hformat]
  rfl

/-- A raw format string. -/
theorem markedOnce_literal_raw :
    let source : Text := "R'%s' % x".toList
    ∃ a ∈ (interpolation.transform source).attempts, ∃ e, a.visited = some (e, .interpolated "fR'\x7bx\x7d'".toList) ∧
      MarkedOnce "fR'\x7bx\x7d'".toList := by
  intro source
  have h : ∃ a ∈ (interpolation.transform source).attempts, ∃ v ∈ a.visited,
      v.2 = .interpolated "fR'\x7bx\x7d'".toList ∧
        v.1.tokenAt? a.selected.captures.formatString = some ⟨.string, [], "R'%s'".toList⟩ := by decide +kernel
  obtain ⟨a, ha, ⟨e, outcome⟩, hvisited, rfl, hs⟩ := h
  obtain ⟨s, hs', -, honce⟩ := markedOnce_literal_iff source a ha e _ hvisited
  obtain rfl := Option.some.inj (hs.symm.trans hs')
  exact ⟨a, ha, e, hvisited, honce.2 (.inr (by decide))⟩

/-- A capital `F` is a letter of a string, but the format string is marked again, and the letters are a name then. -/
theorem not_markedOnce_capital :
    let source : Text := "F'%s' % x".toList
    lexeme? "F'%s'".toList = some (.string, "F'%s'".toList, []) ∧
    (∃ a ∈ (interpolation.transform source).attempts, ∃ v ∈ a.visited,
      v.2 = .interpolated "fF'\x7bx\x7d'".toList ∧
        v.1.tokenAt? a.selected.captures.formatString = some ⟨.string, [], "F'%s'".toList⟩) ∧
    lexeme? "fF'\x7bx\x7d'".toList = some (.name, "fF".toList, "'\x7bx\x7d'".toList) ∧
    ¬ MarkedOnce "fF'\x7bx\x7d'".toList := by
  decide +kernel

end Pattern

end Interpolation

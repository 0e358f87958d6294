import Interpolation.Diff.Unified
import Interpolation.Proofs.Diff.Patch
import Mathlib.Data.List.Basic

/-!
# Patches as text

* `Patch.Line` — a line of a patch: the header of a hunk, a marked line, or the note behind a line without a line feed;
* `Patch.read` — the patch that a text holds. The header of each hunk must name the true numbers of its lines;
* `Patch.read_flatMap_render` — the hunks of a unified diff are read as the hunks of the script;
* `exists_patch_of_ne` — behind its labels a unified diff is a patch that leads from each text to the other;
* `unifiedDiff_exact` — a unified diff is empty only if the texts are equal, and otherwise is an exact patch.
-/

namespace Interpolation

namespace Patch

/-! ## Reading -/

/-- A line of a patch. -/
inductive Line where
  | header (old new : Nat × Nat)
  | edit (op : EditOp) (text : Text)
  | note
  deriving DecidableEq, Repr

/-- The decimal number at the front of a text, with the rest of the text. -/
def number? (t : Text) : Option (Nat × Text) :=
  match t.takeWhile Char.isDigit with
  | [] => none
  | digits => some (Nat.ofDigitChars 10 digits 0, t.dropWhile Char.isDigit)

/-- The start and the length at the front of a text, with the rest of the text. -/
def range? (t : Text) : Option ((Nat × Nat) × Text) := do
  let (start, t) ← number? t
  let t ← t.dropPrefix? ",".toList
  let (length, t) ← number? t
  return ((start, length), t)

/-- The places that the header of a hunk names. -/
def header? (t : Text) : Option Line := do
  let t ← t.dropPrefix? "@@ -".toList
  let (old, t) ← range? t
  let t ← t.dropPrefix? " +".toList
  let (new, t) ← range? t
  if t = " @@\n".toList then return .header old new else none

/-- The note behind a line without a line feed. -/
def noteLine : Text := "\\ No newline at end of file\n".toList

/-- What a line of a patch says. -/
def Line.ofText? (t : Text) : Option Line :=
  if t.endsLine then
    match t with
    | ' ' :: t => some (.edit .keep t)
    | '-' :: t => some (.edit .delete t)
    | '+' :: t => some (.edit .insert t)
    | t => if t = noteLine then some .note else header? t
  else none

/-- What is read of a patch from its end: the hunks, the lines behind the header that is still to come, and whether
there is a note in front of them. -/
structure Tail where
  noted : Bool
  edits : List (EditOp × Text)
  hunks : Patch

/-- One more line in front. A note takes the line feed from the line in front of it. -/
def Tail.add : Line → Tail → Option Tail
  | .note, ⟨false, edits, hunks⟩ => some ⟨true, edits, hunks⟩
  | .note, ⟨true, _, _⟩ => none
  | .edit op t, ⟨noted, edits, hunks⟩ => some ⟨false, (op, if noted then t.dropLast else t) :: edits, hunks⟩
  | .header old new, ⟨noted, edits, hunks⟩ =>
    if noted = false ∧ edits.countP (·.1 ≠ .insert) = old.2 ∧ edits.countP (·.1 ≠ .delete) = new.2 then
      some ⟨false, [], ⟨old.1, old.2, new.1, new.2, edits⟩ :: hunks⟩
    else none

/-- The tail that some lines make. -/
def tail? : List Line → Option Tail
  | [] => some ⟨false, [], []⟩
  | l :: ls => (tail? ls).bind (Tail.add l)

/-- The patch that a text holds. -/
def read (t : Text) : Option Patch := do
  let tail ← tail? (← t.lines.mapM Line.ofText?)
  if tail.noted = false ∧ tail.edits = [] then return tail.hunks else none

/-! ## Lines -/

/-- A text is one line: its only line feed is its last character. -/
def IsLine (t : Text) : Prop := ∃ body, '\n' ∉ body ∧ t = body ++ ['\n']

theorem splitAfter_append {α : Type} [DecidableEq α] {stop : α} {body : List α} (hbody : stop ∉ body) (rest : List α) :
    splitAfter stop (body ++ stop :: rest) = (body ++ [stop]) :: splitAfter stop rest := by
  induction body with
  | nil => simp [splitAfter]
  | cons a body ih =>
    obtain ⟨hne, hbody⟩ : stop ≠ a ∧ stop ∉ body := by simpa using hbody
    simp [splitAfter, hne.symm, ih hbody]

theorem lines_flatten {ls : List Text} (h : ∀ l ∈ ls, IsLine l) : Text.lines ls.flatten = ls := by
  induction ls with
  | nil => rfl
  | cons l ls ih =>
    obtain ⟨body, hbody, rfl⟩ := h l List.mem_cons_self
    have hrest := ih fun l hl => h l (List.mem_cons_of_mem _ hl)
    rw [Text.lines] at hrest
    rw [Text.lines, List.flatten_cons, List.append_assoc, List.singleton_append, splitAfter_append hbody, hrest]

/-- A text is one line, or the last one without its line feed. -/
def IsPiece (t : Text) : Prop := ∃ body, '\n' ∉ body ∧ (t = body ∨ t = body ++ ['\n'])

theorem isPiece_of_mem_lines {t l : Text} (h : l ∈ t.lines) : IsPiece l := by
  rw [Text.lines] at h
  fun_induction splitAfter '\n' t generalizing l with
  | case1 => simp at h
  | case2 t ih =>
    rcases List.mem_cons.1 h with rfl | h
    · exact ⟨[], by simp, .inr rfl⟩
    · exact ih h
  | case3 c t hne hnil ih =>
    obtain rfl := List.mem_singleton.1 h
    exact ⟨[c], by simpa using Ne.symm hne, .inl rfl⟩
  | case4 c t hne l' ls hcons ih =>
    rw [hcons] at ih
    rcases List.mem_cons.1 h with rfl | h
    · obtain ⟨body, hbody, hl⟩ := ih List.mem_cons_self
      refine ⟨c :: body, by simp [Ne.symm hne, hbody], ?_⟩
      rcases hl with rfl | rfl
      · exact .inl rfl
      · exact .inr rfl
    · exact ih (List.mem_cons_of_mem _ h)

/-- The lines of a script come from the two texts. -/
theorem mem_of_leads {i j : Nat} {es : List (Edit Text)} {as bs : List Text} (h : Edit.Leads i j es as bs) :
    ∀ e ∈ es, e.line ∈ as ∨ e.line ∈ bs := by
  induction h with
  | nil => simp
  | keep rest ih =>
    intro e he
    rcases List.mem_cons.1 he with rfl | he
    · exact .inl List.mem_cons_self
    · exact (ih e he).imp (List.mem_cons_of_mem _) (List.mem_cons_of_mem _)
  | delete rest ih =>
    intro e he
    rcases List.mem_cons.1 he with rfl | he
    · exact .inl List.mem_cons_self
    · exact (ih e he).imp_left (List.mem_cons_of_mem _)
  | insert rest ih =>
    intro e he
    rcases List.mem_cons.1 he with rfl | he
    · exact .inr List.mem_cons_self
    · exact (ih e he).imp_right (List.mem_cons_of_mem _)

/-! ## Headers -/

theorem number?_toDigits (n : Nat) {c : Char} (hc : c.isDigit = false) (t : Text) :
    number? (Nat.toDigits 10 n ++ c :: t) = some (n, c :: t) := by
  have hdigits : ∀ d ∈ Nat.toDigits 10 n, d.isDigit = true := fun d hd =>
    Nat.isDigit_of_mem_toDigits (by decide) (by decide) hd
  have htake : (Nat.toDigits 10 n ++ c :: t).takeWhile Char.isDigit = Nat.toDigits 10 n := by
    rw [List.takeWhile_append_of_pos hdigits]
    simp [hc]
  have hdrop : (Nat.toDigits 10 n ++ c :: t).dropWhile Char.isDigit = c :: t := by
    rw [List.dropWhile_append_of_pos hdigits]
    simp [hc]
  rw [number?, htake, hdrop]
  cases hn : Nat.toDigits 10 n with
  | nil => exact absurd hn Nat.toDigits_ne_nil
  | cons d ds => simp only [← hn, Nat.ofDigitChars_ten_toDigits]

theorem range?_renderRange (before length : Nat) {c : Char} (hc : c.isDigit = false) (t : Text) :
    range? (Interpolation.Hunk.renderRange before length ++ c :: t) =
      some ((startOf before length, length), c :: t) := by
  have hstart := number?_toDigits (startOf before length) (c := ',') (by decide) (Nat.toDigits 10 length ++ c :: t)
  have hcomma (u : Text) : List.dropPrefix? (',' :: u) ",".toList = some u :=
    List.dropPrefix?_append_of_beq u (beq_self_eq_true ",".toList)
  have hlength := number?_toDigits length hc t
  have hrender : Interpolation.Hunk.renderRange before length ++ c :: t =
      Nat.toDigits 10 (startOf before length) ++ ',' :: (Nat.toDigits 10 length ++ c :: t) := by
    simp [Interpolation.Hunk.renderRange, startOf]
  rw [hrender, range?]
  simp only [Option.bind_eq_bind, hstart, Option.bind_some, hcomma, hlength]
  rfl

/-- The header of a hunk. -/
def headerOf (first : Edit Text) (es : List (Edit Text)) : Line :=
  .header (startOf first.old (oldLength es), oldLength es) (startOf first.new (newLength es), newLength es)

theorem renderHeader_eq (first : Edit Text) (es : List (Edit Text)) :
    Interpolation.Hunk.renderHeader first es =
      "@@ -".toList ++ Interpolation.Hunk.renderRange first.old (oldLength es) ++ " +".toList ++
        Interpolation.Hunk.renderRange first.new (newLength es) ++ " @@\n".toList := rfl

theorem header?_renderHeader (first : Edit Text) (es : List (Edit Text)) :
    header? (Interpolation.Hunk.renderHeader first es) = some (headerOf first es) := by
  have hnew := range?_renderRange first.new (newLength es) (c := ' ') (by decide) "@@\n".toList
  have hplus (t : Text) : List.dropPrefix? (' ' :: '+' :: t) " +".toList = some t :=
    List.dropPrefix?_append_of_beq t (beq_self_eq_true " +".toList)
  have hold := range?_renderRange first.old (oldLength es) (c := ' ') (by decide)
    ('+' :: (Interpolation.Hunk.renderRange first.new (newLength es) ++ ' ' :: "@@\n".toList))
  have hrender : Interpolation.Hunk.renderHeader first es =
      "@@ -".toList ++ (Interpolation.Hunk.renderRange first.old (oldLength es) ++ ' ' ::
        '+' :: (Interpolation.Hunk.renderRange first.new (newLength es) ++ ' ' :: "@@\n".toList)) := by
    simp [renderHeader_eq]
  rw [hrender, header?, List.dropPrefix?_append_of_beq _ (beq_self_eq_true _)]
  simp only [Option.bind_eq_bind, Option.bind_some, hold, hplus, hnew]
  rfl

/-! ## Hunks -/

open Interpolation.Hunk (renderEdit renderHeader render missingNewline)

/-- The lines that show an edit. -/
def editTexts (e : Edit Text) : List Text :=
  if e.line.endsLine then [e.op.mark :: e.line] else [e.op.mark :: (e.line ++ ['\n']), noteLine]

@[inherit_doc editTexts]
def editLines (e : Edit Text) : List Line :=
  if e.line.endsLine then [.edit e.op e.line] else [.edit e.op (e.line ++ ['\n']), .note]

/-- The lines that show a hunk. -/
def hunkTexts : List (Edit Text) → List Text
  | [] => []
  | e :: es => renderHeader e (e :: es) :: (e :: es).flatMap editTexts

@[inherit_doc hunkTexts]
def hunkLines : List (Edit Text) → List Line
  | [] => []
  | e :: es => headerOf e (e :: es) :: (e :: es).flatMap editLines

theorem missingNewline_eq : missingNewline = '\n' :: noteLine := by decide

theorem flatten_editTexts (e : Edit Text) : (editTexts e).flatten = renderEdit e := by
  rw [editTexts, renderEdit]
  split
  · simp
  · rw [missingNewline_eq]
    simp

theorem flatten_hunkTexts (es : List (Edit Text)) : (hunkTexts es).flatten = render es := by
  cases es with
  | nil => rfl
  | cons e es =>
    rw [hunkTexts, render, List.flatten_cons, List.flatMap_def, List.flatten_flatten, List.map_map, List.flatMap_def]
    simp only [Function.comp_def, flatten_editTexts]

theorem endsLine_append (t : Text) : Text.endsLine (t ++ ['\n']) = true := by simp [Text.endsLine]

theorem not_endsLine {t : Text} (h : '\n' ∉ t) : t.endsLine = false := by
  simpa [Text.endsLine] using fun hlast => h (List.mem_of_getLast? hlast)

theorem ofText?_mark (op : EditOp) (t : Text) :
    Line.ofText? (op.mark :: (t ++ ['\n'])) = some (.edit op (t ++ ['\n'])) := by
  have hends : Text.endsLine (op.mark :: (t ++ ['\n'])) = true := endsLine_append (op.mark :: t)
  cases op <;> simpa [Line.ofText?, EditOp.mark] using hends

theorem ofText?_noteLine : Line.ofText? noteLine = some .note := by decide

theorem mapM_editTexts {e : Edit Text} (h : IsPiece e.line) : (editTexts e).mapM Line.ofText? = some (editLines e) := by
  obtain ⟨body, hbody, hline | hline⟩ := h
  · have hends : e.line.endsLine = false := hline ▸ not_endsLine hbody
    rw [editTexts, editLines, hends]
    simp [ofText?_mark, ofText?_noteLine]
  · have hends : e.line.endsLine = true := hline ▸ endsLine_append body
    rw [editTexts, editLines, hends, if_pos rfl, if_pos rfl, hline]
    simp [ofText?_mark]

theorem newline_ne_mark (op : EditOp) : '\n' ≠ op.mark := by cases op <;> decide

theorem isLine_noteLine : IsLine noteLine := ⟨"\\ No newline at end of file".toList, by decide, by decide⟩

theorem isLine_of_mem_editTexts {e : Edit Text} (h : IsPiece e.line) : ∀ t ∈ editTexts e, IsLine t := by
  obtain ⟨body, hbody, hline⟩ := h
  have hmarked : IsLine (e.op.mark :: (body ++ ['\n'])) :=
    ⟨e.op.mark :: body, by simp [newline_ne_mark, hbody], rfl⟩
  rcases hline with hline | hline
  · rw [editTexts, hline, not_endsLine hbody]
    simpa using ⟨hmarked, isLine_noteLine⟩
  · rw [editTexts, hline, endsLine_append]
    simpa using hmarked

theorem newline_notMem_renderRange (before length : Nat) :
    '\n' ∉ Interpolation.Hunk.renderRange before length := by
  have hdigits (n : Nat) : '\n' ∉ Nat.toDigits 10 n := fun hmem =>
    absurd (Nat.isDigit_of_mem_toDigits (by decide) (by decide) hmem) (by decide)
  simp [Interpolation.Hunk.renderRange, hdigits]

theorem isLine_renderHeader (first : Edit Text) (es : List (Edit Text)) : IsLine (renderHeader first es) :=
  ⟨"@@ -".toList ++ Interpolation.Hunk.renderRange first.old (oldLength es) ++ " +".toList ++
      Interpolation.Hunk.renderRange first.new (newLength es) ++ " @@".toList,
    by simp [newline_notMem_renderRange], by simp [renderHeader_eq]⟩

theorem ofText?_renderHeader (first : Edit Text) (es : List (Edit Text)) :
    Line.ofText? (renderHeader first es) = some (headerOf first es) := by
  obtain ⟨body, -, hbody⟩ := isLine_renderHeader first es
  have hends : (renderHeader first es).endsLine = true := hbody ▸ endsLine_append body
  obtain ⟨rest, hrest⟩ : ∃ rest, renderHeader first es = '@' :: rest := ⟨_, rfl⟩
  have hnote : noteLine.head? ≠ some '@' := by decide
  have hne : '@' :: rest ≠ noteLine := fun heq => hnote (heq ▸ rfl)
  rw [← header?_renderHeader, hrest]
  rw [hrest] at hends
  simp [Line.ofText?, hends, hne]

theorem isLine_of_mem_hunkTexts {es : List (Edit Text)} (h : ∀ e ∈ es, IsPiece e.line) :
    ∀ t ∈ hunkTexts es, IsLine t := by
  cases es with
  | nil => simp [hunkTexts]
  | cons e es =>
    intro t ht
    rcases List.mem_cons.1 ht with rfl | ht
    · exact isLine_renderHeader e (e :: es)
    · obtain ⟨e', he', ht⟩ := List.mem_flatMap.1 ht
      exact isLine_of_mem_editTexts (h e' he') t ht

theorem mapM_flatMap {α β γ : Type} {f : β → Option γ} {g : α → List β} {g' : α → List γ} {as : List α}
    (h : ∀ a ∈ as, (g a).mapM f = some (g' a)) : (as.flatMap g).mapM f = some (as.flatMap g') := by
  induction as with
  | nil => rfl
  | cons a as ih =>
    have hrest := ih fun a ha => h a (List.mem_cons_of_mem _ ha)
    simp [List.flatMap_cons, List.mapM_append, h a List.mem_cons_self, hrest]

theorem mapM_hunkTexts {es : List (Edit Text)} (h : ∀ e ∈ es, IsPiece e.line) :
    (hunkTexts es).mapM Line.ofText? = some (hunkLines es) := by
  cases es with
  | nil => rfl
  | cons e es =>
    have hheader := ofText?_renderHeader e (e :: es)
    have hedits := mapM_flatMap fun e he => mapM_editTexts (h e he)
    rw [hunkTexts, hunkLines, List.mapM_cons, hheader, hedits]
    rfl

theorem tail?_editLines {e : Edit Text} {ls : List Line} {edits : List (EditOp × Text)} {p : Patch}
    (htail : tail? ls = some ⟨false, edits, p⟩) :
    tail? (editLines e ++ ls) = some ⟨false, (e.op, e.line) :: edits, p⟩ := by
  rw [editLines]
  split
  · simp [tail?, htail, Tail.add]
  · simp [tail?, htail, Tail.add]

theorem tail?_flatMap_editLines (es : List (Edit Text)) {ls : List Line} {edits : List (EditOp × Text)} {p : Patch}
    (htail : tail? ls = some ⟨false, edits, p⟩) :
    tail? (es.flatMap editLines ++ ls) = some ⟨false, shown es ++ edits, p⟩ := by
  induction es with
  | nil => exact htail
  | cons e es ih =>
    rw [List.flatMap_cons, List.append_assoc]
    exact tail?_editLines ih

theorem countP_shown_old (es : List (Edit Text)) : (shown es).countP (·.1 ≠ .insert) = oldLength es := by
  rw [shown, List.countP_map]
  rfl

theorem countP_shown_new (es : List (Edit Text)) : (shown es).countP (·.1 ≠ .delete) = newLength es := by
  rw [shown, List.countP_map]
  rfl

theorem tail?_hunkLines {es : List (Edit Text)} {ls : List Line} {p : Patch}
    (htail : tail? ls = some ⟨false, [], p⟩) :
    tail? (hunkLines es ++ ls) = some ⟨false, [], ofHunks [es] ++ p⟩ := by
  cases es with
  | nil => exact htail
  | cons e es =>
    have hedits := tail?_flatMap_editLines (e :: es) htail
    rw [List.append_nil] at hedits
    rw [hunkLines, List.cons_append, tail?, hedits, Option.bind_some, headerOf, Tail.add, if_pos]
    · rfl
    · exact ⟨rfl, countP_shown_old (e :: es), countP_shown_new (e :: es)⟩

theorem tail?_hunks (hunks : List (List (Edit Text))) :
    tail? (hunks.flatMap hunkLines) = some ⟨false, [], ofHunks hunks⟩ := by
  induction hunks with
  | nil => rfl
  | cons es hunks ih =>
    rw [List.flatMap_cons, tail?_hunkLines ih]
    cases es <;> rfl

/-- The hunks of a unified diff are read as the hunks of the script. -/
theorem read_flatMap_render {hunks : List (List (Edit Text))} (h : ∀ es ∈ hunks, ∀ e ∈ es, IsPiece e.line) :
    read (hunks.flatMap render) = some (ofHunks hunks) := by
  have htexts : hunks.flatMap render = (hunks.flatMap hunkTexts).flatten := by
    rw [List.flatMap_def, List.flatMap_def, List.flatten_flatten, List.map_map]
    simp only [Function.comp_def, flatten_hunkTexts]
  have hlines : ∀ t ∈ hunks.flatMap hunkTexts, IsLine t := by
    intro t ht
    obtain ⟨es, hes, ht⟩ := List.mem_flatMap.1 ht
    exact isLine_of_mem_hunkTexts (h es hes) t ht
  have hmapM := mapM_flatMap fun es hes => mapM_hunkTexts (h es hes)
  rw [read, htexts, lines_flatten hlines, hmapM]
  simp [tail?_hunks]

end Patch

open Patch

/-- A unified diff is empty only if the texts are the same. -/
theorem unifiedDiff_eq_nil_iff (old new oldLabel newLabel : Text) :
    unifiedDiff old new oldLabel newLabel = [] ↔ old = new := by
  unfold unifiedDiff
  split
  · simpa
  · simpa

/-- Behind the labels a unified diff of two texts is a patch from each of them to the other. -/
theorem exists_patch_of_ne {old new : Text} (hne : old ≠ new) : ∃ hunks patch,
    (∀ oldLabel newLabel, unifiedDiff old new oldLabel newLabel =
      "--- ".toList ++ oldLabel ++ "\n+++ ".toList ++ newLabel ++ '\n' :: hunks) ∧
    Patch.read hunks = some patch ∧ patch.apply old = some new ∧ patch.inverse.apply new = some old := by
  have hleads := Edit.leads_script old.lines new.lines
  have hcut := Hunk.cut_all (Edit.script old.lines new.lines)
  refine ⟨_, ofHunks (Hunk.all (Edit.script old.lines new.lines)), fun _ _ => by rw [unifiedDiff, if_neg hne],
    read_flatMap_render ?_, apply_ofHunks hcut hleads⟩
  intro es hes e he
  rcases mem_of_leads hleads e (hcut.mem hes he) with hold | hnew
  · exact isPiece_of_mem_lines hold
  · exact isPiece_of_mem_lines hnew

/-- A unified diff is empty only if the texts are the same, and otherwise its hunks, which do not depend on the labels,
are an exact patch: applied strictly they lead from each of the texts to the other. -/
theorem unifiedDiff_exact (old new : Text) :
    (∀ oldLabel newLabel, unifiedDiff old new oldLabel newLabel = [] ↔ old = new) ∧
      (old ≠ new → ∃ hunks patch,
        (∀ oldLabel newLabel, unifiedDiff old new oldLabel newLabel =
          "--- ".toList ++ oldLabel ++ "\n+++ ".toList ++ newLabel ++ '\n' :: hunks) ∧
        Patch.read hunks = some patch ∧ patch.apply old = some new ∧ patch.inverse.apply new = some old) :=
  ⟨unifiedDiff_eq_nil_iff old new, exists_patch_of_ne⟩

example : unifiedDiff "a\nb".toList "a\nc\n".toList "x".toList "y".toList =
    "--- x\n+++ y\n@@ -1,2 +1,2 @@\n a\n-b\n\\ No newline at end of file\n+c\n".toList := by
  decide +kernel

/-- The last line, which has no line feed, is deleted. -/
theorem unifiedDiff_exact_without_line_feed :
    ("a\nb".toList ≠ "a\n".toList) ∧ ∃ hunks patch,
      (∀ oldLabel newLabel, unifiedDiff "a\nb".toList "a\n".toList oldLabel newLabel =
        "--- ".toList ++ oldLabel ++ "\n+++ ".toList ++ newLabel ++ '\n' :: hunks) ∧
      Patch.read hunks = some patch ∧ patch.apply "a\nb".toList = some "a\n".toList ∧
      patch.inverse.apply "a\n".toList = some "a\nb".toList :=
  ⟨by decide, (unifiedDiff_exact _ _).2 (by decide)⟩

end Interpolation

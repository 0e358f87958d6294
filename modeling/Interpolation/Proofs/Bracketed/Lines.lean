import Interpolation.Proofs.Bracketed.Simulation

/-!
# Line breaks in brackets

A line break between paired brackets becomes trivia of what follows it there, if only of the closing bracket; any other
stays a token.

* `Token.InTrivia` — a part of the text is in the trivia of some token;
* `Token.Keeps` — what other tokens are made of some tokens: each keeps its place and its trivia, unless it is a line
  break that is in trivia now;
* `Bracketed.keeps_close` — the tokens of a group when it is closed;
* `Bracketed.line_ofTokens` — what becomes of the line breaks of a source.
-/

namespace Interpolation

namespace Token

/-! ## Tokens that become trivia -/

/-- The trivia of some token reach from `start` or before up to `stop` or behind. -/
def InTrivia (ts : List (Nat × Token)) (start stop : Nat) : Prop :=
  ∃ place t, (place, t) ∈ ts ∧ place ≤ start + t.trivia.length ∧ stop ≤ place

/-- Every one of the tokens `old` is among the tokens `new` at its place, perhaps with more trivia; or it is a line
break and in trivia, with its own trivia. -/
def Keeps (old new : List (Nat × Token)) : Prop := ∀ place t, (place, t) ∈ old →
  (∃ u, (place, u) ∈ new ∧ t.trivia.length ≤ u.trivia.length ∧ u.text = t.text ∧
    (u.kind = .newline ↔ t.kind = .newline)) ∨
  t.kind = .newline ∧ InTrivia new (place - t.trivia.length) (place + t.text.length)

variable {ts us old mid new old' new' : List (Nat × Token)} {start stop : Nat}

theorem InTrivia.subset (h : InTrivia ts start stop) (hsubset : ts ⊆ us) : InTrivia us start stop := by
  obtain ⟨place, t, ht, hstart, hstop⟩ := h
  exact ⟨place, t, hsubset ht, hstart, hstop⟩

theorem InTrivia.within {start' stop' : Nat} (h : InTrivia ts start stop) (hstart : start ≤ start')
    (hstop : stop' ≤ stop) : InTrivia ts start' stop' := by
  obtain ⟨place, t, ht, hfirst, hlast⟩ := h
  exact ⟨place, t, ht, by omega, by omega⟩

/-- What is in trivia stays there. -/
theorem InTrivia.keeps (h : InTrivia old start stop) (hkeeps : Keeps old new) : InTrivia new start stop := by
  obtain ⟨place, t, ht, hstart, hstop⟩ := h
  rcases hkeeps place t ht with ⟨u, hu, htrivia, -⟩ | ⟨-, hcovered⟩
  · exact ⟨place, u, hu, by omega, hstop⟩
  · exact hcovered.within (by omega) (by omega)

theorem Keeps.refl (ts : List (Nat × Token)) : Keeps ts ts := fun _ t ht => .inl ⟨t, ht, le_rfl, rfl, .rfl⟩

theorem Keeps.trans (h : Keeps old mid) (h' : Keeps mid new) : Keeps old new := by
  intro place t ht
  rcases h place t ht with ⟨u, hu, htrivia, htext, hkind⟩ | ⟨hkind, hcovered⟩
  · rcases h' place u hu with ⟨v, hv, htrivia', htext', hkind'⟩ | ⟨hkind', hcovered⟩
    · exact .inl ⟨v, hv, htrivia.trans htrivia', htext'.trans htext, hkind'.trans hkind⟩
    · rw [htext] at hcovered
      exact .inr ⟨hkind.1 hkind', hcovered.within (by omega) le_rfl⟩
  · exact .inr ⟨hkind, hcovered.keeps h'⟩

theorem Keeps.subset (h : Keeps old new) (hsubset : new ⊆ us) : Keeps old us := fun place t ht =>
  (h place t ht).imp (fun ⟨u, hu, hrest⟩ => ⟨u, hsubset hu, hrest⟩) fun ⟨hkind, hcovered⟩ =>
    ⟨hkind, hcovered.subset hsubset⟩

theorem Keeps.append (h : Keeps old new) (h' : Keeps old' new') : Keeps (old ++ old') (new ++ new') := fun place t ht =>
  (List.mem_append.1 ht).elim (h.subset (List.subset_append_left _ _) place t)
    (h'.subset (List.subset_append_right _ _) place t)

/-- The same tokens in front of others. -/
theorem Keeps.prepend (first : Nat) (before : List Token) {us vs : List Token}
    (h : Keeps (located (first + (renderAll before).length) us) (located (first + (renderAll before).length) vs)) :
    Keeps (located first (before ++ us)) (located first (before ++ vs)) := by
  rw [located_append, located_append]
  exact (Keeps.refl _).append h

/-- A token that gets more trivia, in front of others. -/
theorem keeps_addTrivia (first : Nat) (z : Text) (t : Token) {us vs : List Token}
    (h : Keeps (located (first + z.length + t.render.length) us) (located (first + z.length + t.render.length) vs)) :
    Keeps (located (first + z.length) (t :: us)) (located first (t.addTrivia z :: vs)) ∧
      InTrivia (located first (t.addTrivia z :: vs)) first (first + z.length) := by
  have htrivia : (t.addTrivia z).trivia.length = z.length + t.trivia.length := List.length_append
  have hrender : first + (t.addTrivia z).render.length = first + z.length + t.render.length := by
    rw [Bracketed.render_addTrivia, List.length_append, Nat.add_assoc]
  rw [located_cons, located_cons, hrender, htrivia, ← Nat.add_assoc]
  constructor
  · intro place u hu
    rcases List.mem_cons.1 hu with hu | hu
    · obtain ⟨rfl, rfl⟩ := Prod.mk.inj hu
      exact .inl ⟨u.addTrivia z, by simp, by omega, rfl, .rfl⟩
    · exact h.subset (List.subset_cons_self _ _) place u hu
  · exact ⟨first + z.length + t.trivia.length, t.addTrivia z, by simp, by omega, by omega⟩

/-- A bracket that is paired, in front of others. -/
theorem keeps_asPaired {t : Token} (hkind : t.kind ≠ .newline) (first : Nat) {us vs : List Token}
    (h : Keeps (located (first + t.render.length) us) (located (first + t.render.length) vs)) :
    Keeps (located first (t :: us)) (located first (t.asPaired :: vs)) := by
  intro place u hu
  rcases List.mem_cons.1 hu with hu | hu
  · obtain ⟨rfl, rfl⟩ := Prod.mk.inj hu
    exact .inl ⟨u.asPaired, by simp [asPaired], le_rfl, rfl, by simp [asPaired, hkind]⟩
  · exact h.subset (List.subset_cons_self _ _) place u hu

theorem bounds_of_mem_located {first place : Nat} {t : Token} {ts : List Token} (h : (place, t) ∈ located first ts) :
    first + t.trivia.length ≤ place ∧ place + t.text.length ≤ first + (renderAll ts).length := by
  induction ts generalizing first with
  | nil => simp at h
  | cons u ts ih =>
    rw [renderAll_cons, List.length_append, List.length_append]
    rcases List.mem_cons.1 h with h | h
    · obtain ⟨rfl, rfl⟩ := Prod.mk.inj h
      omega
    · have hbounds := ih h
      rw [render, List.length_append] at hbounds
      omega

end Token

namespace Bracketed

open Token (InTrivia Keeps located)

/-! ## Closing a group -/

/-- Joined lines, with what is left over in front of the closing bracket. -/
theorem keeps_joinLines (first : Nat) (carried : Text) (bs : List Bracketed) (closing : Token) :
    Keeps (located (first + carried.length) (tokensAll bs ++ [closing]))
      (located first (tokensAll (joinLines carried bs).1 ++ [closing.addTrivia (joinLines carried bs).2])) ∧
    InTrivia (located first (tokensAll (joinLines carried bs).1 ++ [closing.addTrivia (joinLines carried bs).2])) first
      (first + carried.length) := by
  fun_induction joinLines carried bs generalizing first with
  | case1 carried => exact Token.keeps_addTrivia first carried closing (.refl _)
  | case2 carried t rest hkind ih =>
    obtain ⟨hkeeps, hcovered⟩ := ih first
    rw [List.length_append, ← Nat.add_assoc] at hkeeps hcovered
    have hrender : t.render.length = t.trivia.length + t.text.length := List.length_append
    refine ⟨fun place u hu => ?_, hcovered.within le_rfl (by omega)⟩
    rw [tokensAll, tokens, List.singleton_append, List.cons_append, Token.located_cons] at hu
    rcases List.mem_cons.1 hu with hu | hu
    · obtain ⟨rfl, rfl⟩ := Prod.mk.inj hu
      exact .inr ⟨hkind, hcovered.within (by omega) (by omega)⟩
    · exact hkeeps place u hu
  | case3 carried t rest _ ih =>
    have hrest := (ih (first + carried.length + t.render.length)).1
    rw [tokensAll, tokensAll, tokens, tokens]
    exact Token.keeps_addTrivia first carried t hrest
  | case4 carried opening contents closing' rest ih =>
    have hrest := Keeps.prepend (first + carried.length + opening.render.length) (tokensAll contents ++ [closing'])
      (ih _).1
    have hgroup := Token.keeps_addTrivia first carried opening hrest
    simpa only [tokensAll, tokens, List.cons_append, List.append_assoc] using hgroup

/-- The tokens of a group when it is closed. -/
theorem keeps_close {opening closing : Token} (opens : opening.kind ≠ .newline) (closes : closing.kind ≠ .newline)
    (first : Nat) (contents : List Bracketed) :
    Keeps (located first (opening :: (tokensAll contents ++ [closing])))
      (located first (close opening contents closing).tokens) := by
  have hjoined := (keeps_joinLines (first + opening.render.length) [] contents closing).1
  have hclosing := Keeps.prepend (first + opening.render.length) (tokensAll (joinLines [] contents).1)
    (Token.keeps_asPaired (t := closing.addTrivia (joinLines [] contents).2) closes _ (.refl (located _ [])))
  rw [close, tokens]
  exact Token.keeps_asPaired opens first (hjoined.trans hclosing)

/-! ## The line breaks of a source -/

/-- What becomes of a line break: it stays, or it is trivia between paired brackets. -/
def LineKept (bs : List Bracketed) (place : Nat) (t : Token) : Prop :=
  (∃ u, (place, u) ∈ located 0 (tokensAll bs) ∧ u.kind = .newline ∧ u.text = t.text) ∨
  (∃ pair ∈ Tree.pairsAll 0 (Tree.ofBracketedAll bs), pair.1.place < place ∧ place + t.text.length ≤ pair.2.place) ∧
    InTrivia (located 0 (tokensAll bs)) place (place + t.text.length)

theorem LineKept.token {bs : List Bracketed} {place : Nat} {t : Token} (h : LineKept bs place t) (u : Token) :
    LineKept (bs ++ [.token u]) place t := by
  have hsubset : located 0 (tokensAll bs) ⊆ located 0 (tokensAll (bs ++ [.token u])) := by
    rw [tokensAll_append, Token.located_append]
    exact List.subset_append_left _ _
  rw [LineKept, pairsAll_concat_token]
  exact h.imp (fun ⟨v, hv, hrest⟩ => ⟨v, hsubset hv, hrest⟩) fun ⟨hpair, hcovered⟩ => ⟨hpair, hcovered.subset hsubset⟩

theorem kind_of_isOpening {t : Token} (h : t.isOpening = true) : t.kind ≠ .newline := by
  have hkind := (Bool.and_eq_true_iff.1 h).1
  simp only [decide_eq_true_eq] at hkind
  simp [hkind]

theorem kind_of_isClosing {t : Token} (h : t.isClosing = true) : t.kind ≠ .newline := by
  have hkind := (Bool.and_eq_true_iff.1 h).1
  simp only [decide_eq_true_eq] at hkind
  simp [hkind]

theorem text_ne_nil_of_isOpening {t : Token} (h : t.isOpening = true) : t.text ≠ [] := by
  rintro htext
  simp [Token.isOpening, htext, bracketShapes] at h

/-- Closing a group at the end keeps the tokens up to the closing bracket. -/
theorem keeps_concat_close {opening closing : Token} (opens : opening.isOpening = true)
    (closes : closing.isClosing = true) (before contents : List Bracketed) :
    Keeps (located 0 (tokensAll (before ++ .token opening :: contents)))
      (located 0 (tokensAll (before ++ [.close opening contents closing]))) := by
  rw [tokensAll_open, tokensAll_concat_close]
  have hall := Keeps.prepend 0 (tokensAll before)
    (keeps_close (kind_of_isOpening opens) (kind_of_isClosing closes) _ contents)
  rw [← List.cons_append, ← List.append_assoc,
    Token.located_append 0 (tokensAll before ++ opening :: tokensAll contents)] at hall
  exact fun place u hu => hall place u (List.mem_append_left _ hu)

/-- A line break is in front of an opening bracket or behind it. -/
theorem located_or_bounds {before contents : List Bracketed} {opening u : Token} {place : Nat}
    (opens : opening.isOpening = true) (hkind : u.kind = .newline)
    (hu : (place, u) ∈ located 0 (tokensAll (before ++ .token opening :: contents))) :
    (place, u) ∈ located 0 (tokensAll before) ∨ (text before).length + opening.trivia.length < place ∧
      place + u.text.length ≤ (text (before ++ .token opening :: contents)).length := by
  rw [tokensAll_open, Token.located_append, Nat.zero_add, Token.located_cons] at hu
  rcases List.mem_append.1 hu with hu | hu
  · exact .inl hu
  · rcases List.mem_cons.1 hu with hu | hu
    · rw [(Prod.mk.inj hu).2] at hkind
      exact absurd hkind (kind_of_isOpening opens)
    · have hbounds := Token.bounds_of_mem_located hu
      have hpos := List.length_pos_iff.2 (text_ne_nil_of_isOpening opens)
      have hrender : opening.render.length = opening.trivia.length + opening.text.length := List.length_append
      rw [text, text, tokensAll_open, Token.renderAll_append, Token.renderAll_cons, List.length_append,
        List.length_append, List.length_append]
      exact .inr ⟨by omega, by omega⟩

/-- Closing a group keeps the line breaks in front of it and makes trivia of those in it. -/
theorem LineKept.group {before contents : List Bracketed} {opening closing : Token} {place : Nat} {t : Token}
    (opens : opening.isOpening = true) (closes : closing.isClosing = true)
    (h : LineKept (before ++ .token opening :: contents) place t) :
    LineKept (before ++ [.close opening contents closing]) place t := by
  have hkeeps := keeps_concat_close opens closes before contents
  rw [LineKept, pairsAll_concat_close]
  rcases h with ⟨u, hu, hkind, htext⟩ | ⟨⟨pair, hpair, hencloses⟩, hcovered⟩
  · rcases hkeeps place u hu with ⟨v, hv, -, hvtext, hvkind⟩ | ⟨-, hcovered⟩
    · exact .inl ⟨v, hv, hvkind.2 hkind, hvtext.trans htext⟩
    · rcases located_or_bounds opens hkind hu with hbefore | ⟨hfirst, hlast⟩
      · -- The tokens in front of the group are what they were.
        refine .inl ⟨u, ?_, hkind, htext⟩
        rw [tokensAll_concat_close, Token.located_append]
        exact List.mem_append_left _ hbefore
      · rw [← htext]
        exact .inr ⟨⟨_, List.mem_append_right _ (List.mem_singleton_self _), hfirst, Nat.le_add_right_of_le hlast⟩,
          hcovered.within (by omega) le_rfl⟩
  · exact .inr ⟨⟨pair, List.mem_append_left _ hpair, hencloses⟩, hcovered.keeps hkeeps⟩

/-- Every line break of a source stays, or it is trivia between paired brackets. -/
theorem line_ofTokens (ts : List Token) : ∀ place t, (place, t) ∈ located 0 ts → t.kind = .newline →
    LineKept (ofTokens ts) place t := by
  refine ofTokens_induct (motive := fun ts bs => ∀ place t, (place, t) ∈ located 0 ts → t.kind = .newline →
    LineKept bs place t) ?_ ?_ ?_ ts
  · simp
  · intro ts bs u htext ih place t ht hkind
    rw [Token.located_append] at ht
    rcases List.mem_append.1 ht with ht | ht
    · exact (ih place t ht hkind).token u
    · refine .inl ⟨t, ?_, hkind, rfl⟩
      rw [← htext, text] at ht
      rw [tokensAll_append, Token.located_append]
      exact List.mem_append_right _ ht
  · intro ts before contents opening closing opens closes _ _ ih place t ht hkind
    rw [Token.located_append] at ht
    rcases List.mem_append.1 ht with ht | ht
    · exact (ih place t ht hkind).group opens closes
    · obtain rfl : t = closing := List.mem_singleton.1 (Token.mem_of_mem_located ht)
      exact absurd hkind (kind_of_isClosing closes)

end Bracketed

end Interpolation

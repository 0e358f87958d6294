import Interpolation.Tree.Basic

/-!
# Operands

Siblings that form one operand are grouped under one node, for the levels of precedence from the multiplicative
operators on:

    term     = factor ( ("*" | "/" | "//" | "%" | "@") factor )*
    factor   = ("+" | "-" | "~") factor | power
    power    = [ "await" ] atom trailer* [ "**" factor ]
    trailer  = "." name | a group in round or square brackets
    atom     = string+ | name | number | "..." | a bracket group

A rule with a single part leaves that part as it is. Each of the functions `atom?`, `primary?`, `factor?` and
`term?` takes one such phrase off the front of a list, and is `none` exactly where none starts. `groupOperands`
goes through a list of siblings; a sign right behind an operand is a binary operator, and whatever is no operand
stays on its own.
-/

namespace Interpolation.Tree

/-! ## What a sibling can be -/

def isSign (t : Tree) : Bool := [['+'], ['-'], ['~']].any t.isOperator

def isMultiplicative (t : Tree) : Bool := [['*'], ['/'], ['/', '/'], ['%'], ['@']].any t.isOperator

def isPower (t : Tree) : Bool := t.isOperator ['*', '*']

def isAwait (t : Tree) : Bool := t.isKeyword ['a', 'w', 'a', 'i', 't']

/-- Whether an operand without signs and `await` starts with `t`: a name, number, string, `...` or atom. -/
def isAtom : Tree → Bool
  | .leaf t => t.kind = .name || t.kind = .number || t.kind = .string || t.isOperator ['.', '.', '.']
  | .node k _ => k = .atom

/-- Whether `t` is a group in round or square brackets. Behind an operand it is a call or a subscript. -/
def isCallOrSubscript : Tree → Bool
  | .node .atom (opening :: _) => opening.isOperator ['('] || opening.isOperator ['[']
  | _ => false

/-! ## The phrases -/

/-- A node of the kind `k`, unless there is only one child, which then stands for itself. -/
def collapse (k : NodeKind) : List Tree → Tree
  | [t] => t
  | ts => .node k ts

/-- A group that is a trailer. -/
def asTrailer : Tree → Tree
  | .node _ cs => .node .trailer cs
  | t => t

/-- One atom; adjacent strings make up one atom. -/
def atom? : List Tree → Option (Tree × List Tree)
  | [] => none
  | t :: ts =>
    if !t.isAtom then none
    else if t.isToken .string then
      some (collapse .atom (t :: ts.takeWhile (isToken .string)), ts.dropWhile (isToken .string))
    else some (t, ts)

/-- All trailers at the front, and what follows them. -/
def trailers : List Tree → List Tree × List Tree
  | [] => ([], [])
  | t :: ts =>
    if t.isCallOrSubscript then (t.asTrailer :: (trailers ts).1, (trailers ts).2)
    else
      match ts with
      | [] => ([], [t])
      | n :: ts =>
        if t.isOperator ['.'] && n.isToken .name then
          (.node .trailer [t, n] :: (trailers ts).1, (trailers ts).2)
        else ([], t :: n :: ts)

/-- An atom with its trailers, and `await` in front if it is there. -/
def primary? (ts : List Tree) : Option (List Tree × List Tree) :=
  match ts with
  | [] => none
  | t :: rest =>
    if t.isAwait then (atom? rest).map fun (a, rest) => (t :: a :: (trailers rest).1, (trailers rest).2)
    else (atom? ts).map fun (a, rest) => (a :: (trailers rest).1, (trailers rest).2)

theorem length_atom?_lt {ts : List Tree} {a : Tree} {rest : List Tree} (h : atom? ts = some (a, rest)) :
    rest.length < ts.length := by
  cases ts with
  | nil => simp [atom?] at h
  | cons t ts =>
    have := (List.dropWhile_suffix (l := ts) (isToken .string)).length_le
    simp only [atom?] at h
    split at h
    · simp at h
    · split at h
      all_goals
        simp only [Option.some.injEq, Prod.mk.injEq] at h
        simp only [← h.2, List.length_cons]
        omega

theorem length_trailers_le (ts : List Tree) : (trailers ts).2.length ≤ ts.length := by
  fun_induction trailers ts <;> simp_all <;> omega

theorem length_primary?_lt {ts ps rest : List Tree} (h : primary? ts = some (ps, rest)) :
    rest.length < ts.length := by
  cases ts with
  | nil => simp [primary?] at h
  | cons t ts =>
    simp only [primary?] at h
    split at h
    all_goals
      obtain ⟨⟨a, r⟩, ha, h⟩ := Option.map_eq_some_iff.1 h
      simp only [Prod.mk.injEq] at h
      have := length_atom?_lt ha
      have := length_trailers_le r
      simp only [List.length_cons] at *
      rw [← h.2]
      omega

/-- One factor. -/
def factor? : List Tree → Option (Tree × List Tree)
  | [] => none
  | t :: ts =>
    if t.isSign then (factor? ts).map fun (operand, rest) => (.node .factor [t, operand], rest)
    else
      match _h : primary? (t :: ts) with
      | none => none
      | some (parts, []) => some (collapse .power parts, [])
      | some (parts, op :: rest) =>
        match if op.isPower then factor? rest else none with
        | some (exponent, rest) => some (.node .power (parts ++ [op, exponent]), rest)
        | none => some (collapse .power parts, op :: rest)
termination_by ts => ts.length
decreasing_by
  · simp
  · have := length_primary?_lt _h
    simp only [List.length_cons] at *
    omega

theorem length_factor?_lt {ts : List Tree} {t : Tree} {rest : List Tree} (h : factor? ts = some (t, rest)) :
    rest.length < ts.length := by
  fun_induction factor? ts generalizing t rest with
  | case1 => simp at h
  | case2 t ts _ ih =>
    obtain ⟨⟨operand, r⟩, hf, h⟩ := Option.map_eq_some_iff.1 h
    have := ih hf
    simp only [Prod.mk.injEq] at h
    simp only [List.length_cons, ← h.2]
    omega
  | case3 => simp at h
  | case4 t ts _ parts hp =>
    simp only [Option.some.injEq, Prod.mk.injEq] at h
    simp [← h.2]
  | case5 t ts _ parts op r hp exponent r' hf ih =>
    have := length_primary?_lt hp
    split at hf
    · have := ih hf
      simp only [Option.some.injEq, Prod.mk.injEq] at h
      simp only [List.length_cons, ← h.2] at *
      omega
    · simp at hf
  | case6 t ts _ parts op r hp =>
    have := length_primary?_lt hp
    simp only [Option.some.injEq, Prod.mk.injEq] at h
    rw [← h.2]
    exact this

/-- The multiplicative operators at the front, each with its right operand, and what follows them. -/
def multiplied : List Tree → List Tree × List Tree
  | [] => ([], [])
  | op :: ts =>
    match _h : if op.isMultiplicative then factor? ts else none with
    | some (f, rest) => (op :: f :: (multiplied rest).1, (multiplied rest).2)
    | none => ([], op :: ts)
termination_by ts => ts.length
decreasing_by
  all_goals
    split at _h
    · have := length_factor?_lt _h
      simp only [List.length_cons]
      omega
    · simp at _h

/-- One term. -/
def term? (ts : List Tree) : Option (Tree × List Tree) :=
  (factor? ts).map fun (f, rest) => (collapse .term (f :: (multiplied rest).1), (multiplied rest).2)

theorem length_multiplied_le (ts : List Tree) : (multiplied ts).2.length ≤ ts.length := by
  fun_induction multiplied ts with
  | case1 => simp
  | case2 op ts f rest h ih =>
    split at h
    · have := length_factor?_lt h
      simp only [List.length_cons]
      omega
    · simp at h
  | case3 => simp

theorem length_term?_lt {ts : List Tree} {t : Tree} {rest : List Tree} (h : term? ts = some (t, rest)) :
    rest.length < ts.length := by
  obtain ⟨⟨f, r⟩, hf, h⟩ := Option.map_eq_some_iff.1 h
  have := length_factor?_lt hf
  have := length_multiplied_le r
  simp only [Prod.mk.injEq] at h
  rw [← h.2]
  omega

/-! ## All operands of a list of siblings -/

/-- Group the operands of a list of siblings; `behindOperand` says whether an operand stands right in front of
the list. -/
def groupOperands (behindOperand : Bool) : List Tree → List Tree
  | [] => []
  | t :: ts =>
    match _h : if behindOperand && t.isSign then none else term? (t :: ts) with
    | some (operand, rest) => operand :: groupOperands true rest
    | none => t :: groupOperands false ts
termination_by ts => ts.length
decreasing_by
  · split at _h
    · simp at _h
    · exact length_term?_lt _h
  · simp

end Interpolation.Tree

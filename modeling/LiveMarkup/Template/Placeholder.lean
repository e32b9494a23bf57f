import LiveMarkup.Text.Blank

/-!
# Placeholders

A placeholder is two opening braces, a shortest non-empty run of characters without a line break,
and two closing braces. What is between the braces is its expression.

* `Span.next?`: the first placeholder of a text.
* `Piece.ofText`: a text cut into literal pieces and placeholders.
* `placeholders`: the expressions of a text.
-/

namespace LiveMarkup.Template

def isLineBreak (c : Char) : Bool :=
  c == '\n' || c == '\r' || c == '\u2028' || c == '\u2029'

/-- The shortest expression at the front of a text that two closing braces follow, and what
follows those. -/
def expression : List Char → Option (List Char × List Char)
  | [] => none
  | c :: cs =>
    if isLineBreak c then none
    else
      match cs with
      | '\x7d' :: '\x7d' :: rest => some ([c], rest)
      | _ => (expression cs).map fun (e, rest) => (c :: e, rest)

/-- The placeholder at the front of a text: its expression, and what follows it. -/
def placeholderAt : List Char → Option (List Char × List Char)
  | '\x7b' :: '\x7b' :: body => expression body
  | _ => none

/-- The first placeholder of a text: what stands before it, its expression, and what follows. -/
structure Span where
  before : List Char
  expression : List Char
  after : List Char
  deriving DecidableEq, Repr

/-- The first placeholder of a text. -/
def Span.next? : List Char → Option Span
  | [] => none
  | c :: cs =>
    match placeholderAt (c :: cs) with
    | some (e, rest) => some ⟨[], e, rest⟩
    | none => (Span.next? cs).map fun s => { s with before := c :: s.before }

/-! ## What is consumed -/

theorem length_of_expression {cs e rest : List Char} (h : expression cs = some (e, rest)) :
    rest.length < cs.length := by
  fun_induction expression cs generalizing e with
  | case1 => simp at h
  | case2 => simp at h
  | case3 => cases h; simp; omega
  | case4 c cs _ _ ih =>
    obtain ⟨⟨e', rest'⟩, h', eq⟩ := Option.map_eq_some_iff.1 h
    cases eq
    have := ih h'
    simp only [List.length_cons]; omega

theorem length_of_placeholderAt {cs e rest : List Char} (h : placeholderAt cs = some (e, rest)) :
    rest.length < cs.length := by
  unfold placeholderAt at h
  split at h
  · have := length_of_expression h
    simp only [List.length_cons]; omega
  · simp at h

theorem Span.length_after {cs : List Char} {s : Span} (h : Span.next? cs = some s) :
    s.after.length < cs.length := by
  induction cs generalizing s with
  | nil => simp [Span.next?] at h
  | cons c cs ih =>
    unfold Span.next? at h
    split at h
    · next e rest he => cases h; exact length_of_placeholderAt he
    · obtain ⟨s', h', eq⟩ := Option.map_eq_some_iff.1 h
      cases eq
      have := ih h'
      exact Nat.lt_succ_of_lt this

/-! ## Pieces -/

/-- A part of a text. -/
inductive Piece where
  | literal (content : List Char)
  | placeholder (expression : List Char)
  deriving DecidableEq, Repr

/-- The pieces of a text: its placeholders, and what stands before each and after the last. -/
def Piece.ofText (cs : List Char) : List Piece :=
  match h : Span.next? cs with
  | some s =>
    have := Span.length_after h
    .literal s.before :: .placeholder s.expression :: Piece.ofText s.after
  | none => [.literal cs]
termination_by cs.length

/-- The expression of a piece, without the blanks at its ends. -/
def Piece.expression? : Piece → Option String
  | .literal _ => none
  | .placeholder e => some (String.ofList (Text.trimBlank e))

/-- The expressions of a text, in order of appearance. -/
def placeholders (text : String) : List String :=
  (Piece.ofText text.toList).filterMap Piece.expression?

end LiveMarkup.Template

import LiveMarkup.Template.Placeholder

/-!
# Placeholders by position

The search for placeholders in a text that is kept as bytes. A position counts the bytes before it, and
a text cannot be cut at a position inside a character.

* `Text.cut`: a text cut at a position, and the failure to do so.
* `Placeholder.next?`: the first placeholder behind a position.
* `Placeholder.pieces`: a text cut into pieces, by one search behind each placeholder.
-/

namespace LiveMarkup

namespace Text

/-- A position at which a text cannot be cut. -/
structure Misplaced where
  text : String
  position : Nat
  deriving DecidableEq, Repr

/-- A text cut at a position. -/
def cut (text : String) (position : Nat) : Except Misplaced (String × String) :=
  if h : String.Pos.Raw.IsValid text ⟨position⟩ then
    let p := text.pos ⟨position⟩ h
    .ok ((text.sliceTo p).copy, (text.sliceFrom p).copy)
  else .error ⟨text, position⟩

/-- What stands before a position. -/
def before (text : String) (position : Nat) : Except Misplaced String :=
  (cut text position).map Prod.fst

/-- What stands behind a position. -/
def behind (text : String) (position : Nat) : Except Misplaced String :=
  (cut text position).map Prod.snd

/-- What stands between two positions. -/
def between (text : String) (start stop : Nat) : Except Misplaced String := do
  behind (← before text stop) start

end Text

namespace Template

/-- A placeholder of a text: the positions where it starts and stops, and its expression. -/
structure Placeholder where
  start : Nat
  stop : Nat
  expression : String
  proper : start < stop
  deriving DecidableEq, Repr

namespace Placeholder

/-- The position of the first two opening braces. -/
def opener? : List Char → Option Nat
  | [] => none
  | c :: cs =>
    if ['\x7b', '\x7b'].isPrefixOf (c :: cs) then some 0 else (opener? cs).map (c.utf8Size + ·)

/-- Whether an expression may end at a position of a body: it is not empty, and two closing braces
follow it. -/
def closesAt (body : String) (position : Nat) : Except Text.Misplaced Bool :=
  if position = 0 then .ok false
  else (Text.behind body position).map fun rest => ['\x7d', '\x7d'].isPrefixOf rest.toList

/-- The position of the closing braces that end the shortest expression. What is left of the body is
looked at character by character, up to a line break. -/
def closer? (body : String) (position : Nat) : List Char → Except Text.Misplaced (Option Nat)
  | [] => return none
  | c :: cs => do
    if ← closesAt body position then return some position
    else if isLineBreak c then return none
    else closer? body (position + c.utf8Size) cs

/-- The placeholder that starts where two braces open. -/
def at? (text : String) (start : Nat) : Except Text.Misplaced (Option Placeholder) := do
  let body ← Text.behind text (start + 2)
  match ← closer? body 0 body.toList with
  | none => return none
  | some position =>
    return some ⟨start, start + 2 + position + 2, ← Text.before body position, by omega⟩

end Placeholder

end Template

/-! ## What is consumed -/

theorem Text.cut_sound {text front rest : String} {position : Nat}
    (h : Text.cut text position = .ok (front, rest)) :
    text = front ++ rest ∧ front.utf8ByteSize = position := by
  unfold cut at h
  split at h
  · next hvalid =>
    obtain ⟨rfl, rfl⟩ := Prod.mk.inj (Except.ok.inj h)
    have hsplits := (text.pos ⟨position⟩ hvalid).splits
    exact ⟨hsplits.eq_append, congrArg String.Pos.Raw.byteIdx hsplits.offset_eq_rawEndPos.symm⟩
  · cases h

theorem Text.map_cut_sound {α : Type} {f : String × String → α} {text : String} {position : Nat} {part : α}
    (h : (Text.cut text position).map f = .ok part) :
    ∃ front rest, text = front ++ rest ∧ front.utf8ByteSize = position ∧ f (front, rest) = part := by
  cases hcut : cut text position with
  | error err => rw [hcut] at h; cases h
  | ok found =>
    rw [hcut] at h
    obtain ⟨htext, hsize⟩ := cut_sound hcut
    exact ⟨found.1, found.2, htext, hsize, Except.ok.inj h⟩

theorem Text.size_of_behind {text rest : String} {position : Nat}
    (h : Text.behind text position = .ok rest) :
    position + rest.utf8ByteSize = text.utf8ByteSize := by
  obtain ⟨front, rest, rfl, rfl, rfl⟩ := map_cut_sound h
  exact String.utf8ByteSize_append.symm

namespace Template.Placeholder

/-- The first placeholder that starts at a position or behind it. Where two braces open and no placeholder
starts, the search goes on one byte further. -/
def next? (text : String) (position : Nat) : Except Text.Misplaced (Option Placeholder) :=
  match h : Text.behind text position with
  | .error err => .error err
  | .ok rest =>
    match opener? rest.toList with
    | none => .ok none
    | some offset =>
      match at? text (position + offset) with
      | .error err => .error err
      | .ok (some p) => .ok (some p)
      | .ok none =>
        have := Text.size_of_behind h
        next? text (position + offset + 1)
termination_by text.utf8ByteSize + 1 - position

/-- The pieces of a text: each placeholder is searched for in what the last one left behind. -/
def pieces (text : String) : Except Text.Misplaced (List Piece) :=
  match next? text 0 with
  | .error err => .error err
  | .ok none => .ok [.literal text.toList]
  | .ok (some p) =>
    match Text.before text p.start with
    | .error err => .error err
    | .ok front =>
      match h : Text.behind text p.stop with
      | .error err => .error err
      | .ok rest =>
        have := Text.size_of_behind h
        have := p.proper
        (pieces rest).map fun ps => .literal front.toList :: .placeholder p.expression.toList :: ps
termination_by text.utf8ByteSize

end Template.Placeholder

end LiveMarkup

import LiveMarkup.Data.Traced
import LiveMarkup.Text.Blank
import LiveMarkup.Text.Numeral
import LiveMarkup.Text.Units

/-!
# Paths into data

A path names a value by the segments between its dots. An object is entered by key, an array by
position or by its length, a text by its length; anything else along the way is unresolved.

* `resolve`: the value at a path.
-/

namespace LiveMarkup

namespace Template

/-- Why a placeholder has no value. -/
inductive BindError where
  /-- Nothing was found at a segment of a path. -/
  | unresolved (path segment : String)
  /-- The expression is blank. -/
  | emptyPlaceholder
  deriving DecidableEq, Repr

def BindError.message : BindError → String
  | unresolved path segment => s!"cannot resolve `{path}`: nothing at `{segment}`"
  | emptyPlaceholder => "placeholder has an empty path"

/-- The parts of a list of characters between the marks; there is always one. -/
def splitAt (mark : Char) : List Char → List (List Char)
  | [] => [[]]
  | c :: cs =>
    if c = mark then [] :: splitAt mark cs
    else
      match splitAt mark cs with
      | [] => [[c]]
      | part :: parts => (c :: part) :: parts

/-- The segments of a path. -/
def segments (path : String) : List String :=
  (splitAt '.' path.toList).map String.ofList

/-- Positions in an array stay below this bound. -/
def indexBound : Nat := 0x10000000000000000

/-- What a segment names within a value, with the slot read for it. -/
def enter (h : Heap) (v : Value) (segment : String) : Traced (Option Value) :=
  match v with
  | .object o => ⟨[⟨o, segment⟩], h.peek o segment⟩
  | .array a =>
    if segment = "length" then ⟨[], some (.number (.ofNat (h.items a).length))⟩
    else ⟨[], (Text.readNumeral 10 indexBound segment.toList).bind fun i => (h.items a)[i]?⟩
  | .string s =>
    if segment = "length" then ⟨[], some (.number (.ofNat (Text.units16 s.toList)))⟩
    else ⟨[], none⟩
  | _ => ⟨[], none⟩

/-- The value that a list of segments leads to; the first one that leads nowhere is the result
otherwise. -/
def descend (h : Heap) (v : Value) : List String → Traced (Except String Value)
  | [] => ⟨[], .ok v⟩
  | segment :: rest =>
    let found := enter h v segment
    match found.result with
    | some w =>
      let t := descend h w rest
      ⟨found.reads ++ t.reads, t.result⟩
    | none => ⟨found.reads, .error segment⟩

/-- The value at a path within an object. -/
def resolve (h : Heap) (data : ObjectId) (path : String) : Traced (Except BindError Value) :=
  let path := Text.trim path
  if path.isEmpty then ⟨[], .error .emptyPlaceholder⟩
  else
    let t := descend h (.object data) (segments path)
    ⟨t.reads, t.result.mapError fun segment => .unresolved path segment⟩

end Template

end LiveMarkup

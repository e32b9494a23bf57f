import LiveMarkup.CommandLine.Failure
import LiveMarkup.Json.Draft

/-!
# Assignments

An assignment is a path, an equals sign and a value. The value is read as JSON; what is not JSON is
taken as a text.

* `Assignment.parse`: the assignment that a text spells.
* `Assignment.perform`: the write that an assignment asks of an instance.
* `parseData`: instance data from a JSON text.
-/

namespace LiveMarkup

variable [Json.Rounding]

/-- A path and the data to be written there. -/
structure Assignment where
  path : String
  value : Draft

namespace Assignment

/-- The value on the right-hand side of an assignment. -/
def readValue (raw : String) : Draft :=
  match Json.read raw with
  | some j => j.draft
  | none => .value (.string raw)

/-- The assignment that a text spells: what stands before the first equals sign is the path. -/
def parse (arg : String) : Except Failure Assignment :=
  let cs := arg.toList
  match cs.dropWhile (· ≠ '=') with
  | [] => .error (.noEquals arg)
  | _ :: raw =>
    let path := String.ofList (Text.trimBlank (cs.takeWhile (· ≠ '=')))
    if (Template.segments path).any String.isEmpty then .error (.badPath path)
    else .ok ⟨path, readValue (String.ofList raw)⟩

/-- The object at the end of a list of segments, entered one by one; `walked` are those before. -/
def parent (h : Heap) (o : ObjectId) (walked : List String) :
    List String → Except AssignError ObjectId
  | [] => .ok o
  | segment :: rest =>
    let walked := walked ++ [segment]
    match h.peek o segment with
    | some (.object o') => parent h o' walked rest
    | some v => .error (.notObject (String.intercalate "." walked) (h.unfold v))
    | none => .error (.missing (String.intercalate "." walked))

variable {ε : Type}

/-- Writes an assignment: a property of the instance, or a slot of an object below it. In the second
case any error of a render cycle that was not handed out yet is the result. -/
def perform (a : Assignment) (app : AppId) : Live (Stage ε) (Except AssignError Unit) := do
  let path := Template.segments a.path
  let key := path.getLastD ""
  let v ← Live.build a.value
  match path.dropLast with
  | [] => return (← App.set app key v).mapError .app
  | segments =>
    match parent (← Live.heap) (← App.look app).data [] segments with
    | .error e => return .error e
    | .ok o =>
      Live.write o key v
      match ← App.takeError app with
      | some e => return .error (.app e)
      | none => return .ok ()

end Assignment

/-- The data that a JSON text spells. -/
def readJson (text : String) : Except Failure Draft :=
  match Json.read text with
  | some j => .ok j.draft
  | none => .error .json

/-- Instance data from a JSON text, which must spell an object: its members. -/
def parseData (text : String) : Except Failure (List (String × Draft)) := do
  match ← Failure.label "invalid data JSON" (readJson text) with
  | .object members => return members
  | draft =>
    let (v, h) := Heap.empty.build draft
    throw (.dataNotObject (h.display v))

end LiveMarkup

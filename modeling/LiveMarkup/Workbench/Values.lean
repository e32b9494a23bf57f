import LiveMarkup.Data.Equality
import LiveMarkup.Workbench.Registers

/-!
# Named values

* `Brief`: the type and the text of a value.
* `Desk`: operations of a workbench.
* Operations on named objects and arrays, and questions about values.
-/

namespace LiveMarkup.Workbench

/-- An operation of a workbench. -/
abbrev Desk (α : Type) := Live Bench α

/-- The type of a value and its text. -/
structure Brief where
  typeName : String
  display : String

namespace Desk

/-! ## Names -/

def registers : Desk Registers := do return (← Live.host).extra

def alterRegisters (change : Registers → Registers) : Desk Unit := Live.tell (alter change)

/-- What goes by a name; nothing else will do. -/
def named {α : Type} (name : String) (find? : Registers → Option α) : Desk α := do
  match find? (← registers) with
  | some a => return a
  | none => throw (.unknownName name)

def objectAt (name : String) : Desk ObjectId :=
  named name fun r => (r.values.find? name).bind Value.object?

def arrayAt (name : String) : Desk ArrayId :=
  named name fun r => (r.values.find? name).bind Value.array?

/-- Keeps a value under a name, if one is given. -/
def keepValue (name : Option String) (v : Value) : Desk Unit :=
  match name with
  | some name => alterRegisters fun r => { r with values := r.values.insert name v }
  | none => return ()

/-- The value of a literal, laid out on the heap. -/
def value (l : Literal) : Desk Value := do Live.build (l.draft (← registers).values)

def brief (v : Value) : Desk Brief := do return ⟨v.typeName, (← Live.heap).display v⟩

/-- Keeps a value that may be missing, and describes it. -/
def answer (name : Option String) (v : Option Value) : Desk (Option Brief) :=
  match v with
  | some v => do
    keepValue name v
    return some (← brief v)
  | none => return none

/-! ## Objects -/

def letValue (name : Option String) (l : Literal) : Desk Brief := do
  let v ← value l
  keepValue name v
  brief v

def setSlot (object key : String) (l : Literal) : Desk Unit := do
  let o ← objectAt object
  Live.write o key (← value l)

/-- Writes a slot; the result is the object itself. -/
def withSlot (name : Option String) (object key : String) (l : Literal) : Desk Brief := do
  setSlot object key l
  let v := Value.object (← objectAt object)
  keepValue name v
  brief v

def getSlot (name : Option String) (object key : String) : Desk (Option Brief) := do
  answer name (← Live.read (← objectAt object) key)

def peekSlot (name : Option String) (object key : String) : Desk (Option Brief) := do
  let o ← objectAt object
  answer name ((← Live.heap).peek o key)

/-- The keys of an object, and whether it has been observed. -/
def objectInfo (object : String) : Desk (List String × Bool) := do
  let o ← objectAt object
  let h ← Live.heap
  return (h.keys o, h.isObserved o)

def hasSlot (object key : String) : Desk Bool := do
  let o ← objectAt object
  return ((← Live.heap).peek o key).isSome

def observeValue (l : Literal) : Desk Unit := do Live.edit (.observe (← value l))

def observeObject (object : String) : Desk Unit := do
  Live.edit (.observe (.object (← objectAt object)))

/-! ## Arrays -/

def getItem (name : Option String) (array : String) (i : Nat) : Desk (Option Brief) := do
  let a ← arrayAt array
  answer name ((← Live.heap).items a)[i]?

def setItem (array : String) (i : Nat) (l : Literal) : Desk Unit := do
  let a ← arrayAt array
  Live.edit (.setItem a i (← value l))

def pushItem (array : String) (l : Literal) : Desk Unit := do
  let a ← arrayAt array
  Live.edit (.push a (← value l))

def arrayInfo (array : String) : Desk (List Brief) := do
  let a ← arrayAt array
  ((← Live.heap).items a).mapM brief

/-! ## Questions -/

/-- How two values compare. -/
structure Comparison where
  same : Bool
  equal : Bool
  /-- Whether two containers of one kind are one and the same. -/
  identical : Option Bool

def compare (l l' : Literal) : Desk Comparison := do
  let v ← value l
  let w ← value l'
  let identical := match v, w with
    | .array a, .array b => some (a == b)
    | .object a, .object b => some (a == b)
    | _, _ => none
  return ⟨v.same w, (← Live.heap).equal v w, identical⟩

/-- What a value is, from all sides. -/
structure Portrait where
  brief : Brief
  string : Option String
  number : Option Number
  isObject : Bool
  arrayLength : Option Nat
  objectLength : Option Nat

def portrait (l : Literal) : Desk Portrait := do
  let v ← value l
  let h ← Live.heap
  return ⟨← brief v, v.string?, v.number?, v.object?.isSome,
    v.array?.map fun a => (h.items a).length, v.object?.map fun o => (h.keys o).length⟩

def preciseText (l : Literal) : Desk String := do
  let v ← value l
  return (← Live.heap).precise v

def unfolding (l : Literal) : Desk Unfolding := do
  let v ← value l
  return (← Live.heap).unfold v

end Desk

end LiveMarkup.Workbench

import LiveMarkup.Number.Written

/-!
# Data values

A value is a scalar or the handle of a container. Containers live on a heap, so that two values may
share one, and a container may hold itself.

* `Value.same`: identity of values. Scalars are identical if they are equal, containers if they are
  one and the same.
-/

namespace LiveMarkup

/-- The handle of an object. -/
structure ObjectId where
  index : Nat
  deriving DecidableEq, Repr

/-- The handle of an array. -/
structure ArrayId where
  index : Nat
  deriving DecidableEq, Repr

/-- A data value. -/
inductive Value where
  | null
  | bool (b : Bool)
  | number (n : Number)
  | string (s : String)
  | array (a : ArrayId)
  | object (o : ObjectId)
  deriving DecidableEq, Repr

namespace Value

/-- The name of the type of a value. -/
def typeName : Value → String
  | null => "null"
  | bool _ => "boolean"
  | number _ => "number"
  | string _ => "string"
  | array _ => "array"
  | object _ => "object"

/-- Identity of values. Numbers are identical if they are equal, which NaN never is. -/
def same : Value → Value → Bool
  | number m, number n => m.same n
  | a, b => a == b

def object? : Value → Option ObjectId
  | object o => some o
  | _ => none

def array? : Value → Option ArrayId
  | array a => some a
  | _ => none

def string? : Value → Option String
  | string s => some s
  | _ => none

def number? : Value → Option Number
  | number n => some n
  | _ => none

theorem same_comm (a b : Value) : a.same b = b.same a := by
  cases a <;> cases b <;> first | exact Number.same_comm _ _ | exact Bool.beq_comm

end Value

end LiveMarkup

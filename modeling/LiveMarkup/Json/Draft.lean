import LiveMarkup.Data.Heap
import LiveMarkup.Json.Reader

/-!
# JSON as data

The data that a JSON value spells: the members of an object are sorted by name, and of a repeated
name the last value counts.

* `Json.draft`: the data of a JSON value, to be laid out.
-/

namespace LiveMarkup.Json

/-- Members in the order of their names, the last value of a repeated name. -/
def sortMembers {α : Type} (members : List (String × α)) : List (String × α) :=
  (Table.ofList members).entries.mergeSort fun a b => !decide (b.1 < a.1)

mutual

/-- The data of a JSON value. -/
def draft : Json → Draft
  | null => .value .null
  | bool b => .value (.bool b)
  | number n => .value (.number n)
  | string s => .value (.string s)
  | array items => .array (drafts items)
  | object members => .object (sortMembers (memberDrafts members))

def drafts : List Json → List Draft
  | [] => []
  | j :: js => j.draft :: drafts js

def memberDrafts : List (String × Json) → List (String × Draft)
  | [] => []
  | (name, j) :: ms => (name, j.draft) :: memberDrafts ms

end

end LiveMarkup.Json

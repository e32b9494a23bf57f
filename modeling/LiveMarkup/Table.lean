/-!
# Tables in insertion order

A table maps texts to values and keeps its keys in the order in which they first came. Writing to
a key that is already there changes its value and leaves it where it is.

* `Table.find?`, `Table.insert`, `Table.erase`, `Table.ofList`: the operations.
* **`Table.find?_insert`**: what a look-up finds after a write.
* **`Table.keys_insert`**: the keys after a write.
-/

namespace LiveMarkup

/-! ## Entries -/

section Entries

variable {α : Type}

/-- The value under the first entry with a key. -/
def findEntry (key : String) : List (String × α) → Option α
  | [] => none
  | (k, v) :: rest => if k = key then some v else findEntry key rest

/-- The entries with a value written under a key: in place, or else at the end. -/
def putEntry (key : String) (value : α) : List (String × α) → List (String × α)
  | [] => [(key, value)]
  | (k, v) :: rest => if k = key then (k, value) :: rest else (k, v) :: putEntry key value rest

theorem map_fst_putEntry (key : String) (value : α) (es : List (String × α)) :
    (putEntry key value es).map Prod.fst =
      if key ∈ es.map Prod.fst then es.map Prod.fst else es.map Prod.fst ++ [key] := by
  induction es with
  | nil => simp [putEntry]
  | cons e rest ih =>
    obtain ⟨k, v⟩ := e
    by_cases h : k = key
    · simp [putEntry, h]
    · simp only [putEntry, if_neg h, List.map_cons, ih, List.mem_cons, Ne.symm h, false_or]
      split <;> simp

theorem findEntry_putEntry (key key' : String) (value : α) (es : List (String × α)) :
    findEntry key' (putEntry key value es) =
      if key' = key then some value else findEntry key' es := by
  induction es with
  | nil => simp [putEntry, findEntry, eq_comm]
  | cons e rest ih =>
    obtain ⟨k, v⟩ := e
    by_cases h : k = key
    · subst h
      simp only [putEntry, if_true, findEntry]
      by_cases h' : k = key'
      · simp [h']
      · simp [h', Ne.symm h']
    · simp only [putEntry, if_neg h, findEntry]
      by_cases h' : k = key'
      · subst h'; simp [h]
      · simp [h', ih]

theorem findEntry_eq_none_iff {key : String} {es : List (String × α)} :
    findEntry key es = none ↔ key ∉ es.map Prod.fst := by
  induction es with
  | nil => simp [findEntry]
  | cons e rest ih =>
    obtain ⟨k, v⟩ := e
    by_cases h : k = key
    · simp [findEntry, h]
    · simp [findEntry, h, ih, Ne.symm h]

end Entries

/-! ## Tables -/

/-- Values under distinct keys, in the order in which the keys first came. -/
structure Table (α : Type) where
  entries : List (String × α)
  nodup : (entries.map Prod.fst).Nodup

namespace Table

variable {α : Type}

instance [DecidableEq α] : DecidableEq (Table α) := fun a b =>
  decidable_of_iff (a.entries = b.entries)
    ⟨fun h => by cases a; cases b; simp_all, fun h => by rw [h]⟩

def empty : Table α := ⟨[], by simp⟩

instance : Inhabited (Table α) := ⟨empty⟩

def find? (t : Table α) (key : String) : Option α := findEntry key t.entries

def keys (t : Table α) : List String := t.entries.map Prod.fst

def size (t : Table α) : Nat := t.entries.length

def contains (t : Table α) (key : String) : Bool := (t.find? key).isSome

/-- The table with a value under a key: in place of the old one, or at the end. -/
def insert (t : Table α) (key : String) (value : α) : Table α where
  entries := putEntry key value t.entries
  nodup := by
    rw [map_fst_putEntry]
    split
    · exact t.nodup
    · next h =>
      exact List.nodup_append.2 ⟨t.nodup, by simp, fun a ha b hb => by
        rintro rfl; simp_all⟩

/-- The table without a key. -/
def erase (t : Table α) (key : String) : Table α where
  entries := t.entries.filter fun e => e.1 ≠ key
  nodup := t.nodup.sublist (List.Sublist.map _ List.filter_sublist)

/-- The table that a list of writes builds: the last value of a key, at its first position. -/
def ofList (es : List (String × α)) : Table α :=
  es.foldl (fun t e => t.insert e.1 e.2) empty

@[simp] theorem find?_empty (key : String) : (empty : Table α).find? key = none := rfl

theorem find?_insert (t : Table α) (key key' : String) (value : α) :
    (t.insert key value).find? key' = if key' = key then some value else t.find? key' :=
  findEntry_putEntry key key' value t.entries

theorem find?_insert_self (t : Table α) (key : String) (value : α) :
    (t.insert key value).find? key = some value := by
  rw [find?_insert, if_pos rfl]

theorem keys_insert (t : Table α) (key : String) (value : α) :
    (t.insert key value).keys = if key ∈ t.keys then t.keys else t.keys ++ [key] :=
  map_fst_putEntry key value t.entries

theorem find?_eq_none_iff {t : Table α} {key : String} : t.find? key = none ↔ key ∉ t.keys :=
  findEntry_eq_none_iff

theorem find?_isSome_iff {t : Table α} {key : String} : (t.find? key).isSome ↔ key ∈ t.keys := by
  rw [Option.isSome_iff_ne_none, ne_eq, find?_eq_none_iff, Classical.not_not]

end Table

end LiveMarkup

import LiveMarkup.Table

/-!
# Laws of tables

* `findEntry_map`, `map_putEntry`: a look-up and a write seen through a function of the values.
* `findEntry_eq_some_iff`: under distinct keys a look-up finds every entry.
* **`Table.ofList_entries`**: a table is the table of its own entries.
* `Table.ext_entries`: a table is given by its entries.
* **`Table.perm_iff`**: two tables find the same if they have the same entries in any order.
-/

namespace LiveMarkup

section Entries

variable {α β : Type} {key : String} {v : α} {es : List (String × α)}

theorem putEntry_of_not_mem (value : α) (h : key ∉ es.map Prod.fst) :
    putEntry key value es = es ++ [(key, value)] := by
  induction es with
  | nil => rfl
  | cons e es ih =>
    obtain ⟨k, v⟩ := e
    obtain ⟨hk, hes⟩ := not_or.1 (mt List.mem_cons.2 h)
    rw [putEntry, if_neg (Ne.symm hk), ih hes, List.cons_append]

/-- A write of the value that is there. -/
theorem putEntry_of_findEntry (h : findEntry key es = some v) : putEntry key v es = es := by
  induction es with
  | nil => cases h
  | cons e es ih =>
    obtain ⟨k, u⟩ := e
    by_cases hk : k = key
    · rw [findEntry, if_pos hk] at h
      rw [putEntry, if_pos hk, Option.some.inj h]
    · rw [findEntry, if_neg hk] at h
      rw [putEntry, if_neg hk, ih h]

theorem findEntry_map (key : String) (g : α → β) (es : List (String × α)) :
    findEntry key (es.map fun e => (e.1, g e.2)) = (findEntry key es).map g := by
  induction es with
  | nil => rfl
  | cons e es ih =>
    obtain ⟨k, u⟩ := e
    by_cases hk : k = key <;> simp [findEntry, hk, ih]

theorem map_putEntry (key : String) (g : α → β) (v : α) (es : List (String × α)) :
    (putEntry key v es).map (fun e => (e.1, g e.2)) =
      putEntry key (g v) (es.map fun e => (e.1, g e.2)) := by
  induction es with
  | nil => rfl
  | cons e es ih =>
    obtain ⟨k, u⟩ := e
    by_cases hk : k = key <;> simp [putEntry, hk, ih]

theorem mem_putEntry {e : String × α} (h : e ∈ putEntry key v es) : e = (key, v) ∨ e ∈ es := by
  induction es with
  | nil => exact .inl (List.mem_singleton.1 h)
  | cons e' es ih =>
    obtain ⟨k, u⟩ := e'
    by_cases hk : k = key
    · rw [putEntry, if_pos hk] at h
      rcases List.mem_cons.1 h with rfl | h
      · exact .inl (by rw [hk])
      · exact .inr (List.mem_cons_of_mem _ h)
    · rw [putEntry, if_neg hk] at h
      rcases List.mem_cons.1 h with rfl | h
      · exact .inr List.mem_cons_self
      · exact (ih h).imp_right (List.mem_cons_of_mem _)

theorem mem_of_findEntry (h : findEntry key es = some v) : (key, v) ∈ es := by
  induction es with
  | nil => cases h
  | cons e es ih =>
    obtain ⟨k, u⟩ := e
    by_cases hk : k = key
    · rw [findEntry, if_pos hk] at h
      rw [hk, Option.some.inj h]
      exact List.mem_cons_self
    · rw [findEntry, if_neg hk] at h
      exact List.mem_cons_of_mem _ (ih h)

/-- Under distinct keys a look-up finds every entry. -/
theorem findEntry_eq_some_iff (nodup : (es.map Prod.fst).Nodup) :
    findEntry key es = some v ↔ (key, v) ∈ es := by
  refine ⟨mem_of_findEntry, fun hm => ?_⟩
  induction es with
  | nil => cases hm
  | cons e es ih =>
    obtain ⟨k, u⟩ := e
    obtain ⟨hk, hes⟩ := List.nodup_cons.1 nodup
    rcases List.mem_cons.1 hm with he | hm
    · obtain ⟨rfl, rfl⟩ := Prod.mk.inj he
      rw [findEntry, if_pos rfl]
    · have hne : k ≠ key := by
        rintro rfl
        exact hk (List.mem_map.2 ⟨_, hm, rfl⟩)
      rw [findEntry, if_neg hne, ih hes hm]

end Entries

namespace Table

variable {α : Type}

theorem ext_entries {t u : Table α} (h : t.entries = u.entries) : t = u := by
  cases t; cases u; cases h; rfl

/-- Entries under new keys are appended. -/
theorem entries_foldl_insert (es : List (String × α)) (t : Table α)
    (h : ((t.entries ++ es).map Prod.fst).Nodup) :
    (es.foldl (fun t e => t.insert e.1 e.2) t).entries = t.entries ++ es := by
  induction es generalizing t with
  | nil => simp
  | cons e es ih =>
    have hne : e.1 ∉ t.entries.map Prod.fst := by
      intro hm
      rw [List.map_append, List.nodup_append] at h
      exact h.2.2 _ hm e.1 (by simp) rfl
    have hins : (t.insert e.1 e.2).entries = t.entries ++ [e] := putEntry_of_not_mem e.2 hne
    rw [List.foldl_cons, ih _ (by rw [hins, List.append_assoc]; exact h), hins, List.append_assoc]
    rfl

theorem mem_entries_foldl_insert {e : String × α} {es : List (String × α)} {t : Table α}
    (h : e ∈ (es.foldl (fun t e => t.insert e.1 e.2) t).entries) : e ∈ t.entries ∨ e ∈ es := by
  induction es generalizing t with
  | nil => exact .inl h
  | cons e' es ih =>
    rcases ih h with h | h
    · rcases mem_putEntry h with rfl | h
      · exact .inr List.mem_cons_self
      · exact .inl h
    · exact .inr (List.mem_cons_of_mem _ h)

/-- A table that a list of writes builds has no other entries. -/
theorem mem_of_mem_ofList {e : String × α} {es : List (String × α)} (h : e ∈ (ofList es).entries) :
    e ∈ es :=
  (mem_entries_foldl_insert h).resolve_left List.not_mem_nil

/-- A table is the table of its own entries. -/
theorem ofList_entries (t : Table α) : ofList t.entries = t :=
  ext_entries ((entries_foldl_insert t.entries empty t.nodup).trans (List.nil_append _))

theorem find?_eq_some_iff {t : Table α} {key : String} {v : α} :
    t.find? key = some v ↔ (key, v) ∈ t.entries :=
  findEntry_eq_some_iff t.nodup

theorem nodup_entries (t : Table α) : t.entries.Nodup :=
  List.Pairwise.of_map Prod.fst (fun _ _ hne heq => hne (congrArg Prod.fst heq)) t.nodup

/-- **Two tables find the same under every key** if they have the same entries in any order. -/
theorem perm_iff {t u : Table α} : t.entries.Perm u.entries ↔ t.find? = u.find? := by
  rw [List.perm_ext_iff_of_nodup t.nodup_entries u.nodup_entries]
  constructor
  · intro h
    funext key
    refine Option.ext fun v => ?_
    rw [find?_eq_some_iff, find?_eq_some_iff, h]
  · rintro h ⟨key, v⟩
    rw [← find?_eq_some_iff, ← find?_eq_some_iff, h]

end Table

end LiveMarkup

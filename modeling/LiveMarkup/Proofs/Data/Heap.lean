import LiveMarkup.Data.Edit
import LiveMarkup.Data.Traced

/-!
# Views of the heap

What each elementary change does to the objects, the slots, the arrays and the subscribers of a heap.

* `Heap.slot?_putSlot`, `Heap.subscribers_setSubscribers`, …: the views after each change.
* `Heap.Extends`: a heap that has lost no dep and no subscriber.
* **`Heap.Extends.track`**, **`Heap.track_subscribes`**: a tracked reading subscribes, and loses nothing.
* **`Heap.subscribers_track`**: whom it subscribes, and to which deps.
-/

namespace LiveMarkup.Heap

variable {h h' h'' : Heap} {o x : ObjectId} {key k : String} {d e : DepId} {w : WatcherId}

/-! ## Objects and slots -/

theorem isSome_object?_iff : (h.object? o).isSome ↔ o.index < h.objects.size := by
  simp [object?]

theorem object?_eq_none (ho : h.objects.size ≤ o.index) : h.object? o = none :=
  Array.getElem?_eq_none ho

theorem lt_of_slot? {s : Slot} (hs : h.slot? o key = some s) : o.index < h.objects.size := by
  obtain ⟨f, hf, -⟩ := Option.bind_eq_some_iff.1 hs
  rw [← isSome_object?_iff, hf]; rfl

theorem lt_of_isObserved (ho : h.isObserved o) : o.index < h.objects.size := by
  rw [← isSome_object?_iff]
  cases hf : h.object? o with
  | none => simp [isObserved, hf] at ho
  | some f => rfl

theorem slot?_of_dep? (hd : h.dep? o key = some d) : ∃ v, h.slot? o key = some ⟨v, some d⟩ := by
  obtain ⟨⟨v, dep⟩, hs, hdep⟩ := Option.bind_eq_some_iff.1 hd
  exact ⟨v, hs.trans (by rw [show dep = some d from hdep])⟩

theorem dep?_of_slot? {v : Value} {dep : Option DepId} (hs : h.slot? o key = some ⟨v, dep⟩) :
    h.dep? o key = dep := by
  rw [dep?, hs]; rfl

theorem mem_arrayIds_iff {a : ArrayId} : a ∈ h.arrayIds ↔ a.index < h.arrays.size := by
  obtain ⟨i⟩ := a
  simp [arrayIds]

theorem nodup_arrayIds (h : Heap) : h.arrayIds.Nodup :=
  List.pairwise_map.2 (List.Pairwise.imp (fun hne e => hne (ArrayId.mk.inj e)) List.nodup_range)

theorem object?_modifyObject (h : Heap) (o x : ObjectId) (f : Fields → Fields) :
    (h.modifyObject o f).object? x = if x = o then (h.object? x).map f else h.object? x := by
  obtain ⟨i⟩ := o
  obtain ⟨j⟩ := x
  simp only [object?, modifyObject, Array.getElem?_modify, ObjectId.mk.injEq, eq_comm (a := i)]

@[simp] theorem size_modifyObject (h : Heap) (o : ObjectId) (f : Fields → Fields) :
    (h.modifyObject o f).objects.size = h.objects.size := by simp [modifyObject]

@[simp] theorem size_putSlot (h : Heap) (o : ObjectId) (key : String) (s : Slot) :
    (h.putSlot o key s).objects.size = h.objects.size := by simp [putSlot]

theorem slot?_putSlot (h : Heap) (o x : ObjectId) (key k : String) (s : Slot) :
    (h.putSlot o key s).slot? x k =
      if x = o ∧ k = key ∧ o.index < h.objects.size then some s else h.slot? x k := by
  simp only [slot?, putSlot, object?_modifyObject, ← isSome_object?_iff]
  by_cases hx : x = o
  · subst hx
    cases h.object? x with
    | none => simp
    | some f => simp [Table.find?_insert]
  · simp [hx]

@[simp] theorem isObserved_putSlot (h : Heap) (o x : ObjectId) (key : String) (s : Slot) :
    (h.putSlot o key s).isObserved x = h.isObserved x := by
  simp only [isObserved, putSlot, object?_modifyObject]
  split
  · cases h.object? x <;> rfl
  · rfl

@[simp] theorem deps_putSlot (h : Heap) (o : ObjectId) (key : String) (s : Slot) :
    (h.putSlot o key s).deps = h.deps := rfl

/-! ## New objects -/

theorem object?_newObject (h : Heap) (f : Fields) (x : ObjectId) :
    (h.newObject f).2.object? x = if x = ⟨h.objects.size⟩ then some f else h.object? x := by
  obtain ⟨j⟩ := x
  simp only [object?, newObject, Array.getElem?_push, ObjectId.mk.injEq]

theorem object?_newObject_of_lt {f : Fields} (hx : x.index < h.objects.size) :
    (h.newObject f).2.object? x = h.object? x := by
  rw [object?_newObject, if_neg]
  rintro rfl
  exact Nat.lt_irrefl _ hx

/-! ## Deps -/

@[simp] theorem slot?_newDep (h : Heap) : h.newDep.2.slot? x k = h.slot? x k := rfl

@[simp] theorem isObserved_newDep (h : Heap) : h.newDep.2.isObserved x = h.isObserved x := rfl

@[simp] theorem size_deps_newDep (h : Heap) : h.newDep.2.deps.size = h.deps.size + 1 := by
  simp [newDep]

/-- A dep that was not made has no subscribers. -/
theorem subscribers_of_le (hd : h.deps.size ≤ d.index) : h.subscribers d = [] := by
  rw [subscribers, Array.getElem?_eq_none hd]
  rfl

/-- A new dep has no subscribers. -/
@[simp] theorem subscribers_newDep (h : Heap) (d : DepId) :
    h.newDep.2.subscribers d = h.subscribers d := by
  obtain ⟨i⟩ := d
  simp only [subscribers, newDep, Array.getElem?_push]
  split
  · next hi => rw [Array.getElem?_eq_none (Nat.le_of_eq hi.symm)]; rfl
  · rfl

theorem subscribers_setSubscribers (h : Heap) (d e : DepId) (ws : List WatcherId) :
    (h.setSubscribers d ws).subscribers e =
      if e = d ∧ d.index < h.deps.size then ws else h.subscribers e := by
  obtain ⟨i⟩ := d
  obtain ⟨j⟩ := e
  simp only [subscribers, setSubscribers, Array.getElem?_modify, DepId.mk.injEq, eq_comm (a := j)]
  by_cases hij : i = j
  · subst hij
    by_cases hi : i < h.deps.size
    · simp [hi]
    · simp [hi]
  · simp [hij]

theorem setSubscribers_self (h : Heap) (d : DepId) : h.setSubscribers d (h.subscribers d) = h := by
  obtain ⟨objects, arrays, deps⟩ := h
  refine congrArg (Heap.mk objects arrays) (Array.ext_getElem? fun i => ?_)
  rw [Array.getElem?_modify]
  split
  · next hi =>
    subst hi
    cases hd : deps[d.index]? with
    | none => rfl
    | some ws => simp [Heap.subscribers, hd]
  · rfl

@[simp] theorem size_deps_setSubscribers (h : Heap) (d : DepId) (ws : List WatcherId) :
    (h.setSubscribers d ws).deps.size = h.deps.size := by simp [setSubscribers]

theorem subscribe_eq (h : Heap) (d : DepId) (w : WatcherId) :
    h.subscribe d w = h ∨ h.subscribe d w = h.setSubscribers d (h.subscribers d ++ [w]) := by
  unfold subscribe
  split
  · exact .inl rfl
  · exact .inr rfl

theorem mem_subscribe_self (hd : d.index < h.deps.size) : w ∈ (h.subscribe d w).subscribers d := by
  unfold subscribe
  split
  · assumption
  · rw [subscribers_setSubscribers, if_pos ⟨rfl, hd⟩]
    simp

/-! ## Growth -/

/-- A heap that has lost no dep of a slot, and no subscriber. -/
structure Extends (h h' : Heap) : Prop where
  dep? : ∀ o key d, h.dep? o key = some d → h'.dep? o key = some d
  subscribers : ∀ d, ∀ w ∈ h.subscribers d, w ∈ h'.subscribers d

namespace Extends

theorem refl (h : Heap) : h.Extends h := ⟨fun _ _ _ hd => hd, fun _ _ hw => hw⟩

theorem trans (a : h.Extends h') (b : h'.Extends h'') : h.Extends h'' :=
  ⟨fun o key d hd => b.dep? o key d (a.dep? o key d hd),
    fun d w hw => b.subscribers d w (a.subscribers d w hw)⟩

theorem newDep (h : Heap) : h.Extends h.newDep.2 :=
  ⟨fun _ _ _ hd => hd, fun d w hw => by rwa [subscribers_newDep]⟩

theorem subscribe (h : Heap) (d : DepId) (w : WatcherId) : h.Extends (h.subscribe d w) := by
  rcases subscribe_eq h d w with e | e
  · rw [e]; exact refl h
  · rw [e]
    refine ⟨fun _ _ _ hd => hd, fun e x hx => ?_⟩
    rw [subscribers_setSubscribers]
    split
    · next he => rw [he.1] at hx; exact List.mem_append_left _ hx
    · exact hx

/-- A slot written over keeps its dep. -/
theorem putSlot {s : Slot} (hs : ∀ d, h.dep? o key = some d → s.dep = some d) :
    h.Extends (h.putSlot o key s) := by
  refine ⟨fun x k d hd => ?_, fun _ _ hw => hw⟩
  rw [Heap.dep?, slot?_putSlot]
  split
  · next hx =>
    obtain ⟨rfl, rfl, -⟩ := hx
    exact hs d hd
  · exact hd

theorem track (h : Heap) (w : WatcherId) (ps : List Place) : h.Extends (h.track w ps) := by
  induction ps generalizing h with
  | nil => exact refl h
  | cons p ps ih =>
    unfold Heap.track
    split
    · exact (subscribe h _ w).trans (ih _)
    · exact ih h

end Extends

/-- A tracked reading subscribes to the dep of every place that has one. -/
theorem track_subscribes {ps : List Place} {p : Place} (hp : p ∈ ps) (hd : h.depAt? p = some d)
    (hlt : d.index < h.deps.size) : w ∈ (h.track w ps).subscribers d := by
  induction ps generalizing h with
  | nil => exact absurd hp List.not_mem_nil
  | cons q ps ih =>
    unfold track
    rcases List.mem_cons.1 hp with rfl | hp
    · rw [hd]
      exact (Extends.track _ w ps).subscribers d w (mem_subscribe_self hlt)
    · split
      · next e he =>
        have hext := Extends.subscribe h e w
        refine ih hp (hext.dep? _ _ _ hd) (Nat.lt_of_lt_of_le hlt ?_)
        rcases subscribe_eq h e w with eq | eq <;> simp [eq]
      · exact ih hp hd hlt

/-! ## Tracked readings -/

theorem subscribers_subscribe (h : Heap) (d e : DepId) (w : WatcherId) :
    (h.subscribe d w).subscribers e =
      if e = d ∧ d.index < h.deps.size ∧ w ∉ h.subscribers d then h.subscribers e ++ [w]
      else h.subscribers e := by
  unfold subscribe
  by_cases hw : w ∈ h.subscribers d
  · rw [if_pos hw, if_neg fun hc => hc.2.2 hw]
  · rw [if_neg hw, subscribers_setSubscribers]
    by_cases hd : e = d ∧ d.index < h.deps.size
    · rw [if_pos hd, if_pos ⟨hd.1, hd.2, hw⟩, hd.1]
    · rw [if_neg hd, if_neg fun hc => hd ⟨hc.1, hc.2.1⟩]

theorem depAt?_subscribe (h : Heap) (d : DepId) (w : WatcherId) (p : Place) :
    (h.subscribe d w).depAt? p = h.depAt? p := by
  rcases subscribe_eq h d w with he | he <;> rw [he]
  rfl

theorem size_deps_subscribe (h : Heap) (d : DepId) (w : WatcherId) :
    (h.subscribe d w).deps.size = h.deps.size := by
  rcases subscribe_eq h d w with he | he <;> simp [he]

theorem size_deps_track (h : Heap) (w : WatcherId) (ps : List Place) :
    (h.track w ps).deps.size = h.deps.size := by
  induction ps generalizing h with
  | nil => rfl
  | cons p ps ih =>
    unfold track
    split
    · rw [ih, size_deps_subscribe]
    · exact ih h

/-- **A tracked reading subscribes a watcher to the deps of what was read**, after all others. -/
theorem subscribers_track (h : Heap) (w : WatcherId) (ps : List Place) (d : DepId) :
    (h.track w ps).subscribers d =
      if d ∈ ps.filterMap h.depAt? ∧ d.index < h.deps.size ∧ w ∉ h.subscribers d
      then h.subscribers d ++ [w] else h.subscribers d := by
  induction ps generalizing h with
  | nil => rw [if_neg fun hc => List.not_mem_nil hc.1]; rfl
  | cons p ps ih =>
    unfold track
    cases hp : h.depAt? p with
    | none => rw [List.filterMap_cons_none hp]; exact ih h
    | some e =>
      have hdeps : ps.filterMap (h.subscribe e w).depAt? = ps.filterMap h.depAt? :=
        congrArg (ps.filterMap ·) (funext fun q => depAt?_subscribe h e w q)
      simp only
      rw [ih, hdeps, size_deps_subscribe, subscribers_subscribe, List.filterMap_cons_some hp]
      by_cases hd : d = e
      · subst hd
        by_cases hc : d.index < h.deps.size ∧ w ∉ h.subscribers d
        · simp [hc]
        · simp [hc]
      · simp [hd]

end LiveMarkup.Heap

import LiveMarkup.Proofs.Data.Deps

/-!
# Writes and new data

A write that is not ignored changes one slot, which keeps its dep, and observes what it wrote if the
object is observed. New data are laid out apart from all that is there, and are not observed.

* `Heap.ignores`: a write of an identical value.
* `Heap.Wrote`: one slot has a new value.
* `Heap.Grows`: objects and arrays were made, and nothing else changed.
* **`Heap.store_eq`**: a write that is not ignored.
* **`Sound.store`**, **`Tidy.store`**, **`Tidy.edit`**: writing and silent changes keep deps as they should be.
* **`Heap.grows_build`**: what laying out data does.
-/

namespace LiveMarkup.Heap

variable {h h' h'' : Heap} {o x c : ObjectId} {key k : String} {v : Value} {d : DepId}

/-! ## Writes -/

/-- Whether a write is ignored, for the slot holds an identical value. -/
def ignores (h : Heap) (o : ObjectId) (key : String) (v : Value) : Bool :=
  (h.peek o key).any (·.same v)

/-- One slot has a new value, and no slot has lost its dep. -/
structure Wrote (h : Heap) (o : ObjectId) (key : String) (v : Value) (h' : Heap) : Prop where
  size : h'.objects.size = h.objects.size
  arrays : h'.arrays = h.arrays
  members : ∀ x, h'.members x =
    if x = o ∧ o.index < h.objects.size then putEntry key v (h.members x) else h.members x
  dep? : ∀ x k d, h.dep? x k = some d → h'.dep? x k = some d
  subscribers : ∀ d, h'.subscribers d = h.subscribers d
  isObserved : ∀ x, h'.isObserved x = h.isObserved x

theorem Wrote.peek (hw : h.Wrote o key v h') (x : ObjectId) (k : String) :
    h'.peek x k =
      if x = o ∧ k = key ∧ o.index < h.objects.size then some v else h.peek x k := by
  rw [peek_eq_findEntry, peek_eq_findEntry, hw.members]
  by_cases hx : x = o ∧ o.index < h.objects.size
  · rw [if_pos hx, findEntry_putEntry]
    by_cases hk : k = key <;> simp [hx, hk]
  · rw [if_neg hx, if_neg fun he => hx ⟨he.1, he.2.2⟩]

theorem Wrote.toExtends (hw : h.Wrote o key v h') : h.Extends h' :=
  ⟨hw.dep?, fun d w hm => by rwa [hw.subscribers]⟩

theorem wrote_putSlot {dep : Option DepId} (hs : ∀ d, h.dep? o key = some d → dep = some d) :
    h.Wrote o key v (h.putSlot o key ⟨v, dep⟩) where
  size := size_putSlot _ _ _ _
  arrays := rfl
  members _ := members_putSlot _ _ _ _ _
  dep? := (Extends.putSlot (s := ⟨v, dep⟩) hs).dep?
  subscribers _ := rfl
  isObserved _ := isObserved_putSlot _ _ _ _ _

theorem store_of_ignores (hi : h.ignores o key v) : h.store o key v = (h, none) := by
  unfold ignores peek at hi
  unfold store
  cases hs : h.slot? o key with
  | none => simp [hs] at hi
  | some s =>
    rw [hs] at hi
    simp only [Option.map_some, Option.any_some] at hi
    simp [hi]

/-- **A write that is not ignored** changes the slot, observes the value on an observed object, and
is to be notified to the dep that the slot had. -/
theorem store_eq (hi : h.ignores o key v = false) :
    ∃ h', h.Wrote o key v h' ∧ ((h.Sound → h'.Sound) ∧ (h.Tidy → h'.Tidy)) ∧
      h.store o key v = (if h.isObserved o then h'.observe v else h', h.dep? o key) := by
  unfold ignores peek at hi
  unfold store
  cases hs : h.slot? o key with
  | some s =>
    obtain ⟨u, dep⟩ := s
    rw [hs] at hi
    simp only [Option.map_some, Option.any_some] at hi
    have hdep := dep?_of_slot? hs
    refine ⟨h.putSlot o key ⟨v, dep⟩, wrote_putSlot fun d hd => hdep.symm.trans hd,
      ⟨fun hh => ?_, fun ht => ht.putSlot hdep.symm⟩, ?_⟩
    · refine hh.putSlot (fun d hd => hh.dep_lt (hdep.trans hd)) fun _ ho => ?_
      exact hh.observed_dep (s := ⟨u, dep⟩) id ho hs
    · simp only [hi, hdep, Bool.false_eq_true, if_false]
  | none =>
    have hnone : h.dep? o key = none := by rw [dep?, hs]; rfl
    by_cases ho : h.isObserved o
    · have hw : h.newDep.2.Wrote o key v (h.newDep.2.putSlot o key ⟨v, some h.newDep.1⟩) :=
        wrote_putSlot fun d hd => by
          rw [show h.newDep.2.dep? o key = none from hnone] at hd
          cases hd
      refine ⟨_, ⟨hw.size, hw.arrays, hw.members, hw.dep?, fun d => ?_, hw.isObserved⟩,
        ⟨fun hh => ?_, fun ht => ht.putNewDep ho key v⟩, ?_⟩
      · rw [hw.subscribers, subscribers_newDep]
      · refine hh.newDep.putSlot (fun d hd => ?_) fun _ _ => by simp
        obtain rfl := Option.some.inj hd
        exact (size_deps_newDep h).symm ▸ Nat.lt_succ_self _
      · simp only [ho, if_true, hnone]
    · refine ⟨h.putSlot o key ⟨v, none⟩,
        wrote_putSlot fun d hd => (by rw [hnone] at hd; cases hd),
        ⟨fun hh => hh.putSlot (fun d hd => (by cases hd)) fun _ hobs => absurd hobs ho,
          fun ht => ht.putSlot hnone.symm⟩, ?_⟩
      simp only [ho, hnone]
      rfl

/-- A write is to be notified to no other dep than that of its slot. -/
theorem dep?_of_store (hd : (h.store o key v).2 = some d) : h.dep? o key = some d := by
  by_cases hi : h.ignores o key v
  · rw [store_of_ignores hi] at hd
    cases hd
  · obtain ⟨h', -, -, he⟩ := store_eq (Bool.eq_false_iff.2 hi)
    rw [he] at hd
    exact hd

theorem Extends.store (h : Heap) (o : ObjectId) (key : String) (v : Value) :
    h.Extends (h.store o key v).1 := by
  by_cases hi : h.ignores o key v
  · rw [store_of_ignores hi]; exact refl h
  · obtain ⟨h', hw, -, he⟩ := store_eq (Bool.eq_false_iff.2 hi)
    rw [he]
    split
    · exact hw.toExtends.trans (Instruments.observe h' v).toExtends
    · exact hw.toExtends

theorem Sound.store (hh : h.Sound) (o : ObjectId) (key : String) (v : Value) :
    (h.store o key v).1.Sound := by
  by_cases hi : h.ignores o key v
  · rwa [store_of_ignores hi]
  · obtain ⟨h', -, ⟨hs, -⟩, he⟩ := store_eq (Bool.eq_false_iff.2 hi)
    rw [he]
    split
    · exact (hs hh).observe v
    · exact hs hh

/-- **A write** leaves deps tidy. -/
theorem Tidy.store (ht : h.Tidy) (o : ObjectId) (key : String) (v : Value) : (h.store o key v).1.Tidy := by
  by_cases hi : h.ignores o key v
  · rwa [store_of_ignores hi]
  · obtain ⟨h', -, ⟨-, hs⟩, he⟩ := store_eq (Bool.eq_false_iff.2 hi)
    rw [he]
    split
    · exact (hs ht).observe v
    · exact hs ht

theorem isObserved_store (h : Heap) (o : ObjectId) (key : String) (v : Value)
    (hx : h.isObserved x) : (h.store o key v).1.isObserved x := by
  by_cases hi : h.ignores o key v
  · rwa [store_of_ignores hi]
  · obtain ⟨h', hw, -, he⟩ := store_eq (Bool.eq_false_iff.2 hi)
    rw [← hw.isObserved] at hx
    rw [he]
    dsimp only
    split
    · exact (Instruments.observe h' v).isObserved x hx
    · exact hx

/-- A write leaves other slots as they are. -/
theorem peek_store_of_ne (hne : ¬ (x = o ∧ k = key)) :
    (h.store o key v).1.peek x k = h.peek x k := by
  by_cases hi : h.ignores o key v
  · rw [store_of_ignores hi]
  · obtain ⟨h', hw, -, he⟩ := store_eq (Bool.eq_false_iff.2 hi)
    have hpeek : h'.peek x k = h.peek x k := by
      rw [hw.peek, if_neg fun hx => hne ⟨hx.1, hx.2.1⟩]
    rw [he]
    dsimp only
    split
    · rw [(Instruments.observe h' v).peek, hpeek]
    · exact hpeek

theorem subscribers_store (h : Heap) (o : ObjectId) (key : String) (v : Value) (d : DepId) :
    (h.store o key v).1.subscribers d = h.subscribers d := by
  by_cases hi : h.ignores o key v
  · rw [store_of_ignores hi]
  · obtain ⟨h', hw, -, he⟩ := store_eq (Bool.eq_false_iff.2 hi)
    rw [he]
    dsimp only
    split
    · rw [(Instruments.observe h' v).subscribers, hw.subscribers]
    · exact hw.subscribers d

/-! ## New data -/

/-- Objects and arrays were made; what was there is as it was, and the new objects are not observed. -/
structure Grows (h h' : Heap) : Prop where
  objects : h.objects.size ≤ h'.objects.size
  arrays : h.arrays.size ≤ h'.arrays.size
  deps : h'.deps = h.deps
  object? : ∀ o : ObjectId, o.index < h.objects.size → h'.object? o = h.object? o
  items : ∀ a : ArrayId, a.index < h.arrays.size → h'.items a = h.items a
  made : ∀ (o : ObjectId) f, h.objects.size ≤ o.index → h'.object? o = some f →
    f.observed = false ∧ ∀ key s, f.slots.find? key = some s → s.dep = none

namespace Grows

theorem refl (h : Heap) : h.Grows h where
  objects := Nat.le_refl _
  arrays := Nat.le_refl _
  deps := rfl
  object? _ _ := rfl
  items _ _ := rfl
  made o f ho hf := by
    rw [object?_eq_none ho] at hf
    cases hf

theorem trans (a : h.Grows h') (b : h'.Grows h'') : h.Grows h'' where
  objects := Nat.le_trans a.objects b.objects
  arrays := Nat.le_trans a.arrays b.arrays
  deps := b.deps.trans a.deps
  object? o ho := (b.object? o (Nat.lt_of_lt_of_le ho a.objects)).trans (a.object? o ho)
  items i hi := (b.items i (Nat.lt_of_lt_of_le hi a.arrays)).trans (a.items i hi)
  made o f ho hf := by
    by_cases hlt : o.index < h'.objects.size
    · exact a.made o f ho ((b.object? o hlt).symm.trans hf)
    · exact b.made o f (Nat.le_of_not_lt hlt) hf

theorem newArray (h : Heap) (vs : List Value) : h.Grows (h.newArray vs).2 := by
  refine ⟨Nat.le_refl _, by simp [Heap.newArray], rfl, fun _ _ => rfl, fun a ha => ?_, (refl h).made⟩
  obtain ⟨i⟩ := a
  simp only [Heap.items, Heap.newArray, Array.getElem?_push]
  rw [if_neg (Nat.ne_of_lt ha)]

theorem newObject {slots : Table Slot}
    (hs : ∀ key s, slots.find? key = some s → s.dep = none) :
    h.Grows (h.newObject ⟨slots, false⟩).2 := by
  refine ⟨by simp [Heap.newObject], Nat.le_refl _, rfl, fun o ho => object?_newObject_of_lt ho,
    fun _ _ => rfl, fun o f ho hf => ?_⟩
  rw [object?_newObject] at hf
  split at hf
  · obtain rfl := Option.some.inj hf
    exact ⟨rfl, hs⟩
  · rw [object?_eq_none ho] at hf
    cases hf

theorem slot? (a : h.Grows h') (ho : o.index < h.objects.size) (key : String) :
    h'.slot? o key = h.slot? o key := by
  rw [Heap.slot?, Heap.slot?, a.object? o ho]

/-- No new slot has a dep. -/
theorem dep?_eq (a : h.Grows h') (o : ObjectId) (key : String) : h'.dep? o key = h.dep? o key := by
  unfold Heap.dep?
  by_cases ho : o.index < h.objects.size
  · rw [a.slot? ho]
  · have hnone : h.slot? o key = none := by
      rw [Heap.slot?, object?_eq_none (Nat.le_of_not_lt ho)]; rfl
    rw [hnone]
    cases hs : h'.slot? o key with
    | none => rfl
    | some s =>
      obtain ⟨f, hf, hfind⟩ := Option.bind_eq_some_iff.1 hs
      exact (a.made o f (Nat.le_of_not_lt ho) hf).2 key s hfind

/-- No new object is observed. -/
theorem isObserved_eq (a : h.Grows h') (o : ObjectId) : h'.isObserved o = h.isObserved o := by
  unfold Heap.isObserved
  by_cases ho : o.index < h.objects.size
  · rw [a.object? o ho]
  · rw [object?_eq_none (Nat.le_of_not_lt ho)]
    cases hf : h'.object? o with
    | none => rfl
    | some f => exact (a.made o f (Nat.le_of_not_lt ho) hf).1

theorem subscribers_eq (a : h.Grows h') (d : DepId) : h'.subscribers d = h.subscribers d := by
  rw [Heap.subscribers, Heap.subscribers, a.deps]

theorem toExtends (a : h.Grows h') : h.Extends h' :=
  ⟨fun o key d hd => (a.dep?_eq o key).trans hd, fun d w hw => by rwa [a.subscribers_eq]⟩

theorem sound (a : h.Grows h') (hh : h.Sound) : h'.Sound where
  dep_lt {o key d} hd := by
    rw [a.dep?_eq] at hd
    rw [a.deps]
    exact hh.dep_lt hd
  observed_dep {o key s} _ ho hs := by
    rw [a.isObserved_eq] at ho
    rw [a.slot? (lt_of_isObserved ho)] at hs
    exact hh.observed_dep id ho hs

end Grows

/-- The slots of new objects have no deps. -/
theorem dep_of_slotsOf (ms : List (String × Value)) (key : String) (s : Slot)
    (hs : (slotsOf ms).find? key = some s) : s.dep = none := by
  have hwrite : ∀ (t : Table Slot) (e : String × Value),
      (∀ key s, t.find? key = some s → s.dep = none) →
      ∀ key s, (writeSlot t e.1 e.2).find? key = some s → s.dep = none := by
    intro t e ht key s hs
    have hput : (t.insert e.1 ⟨e.2, none⟩).find? key = some s → s.dep = none := by
      rw [Table.find?_insert]
      split
      · rintro ⟨⟩; rfl
      · exact ht key s
    unfold writeSlot at hs
    split at hs
    · split at hs
      · exact ht key s hs
      · exact hput hs
    · exact hput hs
  have hfold : ∀ (ms : List (String × Value)) (t : Table Slot),
      (∀ key s, t.find? key = some s → s.dep = none) →
      ∀ key s, (ms.foldl (fun t e => writeSlot t e.1 e.2) t).find? key = some s → s.dep = none := by
    intro ms
    induction ms with
    | nil => exact fun _ ht => ht
    | cons e ms ih => exact fun t ht => ih _ (hwrite t e ht)
  exact hfold ms Table.empty (fun _ _ hn => by cases hn) key s hs

mutual

/-- **Laying out data makes objects and arrays, and changes nothing else.** -/
theorem grows_build (h : Heap) (t : Draft) : h.Grows (h.build t).2 := by
  cases t with
  | value v => exact .refl h
  | array items => exact (grows_buildItems h items).trans (.newArray _ _)
  | object members => exact (grows_buildMembers h members).trans (.newObject (dep_of_slotsOf _))

theorem grows_buildItems (h : Heap) (ts : List Draft) : h.Grows (h.buildItems ts).2 := by
  cases ts with
  | nil => exact .refl h
  | cons t ts => exact (grows_build h t).trans (grows_buildItems _ ts)

theorem grows_buildMembers (h : Heap) (ms : List (String × Draft)) :
    h.Grows (h.buildMembers ms).2 := by
  cases ms with
  | nil => exact .refl h
  | cons e ms =>
    obtain ⟨key, t⟩ := e
    exact (grows_build h t).trans (grows_buildMembers _ ms)

end

/-! ## Silent changes -/

theorem Extends.edit (h : Heap) (e : Edit) : h.Extends (h.edit e) := by
  cases e with
  | push a v => exact ⟨fun _ _ _ hd => hd, fun _ _ hw => hw⟩
  | setItem a i v => exact ⟨fun _ _ _ hd => hd, fun _ _ hw => hw⟩
  | observe v => exact (Instruments.observe h v).toExtends
  | newDep => exact newDep h
  | subscribe d w => exact subscribe h d w

theorem Sound.setSubscribers (hh : h.Sound) (d : DepId) (ws : List WatcherId) :
    (h.setSubscribers d ws).Sound where
  dep_lt hd := by
    rw [size_deps_setSubscribers]
    exact hh.dep_lt hd
  observed_dep hx ho hs := hh.observed_dep hx ho hs

theorem Sound.subscribe (hh : h.Sound) (d : DepId) (w : WatcherId) : (h.subscribe d w).Sound := by
  rcases subscribe_eq h d w with e | e
  · rwa [e]
  · rw [e]; exact hh.setSubscribers d _

theorem Sound.track (hh : h.Sound) (w : WatcherId) (ps : List Place) : (h.track w ps).Sound := by
  induction ps generalizing h with
  | nil => exact hh
  | cons p ps ih =>
    unfold Heap.track
    split
    · exact ih (hh.subscribe _ w)
    · exact ih hh

theorem Sound.edit (hh : h.Sound) (e : Edit) : (h.edit e).Sound := by
  cases e with
  | push a v => exact ⟨hh.dep_lt, hh.observed_dep⟩
  | setItem a i v => exact ⟨hh.dep_lt, hh.observed_dep⟩
  | observe v => exact Sound.observe hh v
  | newDep => exact SoundBut.newDep hh
  | subscribe d w => exact hh.subscribe d w

namespace Tidy

theorem setSubscribers (ht : h.Tidy) (d : DepId) (ws : List WatcherId) : (h.setSubscribers d ws).Tidy :=
  ht.of_eq (fun _ _ => rfl) (Nat.le_of_eq (size_deps_setSubscribers h d ws).symm) fun _ ho => ho

theorem subscribe (ht : h.Tidy) (d : DepId) (w : WatcherId) : (h.subscribe d w).Tidy := by
  rcases subscribe_eq h d w with e | e <;> rw [e]
  · exact ht
  · exact ht.setSubscribers d _

theorem track (ht : h.Tidy) (w : WatcherId) (ps : List Place) : (h.track w ps).Tidy := by
  induction ps generalizing h with
  | nil => exact ht
  | cons p ps ih =>
    unfold Heap.track
    split
    · exact ih (ht.subscribe _ w)
    · exact ih ht

theorem build (ht : h.Tidy) (d : Draft) : (h.build d).2.Tidy := by
  have hg := grows_build h d
  exact ht.of_eq hg.dep?_eq (Nat.le_of_eq (by rw [hg.deps])) fun o ho => (hg.isObserved_eq o).trans ho

/-- **A silent change** leaves deps tidy. -/
theorem edit (ht : h.Tidy) (change : Edit) : (h.edit change).Tidy := by
  cases change with
  | push a v => exact ht.of_eq (fun _ _ => rfl) (Nat.le_refl _) fun _ ho => ho
  | setItem a i v => exact ht.of_eq (fun _ _ => rfl) (Nat.le_refl _) fun _ ho => ho
  | observe v => exact ht.observe v
  | newDep =>
    have hsize : h.deps.size ≤ h.newDep.2.deps.size := by
      rw [size_deps_newDep]
      exact Nat.le_succ _
    exact ht.of_eq (fun _ _ => rfl) hsize fun _ ho => ho
  | subscribe d w => exact ht.subscribe d w

end Tidy

end LiveMarkup.Heap

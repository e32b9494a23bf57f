import LiveMarkup.Proofs.Data.Store

/-!
# Well-formed heaps

The invariants of a heap that is only worked on through its operations, and what a write means for the
data that a value holds.

* `Heap.Wellformed`: deps where they belong, no dangling handles, and nothing observed halfway.
* `Heap.Agrees`, `Heap.KeepsArrays`: a heap that has all data of another, or all arrays of it.
* `Heap.Reaches`, `Heap.Clean`: what a value holds; no object is held by an array.
* **`Wellformed.build`**, **`Wellformed.store`**: making and writing data keep the heap well-formed.
* **`reaches_of_observe`**: an observation observes nothing but what it reaches.
* **`Reaches.of_wrote`**: after a write a value holds nothing but what it or the written value held.
-/

namespace LiveMarkup

mutual

/-- The values that a draft is laid out with exist. -/
def Draft.Exists (h : Heap) : Draft → Prop
  | .value v => h.Exists v
  | .array items => Draft.AllExist h items
  | .object members => Draft.MembersExist h members

def Draft.AllExist (h : Heap) : List Draft → Prop
  | [] => True
  | d :: ds => d.Exists h ∧ Draft.AllExist h ds

def Draft.MembersExist (h : Heap) : List (String × Draft) → Prop
  | [] => True
  | (_, d) :: ms => d.Exists h ∧ Draft.MembersExist h ms

end

namespace Heap

variable {h h' h'' : Heap} {o : ObjectId} {key : String} {u v x : Value}

/-! ## Agreement on data -/

/-- A heap that has all data of another, unchanged. -/
structure Agrees (h h' : Heap) : Prop where
  objects : h.objects.size ≤ h'.objects.size
  arrays : h.arrays.size ≤ h'.arrays.size
  peek : ∀ o key, o.index < h.objects.size → h'.peek o key = h.peek o key
  items : ∀ a : ArrayId, a.index < h.arrays.size → h'.items a = h.items a

namespace Agrees

theorem refl (h : Heap) : h.Agrees h :=
  ⟨Nat.le_refl _, Nat.le_refl _, fun _ _ _ => rfl, fun _ _ => rfl⟩

theorem trans (a : h.Agrees h') (b : h'.Agrees h'') : h.Agrees h'' :=
  ⟨Nat.le_trans a.objects b.objects, Nat.le_trans a.arrays b.arrays,
    fun o key ho => (b.peek o key (Nat.lt_of_lt_of_le ho a.objects)).trans (a.peek o key ho),
    fun i hi => (b.items i (Nat.lt_of_lt_of_le hi a.arrays)).trans (a.items i hi)⟩

/-- The same objects and arrays. -/
theorem of_eq (ho : h'.objects = h.objects) (ha : h'.arrays = h.arrays) : h.Agrees h' := by
  refine ⟨Nat.le_of_eq (by rw [ho]), Nat.le_of_eq (by rw [ha]), fun o key _ => ?_,
    fun a _ => ?_⟩
  · rw [Heap.peek, Heap.peek, slot?, slot?, object?, object?, ho]
  · rw [Heap.items, Heap.items, ha]

theorem exists_mono (a : h.Agrees h') (hv : h.Exists v) : h'.Exists v := by
  cases v with
  | object o => exact Nat.lt_of_lt_of_le hv a.objects
  | array i => exact Nat.lt_of_lt_of_le hv a.arrays
  | _ => trivial

end Agrees

theorem Instruments.agrees (a : h.Instruments h') : h.Agrees h' :=
  ⟨Nat.le_of_eq a.size.symm, Nat.le_of_eq (by rw [a.arrays]), fun o key _ => a.peek o key,
    fun i _ => by rw [Heap.items, Heap.items, a.arrays]⟩

theorem Grows.agrees (a : h.Grows h') : h.Agrees h' :=
  ⟨a.objects, a.arrays, fun o key ho => by rw [Heap.peek, Heap.peek, a.slot? ho], a.items⟩

theorem setSubscribers_agrees (h : Heap) (d : DepId) (ws : List WatcherId) :
    h.Agrees (h.setSubscribers d ws) := .of_eq rfl rfl

theorem subscribe_data (h : Heap) (d : DepId) (w : WatcherId) :
    (h.subscribe d w).objects = h.objects ∧ (h.subscribe d w).arrays = h.arrays := by
  rcases subscribe_eq h d w with e | e <;> rw [e] <;> exact ⟨rfl, rfl⟩

theorem track_data (h : Heap) (w : WatcherId) (ps : List Place) :
    (h.track w ps).objects = h.objects ∧ (h.track w ps).arrays = h.arrays := by
  induction ps generalizing h with
  | nil => exact ⟨rfl, rfl⟩
  | cons p ps ih =>
    unfold track
    split
    · obtain ⟨ho, ha⟩ := ih (h.subscribe _ w)
      exact ⟨ho.trans (subscribe_data h _ w).1, ha.trans (subscribe_data h _ w).2⟩
    · exact ih h

/-- All arrays are as they were; there may be new ones. -/
structure KeepsArrays (h h' : Heap) : Prop where
  size : h.arrays.size ≤ h'.arrays.size
  items : ∀ a : ArrayId, a.index < h.arrays.size → h'.items a = h.items a

theorem Agrees.keepsArrays (a : h.Agrees h') : h.KeepsArrays h' := ⟨a.arrays, a.items⟩

theorem Wrote.keepsArrays {o : ObjectId} {key : String} {v : Value} (hw : h.Wrote o key v h') :
    h.KeepsArrays h' :=
  ⟨Nat.le_of_eq (by rw [hw.arrays]), fun a _ => by rw [Heap.items, Heap.items, hw.arrays]⟩

theorem KeepsArrays.trans {h'' : Heap} (a : h.KeepsArrays h') (b : h'.KeepsArrays h'') :
    h.KeepsArrays h'' :=
  ⟨Nat.le_trans a.size b.size,
    fun i hi => (b.items i (Nat.lt_of_lt_of_le hi a.size)).trans (a.items i hi)⟩

theorem keepsArrays_store (h : Heap) (o : ObjectId) (key : String) (v : Value) :
    h.KeepsArrays (h.store o key v).1 := by
  by_cases hi : h.ignores o key v
  · rw [store_of_ignores hi]
    exact (Agrees.refl h).keepsArrays
  · obtain ⟨h', hw, -, he⟩ := store_eq (Bool.eq_false_iff.2 hi)
    rw [he]
    dsimp only
    split
    · exact hw.keepsArrays.trans (Instruments.observe h' v).agrees.keepsArrays
    · exact hw.keepsArrays

/-! ## No dangling handles -/

theorem lt_of_peek (hp : h.peek o key = some v) : o.index < h.objects.size := by
  obtain ⟨s, hs, -⟩ := Option.map_eq_some_iff.1 hp
  exact lt_of_slot? hs

theorem lt_of_mem_items {a : ArrayId} (hv : v ∈ h.items a) : a.index < h.arrays.size := by
  refine Nat.lt_of_not_le fun hle => ?_
  rw [items, Array.getElem?_eq_none hle] at hv
  exact List.not_mem_nil hv

theorem grounded_empty : Grounded .empty where
  slot {o key v} hp := by simp [peek, slot?, object?, empty] at hp
  item {a v} hv := by simp [items, empty] at hv

/-- The same data with the same handles. -/
theorem Grounded.of_agrees (hg : h.Grounded) (a : h.Agrees h')
    (objects : h'.objects.size = h.objects.size) (arrays : h'.arrays.size = h.arrays.size) :
    h'.Grounded where
  slot {o key v} hp := by
    have ho := lt_of_peek hp
    rw [objects] at ho
    rw [a.peek o key ho] at hp
    exact a.exists_mono (hg.slot hp)
  item {i v} hv := by
    have hi := lt_of_mem_items hv
    rw [arrays] at hi
    rw [a.items i hi] at hv
    exact a.exists_mono (hg.item hv)

theorem Wrote.exists_iff (hw : h.Wrote o key v h') : h'.Exists x ↔ h.Exists x := by
  cases x with
  | object c => rw [Exists, Exists, hw.size]
  | array a => rw [Exists, Exists, hw.arrays]
  | _ => exact Iff.rfl

theorem Wrote.grounded (hw : h.Wrote o key v h') (hg : h.Grounded) (hv : h.Exists v) :
    h'.Grounded where
  slot {x k u} hp := by
    rw [hw.peek] at hp
    rw [hw.exists_iff]
    split at hp
    · exact Option.some.inj hp ▸ hv
    · exact hg.slot hp
  item {a u} hu := by
    rw [items, hw.arrays] at hu
    exact hw.exists_iff.2 (hg.item hu)

theorem Grounded.newArray (hg : h.Grounded) {vs : List Value} (hvs : ∀ v ∈ vs, h.Exists v) :
    (h.newArray vs).2.Grounded := by
  have ha := (Grows.newArray h vs).agrees
  refine ⟨fun hp => ha.exists_mono (hg.slot hp), fun {a v} hv => ha.exists_mono ?_⟩
  obtain ⟨i⟩ := a
  simp only [items, Heap.newArray, Array.getElem?_push] at hv
  split at hv
  · exact hvs v hv
  · exact hg.item hv

/-- The values in the slots of a new object are among those that it was made of. -/
theorem mem_of_find?_slotsOf {ms : List (String × Value)} {s : Slot}
    (hs : (slotsOf ms).find? key = some s) : (key, s.value) ∈ ms := by
  have hwrite : ∀ (t : Table Slot) (e : String × Value), (writeSlot t e.1 e.2).find? key = some s →
      t.find? key = some s ∨ (key, s.value) = e := by
    intro t e hs
    have hput : (t.insert e.1 ⟨e.2, none⟩).find? key = some s →
        t.find? key = some s ∨ (key, s.value) = e := by
      rw [Table.find?_insert]
      split
      · next hk => rintro ⟨⟩; exact .inr (by rw [hk])
      · exact .inl
    unfold writeSlot at hs
    split at hs
    · split at hs
      · exact .inl hs
      · exact hput hs
    · exact hput hs
  have hfold : ∀ (ms : List (String × Value)) (t : Table Slot),
      (ms.foldl (fun t e => writeSlot t e.1 e.2) t).find? key = some s →
      t.find? key = some s ∨ (key, s.value) ∈ ms := by
    intro ms
    induction ms with
    | nil => exact fun _ => .inl
    | cons e ms ih =>
      intro t hs
      rcases ih _ hs with ht | hm
      · refine (hwrite t e ht).imp_right fun he => ?_
        rw [he]
        exact List.mem_cons_self
      · exact .inr (List.mem_cons_of_mem _ hm)
  exact (hfold ms Table.empty hs).resolve_left (by simp)

theorem Grounded.newObject (hg : h.Grounded) {ms : List (String × Value)}
    (hms : ∀ e ∈ ms, h.Exists e.2) : (h.newObject ⟨slotsOf ms, false⟩).2.Grounded := by
  have ha := (Grows.newObject (h := h) (dep_of_slotsOf ms)).agrees
  refine ⟨fun {o key v} hp => ha.exists_mono ?_, fun hv => ha.exists_mono (hg.item hv)⟩
  obtain ⟨s, hs, rfl⟩ := Option.map_eq_some_iff.1 hp
  obtain ⟨f, hf, hfind⟩ := Option.bind_eq_some_iff.1 hs
  rw [object?_newObject] at hf
  split at hf
  · obtain rfl := Option.some.inj hf
    exact hms _ (mem_of_find?_slotsOf hfind)
  · have hp' : h.peek o key = some s.value := by
      rw [peek, slot?, hf]
      exact congrArg _ hfind
    exact hg.slot hp'

mutual

theorem Draft.exists_mono (a : h.Agrees h') (d : Draft) (hd : d.Exists h) : d.Exists h' := by
  cases d with
  | value v => exact a.exists_mono hd
  | array items => exact Draft.allExist_mono a items hd
  | object members => exact Draft.membersExist_mono a members hd

theorem Draft.allExist_mono (a : h.Agrees h') (ds : List Draft) (hds : Draft.AllExist h ds) :
    Draft.AllExist h' ds := by
  cases ds with
  | nil => trivial
  | cons d ds => exact ⟨Draft.exists_mono a d hds.1, Draft.allExist_mono a ds hds.2⟩

theorem Draft.membersExist_mono (a : h.Agrees h') (ms : List (String × Draft))
    (hms : Draft.MembersExist h ms) : Draft.MembersExist h' ms := by
  cases ms with
  | nil => trivial
  | cons e ms =>
    obtain ⟨key, d⟩ := e
    exact ⟨Draft.exists_mono a d hms.1, Draft.membersExist_mono a ms hms.2⟩

end

mutual

/-- Laying out data of existing values makes an existing value, and no dangling handle. -/
theorem Grounded.build {h : Heap} (hg : h.Grounded) (d : Draft) (hd : d.Exists h) :
    (h.build d).2.Grounded ∧ (h.build d).2.Exists (h.build d).1 := by
  cases d with
  | value v => exact ⟨hg, hd⟩
  | array items =>
    obtain ⟨hg', hvs⟩ := Grounded.buildItems hg items hd
    exact ⟨hg'.newArray hvs, by simp [Heap.build, Heap.newArray, Exists]⟩
  | object members =>
    obtain ⟨hg', hms⟩ := Grounded.buildMembers hg members hd
    exact ⟨hg'.newObject hms, by simp [Heap.build, Heap.newObject, Exists]⟩

theorem Grounded.buildItems {h : Heap} (hg : h.Grounded) (ds : List Draft) (hds : Draft.AllExist h ds) :
    (h.buildItems ds).2.Grounded ∧ ∀ v ∈ (h.buildItems ds).1, (h.buildItems ds).2.Exists v := by
  cases ds with
  | nil => exact ⟨hg, fun v hv => absurd hv List.not_mem_nil⟩
  | cons d ds =>
    obtain ⟨hg', hv⟩ := Grounded.build hg d hds.1
    obtain ⟨hg'', hvs⟩ := Grounded.buildItems hg' ds
      (Draft.allExist_mono (grows_build h d).agrees ds hds.2)
    refine ⟨hg'', fun u hu => ?_⟩
    rcases List.mem_cons.1 hu with rfl | hu
    · exact (grows_buildItems _ ds).agrees.exists_mono hv
    · exact hvs u hu

theorem Grounded.buildMembers {h : Heap} (hg : h.Grounded)
    (ms : List (String × Draft)) (hms : Draft.MembersExist h ms) :
    (h.buildMembers ms).2.Grounded ∧
      ∀ e ∈ (h.buildMembers ms).1, (h.buildMembers ms).2.Exists e.2 := by
  cases ms with
  | nil => exact ⟨hg, fun e he => absurd he List.not_mem_nil⟩
  | cons e ms =>
    obtain ⟨key, d⟩ := e
    obtain ⟨hg', hv⟩ := Grounded.build hg d hms.1
    obtain ⟨hg'', hes⟩ := Grounded.buildMembers hg' ms
      (Draft.membersExist_mono (grows_build h d).agrees ms hms.2)
    refine ⟨hg'', fun u hu => ?_⟩
    rcases List.mem_cons.1 hu with rfl | hu
    · exact (grows_buildMembers _ ms).agrees.exists_mono hv
    · exact hes u hu

end

/-! ## Well-formed heaps -/

/-- The slots of observed objects have deps that exist, and hold observed objects only; no handle
dangles. -/
structure Wellformed (h : Heap) : Prop where
  sound : h.Sound
  grounded : h.Grounded
  closed : h.Closed

theorem wellformed_empty : Wellformed .empty where
  sound := sound_empty
  grounded := grounded_empty
  closed {o key c} ho := by simp [isObserved, object?, empty] at ho

theorem Agrees.closed (a : h.Agrees h') (hc : h.Closed)
    (ho : ∀ x, h'.isObserved x = h.isObserved x) : h'.Closed := by
  intro o key c hobs hp
  rw [ho] at hobs
  rw [a.peek o key (lt_of_isObserved hobs)] at hp
  rw [ho]
  exact hc hobs hp

/-- After a write all that the slots of observed objects hold is observed, what was written aside. -/
theorem Wrote.closed_but {p c : ObjectId} {k : String} (hw : h.Wrote o key v h') (hc : h.Closed)
    (hobs : h'.isObserved p) (hp : h'.peek p k = some (.object c)) : h'.isObserved c ∨ v = .object c := by
  rw [hw.isObserved] at hobs ⊢
  rw [hw.peek] at hp
  split at hp
  · exact .inr (Option.some.inj hp)
  · exact .inl (hc hobs hp)

namespace Wellformed

theorem setSubscribers (hh : h.Wellformed) (d : DepId) (ws : List WatcherId) :
    (h.setSubscribers d ws).Wellformed where
  sound := hh.sound.setSubscribers d ws
  grounded := hh.grounded.of_agrees (setSubscribers_agrees h d ws) rfl rfl
  closed := (setSubscribers_agrees h d ws).closed hh.closed fun _ => rfl

theorem subscribe (hh : h.Wellformed) (d : DepId) (w : WatcherId) :
    (h.subscribe d w).Wellformed := by
  rcases subscribe_eq h d w with e | e
  · rwa [e]
  · rw [e]; exact hh.setSubscribers d _

theorem track (hh : h.Wellformed) (w : WatcherId) (ps : List Place) : (h.track w ps).Wellformed := by
  induction ps generalizing h with
  | nil => exact hh
  | cons p ps ih =>
    unfold Heap.track
    split
    · exact ih (hh.subscribe _ w)
    · exact ih hh

theorem observe (hh : h.Wellformed) (hv : h.Exists v) : (h.observe v).Wellformed where
  sound := hh.sound.observe v
  grounded := by
    have hi := Instruments.observe h v
    exact hh.grounded.of_agrees hi.agrees hi.size (by rw [hi.arrays])
  closed := (Closed.observe hh.grounded hv fun _ _ _ ho hp => .inl (hh.closed ho hp)).1

theorem build (hh : h.Wellformed) (d : Draft) (hd : d.Exists h) : (h.build d).2.Wellformed where
  sound := (grows_build h d).sound hh.sound
  grounded := (hh.grounded.build d hd).1
  closed := (grows_build h d).agrees.closed hh.closed (grows_build h d).isObserved_eq

/-- A write of an existing value keeps the heap well-formed: on an observed object the value is
observed with it. -/
theorem store (hh : h.Wellformed) (o : ObjectId) (key : String) (hv : h.Exists v) :
    (h.store o key v).1.Wellformed := by
  by_cases hi : h.ignores o key v
  · rwa [store_of_ignores hi]
  · obtain ⟨h', hw, ⟨hs, -⟩, he⟩ := store_eq (Bool.eq_false_iff.2 hi)
    have hg := hw.grounded hh.grounded hv
    rw [he]
    by_cases ho : h.isObserved o
    · simp only [ho, if_true]
      have hinst := Instruments.observe h' v
      exact ⟨(hs hh.sound).observe v, hg.of_agrees hinst.agrees hinst.size (by rw [hinst.arrays]),
        (Closed.observe hg (hw.exists_iff.2 hv) fun _ _ _ => hw.closed_but hh.closed).1⟩
    · simp only [ho, Bool.false_eq_true, if_false]
      refine ⟨hs hh.sound, hg, fun {x k c} hx hp => ?_⟩
      rw [hw.isObserved] at hx ⊢
      rw [hw.peek, if_neg] at hp
      · exact hh.closed hx hp
      · rintro ⟨rfl, -, -⟩
        exact ho hx

end Wellformed

/-! ## What a value holds -/

/-- What can be got to from a value through slots and items. -/
inductive Reaches (h : Heap) (v : Value) : Value → Prop where
  | refl : Reaches h v v
  | slot (o : ObjectId) (key : String) (u : Value) (before : Reaches h v (.object o))
      (here : h.peek o key = some u) : Reaches h v u
  | item (a : ArrayId) (u : Value) (before : Reaches h v (.array a)) (here : u ∈ h.items a) :
      Reaches h v u

/-- No array that can be got to from a value holds an object. -/
def Clean (h : Heap) (v : Value) : Prop :=
  ∀ a u, h.Reaches v (.array a) → u ∈ h.items a → u.object? = none

theorem nodup_members (h : Heap) (o : ObjectId) : ((h.members o).map Prod.fst).Nodup := by
  rw [← keys_eq_members, keys]
  split
  · next f _ => exact f.slots.nodup
  · exact List.nodup_nil

/-- What can be got to from an object through slots that hold objects. -/
inductive ReachesObject (h : Heap) (o : ObjectId) : ObjectId → Prop where
  | refl : ReachesObject h o o
  | slot (p : ObjectId) (key : String) (c : ObjectId) (before : ReachesObject h o p)
      (here : h.peek p key = some (.object c)) : ReachesObject h o c

theorem ReachesObject.trans {o p c : ObjectId} (hr : h.ReachesObject o p)
    (hr' : h.ReachesObject p c) : h.ReachesObject o c := by
  induction hr' with
  | refl => exact hr
  | slot q key c before here ih => exact .slot q key c ih here

theorem ReachesObject.reaches {o c : ObjectId} (hr : h.ReachesObject o c) :
    h.Reaches (.object o) (.object c) := by
  induction hr with
  | refl => exact .refl
  | slot p key c before here ih => exact .slot p key (.object c) ih here

theorem reachesObject_of_mem_childObjects {o c : ObjectId} (hc : c ∈ h.childObjects o) :
    h.ReachesObject o c := by
  obtain ⟨⟨key, u⟩, hmem, hu⟩ := List.mem_filterMap.1 hc
  obtain rfl : u = .object c := by
    cases u with
    | object c' => exact congrArg Value.object (Option.some.inj hu)
    | _ => cases hu
  refine .slot o key c .refl ?_
  rw [peek_eq_findEntry, findEntry_eq_some_iff (nodup_members h o)]
  exact hmem

theorem reachesObject_of_mem_gather {free pending : List ObjectId} {c : ObjectId}
    (hc : c ∈ h.gather free pending) : ∃ o ∈ pending, h.ReachesObject o c := by
  fun_induction gather h free pending with
  | case1 => exact absurd hc List.not_mem_nil
  | case2 free o rest ho ih =>
    rcases List.mem_cons.1 hc with rfl | hc
    · exact ⟨c, List.mem_cons_self, .refl⟩
    · obtain ⟨p, hp, hr⟩ := ih hc
      rcases List.mem_append.1 hp with hp | hp
      · exact ⟨o, List.mem_cons_self, (reachesObject_of_mem_childObjects hp).trans hr⟩
      · exact ⟨p, List.mem_cons_of_mem _ hp, hr⟩
  | case3 free o rest ho ih =>
    obtain ⟨p, hp, hr⟩ := ih hc
    exact ⟨p, List.mem_cons_of_mem _ hp, hr⟩

/-- **An observation observes nothing but what it reaches.** -/
theorem reaches_of_observe {c : ObjectId} (hc : (h.observe v).isObserved c) :
    h.isObserved c ∨ h.Reaches v (.object c) := by
  unfold observe at hc
  split at hc
  · next o =>
    rcases (isObserved_foldl_mark _ h c).1 hc with hc | ⟨hc, -⟩
    · exact .inl hc
    · obtain ⟨p, hp, hr⟩ := reachesObject_of_mem_gather hc
      exact .inr (List.mem_singleton.1 hp ▸ hr.reaches)
  · exact .inl hc

theorem clean_of_no_arrays (ha : h.arrays = #[]) (v : Value) : h.Clean v := by
  intro a u _ hu
  simp [items, ha] at hu

theorem Reaches.exists (hr : h.Reaches v u) (hg : h.Grounded) (hv : h.Exists v) : h.Exists u := by
  induction hr with
  | refl => exact hv
  | slot o key u before here ih => exact hg.slot here
  | item a u before here ih => exact hg.item here

/-- A heap that has all data of another holds no more under the values of that one. -/
theorem Reaches.of_agrees (a : h.Agrees h') (hg : h.Grounded) (hv : h.Exists v)
    (hr : h'.Reaches v u) : h.Reaches v u := by
  induction hr with
  | refl => exact .refl
  | slot o key u before here ih =>
    rw [a.peek o key (ih.exists hg hv)] at here
    exact .slot o key u ih here
  | item i u before here ih =>
    rw [a.items i (ih.exists hg hv)] at here
    exact .item i u ih here

/-- **After a write a value holds nothing but what it or the written value held.** -/
theorem Reaches.of_wrote (hw : h.Wrote o key v h') (hr : h'.Reaches x u) :
    h.Reaches x u ∨ h.Reaches v u := by
  induction hr with
  | refl => exact .inl .refl
  | slot c k u before here ih =>
    rw [hw.peek] at here
    split at here
    · exact .inr (Option.some.inj here ▸ .refl)
    · exact ih.imp (fun hb => .slot c k u hb here) fun hb => .slot c k u hb here
  | item a u before here ih =>
    rw [items, hw.arrays] at here
    exact ih.imp (fun hb => .item a u hb here) fun hb => .item a u hb here

theorem Clean.of_agrees (hc : h.Clean v) (a : h.Agrees h') (hg : h.Grounded) (hv : h.Exists v) :
    h'.Clean v := by
  intro i u hr hu
  have hr' := hr.of_agrees a hg hv
  rw [a.items i (hr'.exists hg hv)] at hu
  exact hc i u hr' hu

theorem Clean.of_wrote (hc : h.Clean x) (hw : h.Wrote o key v h') (hv : h.Clean v) : h'.Clean x := by
  intro a u hr hu
  rw [items, hw.arrays] at hu
  rcases hr.of_wrote hw with hr | hr
  · exact hc a u hr hu
  · exact hv a u hr hu

end Heap

end LiveMarkup

import LiveMarkup.Proofs.Data.Wellformed
import LiveMarkup.Proofs.Reactive.Happens

/-!
# What a step does to data

A step lays out data, writes one slot, or leaves all data as they are. As long as programs only use
values that exist, the heap stays well-formed.

* `Machine.Grounded`: the values that the next request is given exist.
* `Machine.Turns`: what a step can make of the heap.
* **`Machine.wellformed_step`**: a step keeps the heap well-formed.
* **`Machine.data_step`**: a step that changes no array writes at most one slot.
-/

namespace LiveMarkup

variable {σ : Type} {h : Heap}

/-! ## Requests -/

/-- The values that a silent change is given exist. -/
def Heap.Edit.Exists (h : Heap) : Heap.Edit → Prop
  | push _ v => h.Exists v
  | setItem _ _ v => h.Exists v
  | observe v => h.Exists v
  | _ => True

/-- A silent change that is none of an array. -/
def Heap.Edit.SparesArrays : Heap.Edit → Prop
  | push .. => False
  | setItem .. => False
  | _ => True

/-- The values that the first request of a program is given exist. -/
def Program.Grounded (h : Heap) : Program σ → Prop
  | .make draft _ => draft.Exists h
  | .edit change _ => change.Exists h
  | .write _ _ v _ => h.Exists v
  | _ => True

namespace Heap

theorem setItemIn_subset {items : List Value} {i : Nat} {u v : Value} (hu : u ∈ setItemIn items i v) :
    u ∈ items ∨ u = .null ∨ u = v := by
  rcases List.mem_or_eq_of_mem_set hu with hu | rfl
  · rcases List.mem_append.1 hu with hu | hu
    · exact .inl hu
    · exact .inr (.inl (List.eq_of_mem_replicate hu))
  · exact .inr (.inr rfl)

/-- The items of one array are changed to others that exist. -/
theorem Wellformed.modifyArray (hh : h.Wellformed) (a : ArrayId) (f : List Value → List Value)
    (hf : ∀ items u, u ∈ f items → u ∈ items ∨ h.Exists u) :
    ({ h with arrays := h.arrays.modify a.index f } : Heap).Wellformed := by
  have hexists : ∀ u, h.Exists u →
      ({ h with arrays := h.arrays.modify a.index f } : Heap).Exists u := by
    intro u hu
    cases u with
    | array b => exact Nat.lt_of_lt_of_eq hu Array.size_modify.symm
    | _ => exact hu
  refine ⟨⟨hh.sound.dep_lt, hh.sound.observed_dep⟩, ⟨fun hp => hexists _ (hh.grounded.slot hp), ?_⟩,
    hh.closed⟩
  intro b u hu
  refine hexists u ?_
  rw [items, Array.getElem?_modify] at hu
  split at hu
  · next hab =>
    cases hb : h.arrays[b.index]? with
    | none => simp [hb] at hu
    | some items =>
      rw [hb] at hu
      rcases hf items u hu with hu | hu
      · exact hh.grounded.item (a := b) (by rwa [Heap.items, hb])
      · exact hu
  · exact hh.grounded.item hu

/-- A silent change keeps a heap well-formed. -/
theorem Wellformed.edit (hh : h.Wellformed) {change : Edit} (hc : change.Exists h) :
    (h.edit change).Wellformed := by
  cases change with
  | push a v =>
    refine hh.modifyArray a _ fun items u hu => ?_
    rcases List.mem_append.1 hu with hu | hu
    · exact .inl hu
    · exact .inr (List.mem_singleton.1 hu ▸ hc)
  | setItem a i v =>
    refine hh.modifyArray a _ fun items u hu => ?_
    rcases setItemIn_subset hu with hu | rfl | rfl
    · exact .inl hu
    · exact .inr trivial
    · exact .inr hc
  | observe v => exact hh.observe hc
  | newDep =>
    exact ⟨hh.sound.newDep, hh.grounded.of_agrees (.of_eq rfl rfl) rfl rfl,
      (.of_eq rfl rfl : h.Agrees h.newDep.2).closed hh.closed fun _ => rfl⟩
  | subscribe d w => exact hh.subscribe d w

/-- A silent change that spares arrays changes no data. -/
theorem agrees_edit (h : Heap) {change : Edit} (hc : change.SparesArrays) :
    h.Agrees (h.edit change) := by
  cases change with
  | push a v => exact hc.elim
  | setItem a i v => exact hc.elim
  | observe v => exact (Instruments.observe h v).agrees
  | newDep => exact .of_eq rfl rfl
  | subscribe d w => exact .of_eq (subscribe_data h d w).1 (subscribe_data h d w).2

/-- No silent change takes an object from observation. -/
theorem isObserved_edit (change : Edit) {o : ObjectId} (ho : h.isObserved o) :
    (h.edit change).isObserved o := by
  cases change with
  | observe v => exact (Instruments.observe h v).isObserved o ho
  | subscribe d w =>
    have he := (subscribe_data h d w).1
    simpa only [Heap.edit, isObserved, object?, he] using ho
  | _ => exact ho

end Heap

namespace Machine

variable {m : Machine σ}

/-- The values that the next request is given exist. -/
def Grounded (m : Machine σ) : Prop := ∀ p, m.next? = some p → p.Grounded m.state.heap

/-- What a step can make of the heap. -/
inductive Turns (m : Machine σ) : Heap → Prop where
  | rest : Turns m m.state.heap
  | track (w : WatcherId) (ps : List Place) : Turns m (m.state.heap.track w ps)
  | make (draft : Draft) (next : Value → Program σ) (top : m.next? = some (.make draft next)) :
      Turns m (m.state.heap.build draft).2
  | edit (change : Heap.Edit) (next : Program σ) (top : m.next? = some (.edit change next)) :
      Turns m (m.state.heap.edit change)
  | write (o : ObjectId) (key : String) (v : Value) (next : Program σ)
      (top : m.next? = some (.write o key v next)) (changes : m.state.heap.ignores o key v = false) :
      Turns m (m.state.heap.store o key v).1
  | notify (h : Heap) (d : DepId) (ws : List WatcherId) (before : Turns m h) :
      Turns m (h.setSubscribers d ws)

/-- A step makes one of these of the heap. -/
theorem turns_step (m : Machine σ) : m.Turns m.step.state.heap := by
  cases hm : m.stack with
  | nil =>
    rw [step, hm]
    exact .rest
  | cons f rest =>
    cases f with
    | body p =>
      have htop := next?_of_stack hm
      have hstep : m.step = { m with stack := rest }.perform p := by rw [step, hm]
      rw [hstep]
      cases p with
      | panic message => exact (heap_unwind m.state rest).symm ▸ .rest
      | read reads next =>
        cases hactive : m.state.active with
        | none => simp only [perform, hactive]; exact .rest
        | some w => simp only [perform, hactive]; exact .track w _
      | make draft next => exact .make draft next htop
      | edit change next => exact .edit change next htop
      | write o key v next =>
        have hstore : m.Turns (m.state.heap.store o key v).1 := by
          by_cases hi : m.state.heap.ignores o key v
          · rw [Heap.store_of_ignores hi]
            exact .rest
          · exact .write o key v next htop (Bool.eq_false_iff.2 hi)
        simp only [perform]
        split
        · exact .notify _ _ _ hstore
        · exact hstore
      | notify d next => exact .notify _ d _ .rest
      | run w next => exact (heap_request _ w).symm ▸ .rest
      | watch getter next => exact (heap_request _ _).symm ▸ .rest
      | _ => exact .rest
    | leave w previous n =>
      have hstep : m.step = { m with stack := rest }.leave w previous n := by rw [step, hm]
      rw [hstep, heap_leave]
      exact .rest
    | pending ws =>
      cases ws with
      | nil =>
        rw [step, hm]
        exact .rest
      | cons w ws =>
        have hstep : m.step = { m with stack := .pending ws :: rest }.request w := by rw [step, hm]
        rw [hstep, heap_request]
        exact .rest
    | adopt w next =>
      rw [step, hm]
      exact .rest

/-- **A step keeps a heap well-formed**, if the next request uses nothing that does not exist. -/
theorem wellformed_step (hh : m.state.heap.Wellformed) (hg : m.Grounded) :
    m.step.state.heap.Wellformed := by
  have ht := turns_step m
  generalize m.step.state.heap = h' at ht ⊢
  induction ht with
  | rest => exact hh
  | track w ps => exact hh.track w ps
  | make draft next top => exact hh.build draft (hg _ top)
  | edit change next top => exact hh.edit (hg _ top)
  | write o key v next top changes => exact hh.store o key (hg _ top)
  | notify h d ws before ih => exact ih.setSubscribers d ws

/-- What is observed stays so. -/
theorem isObserved_step {o : ObjectId} (ho : m.state.heap.isObserved o) :
    m.step.state.heap.isObserved o := by
  have ht := turns_step m
  generalize m.step.state.heap = h' at ht ⊢
  induction ht with
  | rest => exact ho
  | track w ps =>
    have he := (Heap.track_data m.state.heap w ps).1
    simpa only [Heap.isObserved, Heap.object?, he] using ho
  | make draft next top => rwa [(Heap.grows_build _ draft).isObserved_eq]
  | edit change next top => exact Heap.isObserved_edit change ho
  | write o' key v next top changes => exact Heap.isObserved_store _ o' key v ho
  | notify h d ws before ih => exact ih

/-- **A step that changes no array agrees on all data, or on all but one slot that it writes.** -/
theorem data_step (harrays : ∀ change next, m.next? = some (.edit change next) → change.SparesArrays) :
    m.state.heap.Agrees m.step.state.heap ∨
      ∃ o key v next k, m.next? = some (.write o key v next) ∧
        m.state.heap.ignores o key v = false ∧ m.state.heap.Wrote o key v k ∧
        k.Agrees m.step.state.heap := by
  have ht := turns_step m
  generalize m.step.state.heap = h' at ht ⊢
  induction ht with
  | rest => exact .inl (.refl _)
  | track w ps =>
    exact .inl (.of_eq (Heap.track_data _ w ps).1 (Heap.track_data _ w ps).2)
  | make draft next top => exact .inl (Heap.grows_build _ draft).agrees
  | edit change next top => exact .inl (Heap.agrees_edit _ (harrays change next top))
  | write o key v next top changes =>
    obtain ⟨k, hw, -, he⟩ := Heap.store_eq changes
    refine .inr ⟨o, key, v, next, k, top, changes, hw, ?_⟩
    rw [he]
    split
    · exact (Heap.Instruments.observe k v).agrees
    · exact .refl k
  | notify h d ws before ih =>
    rcases ih with ha | ⟨o, key, v, next, k, top, changes, hw, ha⟩
    · exact .inl (ha.trans (Heap.setSubscribers_agrees h d ws))
    · exact .inr ⟨o, key, v, next, k, top, changes, hw,
        ha.trans (Heap.setSubscribers_agrees h d ws)⟩

section

variable (harrays : ∀ change next, m.next? = some (.edit change next) → change.SparesArrays)

include harrays in
theorem keepsArrays_step : m.state.heap.KeepsArrays m.step.state.heap := by
  rcases data_step harrays with ha | ⟨o, key, v, next, k, -, -, hw, ha⟩
  · exact ha.keepsArrays
  · exact hw.keepsArrays.trans ha.keepsArrays

include harrays in
/-- A slot that is not changed keeps its value. -/
theorem valueAt?_step {p : Place} (hp : p.object.index < m.state.heap.objects.size)
    (hno : .changed p ∉ m.events) :
    m.step.state.heap.valueAt? p = m.state.heap.valueAt? p := by
  rcases data_step harrays with ha | ⟨o, key, v, next, k, top, changes, hw, ha⟩
  · exact ha.peek _ _ hp
  · rw [Heap.valueAt?, ha.peek _ _ (by rwa [hw.size]), hw.peek, if_neg, Heap.valueAt?]
    rintro ⟨ho, hk, -⟩
    refine hno ?_
    rw [show p = ⟨o, key⟩ by rw [← ho, ← hk]]
    exact changed_of_next? top changes

include harrays in
/-- Where only clean values are written, clean values stay clean. -/
theorem clean_step {x : Value} (hh : m.state.heap.Wellformed) (hg : m.Grounded)
    (hwritten : ∀ o key v next, m.next? = some (.write o key v next) → m.state.heap.Clean v)
    (hx : m.state.heap.Exists x) (hc : m.state.heap.Clean x) : m.step.state.heap.Clean x := by
  rcases data_step harrays with ha | ⟨o, key, v, next, k, top, -, hw, ha⟩
  · exact hc.of_agrees ha hh.grounded hx
  · exact (hc.of_wrote hw (hwritten o key v next top)).of_agrees ha
      (hw.grounded hh.grounded (hg _ top)) (hw.exists_iff.2 hx)

end

end Machine

end LiveMarkup

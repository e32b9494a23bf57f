import Mathlib.Data.List.Permutation
import LiveMarkup.Proofs.Data.Marking
import LiveMarkup.Proofs.Reactive.Data

/-!
# Observation while programs run

Whatever programs do, at every step the slots with deps are those of observed objects, and what stands
in a slot of an observed object is observed.

* `Machine.Leads`: what a machine can come to.
* **`Machine.tidy_step`**, `Machine.dep?_step`: a step keeps deps tidy and takes none away.
* `Machine.Leads.wellformed`, `Machine.Leads.tidy`, `Machine.Leads.dep?`: so does a run.
* **`Machine.Leads.observation`**: what holds of the heap of a machine that was started at any point.
-/

namespace LiveMarkup.Machine

variable {σ : Type} {m m' : Machine σ} {o : ObjectId} {key : String} {d : DepId}

/-! ## Steps -/

/-- **A step keeps deps tidy.** -/
theorem tidy_step (ht : m.state.heap.Tidy) : m.step.state.heap.Tidy := by
  have hturns := turns_step m
  generalize m.step.state.heap = h' at hturns ⊢
  induction hturns with
  | rest => exact ht
  | track w ps => exact ht.track w ps
  | make draft next top => exact ht.build draft
  | edit change next top => exact ht.edit change
  | write o key v next top changes => exact ht.store o key v
  | notify h d ws before ih => exact ih.setSubscribers d ws

/-- A step takes no dep from a slot, and gives it no other. -/
theorem dep?_step (hd : m.state.heap.dep? o key = some d) : m.step.state.heap.dep? o key = some d := by
  have hturns := turns_step m
  generalize m.step.state.heap = h' at hturns ⊢
  induction hturns with
  | rest => exact hd
  | track w ps => exact (Heap.Extends.track _ w ps).dep? o key d hd
  | make draft next top => exact (Heap.grows_build _ draft).toExtends.dep? o key d hd
  | edit change next top => exact (Heap.Extends.edit _ change).dep? o key d hd
  | write o' key' v next top changes => exact (Heap.Extends.store _ o' key' v).dep? o key d hd
  | notify h e ws before ih => exact ih

/-! ## Runs -/

/-- What a machine can come to. Programs are given to it while it is at rest, and no step uses a value
that does not exist. -/
inductive Leads (m : Machine σ) : Machine σ → Prop where
  | refl : Leads m m
  | perform (k : Machine σ) (p : Program σ) (before : Leads m k) (rest : k.stack = []) :
      Leads m { k with stack := [.body p], fault := none }
  | step (k : Machine σ) (before : Leads m k) (grounded : k.Grounded) : Leads m k.step

namespace Leads

theorem wellformed (hl : m.Leads m') (hh : m.state.heap.Wellformed) : m'.state.heap.Wellformed := by
  induction hl with
  | refl => exact hh
  | perform k p before rest ih => exact ih
  | step k before grounded ih => exact wellformed_step ih grounded

theorem tidy (hl : m.Leads m') (ht : m.state.heap.Tidy) : m'.state.heap.Tidy := by
  induction hl with
  | refl => exact ht
  | perform k p before rest ih => exact ih
  | step k before grounded ih => exact tidy_step ih

theorem dep? (hl : m.Leads m') (hd : m.state.heap.dep? o key = some d) :
    m'.state.heap.dep? o key = some d := by
  induction hl with
  | refl => exact hd
  | perform k p before rest ih => exact ih
  | step k before grounded ih => exact dep?_step ih

/-- **What is observed, at any point of a run.** A slot has a dep if its object is observed, and only
then; an observed object holds observed objects only; deps stay where they are, each with one slot. And
an observation walks through no object twice, marks what it gets to through slots, and changes no
data. The walk that marks an object and goes on from its slots ends, and leaves the same, but for the names
of the deps that it makes. -/
theorem observation {host : σ} (hl : (start host).Leads m) :
    (∀ o key, (m.state.heap.slot? o key).isSome →
      ((m.state.heap.dep? o key).isSome ↔ m.state.heap.isObserved o)) ∧
    (∀ o key c, m.state.heap.isObserved o → m.state.heap.peek o key = some (.object c) →
      m.state.heap.isObserved c) ∧
    (∀ o key d, m.state.heap.dep? o key = some d →
      ∀ m', m.Leads m' → m'.state.heap.dep? o key = some d) ∧
    (∀ o key x k d, m.state.heap.dep? o key = some d → m.state.heap.dep? x k = some d →
      o = x ∧ key = k) ∧
    ∀ o, m.state.heap.Exists (.object o) →
      ((m.state.heap.gather m.state.heap.unobserved [o]).Nodup ∧
        m.state.heap.gather m.state.heap.unobserved [o] ⊆ m.state.heap.unobserved) ∧
      (∀ x, (m.state.heap.observeObject o).isObserved x ↔
        m.state.heap.isObserved x ∨ m.state.heap.ReachesObject o x) ∧
      (∀ x, (m.state.heap.observeObject o).members x = m.state.heap.members x) ∧
      (∀ a, (m.state.heap.observeObject o).items a = m.state.heap.items a) ∧
      ∀ depth, m.state.heap.unobserved.length < depth →
        ∃ h f, Heap.observeWalk depth (.object o) m.state.heap = some h ∧
          (∀ d, d.index < m.state.heap.deps.size → f d = d) ∧
          (m.state.heap.observeObject o).Renames f h := by
  have hh := hl.wellformed Heap.wellformed_empty
  have ht := hl.tidy Heap.tidy_empty
  refine ⟨fun o key hs => ⟨fun hd => ?_, fun ho => ?_⟩, fun o key c ho hp => hh.closed ho hp,
    fun o key d hd m' hl' => hl'.dep? hd, fun o key x k d hd hd' => ht.apart hd hd',
    fun o ho => ⟨Heap.nodup_gather _ (Heap.nodup_unobserved _) [o],
      (hh.awaits ht ho).isObserved_observe, ?_⟩⟩
  · obtain ⟨d, hd⟩ := Option.isSome_iff_exists.1 hd
    exact ht.observed hd
  · obtain ⟨d, hd, -⟩ := hh.sound.exists_dep ho hs
    exact Option.isSome_iff_exists.2 ⟨d, hd⟩
  · have hi := Heap.Instruments.observe m.state.heap (.object o)
    exact ⟨hi.members, fun a => congrArg (fun arrays : Array (List Value) => arrays[a.index]?.getD [])
      hi.arrays, fun depth hdepth => Heap.observeWalk_renames (hh.awaits ht ho) hdepth⟩

/-- An object is made, is put into itself, and is observed. -/
def observeLoop : Machine Unit :=
  { start () with
    stack := [.body (.make (.object []) fun v =>
      .write ⟨0⟩ "self" v (.edit (.observe v) .done))] }

theorem leads_observeLoop : (start ()).Leads observeLoop.step.step.step := by
  have hstart : (start ()).Leads observeLoop := .perform _ _ .refl rfl
  have hmake : observeLoop.Grounded := by
    rintro p ⟨⟩
    trivial
  have hwrite : observeLoop.step.Grounded := by
    rintro p ⟨⟩
    show 0 < 1
    decide
  have hobserve : observeLoop.step.step.Grounded := by
    rintro p ⟨⟩
    show 0 < 1
    decide
  exact ((hstart.step _ hmake).step _ hwrite).step _ hobserve

/-- The observed loop has a dep in its slot, and observing it again marks nothing but itself. -/
theorem observation_observeLoop :
    (start ()).Leads observeLoop.step.step.step ∧
      (observeLoop.step.step.step.state.heap.dep? ⟨0⟩ "self").isSome ∧
      ∀ x, (observeLoop.step.step.step.state.heap.observeObject ⟨0⟩).isObserved x ↔
        observeLoop.step.step.step.state.heap.isObserved x ∨
          observeLoop.step.step.step.state.heap.ReachesObject ⟨0⟩ x := by
  obtain ⟨hdep, -, -, -, hobserve⟩ := observation leads_observeLoop
  refine ⟨leads_observeLoop, (hdep ⟨0⟩ "self" ?_).2 ?_, (hobserve ⟨0⟩ ?_).2.1⟩
  · cbv
  · cbv
  · have hsize : observeLoop.step.step.step.state.heap.objects.size = 1 := by cbv
    exact Nat.lt_of_lt_of_eq Nat.zero_lt_one hsize.symm

end Leads

end LiveMarkup.Machine

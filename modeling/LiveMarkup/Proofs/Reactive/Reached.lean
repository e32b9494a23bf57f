import LiveMarkup.Proofs.Reactive.Subscribers

/-!
# Machines that operations lead to

Whoever works on a machine from outside lays out data, changes the heap or the host silently, and runs
programs. All of this is a part of its history, so that what a history rules out holds between operations.

* `Machine.Reached`: a machine at rest that has a history.
* `Reached.start`, `Reached.told`, `Reached.edited`, `Reached.built`, `Reached.performed`, `Reached.watched`,
  `Reached.caught`: what operations make of it.
* **`Reached.nodup_subscribers`**, `Reached.idle`: nobody is listed twice, and nobody is running.
-/

namespace LiveMarkup

variable {σ : Type}

namespace Machine

variable {m m' : Machine σ} {p : Program σ}

/-- A machine at rest, after whatever was asked of it from outside. -/
structure Reached (m : Machine σ) : Prop where
  history : ∃ host es, History host m es
  rest : m.stack = []
  fault : m.fault = none

namespace Reached

theorem start (host : σ) : (start host).Reached := ⟨⟨host, [], .start⟩, rfl, rfl⟩

/-! ## Operations -/

/-- The machine at rest that comes of a program. -/
theorem after (h : m.Reached) (k : Nat) (hk : step^[k] (m.asked p) = m') (rest : m'.stack = [])
    (fault : m'.fault = none) : m'.Reached := by
  obtain ⟨host, es, hm⟩ := h.history
  obtain ⟨es', hm'⟩ := (hm.perform m es p h.rest).iterate k
  exact ⟨⟨host, es', hk ▸ hm'⟩, rest, fault⟩

theorem told (h : m.Reached) (change : σ → σ) :
    ({ m with state := { m.state with host := change m.state.host } } : Machine σ).Reached := by
  refine h.after (p := .tell change .done) 2 ?_ h.rest h.fault
  obtain ⟨state, getters, stack, fault⟩ := m
  obtain rfl : stack = [] := h.rest
  obtain rfl : fault = none := h.fault
  rfl

theorem edited (h : m.Reached) (change : Heap.Edit) : (m.withHeap (m.state.heap.edit change)).Reached := by
  refine h.after (p := .edit change .done) 2 ?_ h.rest h.fault
  obtain ⟨state, getters, stack, fault⟩ := m
  obtain rfl : stack = [] := h.rest
  obtain rfl : fault = none := h.fault
  rfl

theorem built (h : m.Reached) (draft : Draft) : (m.withHeap (m.state.heap.build draft).2).Reached := by
  refine h.after (p := .make draft fun _ => .done) 2 ?_ h.rest h.fault
  obtain ⟨state, getters, stack, fault⟩ := m
  obtain rfl : stack = [] := h.rest
  obtain rfl : fault = none := h.fault
  rfl

theorem performed (h : m.Reached) (hp : Live.perform p m = .ok () m') : m'.Reached := by
  obtain ⟨⟨n, hn⟩, hrest, hfault⟩ := Live.perform_ok hp
  exact h.after n hn hrest hfault

theorem watched {getter : Program σ} {w : WatcherId} (h : m.Reached)
    (hw : Live.watch getter m = .ok w m') : m'.Reached := by
  rw [Live.watch, Live.bind_ok (Live.state_eq m)] at hw
  obtain ⟨_, k, hperform, hw⟩ := Live.bind_inv hw
  obtain ⟨-, rfl⟩ := EStateM.Result.ok.inj hw
  exact h.performed hperform

/-- A program has given up. -/
theorem caught {message : String} (h : m.Reached)
    (hp : Live.perform p m = .error (.panicked message) m') : m'.Reached := by
  obtain ⟨k, ⟨n, hn⟩, hrest, rfl⟩ := Live.perform_panicked hp
  obtain ⟨host, es, hm⟩ := h.history
  obtain ⟨es', hk⟩ := (hm.perform m es p h.rest).iterate n
  -- To have nothing done takes the fault away.
  obtain ⟨es'', hm'⟩ := ((hn ▸ hk).perform k es' .done hrest).iterate 1
  refine ⟨⟨host, es'', ?_⟩, hrest, rfl⟩
  have hdone : step { k with stack := [.body .done], fault := none } = { k with fault := none } := by
    rw [step_done (m := { k with stack := [.body .done], fault := none }) rfl, ← hrest]
  rwa [Function.iterate_one, hdone] at hm'

end Reached

/-! ## What a history rules out -/

/-- Steps list nobody twice. -/
theorem nodup_subscribers_step (h : ∀ d, (m.state.heap.subscribers d).Nodup) (d : DepId) :
    (m.step.state.heap.subscribers d).Nodup := by
  rw [subscribers_step]
  split
  · exact (h d).filter _
  · exact nodup_enlist (h d) _

end Machine

/-- **Nobody is subscribed to a dep twice**, whatever programs do. -/
theorem History.nodup_subscribers {host : σ} {m : Machine σ} {es : List Event} (h : History host m es)
    (d : DepId) : (m.state.heap.subscribers d).Nodup := by
  induction h generalizing d with
  | start => exact List.nodup_nil
  | perform m es p before rest ih => exact ih d
  | step m es before ih => exact Machine.nodup_subscribers_step ih d

namespace Machine.Reached

variable {m : Machine σ}

theorem nodup_subscribers (h : m.Reached) (d : DepId) : (m.state.heap.subscribers d).Nodup := by
  obtain ⟨host, es, hm⟩ := h.history
  exact hm.nodup_subscribers d

/-- No watcher is running between operations. -/
theorem idle (h : m.Reached) (w : WatcherId) : m.state.isRunning w = false := by
  obtain ⟨host, es, hm⟩ := h.history
  have hmarks := hm.disciplined.marks
  rw [h.rest] at hmarks
  exact hmarks.idle w

/-- Every watcher has a getter. -/
theorem paired (h : m.Reached) : m.getters.size = m.state.watchers.size := by
  obtain ⟨host, es, hm⟩ := h.history
  exact hm.disciplined.paired

end Machine.Reached

end LiveMarkup

import LiveMarkup.Proofs.Data.Wellformed
import LiveMarkup.Proofs.Reactive.Reached

/-!
# Writes with one watcher at most

Where no watcher of those subscribed to a slot is kept but one, whose getter reads once and then tells the
host, a write to that slot comes to its end after a few steps. Then the data are as the write itself left them.

* `Machine.Ran`: what runs of such a getter leave.
* **`Machine.ran_request`**: a run that is asked for, with its rerun.
* `Machine.Alone`: no watcher is kept but one of those subscribed to a dep.
* **`Machine.write_of_alone`**: a write from outside.
-/

namespace LiveMarkup

variable {σ : Type}

/-! ## Runs -/

namespace Machine

variable {m m' k : Machine σ} {w : WatcherId} {reads : Heap → List Place} {change : Heap → σ → σ}
  {P : σ → Prop}

/-- What runs leave of getters that only read and tell the host: the data and the work under way are as they
were, and so is what the host keeps of what it is told. -/
structure Ran (P : σ → Prop) (m m' : Machine σ) : Prop where
  objects : m'.state.heap.objects = m.state.heap.objects
  arrays : m'.state.heap.arrays = m.state.heap.arrays
  stack : m'.stack = m.stack
  fault : m'.fault = m.fault
  host : P m.state.host → P m'.state.host

theorem Ran.trans (h : m.Ran P m') (h' : m'.Ran P k) : m.Ran P k :=
  ⟨h'.objects.trans h.objects, h'.arrays.trans h.arrays, h'.stack.trans h.stack, h'.fault.trans h.fault,
    h'.host ∘ h.host⟩

/-- **A run of such a getter**: it is followed by a rerun if one was asked for before it, which is the last
one then. -/
theorem ran_enter (getter : m.getter w = .readTell reads change)
    (keeps : ∀ h s, P s → P (change h s)) (n : Nat) :
    ∃ q, m.Ran P q ∧ q.getter w = m.getter w ∧ (q.state.watcher? w).any (·.dirty) = false ∧
      step^[4] (m.enter w n) =
        if (m.state.watcher? w).any (·.dirty) && n < maxReruns then q.enter w (n + 1) else q := by
  let entered := m.enter w n
  let told : Machine σ :=
    { entered with
      state := { entered.state with
        heap := m.state.heap.track w (reads m.state.heap)
        host := change m.state.heap m.state.host }
      stack := m.stack }
  have hstack : entered.stack = .body (.readTell reads change) :: .leave w m.state.active n :: m.stack := by
    rw [← getter]
    exact stack_enter m w n
  have hleave : step^[4] entered = told.leave w m.state.active n := iterate_readTell_leave hstack rfl
  have hdirty : (told.state.watcher? w).any (·.dirty) = (m.state.watcher? w).any (·.dirty) :=
    State.any_modifyWatcher (fun x => { x with runs := x.runs + 1, running := true }) Watcher.dirty
      (fun _ => rfl) m.state w w
  obtain ⟨hobjects, harrays⟩ := Heap.track_data m.state.heap w (reads m.state.heap)
  refine ⟨told.quit w m.state.active, ⟨hobjects, harrays, rfl, rfl, keeps _ _⟩, rfl, ?_, ?_⟩
  · rw [watcher?_quit, if_pos rfl]
    cases told.state.watcher? w <;> rfl
  · rw [hleave, leave_eq, hdirty]

/-- **A run that is asked for of an idle watcher** ends, and so does the rerun that may follow it. -/
theorem ran_request (idle : m.state.isRunning w = false) (getter : m.getter w = .readTell reads change)
    (keeps : ∀ h s, P s → P (change h s)) : ∃ i, m.Ran P (step^[i] (m.request w)) := by
  obtain ⟨q, hq, hgetter, hclean, hrun⟩ := ran_enter getter keeps 0
  rw [request_eq, idle]
  simp only [Bool.false_eq_true, if_false]
  split at hrun
  · obtain ⟨q', hq', -, -, hrerun⟩ := ran_enter (hgetter.trans getter) keeps (0 + 1)
    rw [hclean, Bool.false_and, if_neg Bool.false_ne_true] at hrerun
    refine ⟨8, ?_⟩
    rw [Function.iterate_add_apply step 4 4, hrun, hrerun]
    exact hq.trans hq'
  · exact ⟨4, hrun ▸ hq⟩

/-- A notification of one idle watcher. -/
theorem ran_pending {rest : List (Frame σ)} (hm : m.stack = .pending [w] :: rest)
    (idle : m.state.isRunning w = false) (getter : m.getter w = .readTell reads change)
    (keeps : ∀ h s, P s → P (change h s)) :
    ∃ i, Ran P { m with stack := rest } (step^[i] m) := by
  let popped : Machine σ := { m with stack := .pending [] :: rest }
  have hask : m.step = popped.request w := by rw [step, hm]
  obtain ⟨i, hran⟩ := ran_request (m := popped) idle getter keeps
  have hend : step^[i + 2] m = { step^[i] (popped.request w) with stack := rest } := by
    rw [Function.iterate_succ_apply', Function.iterate_succ_apply, hask, step, hran.stack]
  refine ⟨i + 2, ?_⟩
  rw [hend]
  exact ⟨hran.objects, hran.arrays, rfl, hran.fault, hran.host⟩

/-! ## A write -/

/-- No watcher is running. Of those subscribed to a dep, each of them once, none is kept but one, whose getter
reads once and then tells the host nothing but what it keeps something through. -/
structure Alone (P : σ → Prop) (m : Machine σ) (d : DepId) : Prop where
  idle : ∀ w, m.state.isRunning w = false
  nodup : (m.state.heap.subscribers d).Nodup
  unique : ∀ w ∈ m.state.heap.subscribers d, ∀ x ∈ m.state.heap.subscribers d,
    m.state.isKept w → m.state.isKept x → w = x
  getter : ∀ w ∈ m.state.heap.subscribers d, m.state.isKept w →
    ∃ reads change, m.getter w = .readTell reads change ∧ ∀ h s, P s → P (change h s)

/-- From outside, a notification runs one watcher at most. -/
theorem Alone.subscribers {d : DepId} (alone : m.Alone P d) (held : ∀ f ∈ m.stack, f.held = []) :
    m.sight.subscribers d = [] ∨
      ∃ w ∈ m.state.heap.subscribers d, m.state.isKept w ∧ m.sight.subscribers d = [w] := by
  have hlisted : ∀ w ∈ m.sight.subscribers d, w ∈ m.state.heap.subscribers d ∧ m.state.isKept w := by
    intro w hw
    obtain ⟨hw, halive⟩ := List.mem_filter.1 hw
    refine ⟨hw, (alive_iff.1 halive).resolve_right ?_⟩
    rintro ⟨f, hf, hheld⟩
    rw [held f hf] at hheld
    exact List.not_mem_nil hheld
  have hnodup : (m.sight.subscribers d).Nodup := alone.nodup.filter _
  generalize m.sight.subscribers d = live at hlisted hnodup
  match live with
  | [] => exact .inl rfl
  | [w] =>
    obtain ⟨hw, hkept⟩ := hlisted w List.mem_cons_self
    exact .inr ⟨w, hw, hkept, rfl⟩
  | w :: x :: _ =>
    obtain ⟨hw, hkept⟩ := hlisted w List.mem_cons_self
    obtain ⟨hx, hkept'⟩ := hlisted x (List.mem_cons_of_mem _ List.mem_cons_self)
    have hsame := alone.unique w hw x hx hkept hkept'
    exact absurd (hsame ▸ List.mem_cons_self) (List.nodup_cons.1 hnodup).1

/-- **A write from outside comes to its end**, with the data as they are when the slot was written. -/
theorem write_of_alone {o : ObjectId} {key : String}
    (alone : ∀ d, m.state.heap.dep? o key = some d → m.Alone P d) (hP : P m.state.host) (v : Value) :
    ∃ m', Live.write o key v m = .ok () m' ∧ m'.stack = [] ∧
      m'.state.heap.objects = (m.state.heap.store o key v).1.objects ∧
      m'.state.heap.arrays = (m.state.heap.store o key v).1.arrays ∧ P m'.state.host := by
  have hsubscribers := Heap.subscribers_store m.state.heap o key v
  have hdep : ∀ d, (m.state.heap.store o key v).2 = some d → m.Alone P d := fun d hd =>
    alone d (Heap.dep?_of_store hd)
  generalize hs : m.state.heap.store o key v = r at hsubscribers hdep
  obtain ⟨h, dep⟩ := r
  dsimp only at hsubscribers hdep ⊢
  let asked := m.asked (.write o key v .done)
  let stored : Machine σ :=
    { m with state := { m.state with heap := h }, stack := [.body .done], fault := none }
  cases dep with
  | none =>
    let quiet : Machine σ := { stored with stack := [] }
    refine ⟨quiet, Live.perform_of_iterate 2 ?_ rfl rfl, rfl, rfl, rfl, hP⟩
    show step (step asked) = quiet
    rw [step_write_none (m := asked) rfl hs]
    exact step_done (m := stored) rfl
  | some d =>
    have hnotify : asked.step = stored.notify d := by
      rw [step]
      simp only [asked, Machine.asked, perform, hs]
      rfl
    have hd := hdep d rfl
    -- The notification, whoever of the subscribers was kept.
    obtain ⟨i, hran⟩ : ∃ i, stored.Ran P (step^[i] (stored.notify d)) := by
      have hstored : stored.Alone P d := by
        refine ⟨hd.idle, ?_, ?_, ?_⟩ <;> rw [show stored.state.heap.subscribers d = _ from hsubscribers d]
        exacts [hd.nodup, hd.unique, hd.getter]
      rcases hstored.subscribers (List.forall_mem_singleton.2 rfl) with hnone | ⟨w, hw, hkept, hone⟩
      · have hpop : (stored.notify d).step = stored.withHeap (h.setSubscribers d []) := by
          show step ((stored.withHeap (h.setSubscribers d (stored.sight.subscribers d))).push
            (.pending (stored.sight.subscribers d))) = _
          rw [hnone]
          rfl
        refine ⟨1, ?_⟩
        rw [Function.iterate_one, hpop]
        exact ⟨rfl, rfl, rfl, rfl, id⟩
      · obtain ⟨reads, change, hgetter, hkeeps⟩ := hstored.getter w hw hkept
        have hstack : (stored.notify d).stack = .pending [w] :: stored.stack := by
          show Frame.pending (stored.sight.subscribers d) :: stored.stack = _
          rw [hone]
        obtain ⟨i, hran⟩ := ran_pending hstack (hd.idle w) hgetter hkeeps
        exact ⟨i, hran.objects, hran.arrays, hran.stack, hran.fault, hran.host⟩
    have hstack : (step^[i] (stored.notify d)).stack = [.body .done] := hran.stack
    refine ⟨{ step^[i] (stored.notify d) with stack := [] },
      Live.perform_of_iterate (i + 2) ?_ rfl hran.fault, rfl, hran.objects, hran.arrays,
      hran.host hP⟩
    show step^[i + 2] asked = _
    rw [Function.iterate_succ_apply', Function.iterate_succ_apply, hnotify, step_done hstack]

end Machine

end LiveMarkup

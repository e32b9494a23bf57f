import Mathlib.Logic.Function.Iterate
import LiveMarkup.Proofs.Reactive.Retained

/-!
# Runs worked out

A getter that reads once and then tells the host is done with in a few steps. This module says what
making a watcher of it, and a write that such a watcher has subscribed to, come to.

* `Program.readTell`: the getter.
* `Heap.Sole`, `Machine.Only`: there is one watcher, and it is idle.
* **`Machine.exec_eq_some_iff`**, **`Machine.exec_eq_none_iff`**: what an execution comes to.
* **`Machine.iterate_readTell`**: a run of the getter.
* **`Live.perform_cases`**: how an operation that runs a program ends.
* **`Live.watch_readTell`**, **`Live.write_readTell`**: the operations from outside.
-/

namespace LiveMarkup

variable {σ : Type}

/-- Read once, then tell the host. -/
def Program.readTell (reads : Heap → List Place) (change : Heap → σ → σ) : Program σ :=
  .read reads fun h => .tell (change h) .done

namespace Heap

variable {h h' : Heap} {w : WatcherId}

/-- No watcher but one is subscribed to anything. -/
def Sole (h : Heap) (w : WatcherId) : Prop := ∀ d, h.subscribers d = [] ∨ h.subscribers d = [w]

theorem Sole.of_eq (hs : h.Sole w) (he : ∀ d, h'.subscribers d = h.subscribers d) : h'.Sole w :=
  fun d => (he d).symm ▸ hs d

theorem Sole.subscribe (hs : h.Sole w) (d : DepId) : (h.subscribe d w).Sole w := by
  unfold Heap.subscribe
  split
  · exact hs
  · next hn =>
    have hnil : h.subscribers d = [] := (hs d).resolve_right fun he => hn (he ▸ List.mem_cons_self)
    intro e
    rw [subscribers_setSubscribers, hnil]
    split
    · exact .inr rfl
    · exact hs e

theorem Sole.track (hs : h.Sole w) (ps : List Place) : (h.track w ps).Sole w := by
  induction ps generalizing h with
  | nil => exact hs
  | cons p ps ih =>
    unfold Heap.track
    split
    · exact ih (hs.subscribe _)
    · exact ih hs

end Heap

namespace Machine

variable {m : Machine σ} {w : WatcherId} {rest : List (Frame σ)} {previous : Option WatcherId}
  {reads : Heap → List Place} {change : Heap → σ → σ} {n : Nat}

/-- Once it is at rest a machine stays as it is. -/
theorem step_of_rest (hm : m.stack = []) : m.step = m := by rw [step, hm]

/-- An execution comes to rest where its steps do. -/
theorem exec_iterate {k : Nat} {m : Machine σ} (hs : (step^[k] m).stack = []) : m.exec = some (step^[k] m) := by
  induction k generalizing m with
  | zero =>
    rw [exec]
    exact if_pos (List.isEmpty_iff.2 hs)
  | succ k ih =>
    rw [exec]
    by_cases hm : m.stack = []
    · rw [if_pos (List.isEmpty_iff.2 hm), Function.iterate_fixed (step_of_rest hm)]
    · rw [if_neg (mt List.isEmpty_iff.1 hm)]
      exact ih hs

/-- **An execution comes to the machine at rest that some number of steps leads to.** -/
theorem exec_eq_some_iff {m m' : Machine σ} : m.exec = some m' ↔ ∃ k, step^[k] m = m' ∧ m'.stack = [] := by
  constructor
  · intro h
    obtain ⟨⟨k, hk⟩, hrest⟩ := exec_preserves (P := fun x => ∃ k, step^[k] m = x)
      (fun _ ⟨k, hk⟩ => ⟨k + 1, by rw [Function.iterate_succ_apply', hk]⟩) ⟨0, rfl⟩ h
    exact ⟨k, hk, hrest⟩
  · rintro ⟨k, rfl, hrest⟩
    exact exec_iterate hrest

/-- **It comes to nothing if the machine never rests.** -/
theorem exec_eq_none_iff {m : Machine σ} : m.exec = none ↔ ∀ k, (step^[k] m).stack ≠ [] := by
  rw [Option.eq_none_iff_forall_ne_some]
  constructor
  · exact fun h k hrest => h _ (exec_iterate hrest)
  · intro h m' hm'
    obtain ⟨k, rfl, hrest⟩ := exec_eq_some_iff.1 hm'
    exact h k hrest

theorem step_done (hm : m.stack = .body .done :: rest) : m.step = { m with stack := rest } := by
  rw [step, hm]
  rfl

/-- The getter has read and has told the host, and is left. -/
theorem iterate_readTell_leave
    (hm : m.stack = .body (.readTell reads change) :: .leave w previous n :: rest)
    (active : m.state.active = some w) :
    step^[4] m =
      Machine.leave
        { m with
          state := { m.state with
            heap := m.state.heap.track w (reads m.state.heap)
            host := change m.state.heap m.state.host }
          stack := rest } w previous n := by
  obtain ⟨⟨heap, watchers, active', host⟩, getters, stack, fault⟩ := m
  subst hm
  subst active
  rfl

/-- **A run of a getter that reads once and then tells the host**, of a watcher that nobody has asked
to run again. -/
theorem iterate_readTell {x : Watcher}
    (hm : m.stack = .body (.readTell reads change) :: .leave w previous n :: rest)
    (active : m.state.active = some w) (watcher : m.state.watcher? w = some x) (clean : x.dirty = false) :
    step^[4] m =
      { m with
        state :=
          { heap := m.state.heap.track w (reads m.state.heap)
            watchers := m.state.watchers.modify w.index fun x =>
              { x with running := false, dirty := false }
            active := previous
            host := change m.state.heap m.state.host }
        stack := rest } := by
  have hclean : ((m.state.watcher? w).any (·.dirty)) = false := by
    rw [watcher]
    exact clean
  rw [iterate_readTell_leave hm active, leave_eq]
  refine (if_neg ?_).trans rfl
  rw [show (({ m.state with
    heap := m.state.heap.track w (reads m.state.heap)
    host := change m.state.heap m.state.host } : State σ).watcher? w).any (·.dirty) = false
    from hclean]
  exact Bool.false_ne_true

theorem modify_size_push {α : Type} (xs : Array α) (x : α) (f : α → α) :
    (xs.push x).modify xs.size f = xs.push (f x) := by
  refine Array.ext_getElem? fun i => ?_
  rw [Array.getElem?_modify, Array.getElem?_push, Array.getElem?_push]
  by_cases hi : i = xs.size
  · rw [if_pos hi, if_pos hi, if_pos hi.symm]
    rfl
  · rw [if_neg hi, if_neg hi, if_neg (Ne.symm hi)]

/-- A watcher is made and entered. -/
theorem step_watch {getter : Program σ} {next : WatcherId → Program σ}
    (hm : m.stack = .body (.watch getter next) :: rest)
    (paired : m.getters.size = m.state.watchers.size) :
    m.step =
      { m with
        state := { m.state with
          watchers := m.state.watchers.push ⟨1, true, false, false⟩
          active := some ⟨m.state.watchers.size⟩ }
        getters := m.getters.push getter
        stack := .body getter :: .leave ⟨m.state.watchers.size⟩ m.state.active 0 ::
          .adopt ⟨m.state.watchers.size⟩ next :: rest } := by
  obtain ⟨⟨heap, watchers, active, host⟩, getters, stack, fault⟩ := m
  subst hm
  have hnew : (⟨heap, watchers.push ⟨0, false, false, false⟩, active, host⟩ : State σ).isRunning
      ⟨watchers.size⟩ = false := by simp [State.isRunning, State.watcher?]
  have hgetter : (getters.push getter)[watchers.size]?.getD .done = getter := by
    rw [← show getters.size = watchers.size from paired]
    simp
  show request _ _ = _
  rw [request_eq, hnew]
  simp only [Bool.false_eq_true, if_false, enter, Machine.getter, hgetter, State.modifyWatcher,
    modify_size_push]

/-- After its first run a watcher is kept. -/
theorem step_adopt {next : WatcherId → Program σ} (hm : m.stack = .adopt w next :: rest) :
    m.step =
      { m with
        state := m.state.modifyWatcher w fun x => { x with kept := true }
        stack := .body (next w) :: rest } := by
  rw [step, hm]

/-! ## A write -/

section Write

variable {next : Program σ} {o : ObjectId} {key : String} {v : Value} {h : Heap} {d : DepId} {k : Nat}

theorem step_write_none (hm : m.stack = .body (.write o key v next) :: rest)
    (hs : m.state.heap.store o key v = (h, none)) :
    m.step = { m with state := { m.state with heap := h }, stack := .body next :: rest } := by
  rw [step, hm]
  simp only [perform, hs]
  rfl

/-- A write is notified to the subscribers of the slot's dep, which are kept. -/
theorem step_write_some (hm : m.stack = .body (.write o key v next) :: rest)
    (hs : m.state.heap.store o key v = (h, some d))
    (kept : ∀ x ∈ h.subscribers d, m.state.isKept x) :
    m.step =
      { m with
        state := { m.state with heap := h }
        stack := .pending (h.subscribers d) :: .body next :: rest } := by
  let stored : Machine σ :=
    { m with state := { m.state with heap := h }, stack := .body next :: rest }
  have hlive : stored.sight.subscribers d = h.subscribers d :=
    List.filter_eq_self.2 fun x hx => alive_iff.2 (.inl (kept x hx))
  have hnotify : m.step = stored.notify d := by
    rw [step, hm]
    simp only [perform, hs]
    rfl
  rw [hnotify]
  show (stored.withHeap (h.setSubscribers d (stored.sight.subscribers d))).push
    (.pending (stored.sight.subscribers d)) = _
  rw [hlive, Heap.setSubscribers_self]
  rfl

/-- An idle watcher that is to be run: its getter reads once and then tells the host. -/
theorem iterate_pending (hm : m.stack = .pending [w] :: rest)
    (idle : m.state.watcher? w = some ⟨k, false, false, true⟩)
    (getter : m.getter w = .readTell reads change) :
    ∃ watchers : Array Watcher, watchers[w.index]? = some ⟨k + 1, false, false, true⟩ ∧
      step^[6] m =
        { m with
          state :=
            { heap := m.state.heap.track w (reads m.state.heap)
              watchers := watchers
              active := m.state.active
              host := change m.state.heap m.state.host }
          stack := rest } := by
  let running : Array Watcher :=
    m.state.watchers.modify w.index fun x => { x with runs := x.runs + 1, running := true }
  let entered : Machine σ :=
    { m with
      state := { m.state with watchers := running, active := some w }
      stack := .body (.readTell reads change) :: .leave w m.state.active 0 :: .pending [] :: rest }
  have henter : m.step = entered := by
    have hrunning : State.isRunning m.state w = false := by rw [State.isRunning, idle]; rfl
    rw [step, hm]
    show request { m with stack := .pending [] :: rest } w = _
    rw [request_eq, hrunning]
    simp only [Bool.false_eq_true, if_false, enter]
    rw [show Machine.getter { m with stack := .pending [] :: rest } w = _ from getter]
    rfl
  have hentered : entered.state.watcher? w = some ⟨k + 1, true, false, true⟩ := by
    show running[w.index]? = _
    rw [Array.getElem?_modify, if_pos rfl, show m.state.watchers[w.index]? = _ from idle]
    rfl
  have hrun := iterate_readTell (m := entered) rfl rfl hentered rfl
  refine ⟨running.modify w.index fun x => { x with running := false, dirty := false }, ?_, ?_⟩
  · rw [Array.getElem?_modify, if_pos rfl, show running[w.index]? = _ from hentered]
    rfl
  · show step (step^[4] (step m)) = _
    rw [henter, hrun]
    rfl

/-- A watcher of a getter that reads once and then tells the host is idle, and no other watcher is
subscribed to anything. -/
structure Only (m : Machine σ) (w : WatcherId) (reads : Heap → List Place) (change : Heap → σ → σ) :
    Prop where
  idle : ∃ n, m.state.watcher? w = some ⟨n, false, false, true⟩
  getter : m.getter w = .readTell reads change
  sole : m.state.heap.Sole w

end Write

end Machine

namespace Live

open Machine

variable {m : Machine σ} {w : WatcherId} {reads : Heap → List Place} {change : Heap → σ → σ}

theorem bind_ok {α β : Type} {x : Live σ α} {a : α} {m m' : Machine σ} (h : x m = .ok a m')
    (f : α → Live σ β) : (x >>= f) m = f a m' := by
  show EStateM.bind x f m = _
  rw [EStateM.bind, h]

theorem bind_error {α β : Type} {x : Live σ α} {e : Fault} {m m' : Machine σ} (h : x m = .error e m')
    (f : α → Live σ β) : (x >>= f) m = .error e m' := by
  show EStateM.bind x f m = _
  rw [EStateM.bind, h]

theorem bind_inv {α β : Type} {x : Live σ α} {f : α → Live σ β} {b : β} {m m' : Machine σ}
    (h : (x >>= f) m = .ok b m') : ∃ a m₁, x m = .ok a m₁ ∧ f a m₁ = .ok b m' := by
  cases hx : x m with
  | ok a m₁ => exact ⟨a, m₁, rfl, (bind_ok hx f).symm.trans h⟩
  | error e m₁ =>
    have he : (x >>= f) m = .error e m₁ := by
      show EStateM.bind x f m = _
      rw [EStateM.bind, hx]
    rw [he] at h
    cases h

theorem state_eq (m : Machine σ) : (state : Live σ (State σ)) m = .ok m.state m := rfl

/-- An operation that comes to rest without a fault. -/
theorem perform_of_iterate {p : Program σ} {m' : Machine σ} (k : Nat)
    (h : step^[k] { m with stack := [.body p], fault := none } = m') (rest : m'.stack = [])
    (fault : m'.fault = none) : perform p m = .ok () m' := by
  rw [perform, exec_eq_some_iff.2 ⟨k, h, rest⟩]
  simp only [fault]

/-- **How an operation ends.** It does not, and the machine is at work forever; or the machine comes to
rest, without a fault or with one that the caller is told. -/
theorem perform_cases (p : Program σ) (m : Machine σ) :
    (perform p m = .error .unfinished m ∧
        ∀ n, (step^[n] { m with stack := [.body p], fault := none }).stack ≠ []) ∨
      ∃ n m', step^[n] { m with stack := [.body p], fault := none } = m' ∧ m'.stack = [] ∧
        (m'.fault = none ∧ perform p m = .ok () m' ∨
          ∃ message, m'.fault = some message ∧
            perform p m = .error (.panicked message) { m' with fault := none }) := by
  cases hexec : exec { m with stack := [.body p], fault := none } with
  | none => exact .inl ⟨by rw [perform, hexec], exec_eq_none_iff.1 hexec⟩
  | some m' =>
    obtain ⟨n, hn, hrest⟩ := exec_eq_some_iff.1 hexec
    refine .inr ⟨n, m', hn, hrest, ?_⟩
    cases hfault : m'.fault with
    | none => exact .inl ⟨rfl, by rw [perform, hexec]; simp only [hfault]⟩
    | some message => exact .inr ⟨message, rfl, by rw [perform, hexec]; simp only [hfault]⟩

/-- An operation that comes to its end has run its program without a fault. -/
theorem perform_ok {p : Program σ} {m' : Machine σ} (h : perform p m = .ok () m') :
    (∃ n, step^[n] { m with stack := [.body p], fault := none } = m') ∧ m'.stack = [] ∧
      m'.fault = none := by
  obtain ⟨hcut, -⟩ | ⟨n, k, hn, hrest, ⟨hfault, hk⟩ | ⟨message, -, hk⟩⟩ := perform_cases p m
  · cases hcut.symm.trans h
  · obtain ⟨-, rfl⟩ := EStateM.Result.ok.inj (hk.symm.trans h)
    exact ⟨⟨n, hn⟩, hrest, hfault⟩
  · cases hk.symm.trans h

/-- An operation that gives up has run its program to a fault, and leaves none behind. -/
theorem perform_panicked {p : Program σ} {message : String} {m' : Machine σ}
    (h : perform p m = .error (.panicked message) m') :
    ∃ k, (∃ n, step^[n] { m with stack := [.body p], fault := none } = k) ∧ k.stack = [] ∧
      m' = { k with fault := none } := by
  obtain ⟨hcut, -⟩ | ⟨n, k, hn, hrest, ⟨-, hk⟩ | ⟨_, -, hk⟩⟩ := perform_cases p m
  · cases hcut.symm.trans h
  · cases hk.symm.trans h
  · obtain ⟨-, rfl⟩ := EStateM.Result.error.inj (hk.symm.trans h)
    exact ⟨k, ⟨n, hn⟩, hrest, rfl⟩

/-- **A watcher is made of a getter that reads once and then tells the host.** -/
theorem watch_readTell (paired : m.getters.size = m.state.watchers.size) :
    watch (.readTell reads change) m =
      .ok ⟨m.state.watchers.size⟩
        { state :=
            { heap := m.state.heap.track ⟨m.state.watchers.size⟩ (reads m.state.heap)
              watchers := m.state.watchers.push ⟨1, false, false, true⟩
              active := m.state.active
              host := change m.state.heap m.state.host }
          getters := m.getters.push (.readTell reads change)
          stack := []
          fault := none } := by
  obtain ⟨⟨heap, watchers, active, host⟩, getters, stack, fault⟩ := m
  let g := Program.readTell reads change
  let w : WatcherId := ⟨watchers.size⟩
  let entered : Machine σ :=
    ⟨⟨heap, watchers.push ⟨1, true, false, false⟩, some w, host⟩, getters.push g,
      [.body g, .leave w active 0, .adopt w fun _ => .done], none⟩
  let left : Machine σ :=
    ⟨⟨heap.track w (reads heap), watchers.push ⟨1, false, false, false⟩, active, change heap host⟩,
      getters.push g, [.adopt w fun _ => .done], none⟩
  let kept : Machine σ :=
    ⟨⟨heap.track w (reads heap), watchers.push ⟨1, false, false, true⟩, active, change heap host⟩,
      getters.push g, [], none⟩
  have henter : Machine.step
      ⟨⟨heap, watchers, active, host⟩, getters, [.body (.watch g fun _ => .done)], none⟩ = entered :=
    step_watch rfl paired
  have hrun : step^[4] entered = left := by
    refine (iterate_readTell (x := ⟨1, true, false, false⟩) rfl rfl ?_ rfl).trans ?_
    · simp [State.watcher?, entered, w]
    · simp only [entered, w, left, modify_size_push]
  have hkeep : step^[2] left = kept := by
    show Machine.step (Machine.step left) = kept
    rw [step_adopt (m := left) rfl, step_done rfl]
    simp only [left, w, kept, State.modifyWatcher, modify_size_push]
  have hperform : perform (.watch g fun _ => .done)
      ⟨⟨heap, watchers, active, host⟩, getters, stack, fault⟩ = .ok () kept := by
    refine perform_of_iterate 7 ?_ rfl rfl
    show step^[2] (step^[4] (Machine.step _)) = kept
    rw [henter, hrun, hkeep]
  unfold watch
  rw [bind_ok (state_eq _)]
  exact (bind_ok hperform _).trans rfl

/-- **A write that the watcher has subscribed to runs its getter once**; any other write runs nothing. -/
theorem write_readTell (only : m.Only w reads change) (o : ObjectId) (key : String) (v : Value) :
    ∃ m', write o key v m = .ok () m' ∧ m'.Only w reads change ∧ m'.stack = [] ∧
      (((∃ d, (m.state.heap.store o key v).2 = some d ∧ w ∈ m.state.heap.subscribers d) ∧
          m'.state.heap =
            (m.state.heap.store o key v).1.track w (reads (m.state.heap.store o key v).1) ∧
          m'.state.host = change (m.state.heap.store o key v).1 m.state.host) ∨
        ((∀ d, (m.state.heap.store o key v).2 = some d → w ∉ m.state.heap.subscribers d) ∧
          m'.state.heap = (m.state.heap.store o key v).1 ∧ m'.state.host = m.state.host)) := by
  obtain ⟨n, hidle⟩ := only.idle
  have hsole : (m.state.heap.store o key v).1.Sole w :=
    only.sole.of_eq (Heap.subscribers_store _ o key v)
  have hsubscribers := Heap.subscribers_store m.state.heap o key v
  generalize hs : m.state.heap.store o key v = r at hsole hsubscribers
  obtain ⟨h, dep⟩ := r
  dsimp only at hsole hsubscribers ⊢
  let asked : Machine σ := { m with stack := [.body (.write o key v .done)], fault := none }
  -- Without a run the write leaves the heap as the slot was written.
  let quiet : Machine σ := { m with state := { m.state with heap := h }, stack := [], fault := none }
  have hquiet : quiet.Only w reads change := ⟨⟨n, hidle⟩, only.getter, hsole⟩
  cases dep with
  | none =>
    refine ⟨quiet, perform_of_iterate 2 ?_ rfl rfl, hquiet, rfl,
      .inr ⟨fun _ hd => (by cases hd), rfl, rfl⟩⟩
    show step (step asked) = _
    rw [step_write_none (m := asked) rfl hs]
    rfl
  | some d =>
    have hkept : ∀ x ∈ h.subscribers d, asked.state.isKept x := by
      intro x hx
      obtain rfl : x = w := by
        rcases hsole d with hd | hd <;> rw [hd] at hx
        · cases hx
        · exact List.mem_singleton.1 hx
      rw [State.isKept, show asked.state.watcher? x = _ from hidle]
      rfl
    have hwrite := step_write_some (m := asked) rfl hs hkept
    rcases hsole d with hd | hd
    · refine ⟨quiet, perform_of_iterate 3 ?_ rfl rfl, hquiet, rfl,
        .inr ⟨fun e he => ?_, rfl, rfl⟩⟩
      · show step (step (step asked)) = _
        rw [hwrite, hd]
        rfl
      · obtain rfl := Option.some.inj he
        rw [← hsubscribers, hd]
        exact List.not_mem_nil
    · rw [hd] at hwrite
      obtain ⟨watchers, hwatchers, hrun⟩ := iterate_pending (m := asked.step)
        (by rw [hwrite]) (by rw [hwrite]; exact hidle) (by rw [hwrite]; exact only.getter)
      let told : Machine σ :=
        { m with
          state := ⟨h.track w (reads h), watchers, m.state.active, change h m.state.host⟩
          stack := []
          fault := none }
      have htold : step^[8] asked = told := by
        show step (step^[6] (step asked)) = _
        rw [hrun, hwrite]
        rfl
      refine ⟨told, perform_of_iterate 8 htold rfl rfl,
        ⟨⟨n + 1, hwatchers⟩, only.getter, hsole.track _⟩, rfl, .inl ⟨⟨d, rfl, ?_⟩, rfl, rfl⟩⟩
      rw [← hsubscribers, hd]
      exact List.mem_cons_self

end Live

end LiveMarkup

import LiveMarkup.Reactive.Live

/-!
# Watchers on the machine

Who is alive, who is still to be run and who is to run again, after each part of a step.

* `Machine.Queued`: a notification under way has still to run the watcher.
* `Machine.Marked`: the watcher is running, and a further run was asked for.
* `Machine.withWatcher`: a watcher is made, and is still to be run for the first time.
* `State.watcher?_modifyWatcher`, `Machine.alive_iff`, …: what the parts of a step do to these.
-/

namespace LiveMarkup

variable {σ : Type}

namespace State

variable {s : State σ} {w x : WatcherId}

theorem watcher?_modifyWatcher (s : State σ) (w x : WatcherId) (f : Watcher → Watcher) :
    (s.modifyWatcher w f).watcher? x = if x = w then (s.watcher? x).map f else s.watcher? x := by
  obtain ⟨i⟩ := w
  obtain ⟨j⟩ := x
  simp only [watcher?, modifyWatcher, Array.getElem?_modify, WatcherId.mk.injEq, eq_comm (a := i)]

theorem watcher?_modifyWatcher_of_ne (f : Watcher → Watcher) (h : x ≠ w) :
    (s.modifyWatcher w f).watcher? x = s.watcher? x := by
  rw [watcher?_modifyWatcher, if_neg h]

theorem isRunning_modifyWatcher_of_ne (f : Watcher → Watcher) (h : x ≠ w) :
    (s.modifyWatcher w f).isRunning x = s.isRunning x := by
  rw [isRunning, watcher?_modifyWatcher_of_ne f h, isRunning]

theorem isKept_modifyWatcher_of_ne (f : Watcher → Watcher) (h : x ≠ w) :
    (s.modifyWatcher w f).isKept x = s.isKept x := by
  rw [isKept, watcher?_modifyWatcher_of_ne f h, isKept]

/-- A change that leaves a flag of all watchers as it was. -/
theorem any_modifyWatcher (f : Watcher → Watcher) (flag : Watcher → Bool)
    (h : ∀ y, flag (f y) = flag y) (s : State σ) (w x : WatcherId) :
    ((s.modifyWatcher w f).watcher? x).any flag = (s.watcher? x).any flag := by
  rw [watcher?_modifyWatcher]
  split
  · cases s.watcher? x <;> simp [h]
  · rfl

/-- A new watcher comes after all others. -/
theorem watcher?_push {s s' : State σ} {y : Watcher} (hs : s'.watchers = s.watchers.push y)
    (w : WatcherId) : s'.watcher? w = if w = ⟨s.watchers.size⟩ then some y else s.watcher? w := by
  obtain ⟨i⟩ := w
  simp only [watcher?, hs, Array.getElem?_push, WatcherId.mk.injEq]

theorem watcher?_size (s : State σ) : s.watcher? ⟨s.watchers.size⟩ = none :=
  Array.getElem?_eq_none (Nat.le_refl _)

/-- A watcher that was just made is not running, and nothing else has changed. -/
theorem isRunning_push {s s' : State σ} {y : Watcher} (hs : s'.watchers = s.watchers.push y)
    (hy : y.running = false) (w : WatcherId) : s'.isRunning w = s.isRunning w := by
  rw [isRunning, isRunning, watcher?_push hs]
  split
  · next hw =>
    rw [hw, watcher?_size]
    exact hy
  · rfl

end State

/-- The watchers that a notification has still to run. -/
def Frame.queue : Frame σ → List WatcherId
  | pending ws => ws
  | _ => []

def Frame.isBody : Frame σ → Bool
  | body _ => true
  | _ => false

namespace Machine

variable {m m' : Machine σ} {w x : WatcherId}

/-- A notification under way has still to run the watcher. -/
def Queued (m : Machine σ) (w : WatcherId) : Prop := ∃ f ∈ m.stack, w ∈ f.queue

/-- The watcher is running, and a further run was asked for. -/
def Marked (m : Machine σ) (w : WatcherId) : Prop :=
  ∃ x, m.state.watcher? w = some x ∧ x.running ∧ x.dirty

/-- A run of the watcher is under way. -/
def Entered (m : Machine σ) (w : WatcherId) : Prop :=
  ∃ previous reruns, Frame.leave w previous reruns ∈ m.stack

theorem alive_iff : m.sight.alive w ↔ m.state.isKept w ∨ ∃ f ∈ m.stack, w ∈ f.held := by
  simp [sight, Sight.alive, List.mem_flatMap]

theorem mem_subscribers_iff {d : DepId} :
    w ∈ m.sight.subscribers d ↔ w ∈ m.state.heap.subscribers d ∧ m.sight.alive w := by
  rw [Sight.subscribers, List.mem_filter]
  rfl

/-! ## Entering a getter -/

section Enter

variable {n : Nat}

theorem stack_enter (m : Machine σ) (w : WatcherId) (n : Nat) :
    (m.enter w n).stack = .body (m.getter w) :: .leave w m.state.active n :: m.stack := rfl

theorem isKept_enter (m : Machine σ) (w x : WatcherId) (n : Nat) :
    (m.enter w n).state.isKept x = m.state.isKept x :=
  State.any_modifyWatcher (fun y => { y with runs := y.runs + 1, running := true }) Watcher.kept
    (fun _ => rfl) m.state w x

theorem alive_enter (h : x ≠ w) : (m.enter w n).sight.alive x ↔ m.sight.alive x := by
  rw [alive_iff, alive_iff, isKept_enter, stack_enter]
  simp [Frame.held, h]

theorem queued_enter : (m.enter w n).Queued x ↔ m.Queued x := by
  rw [Queued, stack_enter]
  simp [Frame.queue, Queued]

theorem marked_enter (h : x ≠ w) : (m.enter w n).Marked x ↔ m.Marked x := by
  rw [Marked, show (m.enter w n).state.watcher? x = m.state.watcher? x from
    State.watcher?_modifyWatcher_of_ne _ h, Marked]

theorem isRunning_enter (h : x ≠ w) : (m.enter w n).state.isRunning x = m.state.isRunning x :=
  State.isRunning_modifyWatcher_of_ne _ h

theorem entered_enter_self : (m.enter w n).Entered w :=
  ⟨m.state.active, n, by rw [stack_enter]; simp⟩

theorem entered_of_enter (h : x ≠ w) (he : (m.enter w n).Entered x) : m.Entered x := by
  obtain ⟨previous, reruns, hf⟩ := he
  rw [stack_enter] at hf
  rcases List.mem_cons.1 hf with he | hf
  · cases he
  · rcases List.mem_cons.1 hf with he | hf
    · cases he
      exact absurd rfl h
    · exact ⟨previous, reruns, hf⟩

theorem Entered.enter (h : m.Entered x) : (m.enter w n).Entered x := by
  obtain ⟨previous, reruns, hf⟩ := h
  exact ⟨previous, reruns, by rw [stack_enter]; simp [hf]⟩

end Enter

/-! ## Marking a running watcher -/

/-- The machine with a further run of a running watcher recorded. -/
def mark (m : Machine σ) (w : WatcherId) : Machine σ :=
  { m with state := m.state.modifyWatcher w fun x => { x with dirty := true } }

theorem request_eq (m : Machine σ) (w : WatcherId) :
    m.request w = if m.state.isRunning w then m.mark w else m.enter w 0 := rfl

theorem heap_request (m : Machine σ) (w : WatcherId) :
    (m.request w).state.heap = m.state.heap := by
  rw [request_eq]
  split <;> rfl

theorem marked_mark_self (h : m.state.isRunning w) : (m.mark w).Marked w := by
  unfold State.isRunning at h
  cases hx : m.state.watcher? w with
  | none => simp [hx] at h
  | some x =>
    rw [hx] at h
    refine ⟨{ x with dirty := true }, ?_, h, rfl⟩
    rw [mark, State.watcher?_modifyWatcher, if_pos rfl, hx]
    rfl

theorem marked_mark_of_ne (h : x ≠ w) : (m.mark w).Marked x ↔ m.Marked x := by
  rw [Marked, show (m.mark w).state.watcher? x = m.state.watcher? x from
    State.watcher?_modifyWatcher_of_ne _ h, Marked]

theorem isRunning_mark (m : Machine σ) (w x : WatcherId) :
    (m.mark w).state.isRunning x = m.state.isRunning x :=
  State.any_modifyWatcher (fun y => { y with dirty := true }) Watcher.running (fun _ => rfl)
    m.state w x

theorem isKept_mark (m : Machine σ) (w x : WatcherId) :
    (m.mark w).state.isKept x = m.state.isKept x :=
  State.any_modifyWatcher (fun y => { y with dirty := true }) Watcher.kept (fun _ => rfl)
    m.state w x

theorem alive_mark : (m.mark w).sight.alive x ↔ m.sight.alive x := by
  rw [alive_iff, alive_iff, isKept_mark]
  rfl

/-! ## Making a watcher -/

section Make

variable {getter : Program σ} {next : WatcherId → Program σ}

/-- The machine with one watcher more, whose first run is still to be asked for. -/
def withWatcher (m : Machine σ) (getter : Program σ) (next : WatcherId → Program σ) : Machine σ :=
  { m with
    state := { m.state with watchers := m.state.watchers.push ⟨0, false, false, false⟩ }
    getters := m.getters.push getter
    stack := .adopt ⟨m.state.watchers.size⟩ next :: m.stack }

theorem watch_eq (m : Machine σ) (getter : Program σ) (next : WatcherId → Program σ) :
    m.watch getter next = (m.withWatcher getter next).request ⟨m.state.watchers.size⟩ := rfl

theorem isRunning_withWatcher (x : WatcherId) :
    (m.withWatcher getter next).state.isRunning x = m.state.isRunning x :=
  State.isRunning_push (y := ⟨0, false, false, false⟩) rfl rfl x

/-- The new watcher is entered. -/
theorem watch_eq_enter (m : Machine σ) (getter : Program σ) (next : WatcherId → Program σ) :
    m.watch getter next = (m.withWatcher getter next).enter ⟨m.state.watchers.size⟩ 0 := by
  rw [watch_eq, request_eq, isRunning_withWatcher, State.isRunning, State.watcher?_size]
  rfl

/-- What holds of the getter of a new watcher and of all others. -/
theorem forall_getter_withWatcher {P : Program σ → Prop} (hgetter : P getter)
    (h : ∀ w, P (m.getter w)) (w : WatcherId) : P ((m.withWatcher getter next).getter w) := by
  show P ((m.getters.push getter)[w.index]?.getD .done)
  rw [Array.getElem?_push]
  split
  · exact hgetter
  · exact h w

end Make

/-! ## The stack -/

theorem alive_push (f : Frame σ) : (m.push f).sight.alive x ↔ m.sight.alive x ∨ x ∈ f.held := by
  rw [alive_iff, alive_iff, show (m.push f).stack = f :: m.stack from rfl,
    show (m.push f).state = m.state from rfl]
  simp only [List.mem_cons, exists_eq_or_imp]
  constructor
  · rintro (h | h | h)
    · exact .inl (.inl h)
    · exact .inr h
    · exact .inl (.inr h)
  · rintro ((h | h) | h)
    · exact .inl h
    · exact .inr (.inr h)
    · exact .inr (.inl h)

theorem queued_push (f : Frame σ) : (m.push f).Queued x ↔ x ∈ f.queue ∨ m.Queued x := by
  rw [Queued, show (m.push f).stack = f :: m.stack from rfl]
  simp [Queued]

theorem Entered.push (h : m.Entered x) (f : Frame σ) : (m.push f).Entered x := by
  obtain ⟨previous, reruns, hf⟩ := h
  exact ⟨previous, reruns, List.mem_cons_of_mem _ hf⟩

section Cons

variable {f : Frame σ} {rest : List (Frame σ)}

/-- What the frames below the topmost one hold, or that one, was held before. -/
theorem alive_of_cons (hm : m.stack = f :: rest) (kept : m'.state.isKept x → m.state.isKept x)
    (held : ∀ g ∈ m'.stack, x ∈ g.held → g ∈ rest ∨ x ∈ f.held) (h : m'.sight.alive x) :
    m.sight.alive x := by
  rw [alive_iff] at h ⊢
  refine h.imp kept ?_
  rintro ⟨g, hg, hx⟩
  rcases held g hg hx with hr | hf
  · exact ⟨g, by rw [hm]; exact List.mem_cons_of_mem _ hr, hx⟩
  · exact ⟨f, by rw [hm]; exact List.mem_cons_self, hf⟩

theorem Queued.of_cons (h : m.Queued x) (hm : m.stack = f :: rest) (hf : x ∉ f.queue)
    (kept : ∀ g ∈ rest, g ∈ m'.stack) : m'.Queued x := by
  obtain ⟨g, hg, hx⟩ := h
  rw [hm] at hg
  rcases List.mem_cons.1 hg with rfl | hg
  · exact absurd hx hf
  · exact ⟨g, kept g hg, hx⟩

theorem Entered.of_cons (h : m.Entered x) (hm : m.stack = f :: rest)
    (hf : ∀ previous n, f ≠ .leave x previous n) (kept : ∀ g ∈ rest, g ∈ m'.stack) :
    m'.Entered x := by
  obtain ⟨previous, n, hg⟩ := h
  rw [hm] at hg
  rcases List.mem_cons.1 hg with he | hg
  · exact absurd he.symm (hf previous n)
  · exact ⟨previous, n, kept _ hg⟩

/-- A frame on top is exchanged for another, neither of which is a run of the watcher. -/
theorem entered_iff_of_cons (g : Frame σ) (hm : m.stack = f :: rest)
    (hf : ∀ previous n, f ≠ .leave x previous n) (hg : ∀ previous n, g ≠ .leave x previous n)
    (hm' : m'.stack = g :: rest) : m'.Entered x ↔ m.Entered x :=
  ⟨fun h => h.of_cons hm' hg fun _ hr => by rw [hm]; exact List.mem_cons_of_mem _ hr,
    fun h => h.of_cons hm hf fun _ hr => by rw [hm']; exact List.mem_cons_of_mem _ hr⟩

end Cons

/-! ## The work under way -/

/-- The frames of runs and notifications, innermost first. -/
def work (m : Machine σ) : List (Frame σ) := m.stack.filter fun f => !f.isBody

theorem mem_work_iff {f : Frame σ} : f ∈ m.work ↔ f ∈ m.stack ∧ f.isBody = false := by
  simp [work, List.mem_filter]

theorem alive_iff_work : m.sight.alive w ↔ m.state.isKept w ∨ ∃ f ∈ m.work, w ∈ f.held := by
  rw [alive_iff]
  refine or_congr_right ⟨?_, ?_⟩
  · rintro ⟨f, hf, hw⟩
    exact ⟨f, mem_work_iff.2 ⟨hf, by cases f <;> simp_all [Frame.held, Frame.isBody]⟩, hw⟩
  · rintro ⟨f, hf, hw⟩
    exact ⟨f, (mem_work_iff.1 hf).1, hw⟩

theorem queued_iff_work : m.Queued w ↔ ∃ f ∈ m.work, w ∈ f.queue := by
  constructor
  · rintro ⟨f, hf, hw⟩
    exact ⟨f, mem_work_iff.2 ⟨hf, by cases f <;> simp_all [Frame.queue, Frame.isBody]⟩, hw⟩
  · rintro ⟨f, hf, hw⟩
    exact ⟨f, (mem_work_iff.1 hf).1, hw⟩

theorem entered_iff_work :
    m.Entered w ↔ ∃ previous reruns, Frame.leave w previous reruns ∈ m.work := by
  simp [Entered, mem_work_iff, Frame.isBody]

/-- The same watchers are under the same work. -/
structure Continues (m m' : Machine σ) : Prop where
  watchers : m'.state.watchers = m.state.watchers
  work : m'.work = m.work

namespace Continues

theorem watcher? (h : m.Continues m') (x : WatcherId) :
    m'.state.watcher? x = m.state.watcher? x := by
  rw [State.watcher?, State.watcher?, h.watchers]

theorem alive_iff (h : m.Continues m') : m'.sight.alive x ↔ m.sight.alive x := by
  rw [alive_iff_work, alive_iff_work, h.work, State.isKept, State.isKept, h.watcher?]

theorem queued_iff (h : m.Continues m') : m'.Queued x ↔ m.Queued x := by
  rw [queued_iff_work, queued_iff_work, h.work]

theorem marked_iff (h : m.Continues m') : m'.Marked x ↔ m.Marked x := by
  rw [Marked, Marked, h.watcher?]

theorem isRunning (h : m.Continues m') : m'.state.isRunning x = m.state.isRunning x := by
  rw [State.isRunning, State.isRunning, h.watcher?]

theorem entered_iff (h : m.Continues m') : m'.Entered x ↔ m.Entered x := by
  rw [entered_iff_work, entered_iff_work, h.work]

/-- A body is taken from the stack and another one may be put there. -/
theorem of_body {p : Program σ} {rest : List (Frame σ)} (hm : m.stack = .body p :: rest)
    (watchers : m'.state.watchers = m.state.watchers)
    (stack : m'.stack = rest ∨ ∃ q, m'.stack = .body q :: rest) : m.Continues m' := by
  refine ⟨watchers, ?_⟩
  rcases stack with h | ⟨q, h⟩ <;> simp [Machine.work, hm, h, Frame.isBody]

end Continues

end Machine

end LiveMarkup

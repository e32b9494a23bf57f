import LiveMarkup.Proofs.Reactive.Discipline

/-!
# Subscribers are watchers

A dep is subscribed to only by watchers that were made, as long as nobody subscribes others by hand.

* `Heap.Registered`, `Machine.Registered`: all subscribers were made.
* **`Machine.Registered.step`**: they stay so.
-/

namespace LiveMarkup

namespace Heap

variable {h h' : Heap} {w : WatcherId} {n k : Nat}

/-! ## All subscribers were made -/

/-- All subscribers are among the first so many watchers. -/
def Registered (h : Heap) (n : Nat) : Prop := ∀ d, ∀ w ∈ h.subscribers d, w.index < n

namespace Registered

theorem mono (hr : h.Registered n) (hle : n ≤ k) : h.Registered k :=
  fun d w hw => Nat.lt_of_lt_of_le (hr d w hw) hle

theorem of_eq (hr : h.Registered n) (he : ∀ d, h'.subscribers d = h.subscribers d) : h'.Registered n :=
  fun d w hw => hr d w (he d ▸ hw)

theorem subscribe (hr : h.Registered n) (d : DepId) (hw : w.index < n) :
    (h.subscribe d w).Registered n := by
  intro e x hx
  rw [subscribers_subscribe] at hx
  split at hx
  · rcases List.mem_append.1 hx with hx | hx
    · exact hr e x hx
    · rwa [List.mem_singleton.1 hx]
  · exact hr e x hx

theorem track (hr : h.Registered n) (hw : w.index < n) (ps : List Place) :
    (h.track w ps).Registered n := by
  intro d x hx
  rw [subscribers_track] at hx
  split at hx
  · rcases List.mem_append.1 hx with hx | hx
    · exact hr d x hx
    · rwa [List.mem_singleton.1 hx]
  · exact hr d x hx

theorem edit (hr : h.Registered n) {change : Edit}
    (hsubscribe : ∀ d w, change = .subscribe d w → w.index < n) : (h.edit change).Registered n := by
  cases change with
  | push a v => exact hr
  | setItem a i v => exact hr
  | observe v => exact hr.of_eq (Instruments.observe h v).subscribers
  | newDep => exact hr.of_eq (subscribers_newDep h)
  | subscribe d w => exact hr.subscribe d (hsubscribe d w rfl)

theorem setSubscribers (hr : h.Registered n) (d : DepId) {ws : List WatcherId}
    (hws : ∀ w ∈ ws, w ∈ h.subscribers d) : (h.setSubscribers d ws).Registered n := by
  intro e x hx
  rw [subscribers_setSubscribers] at hx
  split at hx
  · exact hr d x (hws x hx)
  · exact hr e x hx

end Registered

end Heap

namespace Machine

variable {σ : Type} {m : Machine σ}

def Registered (m : Machine σ) : Prop := m.state.heap.Registered m.state.watchers.size

/-- A notification forgets the dead. -/
theorem Registered.notify (hr : m.Registered) (d : DepId) : (m.notify d).Registered :=
  hr.setSubscribers d fun _ hw => (mem_subscribers_iff.1 hw).1

/-- The watcher that is active where something is read was made. -/
theorem Disciplined.active_made {reads : Heap → List Place} {next : Heap → Program σ} {w : WatcherId}
    (hd : m.Disciplined) (top : m.next? = some (.read reads next)) (active : m.state.active = some w) :
    w.index < m.state.watchers.size := by
  cases hd with
  | steady h =>
    refine h.made (List.mem_of_mem_head? ?_)
    rw [← h.chained.eq_head, active]
    exact rfl
  | vain x previous n rest none active stack below =>
    unfold next? at top
    rcases stack with stack | stack <;> rw [stack] at top <;> cases top

/-- No watcher is ever unmade. -/
theorem size_step (paired : m.getters.size = m.state.watchers.size) :
    m.state.watchers.size ≤ m.step.state.watchers.size := by
  refine Nat.le_of_not_lt fun hlt => ?_
  have hmade := (getter_step (w := ⟨m.step.state.watchers.size⟩) (paired ▸ hlt)).1
  rw [paired_step paired] at hmade
  exact Nat.lt_irrefl _ hmade

/-- A request of a program subscribes nobody but the active watcher. -/
theorem Registered.perform {rest : List (Frame σ)} {p : Program σ} (hr : m.Registered)
    (hactive : ∀ reads next w, p = .read reads next → m.state.active = some w →
      w.index < m.state.watchers.size)
    (hsubscribe : ∀ d w next, p = .edit (.subscribe d w) next → w.index < m.state.watchers.size) :
    ({ m with stack := rest }.perform p).state.heap.Registered m.state.watchers.size := by
  cases p with
  | panic message => rwa [Machine.perform, heap_unwind]
  | read reads next =>
    rw [Machine.perform]
    cases ha : m.state.active with
    | some w => exact hr.track (hactive reads next w rfl ha) _
    | none => exact hr
  | make draft next => exact hr.of_eq (Heap.grows_build m.state.heap draft).subscribers_eq
  | edit change next => exact hr.edit fun d w he => hsubscribe d w next (by rw [he])
  | write o key v next =>
    have hstored := hr.of_eq (Heap.subscribers_store m.state.heap o key v)
    rw [Machine.perform]
    cases hs : m.state.heap.store o key v with
    | mk heap d =>
      rw [hs] at hstored
      cases d with
      | some d =>
        have hpushed : Registered (({ m with stack := rest }.withHeap heap).push (.body next)) := hstored
        exact hpushed.notify d
      | none => exact hstored
  | notify d next =>
    have hpushed : Registered ({ m with stack := rest }.push (.body next)) := hr
    exact hpushed.notify d
  | run w next =>
    rw [Machine.perform, heap_request]
    exact hr
  | watch getter next =>
    rw [Machine.perform, Machine.watch, heap_request]
    exact hr
  | done | look next | tell change next | release w next => exact hr

/-- **Subscribers are watchers that were made**, as long as nobody else is subscribed by hand. -/
theorem Registered.step (hr : m.Registered) (hd : m.Disciplined)
    (paired : m.getters.size = m.state.watchers.size)
    (hsubscribe : ∀ d w next, m.next? = some (.edit (.subscribe d w) next) →
      w.index < m.state.watchers.size) : m.step.Registered := by
  refine Heap.Registered.mono ?_ (size_step paired)
  cases hm : m.stack with
  | nil => rwa [step_of_rest hm]
  | cons f rest =>
    rw [Machine.step, hm]
    cases f with
    | body p =>
      have htop := next?_of_stack hm
      refine hr.perform (fun reads next w he ha => ?_) fun d w next he => ?_
      · exact hd.active_made (he ▸ htop) ha
      · exact hsubscribe d w next (he ▸ htop)
    | leave w previous n =>
      rw [heap_leave]
      exact hr
    | pending ws =>
      cases ws with
      | nil => exact hr
      | cons w ws =>
        rw [heap_request]
        exact hr
    | adopt w next => exact hr

end Machine

end LiveMarkup

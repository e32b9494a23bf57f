import Mathlib.Data.List.Forall2
import LiveMarkup.Proofs.Data.Padded
import LiveMarkup.Proofs.Reactive.Registered
import LiveMarkup.Reactive.Live

/-!
# A dead watcher goes unnoticed

Two machines of which one has a further watcher that nothing keeps and nothing runs. Programs that treat
watchers alike, by whatever numbers these go, do the same on both, step by step.

* `Program.Padded`: two programs that do the same, where one finds a further watcher.
* `Machine.Padded`: two machines of which one has a further watcher, which is dead.
* `Sight.Padded.subscribers`: the live subscribers are the same.
* **`Machine.Padded.step`**, **`Machine.Padded.exec`**: the machines stay so.
* `Live.Agrees`, **`Live.agrees_perform`**: operations come to the same.
-/

namespace LiveMarkup

open WatcherId (skip)

variable {σ : Type}

/-- Two states of which the second has one more watcher, which is not kept. The hosts correspond. -/
structure State.Padded (n : Nat) (R : σ → σ → Prop) (s s' : State σ) : Prop where
  heap : s.heap.Padded n s'.heap
  size : s'.watchers.size = s.watchers.size + 1
  le : n ≤ s.watchers.size
  watcher? : ∀ w, s'.watcher? (w.skip n) = s.watcher? w
  dead : s'.isKept ⟨n⟩ = false
  active : s'.active = s.active.map (skip n)
  host : R s.host s'.host

/-- What two programs look at, where the second finds one more watcher. -/
structure Sight.Padded (n : Nat) (R : σ → σ → Prop) (s s' : Sight σ) : Prop where
  state : s.state.Padded n R s'.state
  held : s'.held = s.held.map (skip n)

/-- Two programs that do the same on machines of which the second has one more watcher. What they do depends
neither on that watcher nor on the numbers that the others go by. -/
inductive Program.Padded (n : Nat) (R : σ → σ → Prop) : Program σ → Program σ → Prop where
  | done : Padded n R .done .done
  | panic (message : String) : Padded n R (.panic message) (.panic message)
  | look {next next' : Sight σ → Program σ}
      (same : ∀ s s' : Sight σ, s.Padded n R s' → Padded n R (next s) (next' s')) :
      Padded n R (.look next) (.look next')
  | read {reads reads' : Heap → List Place} {next next' : Heap → Program σ}
      (reads_eq : ∀ h h' : Heap, h.Padded n h' → reads' h' = reads h)
      (same : ∀ h h' : Heap, h.Padded n h' → Padded n R (next h) (next' h')) :
      Padded n R (.read reads next) (.read reads' next')
  | make (draft : Draft) {next next' : Value → Program σ} (same : ∀ v, Padded n R (next v) (next' v)) :
      Padded n R (.make draft next) (.make draft next')
  | edit (change : Heap.Edit) {next next' : Program σ} (same : Padded n R next next') :
      Padded n R (.edit change next) (.edit (change.skip n) next')
  | tell {change change' : σ → σ} {next next' : Program σ}
      (agree : ∀ s s', R s s' → R (change s) (change' s')) (same : Padded n R next next') :
      Padded n R (.tell change next) (.tell change' next')
  | write (o : ObjectId) (key : String) (v : Value) {next next' : Program σ}
      (same : Padded n R next next') : Padded n R (.write o key v next) (.write o key v next')
  | notify (d : DepId) {next next' : Program σ} (same : Padded n R next next') :
      Padded n R (.notify d next) (.notify d next')
  | run (w : WatcherId) {next next' : Program σ} (same : Padded n R next next') :
      Padded n R (.run w next) (.run (w.skip n) next')
  | watch {getter getter' : Program σ} {next next' : WatcherId → Program σ}
      (getters : Padded n R getter getter') (same : ∀ w, Padded n R (next w) (next' (w.skip n))) :
      Padded n R (.watch getter next) (.watch getter' next')
  | release (w : WatcherId) {next next' : Program σ} (same : Padded n R next next') :
      Padded n R (.release w next) (.release (w.skip n) next')

/-- Two frames that are about the same. -/
inductive Frame.Padded (n : Nat) (R : σ → σ → Prop) : Frame σ → Frame σ → Prop where
  | body {p p' : Program σ} (same : p.Padded n R p') : Padded n R (.body p) (.body p')
  | leave (w : WatcherId) (previous : Option WatcherId) (reruns : Nat) :
      Padded n R (.leave w previous reruns) (.leave (w.skip n) (previous.map (skip n)) reruns)
  | pending (ws : List WatcherId) : Padded n R (.pending ws) (.pending (ws.map (skip n)))
  | adopt (w : WatcherId) {next next' : WatcherId → Program σ}
      (same : ∀ x, (next x).Padded n R (next' (x.skip n))) :
      Padded n R (.adopt w next) (.adopt (w.skip n) next')

/-- Two machines of which the second has one more watcher, which is dead. -/
structure Machine.Padded (n : Nat) (R : σ → σ → Prop) (m k : Machine σ) : Prop where
  state : m.state.Padded n R k.state
  paired : m.getters.size = m.state.watchers.size
  paired' : k.getters.size = k.state.watchers.size
  getter : ∀ w, (m.getter w).Padded n R (k.getter (w.skip n))
  stack : List.Forall₂ (Frame.Padded n R) m.stack k.stack
  fault : k.fault = m.fault

variable {n : Nat} {R : σ → σ → Prop} {s s' : State σ} {m k : Machine σ} {w : WatcherId}

namespace State.Padded

theorem isRunning (p : s.Padded n R s') (w : WatcherId) : s'.isRunning (w.skip n) = s.isRunning w := by
  rw [State.isRunning, State.isRunning, p.watcher?]

theorem isKept (p : s.Padded n R s') (w : WatcherId) : s'.isKept (w.skip n) = s.isKept w := by
  rw [State.isKept, State.isKept, p.watcher?]

theorem withHeap (p : s.Padded n R s') {h h' : Heap} (heap : h.Padded n h') :
    State.Padded n R { s with heap := h } { s' with heap := h' } :=
  ⟨heap, p.size, p.le, p.watcher?, p.dead, p.active, p.host⟩

theorem withActive (p : s.Padded n R s') (active : Option WatcherId) :
    State.Padded n R { s with active := active } { s' with active := active.map (skip n) } :=
  ⟨p.heap, p.size, p.le, p.watcher?, p.dead, rfl, p.host⟩

theorem withHost (p : s.Padded n R s') {host host' : σ} (related : R host host') :
    State.Padded n R { s with host := host } { s' with host := host' } :=
  ⟨p.heap, p.size, p.le, p.watcher?, p.dead, p.active, related⟩

theorem modifyWatcher (p : s.Padded n R s') (w : WatcherId) (f : Watcher → Watcher) :
    (s.modifyWatcher w f).Padded n R (s'.modifyWatcher (w.skip n) f) where
  heap := p.heap
  size := by
    rw [State.modifyWatcher, State.modifyWatcher, Array.size_modify, Array.size_modify, p.size]
  le := by rw [State.modifyWatcher, Array.size_modify]; exact p.le
  watcher? x := by
    simp only [watcher?_modifyWatcher, p.watcher?, WatcherId.skip_inj]
  dead := (isKept_modifyWatcher_of_ne f (WatcherId.skip_ne n w).symm).trans p.dead
  active := p.active
  host := p.host

theorem push (p : s.Padded n R s') (y : Watcher) :
    State.Padded n R { s with watchers := s.watchers.push y }
      { s' with watchers := s'.watchers.push y } where
  heap := p.heap
  size := by rw [Array.size_push, Array.size_push, p.size]
  le := by rw [Array.size_push]; exact Nat.le_succ_of_le p.le
  watcher? w := by
    have hw : (w.skip n).index = s'.watchers.size ↔ w.index = s.watchers.size := by
      rw [p.size, ← WatcherId.skip_index_iff p.le]
    have hold := p.watcher? w
    simp only [State.watcher?, Array.getElem?_push, hw] at hold ⊢
    rw [hold]
  dead := by
    have hn : n ≠ s'.watchers.size := by have := p.size; have := p.le; omega
    have hdead := p.dead
    rw [State.isKept, State.watcher?] at hdead ⊢
    rwa [Array.getElem?_push, if_neg hn]
  active := p.active
  host := p.host

end State.Padded

namespace Sight.Padded

variable {t t' : Sight σ}

theorem alive (p : t.Padded n R t') (w : WatcherId) : t'.alive (w.skip n) = t.alive w := by
  rw [Sight.alive, Sight.alive, p.state.isKept, p.held, Bool.eq_iff_iff]
  simp only [Bool.or_eq_true, List.contains_iff_mem, List.mem_map, WatcherId.skip_inj, exists_eq_right]

theorem dead (p : t.Padded n R t') : t'.alive ⟨n⟩ = false := by
  rw [Sight.alive, p.state.dead, p.held, Bool.false_or, ← Bool.not_eq_true, List.contains_iff_mem]
  intro hmem
  obtain ⟨w, -, hw⟩ := List.mem_map.1 hmem
  exact WatcherId.skip_ne n w hw

/-- **The live subscribers are the same.** -/
theorem subscribers (p : t.Padded n R t') (d : DepId) :
    t'.subscribers d = (t.subscribers d).map (skip n) := by
  have hlive : ∀ x, t'.alive x = (t'.alive x && decide (x ≠ ⟨n⟩)) := by
    intro x
    by_cases hx : x = ⟨n⟩
    · rw [hx, p.dead, Bool.false_and]
    · rw [decide_eq_true hx, Bool.and_true]
  calc t'.subscribers d = ((t'.state.heap.subscribers d).filter (· ≠ ⟨n⟩)).filter t'.alive := by
        rw [Sight.subscribers, List.filter_filter]
        exact List.filter_congr fun x _ => hlive x
    _ = ((t.state.heap.subscribers d).map (skip n)).filter t'.alive := by
        rw [p.state.heap.subscribers]
    _ = (t.subscribers d).map (skip n) := by
        rw [List.filter_map, Sight.subscribers]
        exact congrArg (List.map (skip n)) (List.filter_congr fun x _ => p.alive x)

end Sight.Padded

namespace Machine.Padded

theorem sight (p : m.Padded n R k) : m.sight.Padded n R k.sight := by
  refine ⟨p.state, ?_⟩
  have hheld : ∀ {fs fs' : List (Frame σ)}, List.Forall₂ (Frame.Padded n R) fs fs' →
      fs'.flatMap Frame.held = (fs.flatMap Frame.held).map (skip n) := by
    intro fs fs' h
    induction h with
    | nil => rfl
    | cons hf _ ih =>
      rw [List.flatMap_cons, List.flatMap_cons, List.map_append, ih]
      cases hf <;> rfl
  exact hheld p.stack

theorem withState (p : m.Padded n R k) {s s' : State σ} (state : s.Padded n R s')
    (size : s.watchers.size = m.state.watchers.size) (size' : s'.watchers.size = k.state.watchers.size) :
    Machine.Padded n R { m with state := s } { k with state := s' } :=
  ⟨state, p.paired.trans size.symm, p.paired'.trans size'.symm, p.getter, p.stack, p.fault⟩

theorem withStack (p : m.Padded n R k) {fs fs' : List (Frame σ)}
    (stack : List.Forall₂ (Frame.Padded n R) fs fs') :
    Machine.Padded n R { m with stack := fs } { k with stack := fs' } :=
  ⟨p.state, p.paired, p.paired', p.getter, stack, p.fault⟩

theorem push (p : m.Padded n R k) {f f' : Frame σ} (same : f.Padded n R f') :
    (m.push f).Padded n R (k.push f') := p.withStack (.cons same p.stack)

theorem withHeap (p : m.Padded n R k) {h h' : Heap} (heap : h.Padded n h') :
    (m.withHeap h).Padded n R (k.withHeap h') := p.withState (p.state.withHeap heap) rfl rfl

theorem modifyWatcher (p : m.Padded n R k) (w : WatcherId) (f : Watcher → Watcher) :
    Machine.Padded n R { m with state := m.state.modifyWatcher w f }
      { k with state := k.state.modifyWatcher (w.skip n) f } :=
  p.withState (p.state.modifyWatcher w f) (Array.size_modify ..) (Array.size_modify ..)

/-! ## The parts of a step -/

theorem enter (p : m.Padded n R k) (w : WatcherId) (reruns : Nat) :
    (m.enter w reruns).Padded n R (k.enter (w.skip n) reruns) := by
  have hleave : Frame.Padded n R (.leave w m.state.active reruns)
      (.leave (w.skip n) k.state.active reruns) := p.state.active ▸ .leave w m.state.active reruns
  have hentered := p.modifyWatcher w fun x => { x with runs := x.runs + 1, running := true }
  exact (hentered.withState (hentered.state.withActive (some w)) rfl rfl).withStack
    (.cons (.body (p.getter w)) (.cons hleave p.stack))

theorem request (p : m.Padded n R k) (w : WatcherId) : (m.request w).Padded n R (k.request (w.skip n)) := by
  rw [Machine.request, Machine.request, p.state.isRunning]
  split
  · exact p.modifyWatcher w _
  · exact p.enter w 0

theorem leave (p : m.Padded n R k) (w : WatcherId) (previous : Option WatcherId) (reruns : Nat) :
    (m.leave w previous reruns).Padded n R (k.leave (w.skip n) (previous.map (skip n)) reruns) := by
  have hleft := p.modifyWatcher w fun x => { x with running := false, dirty := false }
  have hactive := hleft.withState (hleft.state.withActive previous) rfl rfl
  rw [Machine.leave, Machine.leave, p.state.watcher?]
  split
  · exact hactive.enter w (reruns + 1)
  · exact hactive

theorem notify (p : m.Padded n R k) (d : DepId) : (m.notify d).Padded n R (k.notify d) := by
  rw [Machine.notify, Machine.notify, p.sight.subscribers]
  exact (p.withHeap (p.state.heap.setSubscribers d _)).push (.pending _)

theorem watch (p : m.Padded n R k) {getter getter' : Program σ} {next next' : WatcherId → Program σ}
    (getters : getter.Padded n R getter') (same : ∀ w, (next w).Padded n R (next' (w.skip n))) :
    (m.watch getter next).Padded n R (k.watch getter' next') := by
  have hnew : (⟨k.state.watchers.size⟩ : WatcherId) = skip n ⟨m.state.watchers.size⟩ := by
    rw [p.state.size, WatcherId.skip_of_le p.state.le]
  have hgetter : ∀ w : WatcherId, ((m.getters.push getter)[w.index]?.getD .done).Padded n R
      ((k.getters.push getter')[(w.skip n).index]?.getD .done) := by
    intro w
    have hw : (w.skip n).index = k.getters.size ↔ w.index = m.getters.size := by
      rw [p.paired', p.paired, p.state.size, WatcherId.skip_index_iff p.state.le]
    have hold := p.getter w
    simp only [Machine.getter, Array.getElem?_push, hw] at hold ⊢
    split
    · exact getters
    · exact hold
  have hmade : Machine.Padded n R
      { m with
        state := { m.state with watchers := m.state.watchers.push ⟨0, false, false, false⟩ }
        getters := m.getters.push getter }
      { k with
        state := { k.state with watchers := k.state.watchers.push ⟨0, false, false, false⟩ }
        getters := k.getters.push getter' } :=
    ⟨p.state.push _, by rw [Array.size_push, Array.size_push, p.paired],
      by rw [Array.size_push, Array.size_push, p.paired'], hgetter, p.stack, p.fault⟩
  rw [Machine.watch, Machine.watch]
  dsimp only
  rw [hnew]
  exact (hmade.withStack (.cons (.adopt _ same) p.stack)).request _

theorem unwind {fs fs' : List (Frame σ)} (p : s.Padded n R s')
    (stack : List.Forall₂ (Frame.Padded n R) fs fs') :
    (Machine.unwind s fs).Padded n R (Machine.unwind s' fs') := by
  induction stack generalizing s s' with
  | nil => exact p
  | cons hf _ ih =>
    cases hf with
    | leave w previous reruns => exact ih ((p.modifyWatcher w _).withActive previous)
    | _ => exact ih p

/-! ## Steps and runs -/

theorem performs (p : m.Padded n R k) {q q' : Program σ} (same : q.Padded n R q') :
    (m.perform q).Padded n R (k.perform q') := by
  cases same with
  | done => exact p
  | panic message =>
    have hsize : ∀ (s : State σ) (fs : List (Frame σ)),
        (Machine.unwind s fs).watchers.size = s.watchers.size := by
      intro s fs
      induction fs generalizing s with
      | nil => rfl
      | cons f fs ih => cases f <;> simp [Machine.unwind, ih, State.modifyWatcher]
    exact ⟨unwind p.state p.stack, p.paired.trans (hsize _ _).symm, p.paired'.trans (hsize _ _).symm,
      p.getter, .nil, rfl⟩
  | look same => exact p.push (.body (same _ _ p.sight))
  | read reads_eq same =>
    have hnext := same _ _ p.state.heap
    rw [Machine.perform, Machine.perform, p.state.active, reads_eq _ _ p.state.heap]
    cases m.state.active with
    | some w => exact (p.withHeap (p.state.heap.track w _)).push (.body hnext)
    | none => exact p.push (.body hnext)
  | make draft same =>
    obtain ⟨hv, hheap⟩ := p.state.heap.build draft
    have hnext := same (m.state.heap.build draft).1
    exact (p.withHeap hheap).push (.body (hv ▸ hnext))
  | edit change same => exact (p.withHeap (p.state.heap.edit change)).push (.body same)
  | tell agree same =>
    exact (p.withState (p.state.withHost (agree _ _ p.state.host)) rfl rfl).push (.body same)
  | write o key v same =>
    obtain ⟨hd, hheap⟩ := p.state.heap.store o key v
    rw [Machine.perform, Machine.perform]
    generalize m.state.heap.store o key v = stored, k.state.heap.store o key v = stored' at hd hheap
    obtain ⟨h, d⟩ := stored
    obtain ⟨h', d'⟩ := stored'
    obtain rfl : d' = d := hd
    have hwritten := (p.withHeap hheap).push (.body same)
    cases d' with
    | some d => exact hwritten.notify d
    | none => exact hwritten
  | notify d same => exact (p.push (.body same)).notify d
  | run w same => exact (p.push (.body same)).request w
  | watch getters same => exact p.watch getters same
  | release w same => exact (p.modifyWatcher w _).push (.body same)

/-- **The machines take the same steps.** -/
theorem step (p : m.Padded n R k) : m.step.Padded n R k.step := by
  have hstack := p.stack
  rw [Machine.step, Machine.step]
  generalize m.stack = fs, k.stack = fs' at hstack
  cases hstack with
  | nil => exact p
  | cons hf hrest =>
    cases hf with
    | body same => exact (p.withStack hrest).performs same
    | leave w previous reruns => exact (p.withStack hrest).leave w previous reruns
    | pending ws =>
      cases ws with
      | nil => exact p.withStack hrest
      | cons w ws => exact (p.withStack (.cons (.pending ws) hrest)).request w
    | adopt w same => exact (p.modifyWatcher w _).withStack (.cons (.body (same w)) hrest)

theorem stack_eq_nil_iff (p : m.Padded n R k) : k.stack = [] ↔ m.stack = [] := by
  have hstack := p.stack
  generalize m.stack = fs, k.stack = fs' at hstack ⊢
  cases hstack <;> simp

theorem iterate (p : m.Padded n R k) (i : Nat) : (Machine.step^[i] m).Padded n R (Machine.step^[i] k) := by
  induction i generalizing m k with
  | zero => exact p
  | succ i ih => exact ih p.step

/-- **The machines come to rest together**, or neither does. -/
theorem exec (p : m.Padded n R k) : Option.Rel (Machine.Padded n R) m.exec k.exec := by
  cases hm : m.exec with
  | none =>
    have hk : k.exec = none := Machine.exec_eq_none_iff.2 fun i hrest =>
      Machine.exec_eq_none_iff.1 hm i ((p.iterate i).stack_eq_nil_iff.1 hrest)
    rw [hk]
    exact .none
  | some m' =>
    obtain ⟨i, rfl, hrest⟩ := Machine.exec_eq_some_iff.1 hm
    rw [Machine.exec_iterate ((p.iterate i).stack_eq_nil_iff.2 hrest)]
    exact .some (p.iterate i)

end Machine.Padded

/-- **A watcher that was made, has read some places and is not kept** is one more watcher, to which nobody
was referring before. -/
theorem Machine.padded_of_push {m' : Machine σ} {ps : List Place} {y : Watcher} {getter : Program σ}
    (rest : m.stack = []) (disciplined : m.Disciplined) (registered : m.Registered) (fault : m.fault = none)
    (impartial : ∀ w, (m.getter w).Padded m.state.watchers.size R (m.getter w)) (unkept : y.kept = false)
    (heap : m'.state.heap = m.state.heap.track ⟨m.state.watchers.size⟩ ps)
    (watchers : m'.state.watchers = m.state.watchers.push y) (active : m'.state.active = m.state.active)
    (host : R m.state.host m'.state.host) (getters : m'.getters = m.getters.push getter)
    (rest' : m'.stack = []) (fault' : m'.fault = none) : m.Padded m.state.watchers.size R m' := by
  generalize hn : m.state.watchers.size = n at impartial heap ⊢
  have hpaired : m.getters.size = n := disciplined.paired.trans hn
  refine ⟨⟨⟨heap ▸ .track m.state.heap _ ps, fun d => ?_⟩, ?_, hn.ge, fun w => ?_, ?_, ?_, host⟩, disciplined.paired, ?_,
    fun w => ?_, ?_, fault'.trans fault.symm⟩
  · have hmade : ∀ w ∈ m.state.heap.subscribers d, w.index < n := fun w hw => hn ▸ registered d w hw
    have hsame : (m.state.heap.subscribers d).map (skip n) = m.state.heap.subscribers d :=
      (List.map_congr_left fun w hw => WatcherId.skip_of_lt (hmade w hw)).trans (List.map_id _)
    have hfilter := WatcherId.filter_ne_map_skip n (m.state.heap.subscribers d)
    rw [hsame] at hfilter ⊢
    rw [heap, Heap.subscribers_track]
    split
    · rw [List.filter_append, hfilter, List.filter_cons_of_neg (by simp), List.filter_nil, List.append_nil]
    · exact hfilter
  · rw [watchers, Array.size_push]
  · rw [State.watcher?, watchers, WatcherId.getElem?_push_skip hn]
    rfl
  · rw [State.isKept, State.watcher?, watchers, ← hn, Array.getElem?_push_size]
    exact unkept
  · have hnone : m.state.active = none := by
      rw [(disciplined.steady_at_rest rest).marks.active, rest]
      rfl
    rw [active, hnone]
    rfl
  · rw [getters, watchers, Array.size_push, Array.size_push, disciplined.paired]
  · have hgetter : m'.getter (w.skip n) = m.getter w := by
      rw [Machine.getter, Machine.getter, getters, WatcherId.getElem?_push_skip hpaired]
    exact hgetter ▸ impartial w
  · rw [rest, rest']
    exact .nil

/-! ## Operations -/

namespace Live

variable {α β : Type} {Q : α → α → Prop} {S : β → β → Prop}

/-- Two ends of an operation that are the same, but for one more watcher on the second machine. -/
inductive Agrees (n : Nat) (R : σ → σ → Prop) (Q : α → α → Prop) :
    EStateM.Result Fault (Machine σ) α → EStateM.Result Fault (Machine σ) α → Prop where
  | ok {a b : α} {m k : Machine σ} (result : Q a b) (padded : m.Padded n R k) :
      Agrees n R Q (.ok a m) (.ok b k)
  | error (e : Fault) {m k : Machine σ} (padded : m.Padded n R k) : Agrees n R Q (.error e m) (.error e k)

theorem Agrees.bind {x y : Live σ α} {f g : α → Live σ β} (h : Agrees n R Q (x m) (y k))
    (next : ∀ a b m k, Q a b → m.Padded n R k → Agrees n R S (f a m) (g b k)) :
    Agrees n R S ((x >>= f) m) ((y >>= g) k) := by
  show Agrees n R S (EStateM.bind x f m) (EStateM.bind y g k)
  rw [EStateM.bind, EStateM.bind]
  generalize x m = r, y k = r' at h
  cases h with
  | ok result padded => exact next _ _ _ _ result padded
  | error e padded => exact .error e padded

/-- **An operation that runs a program** comes to the same. -/
theorem agrees_perform (p : m.Padded n R k) {q q' : Program σ} (same : q.Padded n R q') :
    Agrees n R (fun _ _ => True) (perform q m) (perform q' k) := by
  have hasked : Machine.Padded n R { m with stack := [.body q], fault := none }
      { k with stack := [.body q'], fault := none } :=
    ⟨p.state, p.paired, p.paired', p.getter, .cons (.body same) .nil, rfl⟩
  have hran := hasked.exec
  rw [perform, perform]
  revert hran
  generalize Machine.exec { m with stack := [.body q], fault := none } = r
  generalize Machine.exec { k with stack := [.body q'], fault := none } = r'
  intro hran
  cases hran with
  | none => exact .error .unfinished p
  | @some m' k' hpadded =>
    dsimp only
    rw [hpadded.fault]
    cases hfault : m'.fault with
    | none => exact .ok trivial hpadded
    | some message =>
      exact .error _ ⟨hpadded.state, hpadded.paired, hpadded.paired', hpadded.getter, hpadded.stack, rfl⟩

theorem agrees_host (p : m.Padded n R k) : Agrees n R R (host m) (host k) := .ok p.state.host p

theorem agrees_tell (p : m.Padded n R k) {change change' : σ → σ}
    (agree : ∀ s s', R s s' → R (change s) (change' s')) :
    Agrees n R (fun _ _ => True) (tell change m) (tell change' k) :=
  .ok trivial (p.withState (p.state.withHost (agree _ _ p.state.host)) rfl rfl)

theorem agrees_release (p : m.Padded n R k) (w : WatcherId) :
    Agrees n R (fun _ _ => True) (release w m) (release (w.skip n) k) :=
  agrees_perform p (.release w .done)

theorem agrees_watch (p : m.Padded n R k) {getter getter' : Program σ}
    (getters : getter.Padded n R getter') :
    Agrees n R (fun w w' => w' = w.skip n) (watch getter m) (watch getter' k) := by
  have hnew : (⟨k.state.watchers.size⟩ : WatcherId) = skip n ⟨m.state.watchers.size⟩ := by
    rw [p.state.size, WatcherId.skip_of_le p.state.le]
  have hstate : Agrees n R (fun s s' => s = m.state ∧ s' = k.state) (state m) (state k) := .ok ⟨rfl, rfl⟩ p
  refine hstate.bind fun _ _ m' k' hs hpadded => ?_
  obtain ⟨rfl, rfl⟩ := hs
  exact (agrees_perform hpadded (.watch getters fun _ => .done)).bind fun _ _ _ _ _ hran => .ok hnew hran

end Live

end LiveMarkup

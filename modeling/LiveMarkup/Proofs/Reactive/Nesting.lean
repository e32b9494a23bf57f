import Mathlib.Data.List.Nodup
import Mathlib.Data.List.Perm.Subperm
import LiveMarkup.Proofs.Reactive.Runs

/-!
# The nesting of getters

Getters are executed within one another when one writes what another has read, or runs another. No
watcher's getter is ever executed within itself.

* `Program.Modest`, `Machine.Modest`: programs that make no watcher, and machines of such getters.
* `Machine.Settles`: what a piece of work that has come to its end leaves as it was.
* `Machine.Asks`, **`Machine.asks_step`**: all that the first request of a modest program can come to.
* `Machine.nesting`, `Machine.Orderly`: the getters that are being executed, each one once.
* **`Machine.Orderly.step`**, `Machine.Orderly.iterate`: steps keep that up.
-/

namespace LiveMarkup

variable {σ : Type}

/-! ## Modest programs -/

namespace Program

/-- A program that makes no watcher and does not give up. -/
def Modest : Program σ → Prop
  | done => True
  | panic _ => False
  | look next => ∀ s, (next s).Modest
  | read _ next => ∀ h, (next h).Modest
  | make _ next => ∀ v, (next v).Modest
  | edit _ next => next.Modest
  | tell _ next => next.Modest
  | write _ _ _ next => next.Modest
  | notify _ next => next.Modest
  | run _ next => next.Modest
  | watch _ _ => False
  | release _ next => next.Modest

theorem Modest.of_follows {p q : Program σ} (hp : p.Modest) (hq : q.Follows p) : q.Modest := by
  cases hq with
  | look next s => exact hp s
  | read reads next h => exact hp h
  | make draft next v => exact hp v
  | _ => exact hp

end Program

/-- No program but modest ones is to be executed in a frame. -/
def Frame.Modest : Frame σ → Prop
  | body p => p.Modest
  | adopt _ _ => False
  | _ => True

/-- The watcher whose run ends in a frame. -/
def Frame.leaves? : Frame σ → Option WatcherId
  | leave w _ _ => some w
  | _ => none

namespace Machine

variable {m m' k : Machine σ} {w x : WatcherId} {p : Program σ} {rest : List (Frame σ)} {n : Nat}
  {getters : Array (Program σ)}

/-- No getter makes a watcher or gives up, and every watcher has one. -/
structure Modest (m : Machine σ) : Prop where
  getter : ∀ w, (m.getter w).Modest
  paired : m.getters.size = m.state.watchers.size

/-- Where there is no watcher there is nothing to be executed. -/
theorem Modest.getter_of_le (hm : m.Modest) (hw : m.state.watchers.size ≤ w.index) :
    m.getter w = .done := by
  rw [Machine.getter, Array.getElem?_eq_none (hm.paired ▸ hw)]
  rfl

/-! ## Work that has come to its end -/

/-- What a piece of work that has come to its end leaves as it was: the getters, the watchers that are
running, and how often the getters of these were entered. -/
structure Settles (m m' : Machine σ) : Prop where
  getters : m'.getters = m.getters
  fault : m'.fault = m.fault
  size : m'.state.watchers.size = m.state.watchers.size
  isRunning : ∀ x, m'.state.isRunning x = m.state.isRunning x
  runs : ∀ x, m.state.isRunning x → m'.state.runs x = m.state.runs x

namespace Settles

theorem refl (m : Machine σ) : m.Settles m := ⟨rfl, rfl, rfl, fun _ => rfl, fun _ _ => rfl⟩

theorem trans (a : m.Settles m') (b : m'.Settles k) : m.Settles k where
  getters := b.getters.trans a.getters
  fault := b.fault.trans a.fault
  size := b.size.trans a.size
  isRunning x := (b.isRunning x).trans (a.isRunning x)
  runs x hx := (b.runs x ((a.isRunning x).trans hx)).trans (a.runs x hx)

/-- All watchers are the same. -/
theorem of_eq (getters : m'.getters = m.getters) (fault : m'.fault = m.fault)
    (watchers : m'.state.watchers = m.state.watchers) : m.Settles m' := by
  have hwatcher : ∀ x, m'.state.watcher? x = m.state.watcher? x := fun x => by
    rw [State.watcher?, watchers, State.watcher?]
  refine ⟨getters, fault, by rw [watchers], fun x => ?_, fun x _ => ?_⟩
  · rw [State.isRunning, hwatcher, State.isRunning]
  · rw [State.runs, hwatcher, State.runs]

/-- A watcher is changed, but not whether it is running, nor its count of runs. -/
theorem of_modify {f : Watcher → Watcher} (getters : m'.getters = m.getters)
    (fault : m'.fault = m.fault)
    (watchers : m'.state.watchers = (m.state.modifyWatcher w f).watchers)
    (running : ∀ y, (f y).running = y.running) (runs : ∀ y, (f y).runs = y.runs) : m.Settles m' := by
  have hwatcher : ∀ x, m'.state.watcher? x = (m.state.modifyWatcher w f).watcher? x := fun x => by
    rw [State.watcher?, watchers, State.watcher?]
  refine ⟨getters, fault, ?_, fun x => ?_, fun x _ => ?_⟩
  · rw [watchers]
    exact Array.size_modify
  · rw [State.isRunning, hwatcher]
    exact State.any_modifyWatcher f Watcher.running running m.state w x
  · rw [State.runs, hwatcher, State.watcher?_modifyWatcher, State.runs]
    split_ifs
    · cases m.state.watcher? x with
      | none => rfl
      | some y => exact runs y
    · rfl

theorem modest (hs : m.Settles m') (hm : m.Modest) : m'.Modest where
  getter w := by
    rw [Machine.getter, hs.getters]
    exact hm.getter w
  paired := by rw [hs.getters, hs.size, hm.paired]

theorem mark (m : Machine σ) (w : WatcherId) : m.Settles (m.mark w) :=
  .of_modify rfl rfl rfl (fun _ => rfl) fun _ => rfl

end Settles

/-! ## Requests -/

/-- All that the first request of a modest program can come to: it was the last one, the program goes
on, or it goes on after a notification or a run. -/
inductive Asks (m : Machine σ) (p : Program σ) (rest : List (Frame σ)) : Prop where
  | ends (settles : m.Settles m.step) (stack : m.step.stack = rest)
  | continues (q : Program σ) (follows : q.Follows p) (settles : m.Settles m.step)
      (stack : m.step.stack = .body q :: rest)
  | notifies (q : Program σ) (follows : q.Follows p) (settles : m.Settles m.step)
      (stack : ∃ ws, m.step.stack = .pending ws :: .body q :: rest)
  | requests (q : Program σ) (w : WatcherId) (follows : q.Follows p)
      (step : m.step = { m with stack := .body q :: rest }.request w)

theorem asks_step (hm : m.stack = .body p :: rest) (hp : p.Modest) : m.Asks p rest := by
  have hmoves := m.moves_step
  generalize hstep : m.step = k at hmoves
  cases hmoves with
  | ends rest' stack =>
    cases hm.symm.trans stack
    exact .ends (hstep ▸ .of_eq rfl rfl rfl) (by rw [hstep])
  | goes p' q rest' heap stack follows =>
    cases hm.symm.trans stack
    exact .continues q follows (hstep ▸ .of_eq rfl rfl rfl) (by rw [hstep])
  | tells change next rest' stack =>
    cases hm.symm.trans stack
    exact .continues next (.tell change next) (hstep ▸ .of_eq rfl rfl rfl) (by rw [hstep])
  | releases w next rest' stack =>
    cases hm.symm.trans stack
    exact .continues next (.release w next) (hstep ▸ .of_modify rfl rfl rfl (fun _ => rfl) fun _ => rfl)
      (by rw [hstep])
  | notifies p' q rest' heap ws stack follows =>
    cases hm.symm.trans stack
    exact .notifies q follows (hstep ▸ .of_eq rfl rfl rfl) ⟨ws, by rw [hstep]⟩
  | runs w next rest' stack =>
    cases hm.symm.trans stack
    exact .requests next w (.run w next) hstep
  | panics message rest' stack =>
    cases hm.symm.trans stack
    exact hp.elim
  | watches getter next rest' stack =>
    cases hm.symm.trans stack
    exact hp.elim
  -- No other move is one of a program.
  | rests stack | leaves _ _ _ _ stack | settles _ stack | serves _ _ _ stack | adopts _ _ _ stack =>
    cases hm.symm.trans stack

/-! ## Getters that are being executed -/

/-- The watchers whose getters are being executed, innermost first. -/
def nesting (m : Machine σ) : List WatcherId :=
  (m.stack.filterMap Frame.leaves?).filter fun w => decide (w.index < m.state.watchers.size)

/-- A modest machine on which each of these getters is executed once at most, that of a running
watcher. -/
structure Orderly (m : Machine σ) (getters : Array (Program σ)) : Prop where
  modest : m.Modest
  same : m.getters = getters
  frames : ∀ f ∈ m.stack, f.Modest
  nodup : m.nesting.Nodup
  running : ∀ w ∈ m.nesting, m.state.isRunning w

theorem lt_of_mem_nesting (hw : w ∈ m.nesting) : w.index < m.state.watchers.size :=
  of_decide_eq_true (List.mem_filter.1 hw).2

/-- The number of watchers bounds how deep getters are nested. -/
theorem Orderly.length_nesting_le (ho : m.Orderly getters) : m.nesting.length ≤ getters.size := by
  have hnodup : (m.nesting.map WatcherId.index).Nodup :=
    ho.nodup.map fun x y he => congrArg WatcherId.mk he
  have hsub : m.nesting.map WatcherId.index ⊆ List.range m.state.watchers.size := fun i hi => by
    obtain ⟨w, hw, rfl⟩ := List.mem_map.1 hi
    exact List.mem_range.2 (lt_of_mem_nesting hw)
  have hle : m.nesting.length ≤ m.state.watchers.size := by
    simpa using (hnodup.subperm hsub).length_le
  rwa [← ho.modest.paired, ho.same] at hle

/-- Only frames that are not the ends of runs are exchanged. -/
theorem Orderly.of_settles (ho : m.Orderly getters) (hs : m.Settles m')
    (frames : ∀ f ∈ m'.stack, f.Modest)
    (leaves : m'.stack.filterMap Frame.leaves? = m.stack.filterMap Frame.leaves?) :
    m'.Orderly getters := by
  have hnesting : m'.nesting = m.nesting := by rw [nesting, leaves, hs.size, nesting]
  refine ⟨hs.modest ho.modest, hs.getters.trans ho.same, frames, by rw [hnesting]; exact ho.nodup,
    fun w hw => ?_⟩
  rw [hnesting] at hw
  exact (hs.isRunning w).trans (ho.running w hw)

theorem size_enter (m : Machine σ) (w : WatcherId) (n : Nat) :
    (m.enter w n).state.watchers.size = m.state.watchers.size := Array.size_modify

theorem isRunning_enter_self (hw : w.index < m.state.watchers.size) :
    (m.enter w n).state.isRunning w := by
  show ((m.state.modifyWatcher w _).watcher? w).any _ = true
  rw [State.watcher?_modifyWatcher, if_pos rfl, State.watcher?, Array.getElem?_eq_getElem hw]
  rfl

theorem modest_enter (hm : m.Modest) (w : WatcherId) (n : Nat) : (m.enter w n).Modest :=
  ⟨hm.getter, hm.paired.trans (size_enter m w n).symm⟩

/-- The getter of a watcher that is not running is entered. -/
theorem Orderly.enter (ho : m.Orderly getters) (hidle : m.state.isRunning w = false) (n : Nat) :
    (m.enter w n).Orderly getters := by
  have hout : w ∉ m.nesting := fun hw => by
    have hrun := ho.running w hw
    rw [hidle] at hrun
    cases hrun
  have hnesting : (m.enter w n).nesting =
      if w.index < m.state.watchers.size then w :: m.nesting else m.nesting := by
    rw [nesting, size_enter, stack_enter]
    simp only [List.filterMap_cons, Frame.leaves?, List.filter_cons, decide_eq_true_eq]
    rfl
  have hrunning : ∀ x ∈ m.nesting, (m.enter w n).state.isRunning x := fun x hx => by
    have hne : x ≠ w := fun he => hout (he ▸ hx)
    exact (isRunning_enter hne).trans (ho.running x hx)
  refine ⟨modest_enter ho.modest w n, ho.same, fun f hf => ?_, ?_, fun x hx => ?_⟩
  · rw [stack_enter] at hf
    rcases List.mem_cons.1 hf with rfl | hf
    · exact ho.modest.getter w
    · rcases List.mem_cons.1 hf with rfl | hf
      · trivial
      · exact ho.frames f hf
  · rw [hnesting]
    split
    · exact List.nodup_cons.2 ⟨hout, ho.nodup⟩
    · exact ho.nodup
  · rw [hnesting] at hx
    split at hx
    · next hw =>
      rcases List.mem_cons.1 hx with rfl | hx
      · exact isRunning_enter_self hw
      · exact hrunning x hx
    · exact hrunning x hx

theorem Orderly.request (ho : m.Orderly getters) (w : WatcherId) : (m.request w).Orderly getters := by
  rw [request_eq]
  split
  · exact ho.of_settles (.mark m w) ho.frames rfl
  · next hidle => exact ho.enter (Bool.eq_false_iff.2 hidle) 0

/-- A watcher that has quit is not running. -/
theorem isRunning_quit_self (m : Machine σ) (w : WatcherId) (previous : Option WatcherId) :
    (m.quit w previous).state.isRunning w = false := by
  rw [State.isRunning, watcher?_quit, if_pos rfl]
  cases m.state.watcher? w <;> rfl

theorem isRunning_quit (previous : Option WatcherId) (h : x ≠ w) :
    (m.quit w previous).state.isRunning x = m.state.isRunning x := by
  rw [State.isRunning, watcher?_quit, if_neg h, State.isRunning]

theorem size_quit (m : Machine σ) (w : WatcherId) (previous : Option WatcherId) :
    (m.quit w previous).state.watchers.size = m.state.watchers.size := Array.size_modify

/-- A run comes to its end. -/
theorem Orderly.quit {previous : Option WatcherId} (ho : m.Orderly getters)
    (hm : m.stack = .leave w previous n :: rest) :
    (({ m with stack := rest }).quit w previous).Orderly getters := by
  have hnesting : m.nesting = if w.index < m.state.watchers.size
      then w :: (({ m with stack := rest }).quit w previous).nesting
      else (({ m with stack := rest }).quit w previous).nesting := by
    rw [nesting, nesting, size_quit, hm]
    simp only [List.filterMap_cons, Frame.leaves?, List.filter_cons, decide_eq_true_eq]
    rfl
  have hnodup := ho.nodup
  have hrunning := ho.running
  rw [hnesting] at hnodup hrunning
  refine ⟨⟨ho.modest.getter, ho.modest.paired.trans (size_quit _ w previous).symm⟩, ho.same,
    fun f hf => ho.frames f (by rw [hm]; exact List.mem_cons_of_mem _ hf), ?_, fun x hx => ?_⟩
  · split at hnodup
    · exact (List.nodup_cons.1 hnodup).2
    · exact hnodup
  · have hne : x ≠ w := by
      rintro rfl
      have hw := lt_of_mem_nesting hx
      rw [size_quit] at hw
      rw [if_pos hw] at hnodup
      exact (List.nodup_cons.1 hnodup).1 hx
    rw [isRunning_quit previous hne]
    refine hrunning x ?_
    split
    · exact List.mem_cons_of_mem _ hx
    · exact hx

/-- The first request of a program. -/
theorem Orderly.step_body (ho : m.Orderly getters) (hm : m.stack = .body p :: rest) :
    m.step.Orderly getters := by
  obtain ⟨hp, hrest⟩ : p.Modest ∧ ∀ g ∈ rest, g.Modest := List.forall_mem_cons.1 (hm ▸ ho.frames)
  have hnext : ∀ q : Program σ, q.Follows p → ∀ g ∈ .body q :: rest, g.Modest := fun q hq =>
    List.forall_mem_cons.2 ⟨hp.of_follows hq, hrest⟩
  cases asks_step hm hp with
  | ends settles stack =>
    refine ho.of_settles settles ?_ ?_ <;> rw [stack]
    · exact hrest
    · rw [hm]
      rfl
  | continues q follows settles stack =>
    refine ho.of_settles settles ?_ ?_ <;> rw [stack]
    · exact hnext q follows
    · rw [hm]
      rfl
  | notifies q follows settles stack =>
    obtain ⟨ws, stack⟩ := stack
    refine ho.of_settles settles ?_ ?_ <;> rw [stack]
    · exact List.forall_mem_cons.2 ⟨trivial, hnext q follows⟩
    · rw [hm]
      rfl
  | requests q w follows step =>
    have hgoes : Orderly { m with stack := .body q :: rest } getters := by
      refine ho.of_settles (.of_eq rfl rfl rfl) (hnext q follows) ?_
      rw [hm]
      rfl
    rw [step]
    exact hgoes.request w

/-- The first of the watchers that a notification has still to run. -/
theorem Orderly.step_pending {ws : List WatcherId} (ho : m.Orderly getters)
    (hm : m.stack = .pending ws :: rest) : m.step.Orderly getters := by
  obtain ⟨-, hrest⟩ : True ∧ ∀ g ∈ rest, g.Modest := List.forall_mem_cons.1 (hm ▸ ho.frames)
  cases ws with
  | nil =>
    have hstep : m.step = { m with stack := rest } := by rw [Machine.step, hm]
    rw [hstep]
    refine ho.of_settles (.of_eq rfl rfl rfl) hrest ?_
    rw [hm]
    rfl
  | cons w ws =>
    have hstep : m.step = { m with stack := .pending ws :: rest }.request w := by
      rw [Machine.step, hm]
    have hgoes : Orderly { m with stack := .pending ws :: rest } getters := by
      refine ho.of_settles (.of_eq rfl rfl rfl) (List.forall_mem_cons.2 ⟨trivial, hrest⟩) ?_
      rw [hm]
      rfl
    rw [hstep]
    exact hgoes.request w

/-- **A step keeps the nesting of getters in order.** -/
theorem Orderly.step (ho : m.Orderly getters) : m.step.Orderly getters := by
  cases hm : m.stack with
  | nil => rwa [step_of_rest hm]
  | cons f rest =>
    cases f with
    | body p => exact ho.step_body hm
    | leave w previous n =>
      have hstep : m.step = { m with stack := rest }.leave w previous n := by rw [Machine.step, hm]
      rw [hstep, leave_eq]
      split
      · exact (ho.quit hm).enter (isRunning_quit_self _ w previous) (n + 1)
      · exact ho.quit hm
    | pending ws => exact ho.step_pending hm
    | adopt w next => exact (ho.frames (.adopt w next) (hm ▸ List.mem_cons_self)).elim

/-- **Getters are never executed within themselves**, and no watcher is made on the way. -/
theorem Orderly.iterate (ho : m.Orderly getters) (k : Nat) : (Machine.step^[k] m).Orderly getters := by
  induction k generalizing m with
  | zero => exact ho
  | succ k ih => exact ih ho.step

end Machine

end LiveMarkup

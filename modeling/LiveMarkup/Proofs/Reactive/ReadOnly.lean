import LiveMarkup.Proofs.Reactive.Subscribers

/-!
# Getters that only read

A getter that only reads runs to its end, enters no other getter and asks for no further run. So where all
getters are such, getters are never executed within one another, and a notification runs each watcher of its
list once.

* `Program.ReadOnly`: programs that read and tell the host, and do nothing else.
* `Program.Mannerly`: programs from outside that make watchers of such getters only.
* `Machine.Flat`, `Machine.Quiet`: at most one getter is under way, and nobody was asked to run again.
* **`Machine.Quiet.step`**: a step keeps this up.
* `Machine.Goes`: what a machine comes to, with the events on the way.
* `Machine.Invokes`: what stack it comes to, having entered certain getters.
* **`Machine.invokes_reading`**, **`Machine.invokes_pending`**: a getter to its end, and a notification.
-/

namespace LiveMarkup

variable {σ : Type}

namespace Program

/-- A program that only reads, whatever it reads, and tells the host what it has read. -/
def ReadOnly : Program σ → Prop
  | done => True
  | look next => ∀ s, (next s).ReadOnly
  | read _ next => ∀ h, (next h).ReadOnly
  | tell _ next => next.ReadOnly
  | _ => False

/-- A program from outside. It makes, observes, reads and writes what it likes, and makes and releases
watchers whose getters only read. It subscribes and runs none by hand, and does not give up. -/
def Mannerly : Program σ → Prop
  | done => True
  | panic _ => False
  | look next => ∀ s, (next s).Mannerly
  | read _ next => ∀ h, (next h).Mannerly
  | make _ next => ∀ v, (next v).Mannerly
  | edit change next => (∀ d w, change ≠ .subscribe d w) ∧ next.Mannerly
  | tell _ next => next.Mannerly
  | write _ _ _ next => next.Mannerly
  | notify _ next => next.Mannerly
  | run _ _ => False
  | watch getter next => getter.ReadOnly ∧ ∀ w, (next w).Mannerly
  | release _ next => next.Mannerly

theorem Mannerly.of_follows {p q : Program σ} (hp : p.Mannerly) (hq : q.Follows p) : q.Mannerly := by
  cases hq with
  | look next s => exact hp s
  | read reads next h => exact hp h
  | make draft next v => exact hp v
  | edit change next => exact hp.2
  | run w next => exact hp.elim
  | _ => exact hp

end Program

/-- The watcher whose getter was entered. -/
def Event.entered? : Event → Option WatcherId
  | .entered w => some w
  | _ => none

/-- The watchers whose getters were entered, one after another. -/
def invoked (es : List Event) : List WatcherId := es.filterMap Event.entered?

theorem invoked_append (es new : List Event) : invoked (es ++ new) = invoked es ++ invoked new :=
  List.filterMap_append

@[simp] theorem invoked_nil : invoked [] = [] := rfl

@[simp] theorem invoked_entered (w : WatcherId) : invoked [.entered w] = [w] := rfl

@[simp] theorem invoked_gaveUp (w : WatcherId) : invoked [.gaveUp w] = [] := rfl

theorem invoked_map_tracked (w : WatcherId) (ps : List Place) : invoked (ps.map (.tracked w)) = [] := by
  rw [invoked, List.filterMap_map]
  exact List.filterMap_eq_nil_iff.2 fun _ _ => rfl

/-- No run was asked for of a watcher while it was running. -/
def State.Clean (s : State σ) : Prop := ∀ w, s.isDirty w = false

namespace State.Clean

variable {s s' : State σ}

theorem of_eq (h : s.Clean) (watchers : s'.watchers = s.watchers) : s'.Clean := fun w => by
  rw [isDirty, watcher?, watchers]
  exact h w

theorem modify (h : s.Clean) (w : WatcherId) {f : Watcher → Watcher}
    (hf : ∀ y, y.dirty = false → (f y).dirty = false) : (s.modifyWatcher w f).Clean := by
  intro x
  have hx := h x
  rw [isDirty] at hx
  rw [isDirty, watcher?_modifyWatcher]
  split
  · cases hy : s.watcher? x with
    | none => rfl
    | some y =>
      rw [hy] at hx
      exact hf y hx
  · exact hx

theorem push (h : s.Clean) {y : Watcher} (hy : y.dirty = false) (watchers : s'.watchers = s.watchers.push y) :
    s'.Clean := by
  intro x
  rw [isDirty, watcher?_push watchers]
  split
  · exact hy
  · exact h x

end State.Clean

namespace Machine

variable {m m' k : Machine σ} {w : WatcherId} {p q : Program σ} {rest : List (Frame σ)} {new : List Event}

/-! ## At most one getter under way -/

/-- The frames of a program from outside: the program itself, a notification that it has set off, or the
end of the first run of a watcher that it makes. -/
inductive Outside : List (Frame σ) → Prop where
  | rest : Outside []
  | body (p : Program σ) (hp : p.Mannerly) : Outside [.body p]
  | pending (ws : List WatcherId) (p : Program σ) (hp : p.Mannerly) : Outside [.pending ws, .body p]
  | adopt (w : WatcherId) (next : WatcherId → Program σ) (hnext : ∀ w, (next w).Mannerly) :
      Outside [.adopt w next]

/-- Frames of a program from outside, and at most one getter, which only reads. -/
inductive Flat : List (Frame σ) → Prop where
  | outside (fs : List (Frame σ)) (below : Outside fs) : Flat fs
  | reading (q : Program σ) (hq : q.ReadOnly) (w : WatcherId) (fs : List (Frame σ)) (below : Outside fs) :
      Flat (.body q :: .leave w none 0 :: fs)
  | leaving (w : WatcherId) (fs : List (Frame σ)) (below : Outside fs) : Flat (.leave w none 0 :: fs)

theorem Outside.callStack_eq {fs : List (Frame σ)} (h : Outside fs) : callStack fs = [] := by
  cases h <;> rfl

/-- All getters only read, at most one is under way, and nobody was asked to run again. -/
structure Quiet (m : Machine σ) : Prop where
  readOnly : ∀ w, (m.getter w).ReadOnly
  flat : Flat m.stack
  clean : m.state.Clean

/-- No watcher is concerned. -/
theorem Quiet.of_eq (h : m.Quiet) (getters : m'.getters = m.getters)
    (watchers : m'.state.watchers = m.state.watchers) (flat : Flat m'.stack) : m'.Quiet where
  readOnly w := by
    rw [getter, getters]
    exact h.readOnly w
  flat := flat
  clean := h.clean.of_eq watchers

/-- A run is asked for while no getter is under way: it is entered. -/
theorem Quiet.enter (h : m.Quiet) (below : Outside m.stack) (active : m.state.active = none)
    (w : WatcherId) : (m.enter w 0).Quiet where
  readOnly := h.readOnly
  flat := by
    rw [stack_enter, active]
    exact .reading _ (h.readOnly w) w _ below
  clean := by
    have hentered := h.clean.modify w (f := fun y => { y with runs := y.runs + 1, running := true })
      fun _ hy => hy
    exact hentered.of_eq rfl

theorem Quiet.request (h : m.Quiet) (below : Outside m.stack) (active : m.state.active = none)
    (idle : m.state.isRunning w = false) : (m.request w).Quiet := by
  rw [request_eq, idle]
  exact h.enter below active w

/-- A watcher is made of a getter that only reads. -/
theorem Quiet.watch (h : m.Quiet) (rest : m.stack = []) (active : m.state.active = none)
    (idle : ∀ w, m.state.isRunning w = false) {getter : Program σ} (hgetter : getter.ReadOnly)
    {next : WatcherId → Program σ} (hnext : ∀ w, (next w).Mannerly) : (m.watch getter next).Quiet := by
  have hbelow : Outside (m.withWatcher getter next).stack := by
    show Outside (_ :: m.stack)
    rw [rest]
    exact .adopt _ next hnext
  have hmade : (m.withWatcher getter next).Quiet :=
    ⟨forall_getter_withWatcher hgetter h.readOnly, .outside _ hbelow,
      h.clean.push (y := ⟨0, false, false, false⟩) rfl rfl⟩
  exact hmade.request hbelow active ((isRunning_withWatcher _).trans (idle _))

/-- A move of a program from outside, or of what it has set off. -/
theorem Quiet.moves_outside (h : m.Quiet) (below : Outside m.stack) (active : m.state.active = none)
    (idle : ∀ w, m.state.isRunning w = false) (hk : m.Moves k) : k.Quiet := by
  have hgoes : ∀ fs heap host, Outside fs → Quiet
      { m with state := ⟨heap, m.state.watchers, m.state.active, host⟩, stack := fs } :=
    fun fs heap host hfs => h.of_eq rfl rfl (.outside fs hfs)
  have hchanged : ∀ w fs (f : Watcher → Watcher), (∀ y, (f y).dirty = y.dirty) → Outside fs → Quiet
      { m with state := m.state.modifyWatcher w f, stack := fs } :=
    fun w fs f hf hfs => ⟨h.readOnly, .outside fs hfs, h.clean.modify w fun y hy => (hf y).trans hy⟩
  have hbody : ∀ {p rest}, m.stack = .body p :: rest → p.Mannerly ∧ rest = [] := fun stack => by
    rw [stack] at below
    cases below with | body p hp => exact ⟨hp, rfl⟩
  have hpending : ∀ {ws rest}, m.stack = .pending ws :: rest → ∃ p, p.Mannerly ∧ rest = [.body p] :=
    fun stack => by
      rw [stack] at below
      cases below with | pending ws p hp => exact ⟨p, hp, rfl⟩
  cases hk with
  | rests stack => exact h
  | ends rest stack =>
    obtain ⟨-, rfl⟩ := hbody stack
    exact hgoes _ _ _ .rest
  | panics message rest stack => exact (hbody stack).1.elim
  | goes p q rest heap stack follows =>
    obtain ⟨hp, rfl⟩ := hbody stack
    exact hgoes _ _ _ (.body q (hp.of_follows follows))
  | tells change next rest stack =>
    obtain ⟨hnext, rfl⟩ := hbody stack
    exact hgoes _ _ _ (.body next hnext)
  | notifies p q rest heap ws stack follows =>
    obtain ⟨hp, rfl⟩ := hbody stack
    exact hgoes _ _ _ (.pending ws q (hp.of_follows follows))
  | runs w next rest stack => exact (hbody stack).1.elim
  | watches getter next rest stack =>
    obtain ⟨⟨hgetter, hnext⟩, rfl⟩ := hbody stack
    exact (hgoes [] _ _ .rest).watch rfl active idle hgetter hnext
  | releases w next rest stack =>
    obtain ⟨hnext, rfl⟩ := hbody stack
    exact hchanged w _ _ (fun _ => rfl) (.body next hnext)
  | leaves w previous n rest stack =>
    rw [stack] at below
    cases below
  | settles rest stack =>
    obtain ⟨p, hp, rfl⟩ := hpending stack
    exact hgoes _ _ _ (.body p hp)
  | serves w ws rest stack =>
    obtain ⟨p, hp, rfl⟩ := hpending stack
    have hbelow := Outside.pending ws p hp
    exact (hgoes _ m.state.heap m.state.host hbelow).request hbelow active (idle w)
  | adopts w next rest stack =>
    rw [stack] at below
    cases below with | adopt w' next hnext => exact hchanged w _ _ (fun _ => rfl) (.body _ (hnext w))

/-- **A step keeps things quiet.** -/
theorem Quiet.step (h : m.Quiet) (hd : m.Disciplined) : m.step.Quiet := by
  have hmarks := hd.marks
  have hflat := h.flat
  generalize hm : m.stack = fs at hflat hmarks
  cases hflat with
  | outside fs below =>
    rw [below.callStack_eq] at hmarks
    exact h.moves_outside (hm ▸ below) hmarks.active hmarks.idle m.moves_step
  | reading q hq w fs below =>
    rw [Machine.step, hm]
    cases q with
    | done => exact h.of_eq rfl rfl (.leaving w fs below)
    | look next => exact h.of_eq rfl rfl (.reading _ (hq _) w fs below)
    | read reads next =>
      simp only [Machine.perform]
      split
      · exact h.of_eq rfl rfl (.reading _ (hq _) w fs below)
      · exact h.of_eq rfl rfl (.reading _ (hq _) w fs below)
    | tell change next => exact h.of_eq rfl rfl (.reading next hq w fs below)
    | _ => exact hq.elim
  | leaving w fs below =>
    rw [Machine.step, hm]
    show ({ m with stack := fs }.leave w none 0).Quiet
    rw [leave_eq, if_neg (by simp [show (m.state.watcher? w).any (·.dirty) = false from h.clean w])]
    have hquit := h.clean.modify w (f := fun y => { y with running := false, dirty := false }) fun _ _ => rfl
    exact ⟨h.readOnly, .outside fs below, hquit.of_eq rfl⟩

/-- What is asked for next is asked for from outside, or by a getter that only reads. -/
theorem Quiet.next? (h : m.Quiet) (top : m.next? = some p) : p.Mannerly ∨ p.ReadOnly := by
  obtain ⟨rest, hm⟩ := stack_of_next? top
  have hflat := h.flat
  rw [hm] at hflat
  cases hflat with
  | outside fs below => cases below with | body p hp => exact .inl hp
  | reading q hq w fs below => exact .inr hq

/-- Nobody gives up. -/
theorem Quiet.calm (h : m.Quiet) (message : String) : m.next? ≠ some (.panic message) :=
  fun top => (h.next? top).elim id id

theorem fault_request (m : Machine σ) (w : WatcherId) : (m.request w).fault = m.fault := by
  rw [request_eq]
  split <;> rfl

theorem Moves.fault (h : m.Moves k) (calm : ∀ message, m.next? ≠ some (.panic message)) :
    k.fault = m.fault := by
  cases h with
  | panics message rest stack => exact absurd (next?_of_stack stack) (calm message)
  | runs w next rest stack => exact fault_request _ w
  | watches getter next rest stack => exact fault_request _ _
  | serves w ws rest stack => exact fault_request _ w
  | leaves w previous n rest stack =>
    rw [leave_eq]
    split <;> rfl
  | _ => rfl

/-- There is no fault unless a program gives up. -/
theorem fault_step (calm : ∀ message, m.next? ≠ some (.panic message)) : m.step.fault = m.fault :=
  m.moves_step.fault calm

/-! ## Coming to an end -/

/-- The events of so many steps. -/
def eventsIn : Nat → Machine σ → List Event
  | 0, _ => []
  | n + 1, m => m.events ++ eventsIn n m.step

theorem eventsIn_add (a b : Nat) (m : Machine σ) :
    eventsIn (a + b) m = eventsIn a m ++ eventsIn b (step^[a] m) := by
  induction a generalizing m with
  | zero => rw [Nat.zero_add]; rfl
  | succ a ih => rw [Nat.add_right_comm, eventsIn, ih, eventsIn, List.append_assoc]; rfl

/-- A machine comes to another, with these events on the way. -/
def Goes (m : Machine σ) (new : List Event) (m' : Machine σ) : Prop :=
  ∃ n, step^[n] m = m' ∧ eventsIn n m = new

namespace Goes

theorem refl (m : Machine σ) : m.Goes [] m := ⟨0, rfl, rfl⟩

theorem of_step (h : m.step.Goes new m') : m.Goes (m.events ++ new) m' := by
  obtain ⟨n, hm', rfl⟩ := h
  exact ⟨n + 1, hm', rfl⟩

theorem trans {later : List Event} (h : m.Goes new m') (h' : m'.Goes later k) :
    m.Goes (new ++ later) k := by
  obtain ⟨a, rfl, rfl⟩ := h
  obtain ⟨b, rfl, rfl⟩ := h'
  refine ⟨a + b, ?_, eventsIn_add a b m⟩
  rw [Nat.add_comm]
  exact Function.iterate_add_apply _ b a m

/-- What every step keeps up is kept up. -/
theorem preserves {P : Machine σ → Prop} (hstep : ∀ m, P m → P m.step) (h : m.Goes new m') (hm : P m) :
    P m' := by
  obtain ⟨n, rfl, -⟩ := h
  exact Function.Iterate.rec P hm hstep n

/-- An operation from outside ends where its program gets to. -/
theorem perform_eq {p : Program σ} (h : (m.asked p).Goes new m') (hrest : m'.stack = [])
    (hfault : m'.fault = none) : Live.perform p m = .ok () m' := by
  obtain ⟨n, hn, -⟩ := h
  exact Live.perform_of_iterate n hn hrest hfault

end Goes

/-- A machine comes to a stack, and enters these getters on the way. -/
def Invokes (m : Machine σ) (ws : List WatcherId) (rest : List (Frame σ)) : Prop :=
  ∃ new m', m.Goes new m' ∧ m'.stack = rest ∧ invoked new = ws

namespace Invokes

variable {ws vs : List WatcherId} {mid : List (Frame σ)}

theorem here (hs : m.stack = rest) : m.Invokes [] rest := ⟨[], m, .refl m, hs, rfl⟩

theorem of_step (h : m.step.Invokes ws rest) : m.Invokes (invoked m.events ++ ws) rest := by
  obtain ⟨new, m', hgoes, hstack, hnew⟩ := h
  exact ⟨_, m', hgoes.of_step, hstack, by rw [invoked_append, hnew]⟩

/-- A step that enters no getter. -/
theorem of_quiet_step (hevents : invoked m.events = []) (h : m.step.Invokes ws rest) : m.Invokes ws rest := by
  have hstep := h.of_step
  rwa [hevents] at hstep

/-- One piece of work after another. -/
theorem bind {P : Machine σ → Prop} (hstep : ∀ m, P m → P m.step) (hm : P m) (h : m.Invokes ws mid)
    (hnext : ∀ m', P m' → m'.stack = mid → m'.Invokes vs rest) : m.Invokes (ws ++ vs) rest := by
  obtain ⟨new, m', hgoes, hstack, rfl⟩ := h
  obtain ⟨later, k, hgoes', hstack', rfl⟩ := hnext m' (hgoes.preserves hstep hm) hstack
  exact ⟨_, k, hgoes.trans hgoes', hstack', invoked_append new later⟩

end Invokes

/-- **A getter that only reads comes to its end**, and enters no other. -/
theorem invokes_reading (hq : q.ReadOnly) (hm : m.stack = .body q :: rest) : m.Invokes [] rest := by
  induction q generalizing m with
  | done => exact .of_quiet_step (by rw [events, hm]; rfl) (.here (by rw [step, hm]; rfl))
  | look next ih =>
    have hstack : m.step.stack = .body (next ({ m with stack := rest } : Machine σ).sight) :: rest := by
      rw [step, hm]
      rfl
    exact .of_quiet_step (by rw [events, hm]; rfl) (ih _ (hq _) hstack)
  | read reads next ih =>
    have hstack : m.step.stack = .body (next m.state.heap) :: rest := by
      rw [step, hm]
      simp only [perform]
      split <;> rfl
    have hevents : invoked m.events = [] := by
      rw [events, hm]
      simp only [performed]
      split
      · exact invoked_map_tracked _ _
      · rfl
    exact .of_quiet_step hevents (ih _ (hq _) hstack)
  | tell change next ih =>
    have hstack : m.step.stack = .body next :: rest := by
      rw [step, hm]
      rfl
    exact .of_quiet_step (by rw [events, hm]; rfl) (ih hq hstack)
  | _ => exact hq.elim

/-- The end of a run that nobody has asked to be repeated. -/
theorem step_leave_of_clean (hclean : m.state.Clean) {previous : Option WatcherId} {n : Nat}
    (hm : m.stack = .leave w previous n :: rest) :
    m.events = [] ∧ m.step = ({ m with stack := rest } : Machine σ).quit w previous := by
  have hdirty : (m.state.watcher? w).any (·.dirty) = false := hclean w
  refine ⟨?_, ?_⟩
  · rw [events, hm]
    show m.left w n = []
    rw [left, hdirty]
    rfl
  · rw [step, hm]
    show ({ m with stack := rest } : Machine σ).leave w previous n = _
    rw [leave_eq, if_neg (by simp [hdirty])]

/-- **A notification runs each watcher of its list once**, in their order, and no other. -/
theorem invokes_pending {ws : List WatcherId} (hq : m.Quiet) (hd : m.Disciplined)
    (hm : m.stack = .pending ws :: rest) : m.Invokes ws rest := by
  have hsteps : ∀ m : Machine σ, m.Quiet ∧ m.Disciplined → m.step.Quiet ∧ m.step.Disciplined :=
    fun m h => ⟨h.1.step h.2, h.2.step⟩
  induction ws generalizing m with
  | nil => exact .of_quiet_step (by rw [events, hm]; rfl) (.here (by rw [step, hm]))
  | cons w ws ih =>
    -- No getter is under way below a notification.
    have hidle : m.state.isRunning w = false := by
      have hflat := hq.flat
      rw [hm] at hflat
      cases hflat with
      | outside fs below =>
        have hmarks := hd.marks
        rw [hm, below.callStack_eq] at hmarks
        exact hmarks.idle w
    let below : List (Frame σ) := .pending ws :: rest
    have hstep : m.step = ({ m with stack := below } : Machine σ).enter w 0 := by
      rw [step, hm]
      show ({ m with stack := below } : Machine σ).request w = _
      rw [request_eq, if_neg (by rw [hidle]; exact Bool.false_ne_true)]
    have hentered : invoked m.events = [w] := by
      rw [events, hm]
      show invoked (m.requested w) = [w]
      rw [requested, hidle]
      rfl
    obtain ⟨hq', hd'⟩ := hsteps m ⟨hq, hd⟩
    have hgetter : m.step.Invokes [] (.leave w m.state.active 0 :: below) :=
      invokes_reading (hq.readOnly w) (by rw [hstep]; rfl)
    have hrest : m.step.Invokes ([] ++ ws) rest := by
      refine hgetter.bind hsteps ⟨hq', hd'⟩ fun k hk hstack => ?_
      obtain ⟨hevents, hleave⟩ := step_leave_of_clean hk.1.clean hstack
      obtain ⟨hq'', hd''⟩ := hsteps k hk
      exact .of_quiet_step (by rw [hevents]; rfl) (ih hq'' hd'' (by rw [hleave]; rfl))
    have hall := hrest.of_step
    rwa [hentered] at hall

/-! ## How often getters were entered -/

theorem count_invoked_requested (m : Machine σ) (x w : WatcherId) :
    (invoked (m.requested x)).count w = (m.requestTurns x w).count .entered := by
  rw [requested, requestTurns]
  by_cases hx : x = w
  · subst hx
    by_cases hrun : m.state.isRunning x <;> simp [hrun]
  · by_cases hrun : m.state.isRunning x <;> simp [hrun, hx]

/-- A watcher's getter is entered where it takes such a turn. -/
theorem count_invoked_events (m : Machine σ) (w : WatcherId) :
    (invoked m.events).count w = (m.turns w).count .entered := by
  rw [events, turns]
  cases hm : m.stack with
  | nil => rfl
  | cons f rest =>
    cases f with
    | body p =>
      cases p with
      | read reads next =>
        simp only [performed]
        split
        · rw [invoked_map_tracked]
          rfl
        · rfl
      | write o key v next =>
        simp only [performed]
        split <;> rfl
      | run x next => exact count_invoked_requested m x w
      | watch getter next =>
        show (invoked [.entered ⟨m.state.watchers.size⟩]).count w =
          (if w = ⟨m.state.watchers.size⟩ then [.entered] else [] : List Watcher.Turn).count .entered
        by_cases hw : w = ⟨m.state.watchers.size⟩ <;> simp [hw, eq_comm]
      | _ => rfl
    | leave x previous n =>
      show (invoked (m.left x n)).count w = (m.leaveTurns x n w).count .entered
      have hdirty : m.state.isDirty x = (m.state.watcher? x).any (·.dirty) := rfl
      rw [left, leaveTurns, ← hdirty]
      by_cases hx : x = w
      · subst hx
        by_cases hd : m.state.isDirty x <;> by_cases hn : n < maxReruns <;>
          simp [hd, hn]
      · by_cases hd : m.state.isDirty x <;> by_cases hn : n < maxReruns <;>
          simp [hd, hn, hx]
    | pending ws =>
      cases ws with
      | nil => rfl
      | cons x ws => exact count_invoked_requested m x w
    | adopt x next => rfl

theorem runs_foldl_after (ts : List Watcher.Turn) (y : Watcher.Progress) :
    (ts.foldl Watcher.Progress.after y).runs = y.runs + ts.count .entered := by
  induction ts generalizing y with
  | nil => rfl
  | cons t ts ih =>
    rw [List.foldl_cons, ih]
    cases t with
    | entered => simp [Watcher.Progress.after]; omega
    | asked | returned | failed => simp [Watcher.Progress.after]

/-- **The runs of a watcher are counted as its getter is entered.** -/
theorem runs_step (made : w.index < m.state.watchers.size)
    (calm : ∀ message, m.next? ≠ some (.panic message)) :
    m.step.state.runs w = m.state.runs w + (invoked m.events).count w := by
  have hprogress := progress?_step_of_lt made calm
  rw [progressAfter, State.progress?_of_lt made] at hprogress
  rw [State.runs_of_progress? hprogress, runs_foldl_after, count_invoked_events]

theorem Goes.runs (h : m.Goes new m') (hq : m.Quiet) (hd : m.Disciplined)
    (made : w.index < m.state.watchers.size) :
    m'.state.runs w = m.state.runs w + (invoked new).count w := by
  obtain ⟨n, rfl, rfl⟩ := h
  induction n generalizing m with
  | zero => rfl
  | succ n ih =>
    have hmade : w.index < m.step.state.watchers.size := Nat.lt_of_lt_of_le made (size_step hd.paired)
    rw [Function.iterate_succ_apply, ih (hq.step hd) hd.step hmade, runs_step made hq.calm, eventsIn,
      invoked_append, List.count_append, Nat.add_assoc]

end Machine

end LiveMarkup

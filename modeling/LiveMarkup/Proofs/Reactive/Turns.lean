import LiveMarkup.Proofs.Reactive.Discipline

/-!
# A watcher's turns

Of all that a machine does, a watcher is concerned by four things: its getter is entered, a run is asked
for while it is running, its getter returns, and a program gives up. How often it has run and how it is
marked is what these come to, one after another.

* `Watcher.Turn`, `Watcher.Progress`: what concerns a watcher, and what it changes.
* `Machine.turns`, `Machine.turnsIn`: what concerns a watcher in a step, and in so many steps.
* **`Machine.takes_turns`**: when there are such turns.
* **`Machine.progress?_step`**, `Machine.progress?_iterate`: a watcher's progress is that of its turns.
* **`Machine.exists_stack_step`**: the frames of a step lie on what was below the topmost one.
-/

namespace LiveMarkup

variable {σ : Type}

namespace Watcher

/-- What concerns a watcher in a step. -/
inductive Turn where
  /-- Its getter was entered. -/
  | entered
  /-- A run was asked for while it was running. -/
  | asked
  /-- Its getter returned. -/
  | returned
  /-- A program gave up. -/
  | failed
  deriving DecidableEq

/-- How often a watcher has run, and how it is marked. -/
structure Progress where
  runs : Nat
  running : Bool
  dirty : Bool
  deriving DecidableEq

def progress (x : Watcher) : Progress := ⟨x.runs, x.running, x.dirty⟩

/-- What a turn changes. A run that was asked for is forgotten when the getter returns, and only then. -/
def Progress.after (x : Progress) : Turn → Progress
  | .entered => { x with runs := x.runs + 1, running := true }
  | .asked => { x with dirty := true }
  | .returned => { x with running := false, dirty := false }
  | .failed => { x with running := false }

end Watcher

open Watcher

namespace State

variable {s : State σ} {w x : WatcherId}

def isDirty (s : State σ) (w : WatcherId) : Bool := (s.watcher? w).any (·.dirty)

def progress? (s : State σ) (w : WatcherId) : Option Progress := (s.watcher? w).map Watcher.progress

theorem isRunning_of_progress? {y : Progress} (h : s.progress? w = some y) : s.isRunning w = y.running := by
  obtain ⟨z, hz, rfl⟩ := Option.map_eq_some_iff.1 h
  rw [isRunning, hz]
  rfl

theorem isDirty_of_progress? {y : Progress} (h : s.progress? w = some y) : s.isDirty w = y.dirty := by
  obtain ⟨z, hz, rfl⟩ := Option.map_eq_some_iff.1 h
  rw [isDirty, hz]
  rfl

theorem runs_of_progress? {y : Progress} (h : s.progress? w = some y) : s.runs w = y.runs := by
  obtain ⟨z, hz, rfl⟩ := Option.map_eq_some_iff.1 h
  rw [runs, hz]
  rfl

/-- A watcher that exists has come somewhere. -/
theorem progress?_of_lt (hw : w.index < s.watchers.size) :
    s.progress? w = some ⟨s.runs w, s.isRunning w, s.isDirty w⟩ := by
  rw [progress?, runs, isRunning, isDirty, watcher?, Array.getElem?_eq_getElem hw]
  rfl

theorem lt_of_progress? {y : Progress} (h : s.progress? w = some y) : w.index < s.watchers.size := by
  obtain ⟨z, hz, -⟩ := Option.map_eq_some_iff.1 h
  exact (Array.getElem?_eq_some_iff.1 hz).1

/-- A turn of one watcher is taken. -/
theorem progress?_modifyWatcher {f : Watcher → Watcher} (t : Turn) (h : ∀ y, (f y).progress = y.progress.after t)
    (s : State σ) (w x : WatcherId) :
    (s.modifyWatcher w f).progress? x = if x = w then (s.progress? x).map (·.after t) else s.progress? x := by
  rw [progress?, watcher?_modifyWatcher, progress?]
  split
  · cases s.watcher? x with
    | none => rfl
    | some y => exact congrArg some (h y)
  · rfl

/-- Whether a watcher is kept is no matter. -/
theorem progress?_modifyWatcher_same (f : Watcher → Watcher) (h : ∀ y, (f y).progress = y.progress)
    (s : State σ) (w x : WatcherId) : (s.modifyWatcher w f).progress? x = s.progress? x := by
  rw [progress?, watcher?_modifyWatcher, progress?]
  split
  · cases s.watcher? x with
    | none => rfl
    | some y => exact congrArg some (h y)
  · rfl

end State

namespace Machine

variable {m m' : Machine σ} {w x : WatcherId} {p : Program σ} {rest base : List (Frame σ)}

/-! ## Turns -/

/-- What concerns a watcher where a run of another one, or of itself, is asked for. -/
def requestTurns (m : Machine σ) (x w : WatcherId) : List Turn :=
  if x = w then if m.state.isRunning w then [.asked] else [.entered] else []

/-- What concerns a watcher in a request of a program. -/
def performTurns (m : Machine σ) (w : WatcherId) : Program σ → List Turn
  | .panic _ => [.failed]
  | .run x _ => m.requestTurns x w
  | .watch _ _ => if w = ⟨m.state.watchers.size⟩ then [.entered] else []
  | _ => []

/-- What concerns a watcher where a getter returns. -/
def leaveTurns (m : Machine σ) (x : WatcherId) (reruns : Nat) (w : WatcherId) : List Turn :=
  if x = w then .returned :: if m.state.isDirty w && reruns < maxReruns then [.entered] else [] else []

/-- What concerns a watcher in the next step. -/
def turns (m : Machine σ) (w : WatcherId) : List Turn :=
  match m.stack with
  | .body p :: _ => m.performTurns w p
  | .leave x _ n :: _ => m.leaveTurns x n w
  | .pending (x :: _) :: _ => m.requestTurns x w
  | _ => []

/-- What concerns a watcher in so many steps. -/
def turnsIn : Nat → Machine σ → WatcherId → List Turn
  | 0, _, _ => []
  | n + 1, m, w => m.turns w ++ turnsIn n m.step w

theorem turnsIn_add (a b : Nat) (m : Machine σ) (w : WatcherId) :
    turnsIn (a + b) m w = turnsIn a m w ++ turnsIn b (step^[a] m) w := by
  induction a generalizing m with
  | zero => rw [Nat.zero_add]; rfl
  | succ a ih => rw [Nat.add_right_comm, turnsIn, ih, turnsIn, List.append_assoc]; rfl

theorem turnsIn_succ (n : Nat) (m : Machine σ) (w : WatcherId) :
    turnsIn (n + 1) m w = turnsIn n m w ++ (step^[n] m).turns w := by
  rw [turnsIn_add, turnsIn, turnsIn, List.append_nil]

/-- The turns that a watcher can take in a step, and when it takes them. -/
inductive Takes (m : Machine σ) (w : WatcherId) : List Turn → Prop where
  | nothing : Takes m w []
  | entered (idle : m.state.isRunning w = false) : Takes m w [.entered]
  | asked (running : m.state.isRunning w) : Takes m w [.asked]
  | returned (previous : Option WatcherId) (n : Nat) (rest : List (Frame σ))
      (stack : m.stack = .leave w previous n :: rest) : Takes m w [.returned]
  | again (previous : Option WatcherId) (n : Nat) (rest : List (Frame σ))
      (stack : m.stack = .leave w previous n :: rest) : Takes m w [.returned, .entered]
  | failed (message : String) (top : m.next? = some (.panic message)) : Takes m w [.failed]

theorem takes_requestTurns (m : Machine σ) (x w : WatcherId) : m.Takes w (m.requestTurns x w) := by
  unfold requestTurns
  split
  · split
    · next hrun => exact .asked hrun
    · next hidle => exact .entered (Bool.eq_false_iff.2 hidle)
  · exact .nothing

/-- **A step has no other turns.** -/
theorem takes_turns (m : Machine σ) (w : WatcherId) : m.Takes w (m.turns w) := by
  unfold turns
  cases hm : m.stack with
  | nil => exact .nothing
  | cons f rest =>
    cases f with
    | body p =>
      cases p with
      | panic message => exact .failed message (next?_of_stack hm)
      | run x next => exact takes_requestTurns m x w
      | watch getter next =>
        show m.Takes w (if w = ⟨m.state.watchers.size⟩ then [.entered] else [])
        split
        · next hw =>
          refine .entered ?_
          rw [hw, State.isRunning, State.watcher?, Array.getElem?_eq_none (Nat.le_refl _)]
          rfl
        · exact .nothing
      | _ => exact .nothing
    | leave x previous n =>
      show m.Takes w (m.leaveTurns x n w)
      unfold leaveTurns
      split
      · next hx =>
        subst hx
        split
        · exact .again previous n rest hm
        · exact .returned previous n rest hm
      · exact .nothing
    | pending ws =>
      cases ws with
      | nil => exact .nothing
      | cons x ws => exact takes_requestTurns m x w
    | adopt x next => exact .nothing

/-! ## Progress -/

theorem progress?_mark (m : Machine σ) (x w : WatcherId) :
    (m.mark x).state.progress? w =
      if w = x then (m.state.progress? w).map (·.after .asked) else m.state.progress? w :=
  State.progress?_modifyWatcher .asked (fun _ => rfl) m.state x w

theorem progress?_enter (m : Machine σ) (x w : WatcherId) (n : Nat) :
    (m.enter x n).state.progress? w =
      if w = x then (m.state.progress? w).map (·.after .entered) else m.state.progress? w :=
  State.progress?_modifyWatcher .entered (fun _ => rfl) m.state x w

theorem progress?_quit (m : Machine σ) (x w : WatcherId) (previous : Option WatcherId) :
    (m.quit x previous).state.progress? w =
      if w = x then (m.state.progress? w).map (·.after .returned) else m.state.progress? w :=
  State.progress?_modifyWatcher .returned (fun _ => rfl) m.state x w

/-- The progress of a watcher after some turns. -/
def progressAfter (m : Machine σ) (w : WatcherId) (ts : List Turn) : Option Progress :=
  (m.state.progress? w).map fun y => ts.foldl Progress.after y

theorem progressAfter_nil (m : Machine σ) (w : WatcherId) : m.progressAfter w [] = m.state.progress? w := by
  rw [progressAfter]
  exact congrFun Option.map_id _

theorem progressAfter_append (m : Machine σ) (w : WatcherId) (ts us : List Turn) :
    m.progressAfter w (ts ++ us) = (m.progressAfter w ts).map fun y => us.foldl Progress.after y := by
  rw [progressAfter, progressAfter, Option.map_map]
  exact congrArg (Option.map · _) (funext fun y => List.foldl_append)

theorem progress?_request (m : Machine σ) (x w : WatcherId) :
    (m.request x).state.progress? w = m.progressAfter w (m.requestTurns x w) := by
  by_cases hx : x = w
  · subst hx
    rw [request_eq, requestTurns, if_pos rfl]
    split
    · exact (progress?_mark m x x).trans (if_pos rfl)
    · exact (progress?_enter m x x 0).trans (if_pos rfl)
  · rw [request_eq, requestTurns, if_neg hx, progressAfter_nil]
    split
    · exact (progress?_mark m x w).trans (if_neg (Ne.symm hx))
    · exact (progress?_enter m x w 0).trans (if_neg (Ne.symm hx))

theorem progress?_leave (m : Machine σ) (x w : WatcherId) (previous : Option WatcherId) (n : Nat) :
    (m.leave x previous n).state.progress? w = m.progressAfter w (m.leaveTurns x n w) := by
  have hrerun : m.leave x previous n =
      if m.state.isDirty x && n < maxReruns then (m.quit x previous).enter x (n + 1)
      else m.quit x previous := leave_eq m x previous n
  by_cases hx : x = w
  · subst hx
    rw [hrerun, leaveTurns, if_pos rfl]
    split
    · rw [progress?_enter, if_pos rfl, progress?_quit, if_pos rfl, Option.map_map]
      rfl
    · rw [progress?_quit, if_pos rfl]
      rfl
  · rw [hrerun, leaveTurns, if_neg hx, progressAfter_nil]
    split
    · rw [progress?_enter, if_neg (Ne.symm hx), progress?_quit, if_neg (Ne.symm hx)]
    · rw [progress?_quit, if_neg (Ne.symm hx)]

/-- Where a watcher is made. -/
theorem progress?_push {s s' : State σ} {y : Watcher} (hs : s'.watchers = s.watchers.push y) (w : WatcherId) :
    s'.progress? w = if w = ⟨s.watchers.size⟩ then some y.progress else s.progress? w := by
  rw [State.progress?, State.watcher?_push hs]
  split <;> rfl

/-- A watcher that is made has been entered. -/
theorem progress?_watch (m : Machine σ) (getter : Program σ) (next : WatcherId → Program σ) (w : WatcherId) :
    (m.watch getter next).state.progress? w =
      if w = ⟨m.state.watchers.size⟩ then some ⟨1, true, false⟩ else m.state.progress? w := by
  have hmade : (m.withWatcher getter next).state.progress? w =
      if w = ⟨m.state.watchers.size⟩ then some ⟨0, false, false⟩ else m.state.progress? w :=
    progress?_push (s := m.state) (y := ⟨0, false, false, false⟩) rfl w
  rw [watch_eq, progress?_request]
  by_cases hw : w = ⟨m.state.watchers.size⟩
  · rw [if_pos hw] at hmade ⊢
    rw [requestTurns, if_pos hw.symm, State.isRunning_of_progress? hmade, progressAfter, hmade]
    rfl
  · rw [if_neg hw] at hmade ⊢
    rw [requestTurns, if_neg (Ne.symm hw), progressAfter_nil, hmade]

theorem progress?_perform (made : ∀ getter next, p = .watch getter next → w ≠ ⟨m.state.watchers.size⟩)
    (calm : ∀ message, p ≠ .panic message) :
    (m.perform p).state.progress? w = m.progressAfter w (m.performTurns w p) := by
  have hsame : m.progressAfter w [] = m.state.progress? w := progressAfter_nil m w
  cases p with
  | panic message => exact absurd rfl (calm message)
  | run x next => exact progress?_request (m.push (.body next)) x w
  | watch getter next =>
    have hne := made getter next rfl
    rw [performTurns, if_neg hne, hsame, perform, progress?_watch, if_neg hne]
  | release x next =>
    let release : Watcher → Watcher := fun y => { y with kept := false }
    exact (State.progress?_modifyWatcher_same release (fun _ => rfl) m.state x w).trans hsame.symm
  | read reads next =>
    refine Eq.trans ?_ hsame.symm
    rw [perform]
    split <;> rfl
  | write o key v next =>
    refine Eq.trans ?_ hsame.symm
    simp only [perform]
    split <;> rfl
  | done | look next | make draft next | edit change next | tell change next | notify d next =>
    exact hsame.symm

/-- **The progress of a watcher in a step is that of its turns**, unless it is made or the program gives
up. -/
theorem progress?_step (made : ∀ getter next, m.next? = some (.watch getter next) →
      w ≠ ⟨m.state.watchers.size⟩) (calm : ∀ message, m.next? ≠ some (.panic message)) :
    m.step.state.progress? w = m.progressAfter w (m.turns w) := by
  unfold turns
  rw [step]
  cases hm : m.stack with
  | nil => exact (progressAfter_nil m w).symm
  | cons f rest =>
    cases f with
    | body p =>
      refine progress?_perform (m := { m with stack := rest }) (fun getter next hp => ?_) fun message hp => ?_
      · exact made getter next (by rw [next?_of_stack hm, hp])
      · exact calm message (by rw [next?_of_stack hm, hp])
    | leave x previous n => exact progress?_leave { m with stack := rest } x w previous n
    | pending ws =>
      cases ws with
      | nil => exact (progressAfter_nil m w).symm
      | cons x ws => exact progress?_request { m with stack := .pending ws :: rest } x w
    | adopt x next =>
      let keep : Watcher → Watcher := fun y => { y with kept := true }
      refine (State.progress?_modifyWatcher_same keep (fun _ => rfl) m.state x w).trans ?_
      exact (progressAfter_nil m w).symm

theorem progress?_step_of_lt (hw : w.index < m.state.watchers.size)
    (calm : ∀ message, m.next? ≠ some (.panic message)) :
    m.step.state.progress? w = m.progressAfter w (m.turns w) :=
  progress?_step (fun _ _ _ he => Nat.ne_of_lt hw (congrArg WatcherId.index he)) calm

/-- **The progress of a watcher in so many steps is that of its turns**, unless a program gives up. -/
theorem progress?_iterate (hw : w.index < m.state.watchers.size) (n : Nat)
    (calm : ∀ i < n, ∀ message, (step^[i] m).next? ≠ some (.panic message)) :
    (step^[n] m).state.progress? w = m.progressAfter w (m.turnsIn n w) := by
  induction n with
  | zero => exact (progressAfter_nil m w).symm
  | succ n ih =>
    have hn := ih fun i hi => calm i (Nat.lt_succ_of_lt hi)
    have hmade : w.index < (step^[n] m).state.watchers.size := by
      rw [progressAfter, State.progress?_of_lt hw] at hn
      exact State.lt_of_progress? hn
    rw [Function.iterate_succ_apply', progress?_step_of_lt hmade (calm n (Nat.lt_succ_self n)), progressAfter, hn,
      turnsIn_succ, progressAfter_append]

/-! ## Frames -/

/-- Frames put on a stack where a run is asked for. -/
theorem exists_stack_request (m : Machine σ) (x w : WatcherId) :
    ∃ new, (m.request x).stack = new ++ m.stack ∧
      ∀ f ∈ new, f.leaves? = some w → .entered ∈ m.requestTurns x w := by
  rw [request_eq, requestTurns]
  split
  · exact ⟨[], rfl, fun _ hf => absurd hf List.not_mem_nil⟩
  · next hidle =>
    refine ⟨[.body (m.getter x), .leave x m.state.active 0], rfl, fun f hf hw => ?_⟩
    rcases List.mem_pair.1 hf with rfl | rfl
    · cases hw
    · obtain rfl := Option.some.inj hw
      rw [if_pos rfl, if_neg hidle]
      exact List.mem_singleton_self _

/-- Frames among which no run ends. -/
theorem no_leaves {new : List (Frame σ)} (h : ∀ f ∈ new, f.leaves? = none) {P : Prop} :
    ∀ f ∈ new, f.leaves? = some w → P := fun f hf hw => by
  rw [h f hf] at hw
  cases hw

/-- So it is with one more frame, in which no run ends. -/
theorem leaves_append {new : List (Frame σ)} {g : Frame σ} {P : Prop}
    (h : ∀ f ∈ new, f.leaves? = some w → P) (hg : g.leaves? = none) :
    ∀ f ∈ new ++ [g], f.leaves? = some w → P := fun f hf hw => by
  rcases List.mem_append.1 hf with hf | hf
  · exact h f hf hw
  · rw [List.mem_singleton.1 hf, hg] at hw
    cases hw

theorem exists_stack_perform (calm : ∀ message, p ≠ .panic message) (w : WatcherId) :
    ∃ new, (m.perform p).stack = new ++ m.stack ∧
      ∀ f ∈ new, f.leaves? = some w → .entered ∈ m.performTurns w p := by
  cases p with
  | panic message => exact absurd rfl (calm message)
  | done => exact ⟨[], rfl, no_leaves (by simp)⟩
  | read reads next =>
    refine ⟨[.body (next m.state.heap)], ?_, no_leaves (by simp [Frame.leaves?])⟩
    rw [perform]
    split <;> rfl
  | write o key v next =>
    simp only [perform]
    split
    · exact ⟨[.pending _, .body next], rfl, no_leaves (by simp [Frame.leaves?])⟩
    · exact ⟨[.body next], rfl, no_leaves (by simp [Frame.leaves?])⟩
  | notify d next => exact ⟨[.pending _, .body next], rfl, no_leaves (by simp [Frame.leaves?])⟩
  | run x next =>
    obtain ⟨new, hstack, hnew⟩ := exists_stack_request (m.push (.body next)) x w
    exact ⟨new ++ [.body next], by rw [List.append_assoc]; exact hstack, leaves_append hnew rfl⟩
  | watch getter next =>
    obtain ⟨new, hstack, hnew⟩ :=
      exists_stack_request (m.withWatcher getter next) ⟨m.state.watchers.size⟩ w
    refine ⟨new ++ [.adopt ⟨m.state.watchers.size⟩ next], by rw [List.append_assoc]; exact hstack,
      leaves_append (fun f hf hw => ?_) rfl⟩
    have hentered := hnew f hf hw
    rw [requestTurns] at hentered
    split at hentered
    · next he =>
      rw [performTurns, if_pos he.symm]
      exact List.mem_singleton_self _
    · exact absurd hentered List.not_mem_nil
  | look next | make draft next | edit change next | tell change next | release x next =>
    exact ⟨[.body _], rfl, no_leaves (by simp [Frame.leaves?])⟩

/-- **A step exchanges the topmost frame for others**, unless the program gives up. An end of a run is among
them only if its getter was entered. -/
theorem exists_stack_step {f : Frame σ} (hm : m.stack = f :: rest)
    (calm : ∀ message, m.next? ≠ some (.panic message)) (w : WatcherId) :
    ∃ new, m.step.stack = new ++ rest ∧ ∀ g ∈ new, g.leaves? = some w → .entered ∈ m.turns w := by
  have hturns : m.turns w = ({ m with stack := f :: rest } : Machine σ).turns w := by rw [turns, hm]; rfl
  rw [hturns, step, hm]
  cases f with
  | body p =>
    refine exists_stack_perform (m := { m with stack := rest }) (fun message hp => calm message ?_) w
    rw [next?_of_stack hm, hp]
  | leave x previous n =>
    show ∃ new, ({ m with stack := rest }.leave x previous n).stack = new ++ rest ∧
      ∀ g ∈ new, g.leaves? = some w → .entered ∈ m.leaveTurns x n w
    rw [leave_eq]
    split
    · next hrerun =>
      refine ⟨[.body (m.getter x), .leave x previous (n + 1)], rfl, fun g hg hw => ?_⟩
      rcases List.mem_pair.1 hg with rfl | rfl
      · cases hw
      · obtain rfl := Option.some.inj hw
        have hagain : (m.state.isDirty x && decide (n < maxReruns)) = true := hrerun
        rw [leaveTurns, if_pos rfl, if_pos hagain]
        exact List.mem_cons_of_mem _ (List.mem_singleton_self _)
    · exact ⟨[], rfl, no_leaves (by simp)⟩
  | pending ws =>
    cases ws with
    | nil => exact ⟨[], rfl, no_leaves (by simp)⟩
    | cons x ws =>
      obtain ⟨new, hstack, hnew⟩ := exists_stack_request { m with stack := .pending ws :: rest } x w
      exact ⟨new ++ [.pending ws], by rw [List.append_assoc]; exact hstack, leaves_append hnew rfl⟩
  | adopt x next => exact ⟨[.body (next x)], rfl, no_leaves (by simp [Frame.leaves?])⟩

end Machine

end LiveMarkup

import LiveMarkup.Proofs.Reactive.Termination

/-!
# The discipline of runs

However programs run, make and notify watchers within one another's getters, and wherever they give up,
the active watcher is that of the innermost getter under way, and the watchers that are marked as running
are those whose getters are under way, each one once.

* `Machine.callStack`: the watchers whose getters are under way.
* `State.Marks`: a state whose active watcher and running marks are those of a call stack.
* `Machine.Chained`: every run remembers the watcher that was active before it.
* `Machine.Steady`, `Machine.Disciplined`: the discipline, without and with a run of a watcher that does
  not exist.
* **`Disciplined.step`**, **`Disciplined.unwind`**: steps keep it up, and so does giving up, to any depth.
* **`History.discipline`**: so it holds at every point, and operations leave things as they found them.
-/

namespace LiveMarkup

variable {σ : Type}

/-- The active watcher is the innermost of a call stack, and the watchers marked as running are those on
it. -/
structure State.Marks (s : State σ) (calls : List WatcherId) : Prop where
  active : s.active = calls.head?
  running : ∀ w, w.index < s.watchers.size → (s.isRunning w ↔ w ∈ calls)

theorem State.lt_of_isRunning {s : State σ} {w : WatcherId} (h : s.isRunning w) :
    w.index < s.watchers.size := by
  refine Nat.lt_of_not_le fun hle => ?_
  rw [isRunning, watcher?, Array.getElem?_eq_none hle] at h
  cases h

/-- A change of a watcher that does not exist changes nothing. -/
theorem State.modifyWatcher_of_none {s : State σ} {w : WatcherId} (h : s.watcher? w = none)
    (f : Watcher → Watcher) : s.modifyWatcher w f = s := by
  have hsame : s.watchers.modify w.index f = s.watchers := by
    refine Array.ext (by simp) fun i hi hi' => ?_
    have hne : w.index ≠ i := by
      rintro rfl
      rw [State.watcher?, Array.getElem?_eq_getElem hi'] at h
      cases h
    rw [Array.getElem_modify, if_neg hne]
  rw [State.modifyWatcher, hsame]

namespace Machine

variable {m m' k : Machine σ} {w x : WatcherId} {rest top : List (Frame σ)} {previous : Option WatcherId}
  {n : Nat} {p : Program σ}

/-- The watchers whose getters are under way in a stack of frames, innermost first. -/
def callStack (fs : List (Frame σ)) : List WatcherId := fs.filterMap Frame.leaves?

/-- Every run on a stack remembers the watcher that was active before it: that of the run below. -/
def Chained : Option WatcherId → List (Frame σ) → Prop
  | active, [] => active = none
  | active, .leave w previous _ :: rest => active = some w ∧ Chained previous rest
  | active, .body _ :: rest => Chained active rest
  | active, .pending _ :: rest => Chained active rest
  | active, .adopt _ _ :: rest => Chained active rest

theorem Chained.eq_head {active : Option WatcherId} {fs : List (Frame σ)} (h : Chained active fs) :
    active = (callStack fs).head? := by
  induction fs with
  | nil => exact h
  | cons f fs ih =>
    cases f with
    | leave w previous n => exact h.1
    | body p => exact ih h
    | pending ws => exact ih h
    | adopt w next => exact ih h

/-! ## Between requests -/

/-- The runs under way are of watchers that exist, each one once, which are those marked as running. -/
structure Steady (m : Machine σ) : Prop where
  paired : m.getters.size = m.state.watchers.size
  chained : Chained m.state.active m.stack
  nodup : (callStack m.stack).Nodup
  running : ∀ w, m.state.isRunning w ↔ w ∈ callStack m.stack

namespace Steady

theorem marks (h : m.Steady) : m.state.Marks (callStack m.stack) :=
  ⟨h.chained.eq_head, fun w _ => h.running w⟩

theorem made (h : m.Steady) (hw : w ∈ callStack m.stack) : w.index < m.state.watchers.size :=
  State.lt_of_isRunning ((h.running w).2 hw)

/-- Only frames that are no ends of runs are exchanged, and no mark is changed. -/
theorem of_eq (h : m.Steady) (paired : m'.getters.size = m'.state.watchers.size)
    (active : m'.state.active = m.state.active)
    (isRunning : ∀ w, m'.state.isRunning w = m.state.isRunning w)
    (chained : Chained m.state.active m.stack → Chained m.state.active m'.stack)
    (calls : callStack m'.stack = callStack m.stack) : m'.Steady where
  paired := paired
  chained := active ▸ chained h.chained
  nodup := calls ▸ h.nodup
  running w := by rw [isRunning, calls, h.running]

/-- A run has ended, or was given up: its watcher is not marked any more, and the one before it is
active. -/
theorem ends (h : m.Steady) (hm : m.stack = .leave w previous n :: rest) (f : Watcher → Watcher)
    (hf : ∀ x, (f x).running = false) :
    Steady { m with
      state := { m.state.modifyWatcher w f with active := previous }
      stack := rest } := by
  obtain ⟨paired, chained, nodup, running⟩ := h
  rw [hm] at chained nodup running
  obtain ⟨hout, hrest⟩ := List.nodup_cons.1 nodup
  refine ⟨paired.trans Array.size_modify.symm, chained.2, hrest, fun x => ?_⟩
  show (m.state.modifyWatcher w f).isRunning x ↔ x ∈ callStack rest
  by_cases hx : x = w
  · subst hx
    rw [State.isRunning, State.watcher?_modifyWatcher, if_pos rfl]
    refine iff_of_false ?_ hout
    cases m.state.watcher? x with
    | none => exact Bool.false_ne_true
    | some y => simp [hf]
  · rw [State.isRunning_modifyWatcher_of_ne f hx, running]
    exact List.mem_cons.trans (or_iff_right hx)

/-- A frame that is no end of a run is taken away. -/
theorem pops {f : Frame σ} (h : m.Steady) (hm : m.stack = f :: rest) (hf : f.leaves? = none) :
    Steady { m with stack := rest } := by
  refine h.of_eq h.paired rfl (fun _ => rfl) (fun hc => ?_) ?_
  · rw [hm] at hc
    cases f with
    | leave w previous n => cases hf
    | body p | pending ws | adopt w next => exact hc
  · rw [hm]
    exact (List.filterMap_cons_none hf).symm

/-- Runs are given up, to any depth of the stack. -/
theorem unwind (h : m.Steady) (hm : m.stack = top ++ rest) :
    Steady { m with state := unwind m.state top, stack := rest } := by
  induction top generalizing m with
  | nil =>
    obtain ⟨state, getters, stack, fault⟩ := m
    cases hm
    exact h
  | cons f top ih =>
    cases f with
    | leave w previous n =>
      exact ih (h.ends hm (fun x => { x with running := false }) fun _ => rfl) rfl
    | body p | pending ws | adopt w next =>
      have hpopped : Steady { m with stack := top ++ rest } := h.pops hm rfl
      exact ih (m := { m with stack := top ++ rest }) hpopped rfl

end Steady

/-! ## Runs of watchers that do not exist -/

/-- The discipline. A run may be asked for of a watcher that does not exist; it is the innermost one and
does nothing. -/
inductive Disciplined (m : Machine σ) : Prop where
  | steady (h : m.Steady)
  | vain (w : WatcherId) (previous : Option WatcherId) (n : Nat) (rest : List (Frame σ))
      (none : m.state.watcher? w = none) (active : m.state.active = some w)
      (stack : m.stack = .body .done :: .leave w previous n :: rest ∨
        m.stack = .leave w previous n :: rest)
      (below : Steady { m with state := { m.state with active := previous }, stack := rest })

/-- A watcher that is not running is entered. -/
theorem Steady.enter (h : m.Steady) (hidle : m.state.isRunning w = false) (n : Nat) :
    (m.enter w n).Disciplined := by
  have hout : w ∉ callStack m.stack := fun hw => by
    have hrun := (h.running w).2 hw
    rw [hidle] at hrun
    cases hrun
  cases hw : m.state.watcher? w with
  | some y =>
    have hlt : w.index < m.state.watchers.size := (Array.getElem?_eq_some_iff.1 hw).1
    refine .steady ⟨h.paired.trans (size_enter m w n).symm, ⟨rfl, h.chained⟩,
      List.nodup_cons.2 ⟨hout, h.nodup⟩, fun x => ?_⟩
    show _ ↔ x ∈ w :: callStack m.stack
    by_cases hx : x = w
    · rw [hx]
      exact iff_of_true (isRunning_enter_self hlt) List.mem_cons_self
    · rw [isRunning_enter hx, h.running]
      exact (List.mem_cons.trans (or_iff_right hx)).symm
  | none =>
    have hle : m.state.watchers.size ≤ w.index := Array.getElem?_eq_none_iff.1 hw
    have hgetter : m.getter w = .done := by
      rw [Machine.getter, Array.getElem?_eq_none (h.paired ▸ hle)]
      rfl
    have henter : m.enter w n =
        { m with
          state := { m.state with active := some w }
          stack := .body .done :: .leave w m.state.active n :: m.stack } := by
      rw [Machine.enter, State.modifyWatcher_of_none hw, hgetter]
    rw [henter]
    exact .vain w m.state.active n m.stack hw rfl (.inl rfl) h

/-- A run is asked for. -/
theorem Steady.request (h : m.Steady) (w : WatcherId) : (m.request w).Disciplined := by
  rw [Machine.request]
  split
  · refine .steady (h.of_eq (h.paired.trans Array.size_modify.symm) rfl (fun x => ?_) id rfl)
    exact State.any_modifyWatcher (fun x => { x with dirty := true }) Watcher.running (fun _ => rfl) _ w x
  · next hidle => exact h.enter (Bool.eq_false_iff.2 hidle) 0

/-- A watcher is made and entered. -/
theorem Steady.watch (h : m.Steady) (getter : Program σ) (next : WatcherId → Program σ) :
    (m.watch getter next).Disciplined := by
  have hmade : (m.withWatcher getter next).Steady := by
    refine h.of_eq ?_ rfl isRunning_withWatcher id rfl
    rw [withWatcher, Array.size_push, Array.size_push, h.paired]
  exact hmade.request _

/-- A getter has returned. -/
theorem Steady.leave (h : m.Steady) (hm : m.stack = .leave w previous n :: rest) :
    ({ m with stack := rest }.leave w previous n).Disciplined := by
  have hquit := h.ends hm (fun x => { x with running := false, dirty := false }) fun _ => rfl
  rw [leave_eq]
  split
  · exact hquit.enter (isRunning_quit_self _ w previous) (n + 1)
  · exact .steady hquit

/-- A program goes on, and a watcher is kept from now on, or no longer. -/
theorem Steady.keeps {f : Frame σ} (h : m.Steady) (hm : m.stack = f :: rest) (hf : f.leaves? = none)
    (w : WatcherId) (kept : Bool) (q : Program σ) : Steady
      { m with
        state := m.state.modifyWatcher w fun x => { x with kept := kept }
        stack := .body q :: rest } := by
  refine (h.pops hm hf).of_eq (h.paired.trans Array.size_modify.symm) rfl (fun x => ?_) id rfl
  exact State.any_modifyWatcher (fun x => { x with kept := kept }) Watcher.running (fun _ => rfl) _ w x

/-- A move between requests. -/
theorem Steady.moves (h : m.Steady) (hk : m.Moves k) : k.Disciplined := by
  cases hk with
  | rests stack => exact .steady h
  | ends rest stack | settles rest stack => exact .steady (h.pops stack rfl)
  | panics message rest stack =>
    have hunwound := (h.pops stack rfl).unwind (List.append_nil rest).symm
    exact .steady (hunwound.of_eq hunwound.paired rfl (fun _ => rfl) id rfl)
  | goes p q rest heap stack follows =>
    exact .steady ((h.pops stack rfl).of_eq h.paired rfl (fun _ => rfl) id rfl)
  | tells change next rest stack =>
    exact .steady ((h.pops stack rfl).of_eq h.paired rfl (fun _ => rfl) id rfl)
  | notifies p q rest heap ws stack follows =>
    exact .steady ((h.pops stack rfl).of_eq h.paired rfl (fun _ => rfl) id rfl)
  | runs w next rest stack =>
    have hgoes : Steady { m with stack := .body next :: rest } :=
      (h.pops stack rfl).of_eq h.paired rfl (fun _ => rfl) id rfl
    exact hgoes.request w
  | watches getter next rest stack => exact (h.pops stack rfl).watch getter next
  | releases w next rest stack => exact .steady (h.keeps stack rfl w false next)
  | leaves w previous n rest stack => exact h.leave stack
  | serves w ws rest stack =>
    have hpending : Steady { m with stack := .pending ws :: rest } :=
      (h.pops stack rfl).of_eq h.paired rfl (fun _ => rfl) id rfl
    exact hpending.request w
  | adopts w next rest stack => exact .steady (h.keeps stack rfl w true (next w))

/-- **A step keeps the discipline up.** -/
theorem Disciplined.step (h : m.Disciplined) : m.step.Disciplined := by
  cases h with
  | steady h => exact h.moves m.moves_step
  | vain w previous n rest none active stack below =>
    rcases stack with stack | stack
    · rw [Machine.step, stack]
      exact .vain w previous n rest none active (.inr rfl) below
    · rw [Machine.step, stack]
      show ({ m with stack := rest }.leave w previous n).Disciplined
      rw [leave_eq]
      have hquit : ({ m with stack := rest }.quit w previous) =
          { m with state := { m.state with active := previous }, stack := rest } := by
        rw [Machine.quit, State.modifyWatcher_of_none none]
      rw [if_neg (by rw [none]; simp), hquit]
      exact .steady below

/-- **Giving up keeps it up**, to any depth of the stack. -/
theorem Disciplined.unwind (h : m.Disciplined) (hm : m.stack = top ++ rest) :
    Disciplined { m with state := Machine.unwind m.state top, stack := rest } := by
  cases h with
  | steady h => exact .steady (h.unwind hm)
  | vain w previous n below none active stack hbelow =>
    -- The end of the run on top is given up, or it is not.
    have hends : ∀ top, .leave w previous n :: below = top ++ rest →
        Disciplined { m with state := Machine.unwind m.state top, stack := rest } := by
      intro top hm
      cases top with
      | nil => exact .vain w previous n below none active (.inr hm.symm) hbelow
      | cons f top =>
        obtain ⟨rfl, htail⟩ := List.cons.inj hm
        rw [Machine.unwind, State.modifyWatcher_of_none none]
        exact .steady (hbelow.unwind htail)
    rcases stack with stack | stack
    · cases top with
      | nil =>
        exact .vain w previous n below none active (.inl (hm.symm.trans stack)) hbelow
      | cons f top =>
        obtain ⟨rfl, htail⟩ := List.cons.inj (stack.symm.trans hm)
        exact hends top htail
    · exact hends top (stack.symm.trans hm)

theorem Disciplined.paired (h : m.Disciplined) : m.getters.size = m.state.watchers.size := by
  cases h with
  | steady h => exact h.paired
  | vain w previous n rest none active stack below => exact below.paired

/-- The heap, the host and the fault play no part in it. -/
theorem Disciplined.of_eq (h : m.Disciplined) (getters : m'.getters = m.getters)
    (watchers : m'.state.watchers = m.state.watchers) (active : m'.state.active = m.state.active)
    (stack : m'.stack = m.stack) : m'.Disciplined := by
  have hrunning : ∀ (s s' : State σ), s'.watchers = s.watchers → ∀ w, s'.isRunning w = s.isRunning w :=
    fun s s' hs w => by rw [State.isRunning, State.watcher?, hs]; rfl
  have hpaired : m'.getters.size = m'.state.watchers.size := by rw [getters, watchers, h.paired]
  cases h with
  | steady h =>
    refine .steady (h.of_eq hpaired active (hrunning _ _ watchers) ?_ ?_) <;> rw [stack]
    exact id
  | vain w previous n rest none active' stack' below =>
    refine .vain w previous n rest ?_ (active.trans active') (stack ▸ stack') ?_
    · rw [State.watcher?, watchers]
      exact none
    · exact below.of_eq hpaired rfl (hrunning _ _ watchers) id rfl

theorem Disciplined.steady_at_rest (h : m.Disciplined) (rest : m.stack = []) : m.Steady := by
  cases h with
  | steady h => exact h
  | vain w previous n below none active stack hbelow =>
    rw [rest] at stack
    rcases stack with stack | stack <;> cases stack

/-- A program is given to a machine at rest. -/
theorem Disciplined.asked (h : m.Disciplined) (rest : m.stack = []) (p : Program σ) :
    (m.asked p).Disciplined := by
  refine .steady ((h.steady_at_rest rest).of_eq h.paired rfl (fun _ => rfl) ?_ ?_) <;> rw [rest]
  · exact id
  · rfl

/-- A watcher was made in the meantime, and has run. -/
theorem Disciplined.push (h : m.Disciplined) (rest : m.stack = []) {y : Watcher} (hy : y.running = false)
    {getter : Program σ} (getters : m'.getters = m.getters.push getter)
    (watchers : m'.state.watchers = m.state.watchers.push y) (active : m'.state.active = m.state.active)
    (rest' : m'.stack = []) : m'.Disciplined := by
  refine .steady ((h.steady_at_rest rest).of_eq ?_ active (State.isRunning_push watchers hy) ?_ ?_)
  · rw [getters, watchers, Array.size_push, Array.size_push, h.paired]
  · rw [rest, rest']
    exact id
  · rw [rest, rest']

theorem disciplined_start (host : σ) : (start host).Disciplined :=
  .steady ⟨rfl, rfl, List.nodup_nil, fun _ => iff_of_false Bool.false_ne_true List.not_mem_nil⟩

theorem Disciplined.callStack_nodup (h : m.Disciplined) : (callStack m.stack).Nodup := by
  cases h with
  | steady h => exact h.nodup
  | vain w previous n rest none active stack below =>
    have hcalls : callStack m.stack = w :: callStack rest := by
      rcases stack with stack | stack <;> rw [stack] <;> rfl
    have hout : w ∉ callStack rest := fun hw =>
      absurd (below.made hw) (Nat.not_lt_of_le (Array.getElem?_eq_none_iff.1 none))
    rw [hcalls]
    exact List.nodup_cons.2 ⟨hout, below.nodup⟩

theorem Disciplined.marks (h : m.Disciplined) : m.state.Marks (callStack m.stack) := by
  cases h with
  | steady h => exact h.marks
  | vain w previous n rest none active stack below =>
    have hcalls : callStack m.stack = w :: callStack rest := by
      rcases stack with stack | stack <;> rw [stack] <;> rfl
    rw [hcalls]
    refine ⟨active, fun x hx => ?_⟩
    have hne : x ≠ w := by
      rintro rfl
      exact absurd hx (Nat.not_lt_of_le (Array.getElem?_eq_none_iff.1 none))
    exact (below.running x).trans (List.mem_cons.trans (or_iff_right hne)).symm

theorem lt_iterate (hw : w.index < m.getters.size) (k : Nat) :
    w.index < (Machine.step^[k] m).getters.size := by
  induction k generalizing m with
  | zero => exact hw
  | succ k ih => exact ih (getter_step hw).1

end Machine

/-- The marks of a call stack tell which watchers are running. -/
theorem State.Marks.isRunning_eq {s s' : State σ} {calls : List WatcherId} {w : WatcherId}
    (h : s.Marks calls) (h' : s'.Marks calls) (hw : w.index < s.watchers.size)
    (hw' : w.index < s'.watchers.size) : s'.isRunning w = s.isRunning w :=
  Bool.eq_iff_iff.2 ((h'.running w hw').trans (h.running w hw).symm)

/-- Nothing runs where no getter is under way. -/
theorem State.Marks.idle {s : State σ} (h : s.Marks []) (w : WatcherId) : s.isRunning w = false := by
  refine Bool.eq_false_iff.2 fun hrun => ?_
  exact List.not_mem_nil ((h.running w (State.lt_of_isRunning hrun)).1 hrun)

open Machine

/-- Whatever is asked of a machine, every step of it keeps the discipline up. -/
theorem History.disciplined {host : σ} {m : Machine σ} {es : List Event} (h : History host m es) :
    m.Disciplined := by
  induction h with
  | start => exact disciplined_start host
  | perform m es p before rest ih => exact ih.asked rest p
  | step m es before ih => exact ih.step

theorem History.iterate {host : σ} {m : Machine σ} {es : List Event} (h : History host m es) (k : Nat) :
    ∃ es', History host (Machine.step^[k] m) es' := by
  induction k generalizing m es with
  | zero => exact ⟨es, h⟩
  | succ k ih => exact ih (h.step m es)

/-- **The discipline of runs.** At every point of whatever programs do on a machine, the active watcher
is the one whose getter was entered last of those under way, the watchers that are running are those
whose getters are under way, and none of these is under way twice. Should the program give up there, then
so it is for what remains of the stack, however much of it is unwound. Where the same getters are under
way as before, as after a request was served in a getter, the active watcher and the running ones are as
before. And so they are where all that was asked of a machine at rest has returned or given up. -/
theorem History.discipline {host : σ} {m : Machine σ} {es : List Event} (h : History host m es) :
    m.state.Marks (callStack m.stack) ∧ (callStack m.stack).Nodup ∧
    (∀ top rest, m.stack = top ++ rest → (unwind m.state top).Marks (callStack rest)) ∧
    (∀ k, callStack (Machine.step^[k] m).stack = callStack m.stack →
      (Machine.step^[k] m).state.active = m.state.active ∧
      ∀ w, w.index < m.state.watchers.size →
        (Machine.step^[k] m).state.isRunning w = m.state.isRunning w) ∧
    (m.stack = [] → ∀ p m', exec (m.asked p) = some m' →
      m'.state.active = m.state.active ∧ ∀ w, m'.state.isRunning w = m.state.isRunning w) := by
  have hm := h.disciplined
  refine ⟨hm.marks, hm.callStack_nodup, fun top rest hstack => (hm.unwind hstack).marks,
    fun k hcalls => ?_, fun rest p m' hexec => ?_⟩
  · obtain ⟨es', hk⟩ := h.iterate k
    have hmarks := hk.disciplined.marks
    rw [hcalls] at hmarks
    refine ⟨hmarks.active.trans hm.marks.active.symm, fun w hw => hm.marks.isRunning_eq hmarks hw ?_⟩
    rw [← h.paired] at hw
    rw [← hk.paired]
    exact lt_iterate hw k
  · obtain ⟨⟨es', hm'⟩, hrest⟩ := exec_preserves (P := fun k => ∃ es', History host k es')
      (fun k ⟨es', hk⟩ => ⟨_, hk.step k es'⟩) ⟨es, h.perform m es p rest⟩ hexec
    have hmarks := hm.marks
    have hmarks' := hm'.disciplined.marks
    rw [rest] at hmarks
    rw [hrest] at hmarks'
    exact ⟨hmarks'.active.trans hmarks.active.symm, fun w => (hmarks'.idle w).trans (hmarks.idle w).symm⟩

/-- A watcher is to be made whose getter makes another, whose getter gives up. -/
def Program.failingWithin : Program Unit :=
  .watch (.watch (.panic "no") fun _ => .done) fun _ => .done

/-- The machine where the inner getter is about to give up. -/
def Machine.failingWithin : Machine Unit × List Event :=
  trace 2 ((Machine.start ()).asked .failingWithin) []

/-- There the inner getter's watcher is the active one, and both are running. Afterwards no watcher is. -/
theorem History.discipline_failingWithin :
    callStack Machine.failingWithin.1.stack = [⟨1⟩, ⟨0⟩] ∧
      Machine.failingWithin.1.state.active = some ⟨1⟩ ∧
      (∀ w, w.index < 2 → Machine.failingWithin.1.state.isRunning w) ∧
      ∃ m', exec ((Machine.start ()).asked .failingWithin) = some m' ∧ m'.fault = some "no" ∧
        m'.state.active = none ∧ ∀ w, m'.state.isRunning w = false := by
  have hstart : History () (Machine.start ()) [] := .start
  have hhistory : History () Machine.failingWithin.1 Machine.failingWithin.2 :=
    (hstart.perform (Machine.start ()) [] .failingWithin rfl).trace 2
  obtain ⟨hmarks, -⟩ := hhistory.discipline
  obtain ⟨-, -, -, -, hreturn⟩ := hstart.discipline
  have hcalls : callStack Machine.failingWithin.1.stack = [⟨1⟩, ⟨0⟩] := by cbv
  have hsize : Machine.failingWithin.1.state.watchers.size = 2 := by cbv
  rw [hcalls] at hmarks
  have hexec := exec_iterate (k := 9) (m := (Machine.start ()).asked .failingWithin) rfl
  refine ⟨hcalls, hmarks.active, fun w hw => ?_, _, hexec, rfl, ?_⟩
  · obtain ⟨i⟩ := w
    refine (hmarks.running ⟨i⟩ (by rwa [hsize])).2 ?_
    have hcase : i = 0 ∨ i = 1 := by
      have : i < 2 := hw
      omega
    rcases hcase with rfl | rfl <;> decide
  · exact hreturn rfl .failingWithin _ hexec

end LiveMarkup

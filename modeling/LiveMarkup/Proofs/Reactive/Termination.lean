import Mathlib.Data.List.Permutation
import Mathlib.Data.Finset.Card
import LiveMarkup.Proofs.Reactive.Nesting

/-!
# The end of all runs

Watchers may keep running one another and themselves, and still everything that is set off comes to its
end: a getter is entered only of a watcher that is not running, and of those there are fewer then; and
its reruns are limited.

* `State.idle`: the watchers that are not running, the measure of what may still be nested.
* `Machine.Comes`, `Machine.Returns`: what comes to its end.
* **`Machine.comes_of_enter`**: a run with its reruns, if all that is nested in it comes to its end.
* **`Machine.returns_of_nested`**: programs, by induction on the idle watchers.
* **`History.terminates`**: whatever is asked of a machine of modest getters comes to its end.
-/

namespace LiveMarkup

variable {σ : Type}

/-- The watchers that are not running. -/
def State.idle (s : State σ) : Finset Nat :=
  (Finset.range s.watchers.size).filter fun i => s.isRunning ⟨i⟩ = false

theorem State.runs_of_le {s : State σ} {w : WatcherId} (h : s.watchers.size ≤ w.index) :
    s.runs w = 0 := by
  rw [runs, watcher?, Array.getElem?_eq_none h]

namespace Machine

variable {m m' k : Machine σ} {w x : WatcherId} {p : Program σ} {rest mid : List (Frame σ)} {n : Nat}

theorem Settles.idle (hs : m.Settles m') : m'.state.idle = m.state.idle := by
  unfold State.idle
  simp only [hs.size, hs.isRunning]

/-- A watcher that is entered is idle no longer. -/
theorem idle_enter_ssubset (hw : w.index < m.state.watchers.size) (hidle : m.state.isRunning w = false)
    (n : Nat) : (m.enter w n).state.idle ⊂ m.state.idle := by
  refine (Finset.ssubset_iff_of_subset fun i hi => ?_).2 ⟨w.index, ?_, fun hi => ?_⟩
  · obtain ⟨hlt, hrun⟩ := Finset.mem_filter.1 hi
    have hne : (⟨i⟩ : WatcherId) ≠ w := by
      rintro rfl
      rw [isRunning_enter_self hw] at hrun
      cases hrun
    rw [size_enter] at hlt
    rw [isRunning_enter hne] at hrun
    exact Finset.mem_filter.2 ⟨hlt, hrun⟩
  · exact Finset.mem_filter.2 ⟨Finset.mem_range.2 hw, hidle⟩
  · have hrun := (Finset.mem_filter.1 hi).2
    rw [isRunning_enter_self hw] at hrun
    cases hrun

/-! ## Coming to an end -/

/-- The machine that another is after some steps. -/
def Comes (m m' : Machine σ) : Prop := ∃ k, step^[k] m = m'

theorem Comes.refl (m : Machine σ) : m.Comes m := ⟨0, rfl⟩

theorem Comes.of_step (h : m.step.Comes m') : m.Comes m' := by
  obtain ⟨k, hk⟩ := h
  exact ⟨k + 1, hk⟩

theorem Comes.trans (h : m.Comes m') (h' : m'.Comes k) : m.Comes k := by
  obtain ⟨i, rfl⟩ := h
  obtain ⟨j, rfl⟩ := h'
  exact ⟨j + i, Function.iterate_add_apply _ _ _ _⟩

/-- The work on top of the stack comes to its end. -/
def Returns (m : Machine σ) (rest : List (Frame σ)) : Prop :=
  ∃ m', m.Comes m' ∧ m'.stack = rest ∧ m.Settles m'

namespace Returns

theorem here (hs : m.stack = rest) : m.Returns rest := ⟨m, .refl m, hs, .refl m⟩

theorem of_step (hs : m.Settles m.step) (h : m.step.Returns rest) : m.Returns rest := by
  obtain ⟨m', hc, hstack, hs'⟩ := h
  exact ⟨m', .of_step hc, hstack, hs.trans hs'⟩

/-- One piece of work after another. -/
theorem bind (h : m.Returns mid) (hnext : ∀ m', m.Settles m' → m'.stack = mid → m'.Returns rest) :
    m.Returns rest := by
  obtain ⟨m', hc, hstack, hs⟩ := h
  obtain ⟨k, hc', hstack', hs'⟩ := hnext m' hs hstack
  exact ⟨k, hc.trans hc', hstack', hs.trans hs'⟩

end Returns

/-! ## Runs -/

theorem runs_enter_of_ne (h : x ≠ w) : (m.enter w n).state.runs x = m.state.runs x := by
  rw [State.runs, show (m.enter w n).state.watcher? x = m.state.watcher? x from
    State.watcher?_modifyWatcher_of_ne _ h, State.runs]

/-- To enter a getter counts one run. -/
theorem runs_enter_self_le (m : Machine σ) (w : WatcherId) (n : Nat) :
    (m.enter w n).state.runs w ≤ m.state.runs w + 1 := by
  rw [State.runs, show (m.enter w n).state.watcher? w =
    (m.state.watcher? w).map fun y => { y with runs := y.runs + 1, running := true } from
    (State.watcher?_modifyWatcher m.state w w _).trans (if_pos rfl), State.runs]
  cases m.state.watcher? w with
  | none => exact Nat.zero_le _
  | some y => exact Nat.le_refl _

theorem runs_quit (m : Machine σ) (w x : WatcherId) (previous : Option WatcherId) :
    (m.quit w previous).state.runs x = m.state.runs x := by
  rw [State.runs, watcher?_quit, State.runs]
  split_ifs
  · cases m.state.watcher? x <;> rfl
  · rfl

/-- Where a run of an idle watcher has quit, all is settled. -/
theorem Settles.quit_of_enter {previous : Option WatcherId} (hidle : m.state.isRunning w = false)
    (hs : (m.enter w n).Settles m') (rest : List (Frame σ)) :
    m.Settles (({ m' with stack := rest }).quit w previous) where
  getters := hs.getters
  fault := hs.fault
  size := (size_quit _ w previous).trans (hs.size.trans (size_enter m w n))
  isRunning x := by
    by_cases h : x = w
    · rw [h, isRunning_quit_self, hidle]
    · rw [isRunning_quit previous h]
      exact (hs.isRunning x).trans (isRunning_enter h)
  runs x hx := by
    have h : x ≠ w := by
      rintro rfl
      rw [hidle] at hx
      cases hx
    rw [runs_quit]
    exact (hs.runs x ((isRunning_enter h).trans hx)).trans (runs_enter_of_ne h)

/-- All that is nested in a run comes to its end: bodies, on machines with fewer idle watchers. -/
def NestedReturn (σ : Type) (idle : Finset Nat) : Prop :=
  ∀ (k : Machine σ) (p : Program σ) (rest : List (Frame σ)), k.Modest → k.state.idle ⊂ idle → p.Modest →
    k.stack = .body p :: rest → k.Returns rest

/-- **A run with its reruns comes to its end.** -/
theorem comes_of_enter (below : NestedReturn σ m.state.idle) (hm : m.Modest)
    (hidle : m.state.isRunning w = false) (n : Nat) :
    ∃ m', (m.enter w n).Comes m' ∧ m'.stack = m.stack ∧ m.Settles m' ∧
      m'.state.runs w ≤ m.state.runs w + (maxReruns - n + 1) := by
  induction hj : maxReruns - n using Nat.strong_induction_on generalizing m n with
  | _ j ih =>
    subst hj
    have hbody : (m.enter w n).Returns (.leave w m.state.active n :: m.stack) := by
      by_cases hw : w.index < m.state.watchers.size
      · exact below _ _ _ (modest_enter hm w n) (idle_enter_ssubset hw hidle n) (hm.getter w)
          (stack_enter m w n)
      · have htop : (m.enter w n).stack = .body .done :: .leave w m.state.active n :: m.stack := by
          rw [stack_enter, hm.getter_of_le (Nat.le_of_not_lt hw)]
        refine .of_step ?_ (.here ?_) <;> rw [step_done htop]
        exact .of_eq rfl rfl rfl
    obtain ⟨c, hcomes, hstack, hsettles⟩ := hbody
    -- The machine when the getter has returned, before a rerun.
    let q := ({ c with stack := m.stack }).quit w m.state.active
    have hq : m.Settles q := .quit_of_enter hidle hsettles m.stack
    have hqruns : q.state.runs w ≤ m.state.runs w + 1 := by
      rw [runs_quit]
      by_cases hw : w.index < m.state.watchers.size
      · rw [show State.runs _ w = _ from hsettles.runs w (isRunning_enter_self hw)]
        exact runs_enter_self_le m w n
      · rw [State.runs_of_le (s := c.state) (by rw [hsettles.size, size_enter]; omega)]
        exact Nat.zero_le _
    have hleave : c.step =
        if (c.state.watcher? w).any (·.dirty) && n < maxReruns then q.enter w (n + 1) else q := by
      rw [step, hstack]
      exact leave_eq _ w m.state.active n
    split at hleave
    · next hrerun =>
      have hn : n < maxReruns := of_decide_eq_true (Bool.and_eq_true_iff.1 hrerun).2
      obtain ⟨m', hcomes', hstack', hsettles', hruns⟩ :=
        @ih (maxReruns - (n + 1)) (by omega) q (by rwa [hq.idle]) (hq.modest hm)
          (isRunning_quit_self _ w _) (n + 1) rfl
      refine ⟨m', hcomes.trans (.of_step (by rwa [hleave])), hstack', hq.trans hsettles', ?_⟩
      omega
    · refine ⟨q, hcomes.trans (.of_step (by rw [hleave]; exact .refl q)), rfl, hq, ?_⟩
      omega

/-- A run that is asked for. -/
theorem comes_of_request (below : NestedReturn σ m.state.idle) (hm : m.Modest) (w : WatcherId) :
    ∃ m', (m.request w).Comes m' ∧ m'.stack = m.stack ∧ m.Settles m' ∧
      m'.state.runs w ≤ m.state.runs w + (maxReruns + 1) := by
  rw [request_eq]
  split
  · next hrun =>
    have hs := Settles.mark m w
    exact ⟨m.mark w, .refl _, rfl, hs, (hs.runs w hrun).le.trans (Nat.le_add_right _ _)⟩
  · next hidle => exact comes_of_enter below hm (Bool.eq_false_iff.2 hidle) 0

/-- The runs of a notification, one after another. -/
theorem returns_pending (below : NestedReturn σ m.state.idle) (hm : m.Modest) {ws : List WatcherId}
    (hstack : m.stack = .pending ws :: rest) : m.Returns rest := by
  induction ws generalizing m with
  | nil =>
    have hstep : m.step = { m with stack := rest } := by rw [step, hstack]
    refine .of_step ?_ (.here ?_) <;> rw [hstep]
    exact .of_eq rfl rfl rfl
  | cons w ws ih =>
    let popped : Machine σ := { m with stack := .pending ws :: rest }
    have hpopped : m.Settles popped := .of_eq rfl rfl rfl
    have hstep : m.step = popped.request w := by rw [step, hstack]
    obtain ⟨m', hcomes, hstack', hsettles, -⟩ :=
      comes_of_request (m := popped) below (hpopped.modest hm) w
    have hs := hpopped.trans hsettles
    refine Returns.bind ⟨m', .of_step (by rwa [hstep]), hstack', hs⟩ fun k hk hstack'' => ?_
    exact ih (by rwa [hk.idle]) (hk.modest hm) hstack''

/-- **A program comes to its end**, if all that is nested in the runs it sets off does. -/
theorem returns_of_nested (hp : p.Modest) (below : NestedReturn σ m.state.idle) (hm : m.Modest)
    (hstack : m.stack = .body p :: rest) : m.Returns rest := by
  induction p using Program.wellFounded_follows.induction generalizing m with
  | _ p ih =>
    have hgoes : ∀ q : Program σ, q.Follows p → ∀ k : Machine σ, m.Settles k →
        k.stack = .body q :: rest → k.Returns rest := fun q hq k hk hkstack =>
      ih q hq (hp.of_follows hq) (by rwa [hk.idle]) (hk.modest hm) hkstack
    cases asks_step hstack hp with
    | ends settles stack => exact .of_step settles (.here stack)
    | continues q follows settles stack => exact .of_step settles (hgoes q follows _ settles stack)
    | notifies q follows settles stack =>
      obtain ⟨ws, stack⟩ := stack
      have hpending := returns_pending (by rwa [settles.idle]) (settles.modest hm) stack
      exact .of_step settles (hpending.bind fun k hk => hgoes q follows k (settles.trans hk))
    | requests q w follows hstep =>
      let popped : Machine σ := { m with stack := .body q :: rest }
      have hpopped : m.Settles popped := .of_eq rfl rfl rfl
      obtain ⟨m', hcomes, hstack', hsettles, -⟩ :=
        comes_of_request (m := popped) below (hpopped.modest hm) w
      have hrun : m.Returns (.body q :: rest) :=
        ⟨m', .of_step (by rwa [hstep]), hstack', hpopped.trans hsettles⟩
      exact hrun.bind fun k hk => hgoes q follows k hk

/-- Whatever is nested in runs comes to its end: the fewer watchers are idle, the less that is. -/
theorem nestedReturn (idle : Finset Nat) : NestedReturn σ idle := by
  induction idle using Finset.strongInduction with
  | H idle ih =>
    exact fun k p rest hk hlt hp hstack => returns_of_nested hp (ih _ hlt) hk hstack

/-! ## Every watcher has a getter -/

/-- Steps make watchers with their getters, and take no watcher its getter. -/
theorem keeps_getters_step (m : Machine σ) (w : WatcherId) :
    (m.getters.size = m.state.watchers.size → m.step.getters.size = m.step.state.watchers.size) ∧
      (w.index < m.getters.size → w.index < m.step.getters.size ∧ m.step.getter w = m.getter w) := by
  by_cases htell : ∃ change next, m.next? = some (.tell change next)
  · obtain ⟨change, next, htop⟩ := htell
    obtain ⟨rest, hm⟩ := stack_of_next? htop
    rw [step_tell hm]
    exact ⟨id, fun hw => ⟨hw, rfl⟩⟩
  by_cases hrelease : ∃ next, m.next? = some (.release w next)
  · obtain ⟨next, htop⟩ := hrelease
    obtain ⟨rest, hm⟩ := stack_of_next? htop
    rw [Machine.step, hm]
    exact ⟨fun hp => hp.trans Array.size_modify.symm, fun hw => ⟨hw, rfl⟩⟩
  · have hretains : m.Retains m.step w :=
      retains_step (fun change next he => htell ⟨change, next, he⟩) fun next he => hrelease ⟨next, he⟩
    exact ⟨hretains.paired, hretains.made⟩

theorem paired_step (hp : m.getters.size = m.state.watchers.size) :
    m.step.getters.size = m.step.state.watchers.size :=
  (keeps_getters_step m ⟨0⟩).1 hp

/-- Watchers keep their getters. -/
theorem getter_step (hw : w.index < m.getters.size) :
    w.index < m.step.getters.size ∧ m.step.getter w = m.getter w :=
  (keeps_getters_step m w).2 hw

end Machine

theorem History.paired {host : σ} {m : Machine σ} {es : List Event} (h : History host m es) :
    m.getters.size = m.state.watchers.size := by
  induction h with
  | start => rfl
  | perform m es p before rest ih => exact ih
  | step m es before ih => exact Machine.paired_step ih

/-- The machine on which a program is run from outside. -/
def Machine.asked (m : Machine σ) (p : Program σ) : Machine σ :=
  { m with stack := [.body p], fault := none }

theorem Machine.Modest.orderly_asked {m : Machine σ} {p : Program σ} (hm : m.Modest) (hp : p.Modest) :
    (m.asked p).Orderly m.getters where
  modest := ⟨hm.getter, hm.paired⟩
  same := rfl
  frames := List.forall_mem_singleton.2 hp
  nodup := List.nodup_nil
  running _ hw := absurd hw List.not_mem_nil

/-- **Everything that is set off comes to its end.** Whatever a machine of modest getters has been
through, a modest program, such as a write, a run or a notification, comes to its end on it. On the way
no getter is executed within itself, so that getters are nested no deeper than there are watchers; and
a run that is asked for anywhere ends after `maxReruns` reruns at most. -/
theorem History.terminates {host : σ} {m : Machine σ} {es : List Event} (h : History host m es)
    (getters : ∀ w, (m.getter w).Modest) {p : Program σ} (hp : p.Modest) :
    (∃ m', Machine.exec (m.asked p) = some m' ∧ m'.fault = none) ∧
    ∀ k, (Machine.step^[k] (m.asked p)).nesting.Nodup ∧
      (Machine.step^[k] (m.asked p)).nesting.length ≤ m.state.watchers.size ∧
      ∀ w stack, ∃ m', ({ Machine.step^[k] (m.asked p) with stack := stack }.request w).Comes m' ∧
        m'.stack = stack ∧
        m'.state.runs w ≤ (Machine.step^[k] (m.asked p)).state.runs w + (maxReruns + 1) := by
  have hm : m.Modest := ⟨getters, h.paired⟩
  have hasked := hm.orderly_asked hp
  refine ⟨?_, fun k => ?_⟩
  · obtain ⟨m', ⟨n, rfl⟩, hstack, hsettles⟩ :=
      Machine.returns_of_nested hp (Machine.nestedReturn _) hasked.modest rfl
    exact ⟨_, Machine.exec_iterate hstack, hsettles.fault⟩
  · have hk := hasked.iterate k
    refine ⟨hk.nodup, hk.length_nesting_le.trans_eq hm.paired, fun w stack => ?_⟩
    obtain ⟨m', hcomes, hstack, -, hruns⟩ :=
      Machine.comes_of_request (m := { Machine.step^[k] (m.asked p) with stack := stack })
        (Machine.nestedReturn _) ⟨hk.modest.getter, hk.modest.paired⟩ w
    exact ⟨m', hcomes, hstack, hruns⟩

/-- What a watcher does that writes what it has read. -/
def Program.selfWriting : Program Unit := .get ⟨0⟩ "a" fun _ => .write ⟨0⟩ "a" (.bool true) .done

theorem Program.modest_selfWriting : selfWriting.Modest := fun _ => trivial

/-- Such a watcher was made, and has run for as long as it has asked for that. -/
def Machine.selfWriting : Machine Unit × List Event :=
  Machine.trace 20
    ((start ()).asked (.make (.object [("a", .value .null)]) fun v =>
      .edit (.observe v) (.watch .selfWriting fun _ => .done))) []

theorem Machine.getters_selfWriting : selfWriting.1.getters = #[.selfWriting] := by cbv

/-- The watcher has run twice. A write from outside sets it off again, and comes to its end. -/
theorem History.terminates_selfWriting :
    Machine.selfWriting.1.stack = [] ∧ Machine.selfWriting.1.state.runs ⟨0⟩ = 2 ∧
      ∃ m', Machine.exec (Machine.selfWriting.1.asked (.write ⟨0⟩ "a" .null .done)) = some m' ∧
        m'.fault = none := by
  have hhistory : History () Machine.selfWriting.1 Machine.selfWriting.2 :=
    (History.start.perform (Machine.start ()) [] _ rfl).trace 20
  have hmodest : ∀ w, (Machine.selfWriting.1.getter w).Modest := by
    intro w
    rw [Machine.getter, Machine.getters_selfWriting]
    cases hw : (#[Program.selfWriting] : Array (Program Unit))[w.index]? with
    | none => trivial
    | some g =>
      obtain rfl := List.mem_singleton.1 (Array.mem_toList_iff.2 (Array.mem_of_getElem? hw))
      exact Program.modest_selfWriting
  refine ⟨?_, ?_, (hhistory.terminates hmodest (p := .write ⟨0⟩ "a" .null .done) trivial).1⟩
  · cbv
  · cbv

end LiveMarkup

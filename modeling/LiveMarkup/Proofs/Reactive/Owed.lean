import LiveMarkup.Proofs.Reactive.Coalescing

/-!
# Runs that are owed

A run that was asked for while the getter was under way is owed until the getter returns. Where a program
gives up instead, it stays owed, and the next call to run the watcher comes to one invocation more than was
asked for.

* `Chronicle`: a machine with the turns that a watcher has taken on it.
* `unserved`: the turns since its getter last returned.
* `Reckoned`, **`Chronicle.reckoned`**: a run is owed where one was asked for since then, and to a watcher
  that is not running only where a program has given up after that.
* **`Chronicle.owed`**: what a call comes to during whose first invocation nothing is asked for.
-/

namespace LiveMarkup

open Watcher Machine

variable {σ : Type}

/-! ## Turns so far -/

/-- A machine with the turns that a watcher has taken on it. Programs are given to it while it is at rest.
Besides giving up altogether, some of the runs and notifications under way may be given up, as where what they
were part of goes on after a failure. -/
inductive Chronicle (host : σ) (w : WatcherId) : Machine σ → List Turn → Prop where
  | start : Chronicle host w (Machine.start host) []
  | perform (m : Machine σ) (ts : List Turn) (p : Program σ) (before : Chronicle host w m ts)
      (rest : m.stack = []) : Chronicle host w { m with stack := [.body p], fault := none } ts
  | step (m : Machine σ) (ts : List Turn) (before : Chronicle host w m ts) :
      Chronicle host w m.step (ts ++ m.turns w)
  | caught (m : Machine σ) (ts : List Turn) (top rest : List (Frame σ)) (before : Chronicle host w m ts)
      (stack : m.stack = top ++ rest) :
      Chronicle host w { m with state := unwind m.state top, stack := rest }
        (ts ++ if w ∈ callStack top then [.failed] else [])

/-- The turns since the getter last returned, one turn later. -/
def awaiting (since : List Turn) (t : Turn) : List Turn := if t = .returned then [] else since ++ [t]

/-- The turns since the getter last returned. -/
def unserved (ts : List Turn) : List Turn := ts.foldl awaiting []

namespace Chronicle

variable {host : σ} {w : WatcherId} {m : Machine σ} {ts : List Turn}

theorem disciplined (h : Chronicle host w m ts) : m.Disciplined := by
  induction h with
  | start => exact disciplined_start host
  | perform m ts p before rest ih => exact ih.asked rest p
  | step m ts before ih => exact ih.step
  | caught m ts top rest before stack ih => exact ih.unwind stack

theorem iterate (h : Chronicle host w m ts) (n : Nat) :
    Chronicle host w (Machine.step^[n] m) (ts ++ m.turnsIn n w) := by
  induction n generalizing m ts with
  | zero => rwa [turnsIn, List.append_nil]
  | succ n ih =>
    rw [turnsIn, ← List.append_assoc]
    exact ih (h.step m ts)

end Chronicle

/-! ## Giving up -/

namespace Machine

variable {m : Machine σ} {w : WatcherId}

/-- What giving up changes: the runs under way are over, and what was asked for stays recorded. -/
theorem progress?_unwind (s : State σ) (fs : List (Frame σ)) (w : WatcherId) :
    (unwind s fs).progress? w =
      if w ∈ callStack fs then (s.progress? w).map (·.after .failed) else s.progress? w := by
  induction fs generalizing s with
  | nil => rfl
  | cons f fs ih =>
    cases f with
    | leave x previous n =>
      have hends : ∀ y, ({ s.modifyWatcher x fun z => { z with running := false } with
          active := previous } : State σ).progress? y =
            if y = x then (s.progress? y).map (·.after .failed) else s.progress? y :=
        fun y => State.progress?_modifyWatcher .failed (fun _ => rfl) s x y
      have hmem : w ∈ callStack (.leave x previous n :: fs) ↔ w = x ∨ w ∈ callStack fs := List.mem_cons
      rw [unwind, ih, hends]
      by_cases hx : w = x
      · rw [if_pos hx, if_pos (hmem.2 (.inl hx)), Option.map_map]
        -- given up once or twice, it is the same
        exact ite_self _
      · rw [if_neg hx]
        exact if_congr (hmem.trans (or_iff_right hx)).symm rfl rfl
    | body p | pending ws | adopt x next => exact ih s

/-- **The progress of a watcher in a step is that of its turns**, unless it is made. -/
theorem Disciplined.progress?_step (h : m.Disciplined)
    (made : ∀ getter next, m.next? = some (.watch getter next) → w ≠ ⟨m.state.watchers.size⟩) :
    m.step.state.progress? w = m.progressAfter w (m.turns w) := by
  by_cases hpanic : ∃ message, m.next? = some (.panic message)
  · obtain ⟨message, htop⟩ := hpanic
    obtain ⟨rest, hm⟩ := stack_of_next? htop
    have hturns : m.turns w = [.failed] := by rw [turns, hm]; rfl
    have hstep : m.step.state = Machine.unwind m.state rest := by rw [Machine.step, hm]; rfl
    have hcalls : callStack m.stack = callStack rest := by rw [hm]; rfl
    rw [hturns, hstep, progress?_unwind]
    split
    · rfl
    · next hout =>
      rw [progressAfter]
      by_cases hw : w.index < m.state.watchers.size
      · have hidle : m.state.isRunning w = false :=
          Bool.eq_false_iff.2 fun hrun => hout (hcalls ▸ (h.marks.running w hw).1 hrun)
        rw [State.progress?_of_lt hw, hidle]
        rfl
      · have hnone : m.state.progress? w = none := by
          rw [State.progress?, State.watcher?, Array.getElem?_eq_none (Nat.le_of_not_lt hw)]
          rfl
        rw [hnone]
        rfl
  · exact Machine.progress?_step made fun message htop => hpanic ⟨message, htop⟩

end Machine

/-! ## What is owed -/

/-- A run is owed to a watcher that has come so far, where one was asked for since its getter last returned.
If it is not running, then a program has given up after that. -/
structure Reckoned (o : Option Progress) (since : List Turn) : Prop where
  dirty_iff : o.any (·.dirty) ↔ .asked ∈ since
  given_up : o.any (·.dirty) → o.any (·.running) = false → [.asked, .failed].Sublist since

namespace Reckoned

variable {o : Option Progress} {since : List Turn}

/-- Nothing is owed to a watcher that has just been made, or whose getter has just returned. -/
theorem clean (hdirty : o.any (·.dirty) = false) (hsince : .asked ∉ since) : Reckoned o since :=
  ⟨iff_of_false (Bool.eq_false_iff.1 hdirty) hsince, fun h => absurd h (Bool.eq_false_iff.1 hdirty)⟩

/-- A turn that is no request. -/
theorem asked_iff (h : Reckoned o since) (t : Turn) (ht : t ≠ .asked) :
    o.any (·.dirty) ↔ .asked ∈ since ++ [t] := by
  rw [h.dirty_iff, List.mem_append, List.mem_singleton, or_iff_left (Ne.symm ht)]

/-- A program has given up. -/
theorem failed (h : Reckoned o since) : Reckoned (o.map (·.after .failed)) (since ++ [.failed]) := by
  have hdirty : (o.map (·.after .failed)).any (·.dirty) = o.any (·.dirty) := by cases o <;> rfl
  refine ⟨?_, fun hany _ => ?_⟩
  · rw [hdirty]
    exact h.asked_iff .failed (by decide)
  · rw [hdirty] at hany
    exact (List.singleton_sublist.2 (h.dirty_iff.1 hany)).append (.refl [Turn.failed])

/-- The turns of a step are reckoned with. -/
theorem turns {m : Machine σ} {w : WatcherId} {ts : List Turn} (h : Reckoned (m.state.progress? w) since)
    (htakes : m.Takes w ts) : Reckoned (m.progressAfter w ts) (ts.foldl awaiting since) := by
  cases hp : m.state.progress? w with
  | none =>
    rw [hp] at h
    have hnone : m.progressAfter w ts = none := by rw [progressAfter, hp]; rfl
    have hsince : .asked ∉ since := fun hmem => Bool.false_ne_true (h.dirty_iff.2 hmem)
    rw [hnone]
    refine .clean rfl ?_
    cases htakes with
    | asked running =>
      rw [State.progress?_of_lt (State.lt_of_isRunning running)] at hp
      cases hp
    | _ => simp [awaiting, hsince]
  | some y =>
    rw [hp] at h
    rw [progressAfter, hp]
    cases htakes with
    | nothing => exact h
    | entered idle =>
      exact ⟨h.asked_iff .entered (by decide), fun _ hidle => absurd hidle.symm Bool.false_ne_true⟩
    | asked running =>
      have hrun : y.running = true := (State.isRunning_of_progress? hp).symm.trans running
      refine ⟨iff_of_true rfl (List.mem_append_right since (List.mem_singleton_self _)), fun _ hidle => ?_⟩
      exact absurd (hidle.symm.trans hrun) Bool.false_ne_true
    | returned previous n rest stack => exact .clean rfl List.not_mem_nil
    | again previous n rest stack => exact .clean rfl (by simp [awaiting])
    | failed message top => exact h.failed

end Reckoned

/-! ## A call during which nothing is asked for -/

namespace Machine

variable {m : Machine σ} {w : WatcherId} {n : Nat}

section Quiet

variable (made : w.index < m.state.watchers.size) (idle : m.state.isRunning w = false)
  (h : (m.request w).Ends (.leave w m.state.active 0 :: m.stack) n)
  (quiet : .asked ∉ (m.request w).turnsIn n w)

include made idle h quiet

/-- The getter of a watcher that is asked to run returns, and no further run was asked for. -/
theorem request_returned :
    (m.request w).turnsIn n w = [] ∧
      (∀ i < n + 1, (step^[i] (m.request w)).stack ≠ m.stack ∧
        ∀ message, (step^[i] (m.request w)).next? ≠ some (.panic message)) ∧
      (step^[n] (m.request w)).state.progress? w = some ⟨m.state.runs w + 1, true, m.state.isDirty w⟩ := by
  obtain ⟨hway, asked, hasked, hreturned⟩ :=
    h.invocation (stack_request idle) (progress?_request_self made idle)
  have hnone : asked = 0 := by
    by_contra hpos
    exact quiet (hasked ▸ List.mem_replicate.2 ⟨hpos, rfl⟩)
  subst hnone
  exact ⟨hasked, hway, by simpa using hreturned⟩

/-- Nothing was owed to the watcher: the call is over. -/
theorem request_done (clean : m.state.isDirty w = false) :
    (m.request w).Ends m.stack (n + 1) ∧ (m.request w).turnsIn (n + 1) w = [.returned] ∧
      (step^[n + 1] (m.request w)).state.progress? w = some ⟨m.state.runs w + 1, false, false⟩ := by
  obtain ⟨hturns, hway, hreturned⟩ := request_returned made idle h quiet
  have hdirty := (State.isDirty_of_progress? hreturned).trans clean
  obtain ⟨hlast, hstack⟩ := step_leave_last h.stack (by rw [hdirty]; rfl)
  have hdone := progress?_step_leave h.stack hreturned
  rw [hlast, ← Function.iterate_succ_apply' step] at hdone
  rw [← Function.iterate_succ_apply' step] at hstack
  refine ⟨⟨hstack, fun i hi => (hway i hi).1, fun i hi => (hway i hi).2⟩, ?_, hdone⟩
  rw [turnsIn_succ, hturns, hlast]
  rfl

/-- A run was owed to the watcher: its getter is entered again. -/
theorem request_again (dirty : m.state.isDirty w = true) :
    (m.request w).turnsIn (n + 1) w = [.returned, .entered] ∧
      (step^[n + 1] (m.request w)).state.progress? w = some ⟨m.state.runs w + 2, true, false⟩ := by
  obtain ⟨hturns, -, hreturned⟩ := request_returned made idle h quiet
  have hdirty := (State.isDirty_of_progress? hreturned).trans dirty
  obtain ⟨hagain, -⟩ := step_leave_again h.stack (by rw [hdirty]; rfl)
  have hentered := progress?_step_leave h.stack hreturned
  rw [hagain, ← Function.iterate_succ_apply' step] at hentered
  refine ⟨?_, hentered⟩
  rw [turnsIn_succ, hturns, hagain]
  rfl

end Quiet

end Machine

namespace Chronicle

variable {host : σ} {w : WatcherId} {m : Machine σ} {ts : List Turn}

/-- **What is owed to a watcher** is what was asked for since its getter last returned. -/
theorem reckoned (h : Chronicle host w m ts) : Reckoned (m.state.progress? w) (unserved ts) := by
  induction h with
  | start => exact .clean rfl List.not_mem_nil
  | perform m ts p before rest ih => exact ih
  | step m ts before ih =>
    rw [unserved, List.foldl_append]
    by_cases hmade : ∃ getter next, m.next? = some (.watch getter next) ∧ w = ⟨m.state.watchers.size⟩
    · obtain ⟨getter, next, htop, hw⟩ := hmade
      obtain ⟨rest, hm⟩ := stack_of_next? htop
      have hprogress : m.step.state.progress? w = some ⟨1, true, false⟩ := by
        rw [Machine.step, hm]
        exact (progress?_watch { m with stack := rest } getter next w).trans (if_pos hw)
      have hturns : m.turns w = [.entered] := by
        rw [turns, hm]
        exact if_pos hw
      have hnone : m.state.progress? w = none := by
        rw [State.progress?, State.watcher?, hw, Array.getElem?_eq_none (Nat.le_refl _)]
        rfl
      have hsince : .asked ∉ unserved ts := fun hmem =>
        Bool.false_ne_true ((hnone ▸ ih.dirty_iff).2 hmem)
      rw [hprogress, hturns]
      exact .clean rfl (by simpa [awaiting, unserved] using hsince)
    · rw [before.disciplined.progress?_step fun getter next htop hw => hmade ⟨getter, next, htop, hw⟩]
      exact ih.turns (takes_turns m w)
  | caught m ts top rest before stack ih =>
    rw [unserved, List.foldl_append, progress?_unwind]
    split
    · exact ih.failed
    · exact ih

/-- **A run is owed to a watcher that is not running where one was asked for and then a program has given
up**, if its getter has not returned since, and only then. A call to run it, during whose first invocation
no run of it is asked for, comes to that one invocation if no run is owed to it. If one is, its getter is
entered again. -/
theorem owed (h : Chronicle host w m ts) (made : w.index < m.state.watchers.size)
    (idle : m.state.isRunning w = false) :
    (m.state.isDirty w ↔ [.asked, .failed].Sublist (unserved ts)) ∧
    ∀ stack n, let call := { m with stack := stack }.request w
      call.Ends (.leave w m.state.active 0 :: stack) n → .asked ∉ call.turnsIn n w →
        (m.state.isDirty w = false →
          call.Ends stack (n + 1) ∧ call.turnsIn (n + 1) w = [.returned] ∧
            (Machine.step^[n + 1] call).state.progress? w = some ⟨m.state.runs w + 1, false, false⟩) ∧
        (m.state.isDirty w = true →
          call.turnsIn (n + 1) w = [.returned, .entered] ∧
            (Machine.step^[n + 1] call).state.progress? w = some ⟨m.state.runs w + 2, true, false⟩) := by
  have hreckoned := h.reckoned
  rw [State.progress?_of_lt made] at hreckoned
  refine ⟨⟨fun hdirty => hreckoned.given_up hdirty idle, fun hsub => ?_⟩, ?_⟩
  · exact hreckoned.dirty_iff.2 (hsub.subset List.mem_cons_self)
  · intro stack n call hends hquiet
    exact ⟨request_done (m := { m with stack := stack }) made idle hends hquiet,
      request_again (m := { m with stack := stack }) made idle hends hquiet⟩

end Chronicle

/-- What a watcher does that in its second run asks for a further one and then gives up. -/
def Program.givingUpOnce : Program Unit :=
  .look fun s => if s.state.runs ⟨0⟩ = 2 then .run ⟨0⟩ (.panic "stop") else .done

/-- Such a watcher was made, has run, and was asked to run from outside. -/
def Machine.abandoned : Machine Unit :=
  step^[4] ((step^[6] ((start ()).asked (.watch .givingUpOnce fun _ => .done))).asked (.run ⟨0⟩ .done))

theorem chronicle_abandoned : Chronicle () ⟨0⟩ Machine.abandoned [.entered, .returned, .entered, .asked, .failed] := by
  have hstart : Chronicle () ⟨0⟩ (Machine.start ()) [] := .start
  have hmade := (hstart.perform _ _ (.watch .givingUpOnce fun _ => .done) rfl).iterate 6
  exact (hmade.perform _ _ (.run ⟨0⟩ .done) rfl).iterate 4

/-- A run is owed to it, so that its getter is entered twice when it is asked to run again. -/
theorem Chronicle.owed_abandoned :
    Machine.abandoned.state.isDirty ⟨0⟩ = true ∧
      (Machine.abandoned.request ⟨0⟩).turnsIn 3 ⟨0⟩ = [.returned, .entered] := by
  obtain ⟨hiff, hcall⟩ := chronicle_abandoned.owed (by decide) (by decide)
  have hdirty : Machine.abandoned.state.isDirty ⟨0⟩ = true := hiff.2 (by decide)
  have hends : (Machine.abandoned.request ⟨0⟩).Ends [.leave ⟨0⟩ none 0] 2 := by
    refine ⟨rfl, fun i hi he => ?_, fun i hi message he => ?_⟩ <;>
      obtain rfl | rfl : i = 0 ∨ i = 1 := by omega
    · exact absurd (congrArg List.length he) (by decide)
    · exact absurd (congrArg List.length he) (by decide)
    · cases he
    · cases he
  exact ⟨hdirty, ((hcall [] 2 hends (by decide)).2 hdirty).1⟩

/-- **An idle watcher can owe a run.** The watcher is not running, and a request for a further run of it is
recorded. When it is asked to run, its getter is invoked twice, although nothing asks for a further run. -/
theorem Chronicle.not_one_run_abandoned :
    (∃ ts, Chronicle () ⟨0⟩ Machine.abandoned ts) ∧ Machine.abandoned.stack = [] ∧
      Machine.abandoned.state.progress? ⟨0⟩ = some ⟨2, false, true⟩ ∧
      (Machine.abandoned.request ⟨0⟩).turnsIn 6 ⟨0⟩ = [.returned, .entered, .returned] ∧
      (Machine.step^[6] (Machine.abandoned.request ⟨0⟩)).stack = [] ∧
      (Machine.step^[6] (Machine.abandoned.request ⟨0⟩)).state.progress? ⟨0⟩ = some ⟨4, false, false⟩ :=
  ⟨⟨_, chronicle_abandoned⟩, rfl, by decide, by decide, rfl, by decide⟩

end LiveMarkup

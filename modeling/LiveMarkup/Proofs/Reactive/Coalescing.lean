import Mathlib.Data.Nat.Find
import Mathlib.Order.Bounds.Defs
import LiveMarkup.Proofs.Reactive.Turns

/-!
# Runs that are asked for during runs

However often a run of a watcher is asked for while its getter is under way, one further invocation answers
for all of that. A call to run it therefore comes to as many invocations as there are until one in which
nothing was asked for, or to as many as there may be in a row.

* `Machine.Ends`: work that comes to its end, with no program giving up.
* `Machine.Within`, **`Machine.Within.iterate`**: all that can concern a watcher while its getter is under way
  is that a run is asked for.
* `invocation`, `stops`: the turns of an invocation, and when a call can end.
* `Machine.InvocationsEnd`: every invocation in a call comes to its end.
* **`Machine.InvocationsEnd.coalesced`**: what a call comes to then.
* **`Machine.Orderly.invocationsEnd`**: so it is where no getter makes a watcher or gives up.
-/

namespace LiveMarkup

open Watcher

variable {σ : Type}

namespace Machine

variable {m : Machine σ} {w : WatcherId} {p : Program σ} {rest mid base : List (Frame σ)}
  {previous : Option WatcherId} {n : Nat}

/-! ## Work that comes to its end -/

/-- The work above some frames comes to its end in so many steps, and no program gives up on the way. -/
structure Ends (m : Machine σ) (rest : List (Frame σ)) (n : Nat) : Prop where
  stack : (step^[n] m).stack = rest
  busy : ∀ i < n, (step^[i] m).stack ≠ rest
  calm : ∀ i < n, ∀ message, (step^[i] m).next? ≠ some (.panic message)

namespace Ends

theorem tail (h : m.Ends rest (n + 1)) : m.step.Ends rest n :=
  ⟨h.stack, fun i hi => h.busy (i + 1) (Nat.succ_lt_succ hi), fun i hi => h.calm (i + 1) (Nat.succ_lt_succ hi)⟩

/-- Work that has come some way, and comes to its end from there. -/
theorem of_iterate {a b : Nat} (busy : ∀ i < a, (step^[i] m).stack ≠ rest)
    (calm : ∀ i < a, ∀ message, (step^[i] m).next? ≠ some (.panic message)) (h : (step^[a] m).Ends rest b) :
    m.Ends rest (a + b) := by
  have hlater : ∀ i, ¬ i < a → step^[i] m = step^[i - a] (step^[a] m) := fun i hi => by
    rw [← Function.iterate_add_apply, Nat.sub_add_cancel (Nat.le_of_not_lt hi)]
  refine ⟨?_, fun i hi => ?_, fun i hi => ?_⟩
  · rw [Nat.add_comm, Function.iterate_add_apply]
    exact h.stack
  · by_cases ha : i < a
    · exact busy i ha
    · rw [hlater i ha]
      exact h.busy (i - a) (by omega)
  · by_cases ha : i < a
    · exact calm i ha
    · rw [hlater i ha]
      exact h.calm (i - a) (by omega)

end Ends

/-! ## While a getter is under way -/

/-- The getter of a running watcher is under way, above some frames. -/
structure Within (m : Machine σ) (w : WatcherId) (base : List (Frame σ)) : Prop where
  stack : ∃ top, m.stack = top ++ base ∧ ∀ f ∈ top, f.leaves? ≠ some w
  running : m.state.isRunning w

namespace Within

/-- All that can concern the watcher is that a run is asked for. -/
theorem step (h : m.Within w base) (busy : m.stack ≠ base)
    (calm : ∀ message, m.next? ≠ some (.panic message)) :
    m.step.Within w base ∧ (m.turns w = [] ∨ m.turns w = [.asked]) := by
  obtain ⟨⟨top, hstack, htop⟩, hrun⟩ := h
  cases top with
  | nil => exact absurd hstack busy
  | cons f top =>
    obtain ⟨hf, htop⟩ := List.forall_mem_cons.1 htop
    have hturns : m.turns w = [] ∨ m.turns w = [.asked] := by
      have htakes := takes_turns m w
      generalize m.turns w = ts at htakes ⊢
      cases htakes with
      | nothing => exact .inl rfl
      | asked _ => exact .inr rfl
      | entered idle =>
        rw [hrun] at idle
        cases idle
      | failed message top => exact absurd top (calm message)
      | returned previous n rest stack | again previous n rest stack =>
        rw [hstack] at stack
        exact absurd (congrArg Frame.leaves? (List.cons.inj stack).1) hf
    have htop' : m.stack = f :: (top ++ base) := hstack
    obtain ⟨new, hnew, hleaves⟩ := exists_stack_step htop' calm w
    refine ⟨⟨⟨new ++ top, by rw [hnew, List.append_assoc], fun g hg hw => ?_⟩, ?_⟩, hturns⟩
    · rcases List.mem_append.1 hg with hg | hg
      · have hentered := hleaves g hg hw
        rcases hturns with he | he <;> rw [he] at hentered <;> simp at hentered
      · exact htop g hg hw
    · have hlt := State.lt_of_isRunning hrun
      have hprogress := progress?_step_of_lt hlt calm
      rw [progressAfter, State.progress?_of_lt hlt] at hprogress
      rw [State.isRunning_of_progress? hprogress]
      rcases hturns with he | he <;> rw [he] <;> exact hrun

/-- **So it is until the getter returns.** -/
theorem iterate (h : m.Within w base) (hends : m.Ends base n) :
    (∃ asked, m.turnsIn n w = List.replicate asked .asked) ∧ ∀ i ≤ n, (Machine.step^[i] m).Within w base := by
  induction n generalizing m with
  | zero => exact ⟨⟨0, rfl⟩, fun i hi => Nat.le_zero.1 hi ▸ h⟩
  | succ n ih =>
    obtain ⟨hstep, hturns⟩ := h.step (hends.busy 0 n.succ_pos) (hends.calm 0 n.succ_pos)
    obtain ⟨⟨asked, hasked⟩, hwithin⟩ := ih hstep hends.tail
    refine ⟨?_, fun i hi => ?_⟩
    · rcases hturns with he | he
      · exact ⟨asked, by rw [turnsIn, he, hasked]; rfl⟩
      · exact ⟨asked + 1, by rw [turnsIn, he, hasked]; rfl⟩
    · cases i with
      | zero => exact h
      | succ i => exact hwithin i (Nat.le_of_succ_le_succ hi)

theorem stack_ne {f : Frame σ} (h : m.Within w (f :: base)) : m.stack ≠ base := by
  obtain ⟨top, hstack, -⟩ := h.stack
  intro he
  have hlength := congrArg List.length (hstack.symm.trans he)
  simp only [List.length_append, List.length_cons] at hlength
  omega

end Within

end Machine

/-! ## Invocations -/

/-- The turns of an invocation of a getter during which a run is asked for so many times. -/
def invocation (asked : Nat) : List Turn := .entered :: (List.replicate asked .asked ++ [.returned])

/-- When a call can end, given how often a run was asked for during each invocation: after one during which
none was, or after so many. -/
def stops (limit : Nat) (counts : List Nat) : Set Nat :=
  {k | 0 < k ∧ (counts[k - 1]? = some 0 ∨ k = limit)}

theorem isLeast_stops_singleton {asked limit : Nat} (h : asked = 0 ∨ limit = 1) :
    IsLeast (stops limit [asked]) 1 :=
  ⟨⟨Nat.one_pos, h.imp (congrArg some) Eq.symm⟩, fun _ hk => hk.1⟩

theorem isLeast_stops_cons {asked limit n : Nat} {counts : List Nat} (hasked : asked ≠ 0)
    (h : IsLeast (stops (limit + 1) counts) n) : IsLeast (stops (limit + 2) (asked :: counts)) (n + 1) := by
  obtain ⟨⟨hn, hstop⟩, hleast⟩ := h
  refine ⟨⟨n.succ_pos, ?_⟩, fun k ⟨hpos, hk⟩ => ?_⟩
  · obtain ⟨n, rfl⟩ := Nat.exists_eq_add_one.2 hn
    exact hstop.imp id (congrArg (· + 1))
  · obtain ⟨k, rfl⟩ := Nat.exists_eq_add_one.2 hpos
    cases k with
    | zero =>
      rcases hk with hk | hk
      · exact absurd (Option.some.inj hk) hasked
      · omega
    | succ k => exact Nat.succ_le_succ (hleast ⟨k.succ_pos, hk.imp id Nat.succ.inj⟩)

/-- What is asked for during an invocation is recorded once. -/
theorem foldl_replicate_asked (asked : Nat) (y : Progress) :
    (List.replicate asked .asked).foldl Progress.after y = { y with dirty := y.dirty || decide (0 < asked) } := by
  induction asked generalizing y with
  | zero => simp
  | succ asked ih => rw [List.replicate_succ, List.foldl_cons, ih]; simp [Progress.after]

namespace Machine

variable {m : Machine σ} {w : WatcherId} {p : Program σ} {rest : List (Frame σ)}
  {previous : Option WatcherId} {n reruns : Nat}

/-- Until the work above some frames is done, every invocation of a getter right above them comes to its
end. -/
def InvocationsEnd (m : Machine σ) (w : WatcherId) (rest : List (Frame σ)) : Prop :=
  ∀ i, (∀ j < i, (step^[j] m).stack ≠ rest) → ∀ p previous n,
    (step^[i] m).stack = .body p :: .leave w previous n :: rest →
    ∃ k, (step^[i] m).Ends (.leave w previous n :: rest) k

theorem InvocationsEnd.iterate (h : m.InvocationsEnd w rest) (hbusy : ∀ i < n, (step^[i] m).stack ≠ rest) :
    (step^[n] m).InvocationsEnd w rest := by
  intro i hi p previous k hstack
  rw [← Function.iterate_add_apply] at hstack ⊢
  refine h (i + n) (fun j hj => ?_) p previous k hstack
  by_cases hn : j < n
  · exact hbusy j hn
  · have hlater := hi (j - n) (by omega)
    rwa [← Function.iterate_add_apply, Nat.sub_add_cancel (Nat.le_of_not_lt hn)] at hlater

/-- **An invocation**, from when the getter was entered until it has returned. -/
theorem Ends.invocation (h : m.Ends (.leave w previous reruns :: rest) n)
    (hm : m.stack = .body p :: .leave w previous reruns :: rest) {runs : Nat} {dirty : Bool}
    (hprogress : m.state.progress? w = some ⟨runs, true, dirty⟩) :
    (∀ i < n + 1, (step^[i] m).stack ≠ rest ∧ ∀ message, (step^[i] m).next? ≠ some (.panic message)) ∧
      ∃ asked, m.turnsIn n w = List.replicate asked .asked ∧
        (step^[n] m).state.progress? w = some ⟨runs, true, dirty || decide (0 < asked)⟩ := by
  have hwithin : m.Within w (.leave w previous reruns :: rest) :=
    ⟨⟨[.body p], hm, by simp [Frame.leaves?]⟩, State.isRunning_of_progress? hprogress⟩
  obtain ⟨⟨asked, hasked⟩, hall⟩ := hwithin.iterate h
  refine ⟨fun i hi => ⟨(hall i (Nat.le_of_lt_succ hi)).stack_ne, ?_⟩, asked, hasked, ?_⟩
  · rcases Nat.lt_succ_iff_lt_or_eq.1 hi with hi | rfl
    · exact h.calm i hi
    · simp [next?, h.stack]
  · rw [progress?_iterate (State.lt_of_progress? hprogress) n h.calm, progressAfter, hprogress, hasked,
      Option.map_some, foldl_replicate_asked]

/-- A getter has returned. -/
theorem turns_stack_leave (hm : m.stack = .leave w previous n :: rest) :
    m.turns w = .returned :: (if m.state.isDirty w && decide (n < maxReruns) then [.entered] else []) ∧
      m.step.stack = if m.state.isDirty w && decide (n < maxReruns)
        then .body (m.getter w) :: .leave w previous (n + 1) :: rest else rest := by
  constructor
  · rw [turns, hm]
    exact if_pos rfl
  · rw [step, hm]
    exact apply_ite Machine.stack _ _ _

/-- A getter has returned, and a run that was asked for follows. -/
theorem step_leave_again (hm : m.stack = .leave w previous n :: rest)
    (hagain : (m.state.isDirty w && decide (n < maxReruns)) = true) :
    m.turns w = [.returned, .entered] ∧
      m.step.stack = .body (m.getter w) :: .leave w previous (n + 1) :: rest := by
  have hleave := turns_stack_leave hm
  rwa [if_pos hagain, if_pos hagain] at hleave

/-- A getter has returned for the last time. -/
theorem step_leave_last (hm : m.stack = .leave w previous n :: rest)
    (hlast : (m.state.isDirty w && decide (n < maxReruns)) = false) :
    m.turns w = [.returned] ∧ m.step.stack = rest := by
  have hleave := turns_stack_leave hm
  rwa [hlast, if_neg Bool.false_ne_true, if_neg Bool.false_ne_true] at hleave

theorem progress?_step_leave (hm : m.stack = .leave w previous n :: rest) {y : Progress}
    (hprogress : m.state.progress? w = some y) :
    m.step.state.progress? w = some ((m.turns w).foldl Progress.after y) := by
  rw [progress?_step_of_lt (State.lt_of_progress? hprogress) (by simp [next?, hm]), progressAfter, hprogress]
  rfl

/-- **What a call comes to** whose getter has just been entered. -/
theorem InvocationsEnd.ends (h : m.InvocationsEnd w rest)
    (hm : m.stack = .body p :: .leave w previous reruns :: rest) {runs : Nat}
    (hprogress : m.state.progress? w = some ⟨runs + 1, true, false⟩) :
    ∃ n counts, m.Ends rest n ∧ .entered :: m.turnsIn n w = counts.flatMap invocation ∧
      IsLeast (stops (maxReruns - reruns + 1) counts) counts.length ∧
      (step^[n] m).state.progress? w = some ⟨runs + counts.length, false, false⟩ := by
  induction hbudget : maxReruns - reruns using Nat.strong_induction_on generalizing m p previous reruns runs with
  | _ budget ih =>
    subst hbudget
    obtain ⟨j, hj⟩ : ∃ j, m.Ends (.leave w previous reruns :: rest) j :=
      h 0 (fun i hi => absurd hi (Nat.not_lt_zero i)) p previous reruns hm
    obtain ⟨hway, asked, hasked, hreturned⟩ := hj.invocation hm hprogress
    have hdirty : (step^[j] m).state.isDirty w = decide (0 < asked) := State.isDirty_of_progress? hreturned
    have hleft := progress?_step_leave hj.stack hreturned
    rw [← Function.iterate_succ_apply' step j m] at hleft
    by_cases hagain : 0 < asked ∧ reruns < maxReruns
    · obtain ⟨hturns, hstack⟩ := step_leave_again hj.stack (by simp [hdirty, hagain])
      rw [← Function.iterate_succ_apply' step j m] at hstack
      have hentered : (step^[j + 1] m).state.progress? w = some ⟨runs + 1 + 1, true, false⟩ := by
        rw [hleft, hturns]
        rfl
      obtain ⟨n, counts, hends, hcounts, hleast, hdone⟩ := ih (maxReruns - (reruns + 1)) (by omega)
        (h.iterate fun i hi => (hway i hi).1) hstack hentered rfl
      refine ⟨j + 1 + n, asked :: counts, .of_iterate (fun i hi => (hway i hi).1) (fun i hi => (hway i hi).2)
        hends, ?_, ?_, ?_⟩
      · rw [turnsIn_add, turnsIn_succ, hasked, hturns, List.flatMap_cons, ← hcounts]
        simp [LiveMarkup.invocation]
      · have hlimit : maxReruns - reruns = maxReruns - (reruns + 1) + 1 := by omega
        rw [hlimit]
        exact isLeast_stops_cons (Nat.ne_of_gt hagain.1) hleast
      · rw [Nat.add_comm, Function.iterate_add_apply, hdone, List.length_cons, Nat.add_right_comm, Nat.add_assoc]
    · have hlast : asked = 0 ∨ maxReruns - reruns + 1 = 1 := by omega
      obtain ⟨hturns, hstack⟩ := step_leave_last hj.stack (by
        rw [hdirty, Bool.eq_false_iff]
        simpa using hagain)
      rw [← Function.iterate_succ_apply' step j m] at hstack
      rw [hturns] at hleft
      refine ⟨j + 1, [asked], ⟨hstack, fun i hi => (hway i hi).1, fun i hi => (hway i hi).2⟩, ?_,
        isLeast_stops_singleton hlast, hleft⟩
      rw [turnsIn_succ, hasked, hturns]
      simp [LiveMarkup.invocation]

/-- A watcher that is not running is entered when it is asked to run. -/
theorem stack_request (idle : m.state.isRunning w = false) :
    (m.request w).stack = .body (m.getter w) :: .leave w m.state.active 0 :: m.stack := by
  rw [request_eq, idle]
  rfl

theorem progress?_request_self (made : w.index < m.state.watchers.size) (idle : m.state.isRunning w = false) :
    (m.request w).state.progress? w = some ⟨m.state.runs w + 1, true, m.state.isDirty w⟩ := by
  rw [progress?_request, requestTurns, if_pos rfl, idle, progressAfter, State.progress?_of_lt made]
  rfl

/-- **Runs that are asked for during runs coalesce.** A watcher that is neither running nor to run again is
asked to run, and each invocation of its getter in this call comes to its end, with no program giving up. Then
so does the call. All that has concerned the watcher are its invocations, in each of which a run may have
been asked for any number of times. There were as many of them as it took to come to one without such a
request, but no more than `maxReruns + 1`. They are the runs that were counted, and the watcher is neither
running nor to run again. -/
theorem InvocationsEnd.coalesced (made : w.index < m.state.watchers.size)
    (idle : m.state.isRunning w = false) (clean : m.state.isDirty w = false)
    (h : (m.request w).InvocationsEnd w m.stack) :
    ∃ n counts, (m.request w).Ends m.stack n ∧
      m.requestTurns w w ++ (m.request w).turnsIn n w = counts.flatMap invocation ∧
      IsLeast (stops (maxReruns + 1) counts) counts.length ∧
      (step^[n] (m.request w)).state.progress? w = some ⟨m.state.runs w + counts.length, false, false⟩ := by
  have hturns : m.requestTurns w w = [.entered] := by rw [requestTurns, if_pos rfl, idle]; rfl
  have hprogress := progress?_request_self made idle
  rw [clean] at hprogress
  rw [hturns]
  exact h.ends (stack_request idle) hprogress

/-! ## Getters that make no watchers -/

variable {getters : Array (Program σ)}

/-- Work that returns comes to its end, and no modest program gives up. -/
theorem Orderly.ends (ho : m.Orderly getters) (h : m.Returns rest) : ∃ n, m.Ends rest n := by
  classical
  obtain ⟨m', ⟨k, rfl⟩, hstack, -⟩ := h
  have hreturns : ∃ k, (Machine.step^[k] m).stack = rest := ⟨k, hstack⟩
  refine ⟨Nat.find hreturns, Nat.find_spec hreturns, fun i hi => Nat.find_min hreturns hi,
    fun i _ message hpanic => ?_⟩
  obtain ⟨below, htop⟩ := stack_of_next? hpanic
  exact (ho.iterate i).frames (.body (.panic message)) (htop ▸ List.mem_cons_self)

/-- **Invocations come to their end** where no getter makes a watcher or gives up. -/
theorem Orderly.invocationsEnd (ho : m.Orderly getters) (w : WatcherId) (rest : List (Frame σ)) :
    m.InvocationsEnd w rest := by
  intro i _ p previous n hstack
  have hi := ho.iterate i
  have hp : p.Modest := hi.frames (.body p) (hstack ▸ List.mem_cons_self)
  exact hi.ends (returns_of_nested hp (nestedReturn _) hi.modest hstack)

end Machine

/-- What a watcher does that asks for two further runs of itself in every other run. -/
def Program.askingTwice : Program Unit :=
  .look fun s => if s.state.runs ⟨0⟩ % 2 = 0 then .run ⟨0⟩ (.run ⟨0⟩ .done) else .done

/-- Such a watcher was made, and has run once. -/
def Machine.askingTwice : Machine Unit :=
  (trace 6 ((start ()).asked (.watch .askingTwice fun _ => .done)) []).1

/-- A machine at rest is orderly if its getters make no watchers and do not give up. -/
theorem Machine.orderly_of_getters {m : Machine σ} (hrest : m.stack = []) (modest : ∀ p ∈ m.getters, p.Modest)
    (paired : m.getters.size = m.state.watchers.size) : m.Orderly m.getters := by
  refine ⟨⟨fun w => ?_, paired⟩, rfl, by simp [hrest], by simp [nesting, hrest], by simp [nesting, hrest]⟩
  rw [Machine.getter]
  cases hw : m.getters[w.index]? with
  | none => trivial
  | some p => exact modest p (Array.mem_of_getElem? hw)

/-- It is asked to run, asks twice for a further run of itself, and runs again for both. -/
theorem Machine.InvocationsEnd.coalesced_askingTwice :
    askingTwice.state.runs ⟨0⟩ = 1 ∧
      turnsIn 9 (askingTwice.request ⟨0⟩) ⟨0⟩ = [.asked, .asked, .returned, .entered, .returned] ∧
      ∃ (n : Nat) (counts : List Nat), (askingTwice.request ⟨0⟩).Ends [] n ∧
        .entered :: (askingTwice.request ⟨0⟩).turnsIn n ⟨0⟩ = counts.flatMap invocation ∧
        (step^[n] (askingTwice.request ⟨0⟩)).state.progress? ⟨0⟩ = some ⟨1 + counts.length, false, false⟩ := by
  have hgetters : askingTwice.getters = #[.askingTwice] := by cbv
  have hmodest : ∀ p ∈ askingTwice.getters, p.Modest := by
    intro p hp
    rw [hgetters, List.mem_toArray, List.mem_singleton] at hp
    subst hp
    intro s
    show (if s.state.runs ⟨0⟩ % 2 = 0 then _ else _ : Program Unit).Modest
    split <;> trivial
  have horderly := (Machine.orderly_of_getters (by cbv) hmodest (by decide)).request ⟨0⟩
  have hrest : askingTwice.stack = [] := by cbv
  have hruns : askingTwice.state.runs ⟨0⟩ = 1 := by decide
  obtain ⟨n, counts, hends, hcounts, -, hprogress⟩ :=
    InvocationsEnd.coalesced (m := askingTwice) (w := ⟨0⟩) (by decide) (by decide) (by decide)
      (horderly.invocationsEnd ⟨0⟩ askingTwice.stack)
  exact ⟨hruns, by decide, n, counts, hrest ▸ hends, hcounts, hruns ▸ hprogress⟩

end LiveMarkup

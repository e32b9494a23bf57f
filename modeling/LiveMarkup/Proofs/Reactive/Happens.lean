import LiveMarkup.Proofs.Reactive.Step

/-!
# What can happen in a step

The events of a step are of one kind: a getter is entered, slots are read, a slot is changed, a
watcher is cut off, or a program gives up.

* `Machine.next?`: the next request.
* `Machine.Enters`: a machine right before a getter is entered.
* `Machine.Happens`: the events that a step can have, with what brings them about.
* **`Machine.happens_events`**: a step has no others.
* **`Machine.leave_of_step`**: only such an event sets off a run.
-/

namespace LiveMarkup.Machine

variable {σ : Type} {m : Machine σ} {w x : WatcherId} {es : List Event}

/-- The program that the next step goes on with. -/
def next? (m : Machine σ) : Option (Program σ) :=
  match m.stack with
  | .body p :: _ => some p
  | _ => none

theorem next?_of_stack {p : Program σ} {rest : List (Frame σ)} (hm : m.stack = .body p :: rest) :
    m.next? = some p := by rw [next?, hm]

theorem stack_of_next? {p : Program σ} (h : m.next? = some p) :
    ∃ rest, m.stack = .body p :: rest := by
  unfold next? at h
  split at h
  · next q rest hm =>
    cases h
    exact ⟨rest, hm⟩
  · cases h

/-- A machine that has got no further than to enter the getter of a watcher. -/
structure Enters (m k : Machine σ) (x : WatcherId) : Prop where
  heap : k.state.heap = m.state.heap
  host : k.state.host = m.state.host
  getter : x.index < m.state.watchers.size → k.getter x = m.getter x
  /-- Of the runs under way one may have ended. -/
  inside : ∀ previous n, .leave x previous n ∈ k.stack → .leave x previous n ∈ m.stack.tail

/-- The events that a step can have. -/
inductive Happens (m : Machine σ) : List Event → Prop where
  | nothing : Happens m []
  | entered (x : WatcherId) (k : Machine σ) (n : Nat) (enters : m.Enters k x)
      (step : m.step = k.enter x n) : Happens m [.entered x]
  | tracked (w : WatcherId) (ps : List Place) : Happens m (ps.map (.tracked w))
  | changed (o : ObjectId) (key : String) (v : Value) (next : Program σ)
      (top : m.next? = some (.write o key v next)) (changes : m.state.heap.ignores o key v = false) :
      Happens m [.changed ⟨o, key⟩]
  | gaveUp (w : WatcherId) (previous : Option WatcherId) (n : Nat) (rest : List (Frame σ))
      (stack : m.stack = .leave w previous n :: rest) : Happens m [.gaveUp w]
  | panicked (message : String) (top : m.next? = some (.panic message)) :
      Happens m [.panicked message]

/-- A run is asked for of a machine that has got no further than that. -/
theorem happens_requested {k : Machine σ} (enters : m.Enters k w) (hstep : m.step = k.request w)
    (running : k.state.isRunning w = m.state.isRunning w) : m.Happens (m.requested w) := by
  unfold requested
  rw [request_eq, running] at hstep
  by_cases hr : m.state.isRunning w
  · rw [if_pos hr]
    exact .nothing
  · rw [if_neg hr] at hstep ⊢
    exact .entered w k 0 enters hstep

/-- **A step has no other events.** -/
theorem happens_events (m : Machine σ) : m.Happens m.events := by
  unfold events
  cases hm : m.stack with
  | nil => exact .nothing
  | cons f rest =>
    cases f with
    | body p =>
      have htop := next?_of_stack hm
      cases p with
      | panic message => exact .panicked message htop
      | read reads next =>
        show m.Happens (performed _ _)
        cases hactive : m.state.active with
        | none => simp only [performed, hactive]; exact .nothing
        | some w => simp only [performed, hactive]; exact .tracked w _
      | write o key v next =>
        show m.Happens (if m.state.heap.ignores o key v then [] else [.changed ⟨o, key⟩])
        by_cases hi : m.state.heap.ignores o key v
        · rw [if_pos hi]
          exact .nothing
        · rw [if_neg hi]
          exact .changed o key v next htop (Bool.eq_false_iff.2 hi)
      | run w next =>
        refine happens_requested (k := ({ m with stack := rest }).push (.body next))
          ⟨rfl, rfl, fun _ => rfl, fun p n hl => ?_⟩ (by rw [step, hm]; rfl) rfl
        rw [hm]
        exact (List.mem_cons.1 hl).resolve_left (by simp)
      | watch getter next =>
        let made : Machine σ := ({ m with stack := rest } : Machine σ).withWatcher getter next
        have hstep : m.step = made.enter ⟨m.state.watchers.size⟩ 0 := by
          rw [step, hm]
          exact watch_eq_enter _ getter next
        refine .entered _ made 0 ⟨rfl, rfl, fun hlt => absurd hlt (Nat.lt_irrefl _),
          fun p n hl => ?_⟩ hstep
        rw [hm]
        exact (List.mem_cons.1 hl).resolve_left (by simp)
      | _ => exact .nothing
    | leave w previous n =>
      simp only [left]
      by_cases hd : (m.state.watcher? w).any (·.dirty)
      · rw [if_pos hd]
        by_cases hn : n < maxReruns
        · rw [if_pos hn]
          refine .entered w (({ m with stack := rest }).quit w previous) (n + 1)
            ⟨rfl, rfl, fun _ => rfl, fun p k hl => ?_⟩ ?_
          · rw [hm]
            exact hl
          · rw [step, hm]
            simp only [leave_eq, hd, hn, Bool.true_and, decide_true, if_true]
        · rw [if_neg hn]
          exact .gaveUp w previous n rest hm
      · rw [if_neg hd]
        exact .nothing
    | pending ws =>
      cases ws with
      | nil => exact .nothing
      | cons w ws =>
        refine happens_requested (k := { m with stack := .pending ws :: rest })
          ⟨rfl, rfl, fun _ => rfl, fun p n hl => ?_⟩ (by rw [step, hm]) rfl
        rw [hm]
        exact (List.mem_cons.1 hl).resolve_left (by simp)
    | adopt w next => exact .nothing

/-! ## Kinds of events -/

/-- A step that enters a getter does nothing else. -/
theorem enters_of_events (h : .entered x ∈ m.events) :
    m.events = [.entered x] ∧ ∃ k n, m.Enters k x ∧ m.step = k.enter x n := by
  have hall := happens_events m
  generalize m.events = es at h hall ⊢
  cases hall with
  | entered y k n enters hstep =>
    cases List.mem_singleton.1 h
    exact ⟨rfl, k, n, enters, hstep⟩
  | tracked w ps => simp at h
  | _ => simp at h

theorem entered_of_events (h : .entered x ∈ m.events) : m.step.Entered x := by
  obtain ⟨-, k, n, -, hstep⟩ := enters_of_events h
  rw [hstep]
  exact entered_enter_self

/-- A step that changes a slot does nothing else. -/
theorem changed_of_events {p : Place} (h : .changed p ∈ m.events) : m.events = [.changed p] := by
  have hall := happens_events m
  generalize m.events = es at h hall ⊢
  cases hall with
  | changed o key v next top changes =>
    cases List.mem_singleton.1 h
    rfl
  | tracked w ps => simp at h
  | _ => simp at h

/-- Only at the end of a run of a watcher its reruns are cut off. -/
theorem entered_of_gaveUp (h : .gaveUp x ∈ m.events) : m.Entered x := by
  have hall := happens_events m
  generalize m.events = es at h hall
  cases hall with
  | gaveUp w previous n rest hm =>
    cases List.mem_singleton.1 h
    exact ⟨previous, n, by rw [hm]; exact List.mem_cons_self⟩
  | tracked w ps => simp at h
  | _ => simp at h

/-- Only a request to do so makes a program give up. -/
theorem next?_of_panicked {message : String} (h : .panicked message ∈ m.events) :
    m.next? = some (.panic message) := by
  have hall := happens_events m
  generalize m.events = es at h hall
  cases hall with
  | panicked message' top =>
    cases List.mem_singleton.1 h
    exact top
  | tracked w ps => simp at h
  | _ => simp at h

/-- A write that is not ignored is a change. -/
theorem changed_of_next? {o : ObjectId} {key : String} {v : Value} {next : Program σ}
    (top : m.next? = some (.write o key v next)) (changes : m.state.heap.ignores o key v = false) :
    .changed ⟨o, key⟩ ∈ m.events := by
  obtain ⟨rest, hm⟩ := stack_of_next? top
  rw [events, hm]
  simp [performed, changes]

/-! ## Runs under way -/

variable {previous : Option WatcherId} {n k : Nat}

theorem leave_of_enter (h : .leave x previous n ∈ (m.enter w k).stack) :
    x = w ∨ .leave x previous n ∈ m.stack := by
  rw [stack_enter] at h
  rcases List.mem_cons.1 h with he | h
  · cases he
  · rcases List.mem_cons.1 h with he | h
    · cases he
      exact .inl rfl
    · exact .inr h

theorem mem_requested (h : .entered x ∈ m.requested w) : x = w := by
  unfold requested at h
  split at h
  · cases h
  · cases List.mem_singleton.1 h
    rfl

theorem leave_of_request (h : .leave x previous n ∈ (m.request w).stack) :
    .entered x ∈ m.requested w ∨ .leave x previous n ∈ m.stack := by
  rw [request_eq] at h
  rw [requested]
  split at h
  · exact .inr h
  · rw [if_neg (by assumption)]
    rcases leave_of_enter h with rfl | h
    · exact .inl List.mem_cons_self
    · exact .inr h

/-- **A run under way was so before**, and not the topmost piece of work, or it was entered in the step. -/
theorem leave_of_step (h : .leave x previous n ∈ m.step.stack) :
    .entered x ∈ m.events ∨ .leave x previous n ∈ m.stack.tail := by
  rw [step] at h
  rw [events]
  cases hm : m.stack with
  | nil =>
    simp only [hm] at h
    cases h
  | cons f rest =>
    simp only [hm] at h
    have hbody : ∀ {q : Program σ}, .leave x previous n ∈ .body q :: rest →
        .leave x previous n ∈ rest := fun hl => (List.mem_cons.1 hl).resolve_left (by simp)
    cases f with
    | body p =>
      cases p with
      | done => exact .inr h
      | panic message => cases h
      | read reads next =>
        refine .inr (hbody (q := next m.state.heap) ?_)
        revert h
        simp only [perform]
        split <;> exact id
      | write o key v next =>
        refine .inr (hbody (q := next) ?_)
        revert h
        simp only [perform]
        split
        · exact fun h => (List.mem_cons.1 h).resolve_left (by simp)
        · exact id
      | notify d next =>
        have hbelow := (List.mem_cons.1 h).resolve_left (by simp)
        exact .inr (hbody (q := next) hbelow)
      | run w next => exact (leave_of_request h).imp_right hbody
      | watch getter next =>
        rcases leave_of_request h with he | h
        · exact .inl (mem_requested he ▸ List.mem_cons_self)
        · exact .inr ((List.mem_cons.1 h).resolve_left (by simp))
      | look next | make draft next | edit change next | tell change next | release w next =>
        exact .inr (hbody h)
    | leave w p k =>
      simp only [leave_eq] at h
      split at h
      · next hrerun =>
        obtain ⟨hdirty, hmax⟩ := Bool.and_eq_true_iff.1 hrerun
        rcases leave_of_enter h with rfl | h
        · refine .inl ?_
          show _ ∈ m.left x k
          rw [left, if_pos hdirty, if_pos (of_decide_eq_true hmax)]
          exact List.mem_cons_self
        · exact .inr h
      · exact .inr h
    | pending ws =>
      cases ws with
      | nil => exact .inr h
      | cons w ws =>
        refine (leave_of_request h).imp_right fun hl => (List.mem_cons.1 hl).resolve_left (by simp)
    | adopt w next => exact .inr (hbody h)

end LiveMarkup.Machine

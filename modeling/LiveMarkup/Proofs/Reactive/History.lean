import LiveMarkup.Proofs.Data.Store
import LiveMarkup.Reactive.Live

/-!
# Histories

What a machine has been through, told by the events that matter to watchers: getters entered, slots
read for the active watcher, slots changed, and runs given up.

* `Event`, `Machine.events`: the events of one step.
* `History`: a machine that was started, was given programs while at rest, and took steps.
* `latest`: what happened since a getter was last entered.
* `UpToDate`, `CutOff`: none of its reads was overtaken by a change; its reruns came to an end.
-/

namespace LiveMarkup

/-- What can happen in a step. -/
inductive Event where
  /-- The getter of a watcher was entered. -/
  | entered (watcher : WatcherId)
  /-- A slot of an observed object was read for the active watcher. -/
  | tracked (watcher : WatcherId) (place : Place)
  /-- A write that was not ignored. -/
  | changed (place : Place)
  /-- A watcher whose runs kept asking for reruns was not run again. -/
  | gaveUp (watcher : WatcherId)
  /-- A program gave up. -/
  | panicked (message : String)
  deriving DecidableEq

namespace Machine

variable {σ : Type}

/-- Whether there is a slot at a place, of an observed object. -/
def isTracked (h : Heap) (p : Place) : Bool := h.isObserved p.object && (h.slot? p.object p.key).isSome

/-- The events of a run that is asked for. -/
def requested (m : Machine σ) (w : WatcherId) : List Event :=
  if m.state.isRunning w then [] else [.entered w]

/-- The events of a request of a program. -/
def performed (m : Machine σ) : Program σ → List Event
  | .panic message => [.panicked message]
  | .read reads _ =>
    match m.state.active with
    | some w => ((reads m.state.heap).filter (isTracked m.state.heap)).map (.tracked w)
    | none => []
  | .write o key v _ => if m.state.heap.ignores o key v then [] else [.changed ⟨o, key⟩]
  | .run w _ => m.requested w
  | .watch _ _ => [.entered ⟨m.state.watchers.size⟩]
  | _ => []

/-- The events of a getter's return. -/
def left (m : Machine σ) (w : WatcherId) (reruns : Nat) : List Event :=
  if (m.state.watcher? w).any (·.dirty) then
    if reruns < maxReruns then [.entered w] else [.gaveUp w]
  else []

/-- The events of the next step. -/
def events (m : Machine σ) : List Event :=
  match m.stack with
  | .body p :: rest => { m with stack := rest }.performed p
  | .leave w _ reruns :: _ => m.left w reruns
  | .pending (w :: _) :: _ => m.requested w
  | _ => []

end Machine

variable {σ : Type}

/-- A machine with what it has been through. Programs are given to it while it is at rest. -/
inductive History (host : σ) : Machine σ → List Event → Prop where
  | start : History host (Machine.start host) []
  | perform (m : Machine σ) (es : List Event) (p : Program σ) (before : History host m es)
      (rest : m.stack = []) : History host { m with stack := [.body p], fault := none } es
  | step (m : Machine σ) (es : List Event) (before : History host m es) :
      History host m.step (es ++ m.events)

/-- A machine after so many steps, with the events on the way. -/
def Machine.trace : Nat → Machine σ → List Event → Machine σ × List Event
  | 0, m, es => (m, es)
  | n + 1, m, es => trace n m.step (es ++ m.events)

theorem History.trace {host : σ} {m : Machine σ} {es : List Event} (h : History host m es)
    (n : Nat) : History host (m.trace n es).1 (m.trace n es).2 := by
  induction n generalizing m es with
  | zero => exact h
  | succ n ih => exact ih (h.step m es)

/-- What every step preserves holds of the machine at rest that an execution comes to. -/
theorem Machine.exec_preserves {P : Machine σ → Prop} (hstep : ∀ m, P m → P m.step) {m m' : Machine σ}
    (hm : P m) (h : m.exec = some m') : P m' ∧ m'.stack = [] := by
  refine exec.partial_correctness (fun m m' => P m → P m' ∧ m'.stack = []) (fun exec ih m m' h hm => ?_)
    m m' h hm
  split at h
  · next hs =>
    obtain rfl := Option.some.inj h
    exact ⟨hm, List.isEmpty_iff.1 hs⟩
  · exact ih m.step m' h (hstep m hm)

/-! ## The latest run -/

/-- What happened since the getter of a watcher was last entered. -/
def latest (w : WatcherId) (es : List Event) : List Event :=
  es.foldl (fun since e => if e = .entered w then [] else since ++ [e]) []

theorem latest_append_of_not_mem {w : WatcherId} {new : List Event} (es : List Event)
    (h : .entered w ∉ new) : latest w (es ++ new) = latest w es ++ new := by
  unfold latest
  rw [List.foldl_append]
  generalize es.foldl _ [] = since
  induction new generalizing since with
  | nil => simp
  | cons e new ih =>
    obtain ⟨he, hnew⟩ := not_or.1 (mt List.mem_cons.2 h)
    rw [List.foldl_cons, if_neg (Ne.symm he), ih hnew, List.append_assoc]
    rfl

@[simp] theorem latest_append_entered (w : WatcherId) (es : List Event) :
    latest w (es ++ [.entered w]) = [] := by
  simp [latest]

/-- No slot that the latest run of a watcher has read was changed afterwards. -/
def UpToDate (w : WatcherId) (es : List Event) : Prop :=
  (latest w es).Pairwise fun a b => ∀ p, a = .tracked w p → b ≠ .changed p

/-- The latest run of a watcher was the last of too many in a row. -/
def CutOff (w : WatcherId) (es : List Event) : Prop := .gaveUp w ∈ latest w es

instance (w : WatcherId) (es : List Event) : Decidable (CutOff w es) :=
  inferInstanceAs (Decidable (_ ∈ _))

theorem upToDate_append_iff {w : WatcherId} {es new : List Event} (h : .entered w ∉ new) :
    UpToDate w (es ++ new) ↔ UpToDate w es ∧
      new.Pairwise (fun a b => ∀ p, a = .tracked w p → b ≠ .changed p) ∧
      ∀ p, .tracked w p ∈ latest w es → .changed p ∉ new := by
  rw [UpToDate, latest_append_of_not_mem es h, List.pairwise_append, UpToDate]
  refine and_congr_right fun _ => and_congr_right fun _ => ⟨fun hp p ht hc => ?_, fun hp a ha b hb p => ?_⟩
  · exact hp _ ht _ hc p rfl rfl
  · rintro rfl rfl
    exact hp p ha hb

theorem upToDate_entered (w : WatcherId) (es : List Event) : UpToDate w (es ++ [.entered w]) := by
  rw [UpToDate, latest_append_entered]
  exact .nil

end LiveMarkup

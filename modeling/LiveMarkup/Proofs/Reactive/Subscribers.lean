import LiveMarkup.Proofs.Reactive.Registered
import LiveMarkup.Proofs.Reactive.Turns
import LiveMarkup.Proofs.Reactive.UpToDate

/-!
# Subscribers, step by step

A step subscribes at most one watcher to a dep, after all others, or it notifies the dep and thereby forgets
its dead subscribers. It brings no watcher back to life that nobody holds.

* `enlist`: a list with one more member, unless it is there.
* `Machine.subscribes?`, `Machine.notified?`: whom a step subscribes to a dep, and which dep it notifies.
* **`Machine.subscribers_step`**: what a step makes of the subscribers of a dep.
* `Machine.careful`: a step for which watchers are only used by those who hold them.
* **`Machine.alive_of_step`**: a careful step brings no watcher back to life.
-/

namespace LiveMarkup

variable {σ : Type}

/-! ## Lists without repetitions -/

/-- A list with one more member at its end, unless it is there. -/
def enlist (ws : List WatcherId) : Option WatcherId → List WatcherId
  | none => ws
  | some w => if w ∈ ws then ws else ws ++ [w]

theorem eraseDups_append_toList (ws : List WatcherId) (o : Option WatcherId) :
    (ws ++ o.toList).eraseDups = enlist ws.eraseDups o := by
  cases o with
  | none => rw [Option.toList_none, List.append_nil]; rfl
  | some w =>
    rw [Option.toList_some, List.eraseDups_append, enlist]
    by_cases hw : w ∈ ws
    · rw [if_pos (List.mem_eraseDups.2 hw), show [w].removeAll ws = [] by simp [List.removeAll, hw]]
      exact List.append_nil _
    · rw [if_neg (mt List.mem_eraseDups.1 hw), show [w].removeAll ws = [w] by simp [List.removeAll, hw]]
      rfl

theorem nodup_enlist {ws : List WatcherId} (h : ws.Nodup) (o : Option WatcherId) : (enlist ws o).Nodup := by
  cases o with
  | none => exact h
  | some w =>
    rw [enlist]
    split
    · exact h
    · next hw => exact List.nodup_append.2 ⟨h, List.nodup_singleton w, by grind⟩

theorem nodup_eraseDups (ws : List WatcherId) : ws.eraseDups.Nodup := by
  induction ws using List.reverseRecOn with
  | nil => exact List.nodup_nil
  | append_singleton ws w ih =>
    rw [show [w] = (some w).toList from rfl, eraseDups_append_toList]
    exact nodup_enlist ih _

theorem mem_enlist {ws : List WatcherId} {o : Option WatcherId} {x : WatcherId} (h : x ∈ enlist ws o) :
    x ∈ ws ++ o.toList := by
  cases o with
  | none => exact List.mem_append_left _ h
  | some w =>
    rw [enlist] at h
    split at h
    · exact List.mem_append_left _ h
    · exact h

/-- Two lists that agree on a part of their members still do, with one more member. -/
theorem filter_enlist {ws vs : List WatcherId} {alive : WatcherId → Bool} {o : Option WatcherId}
    (same : ws.filter alive = vs.filter alive) (mem : ∀ w, o = some w → (w ∈ ws ↔ w ∈ vs)) :
    (enlist ws o).filter alive = (enlist vs o).filter alive := by
  cases o with
  | none => exact same
  | some w =>
    have hmem := mem w rfl
    rw [enlist, enlist]
    by_cases hw : w ∈ ws
    · rw [if_pos hw, if_pos (hmem.1 hw), same]
    · rw [if_neg hw, if_neg (mt hmem.2 hw), List.filter_append, List.filter_append, same]

namespace Heap

variable {h : Heap} {d e : DepId} {w : WatcherId}

theorem subscribers_subscribe_eq (h : Heap) (d e : DepId) (w : WatcherId) :
    (h.subscribe d w).subscribers e =
      enlist (h.subscribers e) (if e = d ∧ d.index < h.deps.size then some w else none) := by
  rw [subscribers_subscribe]
  by_cases he : e = d ∧ d.index < h.deps.size
  · obtain ⟨rfl, hlt⟩ := he
    by_cases hw : w ∈ h.subscribers e <;> simp [enlist, hw, hlt]
  · rw [if_neg he, if_neg fun hc => he ⟨hc.1, hc.2.1⟩]
    rfl

theorem subscribers_track_eq (h : Heap) (w : WatcherId) (ps : List Place) (d : DepId) :
    (h.track w ps).subscribers d =
      enlist (h.subscribers d)
        (if d ∈ ps.filterMap h.depAt? ∧ d.index < h.deps.size then some w else none) := by
  rw [subscribers_track]
  by_cases hd : d ∈ ps.filterMap h.depAt? ∧ d.index < h.deps.size
  · rw [if_pos hd]
    by_cases hw : w ∈ h.subscribers d <;> simp [enlist, hw, hd]
  · rw [if_neg hd, if_neg fun hc => hd ⟨hc.1, hc.2.1⟩]
    rfl

end Heap

namespace Machine

variable {m : Machine σ} {d e : DepId} {w x : WatcherId} {rest base : List (Frame σ)}

/-! ## What a step does to subscribers -/

/-- The watcher that the next step subscribes to a dep, be it that it is there already. -/
def subscribes? (m : Machine σ) (d : DepId) : Option WatcherId :=
  match m.next? with
  | some (.read reads _) =>
    if d ∈ (reads m.state.heap).filterMap m.state.heap.depAt? ∧ d.index < m.state.heap.deps.size
    then m.state.active else none
  | some (.edit (.subscribe e w) _) =>
    if d = e ∧ e.index < m.state.heap.deps.size then some w else none
  | _ => none

/-- The watchers that so many steps subscribe to a dep. -/
def subscribedIn (m : Machine σ) (d : DepId) : Nat → List WatcherId
  | 0 => []
  | n + 1 => (m.subscribes? d).toList ++ m.step.subscribedIn d n

/-- The dep that the next step notifies. -/
def notified? (m : Machine σ) : Option DepId :=
  match m.next? with
  | some (.notify d _) => some d
  | some (.write o key v _) => (m.state.heap.store o key v).2
  | _ => none

/-- No step both subscribes and notifies. -/
theorem subscribes?_of_notified? (h : m.notified? = some d) (e : DepId) : m.subscribes? e = none := by
  unfold notified? at h
  split at h
  · next htop => rw [subscribes?, htop]
  · next htop => rw [subscribes?, htop]
  · cases h

theorem subscribers_notify (m : Machine σ) (d e : DepId) :
    (m.notify d).state.heap.subscribers e =
      if e = d then m.sight.subscribers d else m.state.heap.subscribers e := by
  show (m.state.heap.setSubscribers d (m.sight.subscribers d)).subscribers e = _
  rw [Heap.subscribers_setSubscribers]
  by_cases he : e = d
  · subst he
    by_cases hlt : e.index < m.state.heap.deps.size
    · simp [hlt]
    · simp [hlt, Sight.subscribers, sight, Heap.subscribers_of_le (Nat.le_of_not_lt hlt)]
  · rw [if_neg fun hc => he hc.1, if_neg he]

/-- The live subscribers of a dep, where the heap has changed otherwise. -/
theorem sight_subscribers_of_body {m' : Machine σ} {p q : Program σ} (hm : m.stack = .body p :: rest)
    (watchers : m'.state.watchers = m.state.watchers) (stack : m'.stack = .body q :: rest)
    (same : m'.state.heap.subscribers d = m.state.heap.subscribers d) :
    m'.sight.subscribers d = m.sight.subscribers d := by
  have hcontinues : m.Continues m' := .of_body hm watchers (.inr ⟨q, stack⟩)
  have halive : m'.sight.alive = m.sight.alive :=
    funext fun w => Bool.eq_iff_iff.2 hcontinues.alive_iff
  rw [Sight.subscribers, Sight.subscribers, halive]
  exact congrArg (List.filter _) same

/-- The step of a notification: the dead are forgotten, and those who live are to be run. -/
theorem step_of_notified? (h : m.notified? = some d) :
    m.step.state.heap.subscribers d = m.sight.subscribers d ∧
      (∀ e, e ≠ d → m.step.state.heap.subscribers e = m.state.heap.subscribers e) ∧
      ∃ p next rest, m.stack = .body p :: rest ∧ next.Follows p ∧
        m.step.stack = .pending (m.sight.subscribers d) :: .body next :: rest := by
  unfold notified? at h
  split at h
  · next d' next htop =>
    obtain rfl := Option.some.inj h
    obtain ⟨rest, hm⟩ := stack_of_next? htop
    let pushed : Machine σ := { m with stack := .body next :: rest }
    have hstep : m.step = pushed.notify d' := by rw [step, hm]; rfl
    have hlive : pushed.sight.subscribers d' = m.sight.subscribers d' :=
      sight_subscribers_of_body hm rfl rfl rfl
    rw [hstep]
    refine ⟨?_, fun e he => ?_, _, next, rest, hm, .notify d' next, by rw [← hlive]; rfl⟩
    · rw [subscribers_notify, if_pos rfl, hlive]
    · rw [subscribers_notify, if_neg he]
  · next o key v next htop =>
    obtain ⟨rest, hm⟩ := stack_of_next? htop
    have hsame := Heap.subscribers_store m.state.heap o key v
    let stored : Machine σ :=
      { m with
        state := { m.state with heap := (m.state.heap.store o key v).1 }
        stack := .body next :: rest }
    have hstep : m.step = stored.notify d := by
      rw [step, hm]
      simp only [perform, h]
      rfl
    have hlive : stored.sight.subscribers d = m.sight.subscribers d :=
      sight_subscribers_of_body hm rfl rfl (hsame d)
    rw [hstep]
    refine ⟨?_, fun e he => ?_, _, next, rest, hm, .write o key v next, by rw [← hlive]; rfl⟩
    · rw [subscribers_notify, if_pos rfl, hlive]
    · rw [subscribers_notify, if_neg he]
      exact hsame e
  · cases h

theorem getters_of_notified? (h : m.notified? = some d) : m.step.getters = m.getters := by
  unfold notified? at h
  split at h
  · next htop =>
    obtain ⟨rest, hm⟩ := stack_of_next? htop
    rw [step, hm]
    rfl
  · next htop =>
    obtain ⟨rest, hm⟩ := stack_of_next? htop
    rw [step, hm]
    simp only [perform, h]
    rfl
  · cases h

/-- **What a step makes of the subscribers of a dep**: a notification of it prunes them, and no other step
does more than to add one at the end. -/
theorem subscribers_step (m : Machine σ) (d : DepId) :
    m.step.state.heap.subscribers d =
      if m.notified? = some d then m.sight.subscribers d
      else enlist (m.state.heap.subscribers d) (m.subscribes? d) := by
  split
  · next h => exact (step_of_notified? h).1
  · next hn =>
    cases hm : m.stack with
    | nil =>
      rw [step_of_rest hm, subscribes?, next?, hm]
      rfl
    | cons f rest =>
      have hstep := step.eq_def m
      rw [hm] at hstep
      cases f with
      | body p =>
        have htop := next?_of_stack hm
        rw [hstep, subscribes?, htop]
        cases p with
        | read reads next =>
          simp only [perform]
          cases hactive : m.state.active with
          | none => simp only [ite_self]; rfl
          | some w => exact Heap.subscribers_track_eq m.state.heap w (reads m.state.heap) d
        | edit change next =>
          cases change with
          | subscribe e w => exact Heap.subscribers_subscribe_eq m.state.heap e d w
          | observe v => exact (Heap.Instruments.observe m.state.heap v).subscribers d
          | newDep => exact Heap.subscribers_newDep m.state.heap d
          | push a v | setItem a i v => rfl
        | make draft next => exact (Heap.grows_build m.state.heap draft).subscribers_eq d
        | panic message => exact congrArg (Heap.subscribers · d) (heap_unwind m.state rest)
        | write o key v next =>
          rw [← hstep]
          cases hs : m.notified? with
          | some e =>
            exact (step_of_notified? hs).2.1 d fun he => hn (he ▸ hs)
          | none =>
            rw [notified?, htop] at hs
            have hs : (m.state.heap.store o key v).2 = none := hs
            rw [hstep]
            simp only [perform, hs]
            exact Heap.subscribers_store m.state.heap o key v d
        | notify e next =>
          have hs : m.notified? = some e := by rw [notified?, htop]
          rw [← hstep]
          exact (step_of_notified? hs).2.1 d fun he => hn (he ▸ hs)
        | run w next => exact congrArg (Heap.subscribers · d) (heap_request _ w)
        | watch getter next => exact congrArg (Heap.subscribers · d) (heap_request _ _)
        | done | look next | tell change next | release w next => rfl
      | leave w previous n =>
        rw [hstep, heap_leave, subscribes?, next?, hm]
        rfl
      | pending ws =>
        rw [hstep, subscribes?, next?, hm]
        cases ws with
        | nil => rfl
        | cons w ws => exact congrArg (Heap.subscribers · d) (heap_request _ w)
      | adopt w next =>
        rw [hstep, subscribes?, next?, hm]
        rfl

/-! ## Who lives -/

/-- Whether the next step uses a watcher only as its holders can: a run of it is asked for, or it is
subscribed by hand, while it lives. -/
def careful (m : Machine σ) : Bool :=
  match m.next? with
  | some (.run w _) => m.sight.alive w
  | some (.edit (.subscribe _ w) _) => m.sight.alive w && decide (w.index < m.state.watchers.size)
  | _ => true

theorem isKept_unwind (s : State σ) (fs : List (Frame σ)) (w : WatcherId) :
    (unwind s fs).isKept w = s.isKept w := by
  induction fs generalizing s with
  | nil => rfl
  | cons f fs ih =>
    cases f with
    | leave x previous n =>
      refine (ih _).trans ?_
      exact State.any_modifyWatcher (fun y => { y with running := false }) Watcher.kept (fun _ => rfl) s x w
    | body p | pending ws | adopt x next => exact ih s

/-- A getter that is entered is that of a watcher which lives, or which was just made. -/
theorem alive_of_entered (careful : m.careful) (made : x.index < m.state.watchers.size)
    (h : .entered x ∈ m.events) : m.sight.alive x := by
  unfold events at h
  cases hm : m.stack with
  | nil => rw [hm] at h; cases h
  | cons f rest =>
    rw [hm] at h
    have hheld : x ∈ f.held → m.sight.alive x := fun hx =>
      alive_iff.2 (.inr ⟨f, by rw [hm]; exact List.mem_cons_self, hx⟩)
    cases f with
    | body p =>
      cases p with
      | run w next =>
        obtain rfl := mem_requested (m := { m with stack := rest }) h
        rw [Machine.careful, next?_of_stack hm] at careful
        exact careful
      | watch getter next =>
        obtain rfl : x = ⟨m.state.watchers.size⟩ := by simpa [performed] using h
        exact absurd made (Nat.lt_irrefl _)
      | read reads next =>
        simp only [performed] at h
        split at h <;> simp at h
      | write o key v next =>
        simp only [performed] at h
        split at h <;> simp at h
      | _ => simp [performed] at h
    | leave w previous n =>
      refine hheld ?_
      simp only [left] at h
      split at h
      · split at h <;> simp_all [Frame.held]
      · cases h
    | pending ws =>
      cases ws with
      | nil => cases h
      | cons w ws =>
        obtain rfl := mem_requested h
        exact hheld List.mem_cons_self
    | adopt w next => cases h

/-- **A careful step brings no watcher back to life.** -/
theorem alive_of_step (hh : m.state.heap.Sound) (careful : m.careful)
    (made : x.index < m.state.watchers.size) (h : m.step.sight.alive x) : m.sight.alive x := by
  by_cases hcalm : ∀ message, .panicked message ∉ m.events
  · rcases passes_step hh x hcalm with hentered | hpasses
    · exact alive_of_entered careful made hentered
    · exact hpasses.alive h
  · obtain ⟨message, hpanic⟩ := not_forall_not.1 hcalm
    obtain ⟨rest, hm⟩ := stack_of_next? (next?_of_panicked hpanic)
    have hstep : m.step = ⟨unwind m.state rest, m.getters, [], some message⟩ := by rw [step, hm]; rfl
    rw [hstep, alive_iff] at h
    rcases h with hkept | ⟨f, hf, -⟩
    · exact alive_iff.2 (.inl ((isKept_unwind m.state rest x).symm.trans hkept))
    · exact absurd hf List.not_mem_nil

/-- A watcher that is subscribed lives, and was made. -/
theorem alive_of_subscribes? (hd : m.Disciplined) (careful : m.careful) (h : m.subscribes? d = some w) :
    m.sight.alive w ∧ w.index < m.state.watchers.size := by
  unfold subscribes? at h
  split at h
  · next reads next htop =>
    split at h
    · refine ⟨?_, hd.active_made htop h⟩
      rw [hd.marks.active] at h
      obtain ⟨f, hf, hw⟩ := List.mem_filterMap.1 (List.mem_of_mem_head? h)
      refine alive_iff.2 (.inr ⟨f, hf, ?_⟩)
      cases f with
      | leave x previous n => exact List.mem_singleton.2 (Option.some.inj hw).symm
      | _ => cases hw
    · cases h
  · next e x next htop =>
    split at h
    · obtain rfl := Option.some.inj h
      rw [Machine.careful, htop] at careful
      simpa using careful
    · cases h
  · cases h

end Machine

end LiveMarkup

import LiveMarkup.Proofs.Reactive.Data
import LiveMarkup.Proofs.Reactive.Moves

/-!
# What a step retains

Whatever a step does, watchers keep their getters, a watcher that is kept stays so until it is
released, and the host is as it was until it is told otherwise.

* `Machine.Retains`: these facts about two machines and a watcher.
* **`Machine.retains_step`**: a step retains them.
* `Machine.step_read`, `Machine.step_tell`, `Machine.step_leave`: single steps.
-/

namespace LiveMarkup.Machine

variable {σ : Type} {m m' k : Machine σ} {w x : WatcherId}

/-- The host is the same, and a watcher has kept its getter and is still kept. -/
structure Retains (m m' : Machine σ) (x : WatcherId) : Prop where
  host : m'.state.host = m.state.host
  /-- Every watcher has a getter. -/
  paired : m.getters.size = m.state.watchers.size → m'.getters.size = m'.state.watchers.size
  made : x.index < m.getters.size → x.index < m'.getters.size ∧ m'.getter x = m.getter x
  isKept : m.state.isKept x → m'.state.isKept x

namespace Retains

theorem trans (a : m.Retains m' x) (b : m'.Retains k x) : m.Retains k x where
  host := b.host.trans a.host
  paired hp := b.paired (a.paired hp)
  made hx := ⟨(b.made (a.made hx).1).1, (b.made (a.made hx).1).2.trans (a.made hx).2⟩
  isKept hx := b.isKept (a.isKept hx)

/-- Watchers are changed, but not what is kept. -/
theorem of_kept (host : m'.state.host = m.state.host) (getters : m'.getters = m.getters)
    (size : m'.state.watchers.size = m.state.watchers.size)
    (isKept : m.state.isKept x → m'.state.isKept x) : m.Retains m' x where
  host := host
  paired hp := by rw [getters, size, hp]
  made hx := by
    refine ⟨by rwa [getters], ?_⟩
    rw [getter, getters, getter]
  isKept := isKept

/-- All watchers are the same. -/
theorem of_eq (host : m'.state.host = m.state.host) (getters : m'.getters = m.getters)
    (watchers : m'.state.watchers = m.state.watchers) : m.Retains m' x := by
  refine of_kept host getters (by rw [watchers]) fun hx => ?_
  rwa [State.isKept, State.watcher?, watchers]

theorem enter (m : Machine σ) (w x : WatcherId) (n : Nat) : m.Retains (m.enter w n) x :=
  of_kept rfl rfl (by simp [Machine.enter, State.modifyWatcher]) fun hx => (isKept_enter m w x n).trans hx

theorem request (m : Machine σ) (w x : WatcherId) : m.Retains (m.request w) x := by
  rw [request_eq]
  split
  · exact of_kept rfl rfl (by simp [mark, State.modifyWatcher]) fun hx => (isKept_mark m w x).trans hx
  · exact enter m w x 0

theorem leave (m : Machine σ) (w x : WatcherId) (previous : Option WatcherId) (n : Nat) :
    m.Retains (m.leave w previous n) x := by
  have hquit : m.Retains (m.quit w previous) x :=
    of_kept rfl rfl (by simp [quit, State.modifyWatcher]) fun hx =>
      (isKept_quit m w x previous).trans hx
  rw [leave_eq]
  split
  · exact hquit.trans (enter _ w x (n + 1))
  · exact hquit

/-- The runs under way are given up. -/
theorem unwind (m : Machine σ) (fs : List (Frame σ)) (fault : Option String) (x : WatcherId) :
    m.Retains ⟨Machine.unwind m.state fs, m.getters, [], fault⟩ x := by
  induction fs generalizing m with
  | nil => exact of_eq rfl rfl rfl
  | cons f fs ih =>
    cases f with
    | leave w previous n =>
      have hfirst : m.Retains { m with state :=
          { m.state.modifyWatcher w fun x => { x with running := false } with active := previous } }
          x := by
        refine of_kept rfl rfl (by simp [State.modifyWatcher]) fun hx => ?_
        exact (State.any_modifyWatcher (fun y => { y with running := false }) Watcher.kept
          (fun _ => rfl) m.state w x).trans hx
      exact hfirst.trans (ih _)
    | _ => exact ih m

/-- A new watcher comes after all others. -/
theorem watch (m : Machine σ) (getter : Program σ) (next : WatcherId → Program σ) (x : WatcherId) :
    m.Retains (m.watch getter next) x := by
  have hmade : m.Retains (m.withWatcher getter next) x := by
    refine ⟨rfl, fun hp => ?_, fun hx => ⟨?_, ?_⟩, fun hx => ?_⟩
    · simp [withWatcher, hp]
    · simpa [withWatcher] using Nat.lt_succ_of_lt hx
    · simp only [Machine.getter, withWatcher, Array.getElem?_push, if_neg (Nat.ne_of_lt hx)]
    · have hne : x ≠ ⟨m.state.watchers.size⟩ := by
        rintro rfl
        rw [State.isKept, State.watcher?_size] at hx
        cases hx
      rwa [State.isKept, State.watcher?_push (s := m.state) rfl, if_neg hne]
  exact hmade.trans (request _ _ x)

end Retains

/-- A move that neither tells the host nor releases a watcher retains all. -/
theorem Moves.retains (h : m.Moves k) (htell : ∀ change next, m.next? ≠ some (.tell change next))
    (hrelease : ∀ next, m.next? ≠ some (.release x next)) : m.Retains k x := by
  cases h with
  | rests stack | ends rest stack | settles rest stack => exact .of_eq rfl rfl rfl
  | goes p q rest heap stack follows => exact .of_eq rfl rfl rfl
  | notifies p q rest heap ws stack follows => exact .of_eq rfl rfl rfl
  | panics message rest stack => exact .unwind m rest (some message) x
  | tells change next rest stack => exact absurd (next?_of_stack stack) (htell change next)
  | runs w next rest stack =>
    have hgoes : m.Retains { m with stack := .body next :: rest } x := .of_eq rfl rfl rfl
    exact hgoes.trans (.request _ w x)
  | watches getter next rest stack =>
    have hpopped : m.Retains { m with stack := rest } x := .of_eq rfl rfl rfl
    exact hpopped.trans (.watch _ getter next x)
  | releases w next rest stack =>
    have hne : x ≠ w := fun he => hrelease next (he ▸ next?_of_stack stack)
    refine .of_kept rfl rfl (by simp [State.modifyWatcher]) fun hx => ?_
    exact (State.isKept_modifyWatcher_of_ne _ hne).trans hx
  | leaves w previous n rest stack =>
    have hpopped : m.Retains { m with stack := rest } x := .of_eq rfl rfl rfl
    exact hpopped.trans (.leave _ w x previous n)
  | serves w ws rest stack =>
    have hpending : m.Retains { m with stack := .pending ws :: rest } x := .of_eq rfl rfl rfl
    exact hpending.trans (.request _ w x)
  | adopts w next rest stack =>
    refine .of_kept rfl rfl (by simp [State.modifyWatcher]) fun hx => ?_
    rw [State.isKept, State.watcher?_modifyWatcher]
    split
    · cases hw : m.state.watcher? x with
      | none => simp [State.isKept, hw] at hx
      | some y => rfl
    · exact hx

/-- **A step that neither tells the host nor releases a watcher retains all.** -/
theorem retains_step (htell : ∀ change next, m.next? ≠ some (.tell change next))
    (hrelease : ∀ next, m.next? ≠ some (.release x next)) : m.Retains m.step x :=
  m.moves_step.retains htell hrelease

/-- Only a program that says so changes the host. -/
theorem host_step (htell : ∀ change next, m.next? ≠ some (.tell change next)) :
    m.step.state.host = m.state.host := by
  by_cases hrelease : ∃ next, m.next? = some (.release ⟨0⟩ next)
  · obtain ⟨next, htop⟩ := hrelease
    obtain ⟨rest, hm⟩ := stack_of_next? htop
    rw [step, hm]
    rfl
  · exact (retains_step (x := ⟨0⟩) htell fun next he => hrelease ⟨next, he⟩).host

/-- A step that tells the host changes nothing else but the topmost frame. -/
theorem step_tell {change : σ → σ} {next : Program σ} {rest : List (Frame σ)}
    (hm : m.stack = .body (.tell change next) :: rest) :
    m.step =
      { m with
        state := { m.state with host := change m.state.host }
        stack := .body next :: rest } := by
  rw [step, hm]
  rfl

/-- A tracked reading of the active watcher. -/
theorem step_read {reads : Heap → List Place} {next : Heap → Program σ} {rest : List (Frame σ)}
    (hm : m.stack = .body (.read reads next) :: rest) (active : m.state.active = some w) :
    m.step =
      { m with
        state := { m.state with heap := m.state.heap.track w (reads m.state.heap) }
        stack := .body (next m.state.heap) :: rest } := by
  obtain ⟨⟨heap, watchers, active', host⟩, getters, stack, fault⟩ := m
  subst hm
  subst active
  rfl

/-- At the end of its run a watcher is entered again, or it runs no longer. -/
theorem step_leave {previous : Option WatcherId} {n : Nat} {rest : List (Frame σ)}
    (hm : m.stack = .leave w previous n :: rest) :
    .entered w ∈ m.events ∨ m.step = ({ m with stack := rest }).quit w previous := by
  rw [events, step, hm]
  simp only [left, leave_eq]
  by_cases hd : (m.state.watcher? w).any (·.dirty)
  · by_cases hn : n < maxReruns
    · exact .inl (by simp [hd, hn])
    · exact .inr (by simp [hd, hn])
  · exact .inr (by simp [hd])

end LiveMarkup.Machine

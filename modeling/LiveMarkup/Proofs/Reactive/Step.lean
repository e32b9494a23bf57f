import LiveMarkup.Proofs.Reactive.History
import LiveMarkup.Proofs.Reactive.Watching

/-!
# One step, seen from a watcher

A step either enters the getter of a watcher, or it is one of the many that are about something
else. This module says once what such a step can mean to the watcher.

* `Machine.Passes`: a step that does not enter the getter of a watcher.
* **`Machine.passes_step`**: every step enters the getter or passes.
-/

namespace LiveMarkup.Machine

variable {σ : Type} {m m' mid : Machine σ} {w x : WatcherId} {es : List Event}

/-- What a step can mean to a watcher whose getter it does not enter. -/
structure Passes (m m' : Machine σ) (es : List Event) (x : WatcherId) : Prop where
  /-- Nothing but its getter brings a watcher back to life. -/
  alive : m'.sight.alive x → m.sight.alive x
  /-- A run that was asked for is not forgotten. -/
  waits : m.Queued x ∨ m.Marked x → m'.Queued x ∨ m'.Marked x ∨ .gaveUp x ∈ es
  dep? : ∀ p d, m.state.heap.depAt? p = some d → m'.state.heap.depAt? p = some d
  /-- A living watcher stays subscribed. -/
  subscribed : m'.sight.alive x → ∀ d, x ∈ m.state.heap.subscribers d →
    x ∈ m'.state.heap.subscribers d
  /-- A change is notified to a living subscriber. -/
  notified : m'.sight.alive x → ∀ p d, .changed p ∈ es → m.state.heap.depAt? p = some d →
    x ∈ m.state.heap.subscribers d → m'.Queued x
  /-- A tracked read subscribes. -/
  tracked : ∀ p, .tracked x p ∈ es →
    ∃ d, m'.state.heap.depAt? p = some d ∧ x ∈ m'.state.heap.subscribers d
  running : (m.state.isRunning x → m.Entered x) → m'.state.isRunning x → m'.Entered x
  /-- The getter is not entered behind its back. -/
  entered : m'.Entered x → m.Entered x

namespace Passes

/-- A step in two parts, of which the first has no events. -/
theorem trans (h : m.Passes mid [] x) (h' : mid.Passes m' es x) : m.Passes m' es x where
  alive ha := h.alive (h'.alive ha)
  waits hw := by
    rcases h.waits hw with hq | hm | hg
    · exact h'.waits (.inl hq)
    · exact h'.waits (.inr hm)
    · exact absurd hg List.not_mem_nil
  dep? p d hd := h'.dep? p d (h.dep? p d hd)
  subscribed ha d hx := h'.subscribed ha d (h.subscribed (h'.alive ha) d hx)
  notified ha p d hp hd hx :=
    h'.notified ha p d hp (h.dep? p d hd) (h.subscribed (h'.alive ha) d hx)
  tracked := h'.tracked
  running hr := h'.running (h.running hr)
  entered he := h.entered (h'.entered he)

/-- A step that continues, on a heap that has lost nothing. -/
theorem continues (hc : m.Continues m') (hext : m.state.heap.Extends m'.state.heap)
    (hchanged : ∀ p d, .changed p ∈ es → m.state.heap.depAt? p ≠ some d)
    (htracked : ∀ p, .tracked x p ∈ es →
      ∃ d, m'.state.heap.depAt? p = some d ∧ x ∈ m'.state.heap.subscribers d) :
    m.Passes m' es x where
  alive := hc.alive_iff.1
  waits hw := by
    rcases hw with hw | hw
    · exact .inl (hc.queued_iff.2 hw)
    · exact .inr (.inl (hc.marked_iff.2 hw))
  dep? p d hd := hext.dep? _ _ d hd
  subscribed _ d hx := hext.subscribers d x hx
  notified _ p d hp hd := absurd hd (hchanged p d hp)
  tracked := htracked
  running hr hx := hc.entered_iff.2 (hr (hc.isRunning.symm.trans hx))
  entered := hc.entered_iff.1

/-- A step that continues on the same heap, without events. -/
theorem quiet (hc : m.Continues m') (hext : m.state.heap.Extends m'.state.heap) :
    m.Passes m' [] x :=
  continues hc hext (fun _ _ hp => absurd hp List.not_mem_nil)
    fun _ hp => absurd hp List.not_mem_nil

/-- The getter of another watcher is entered. -/
theorem enter (h : x ≠ w) (n : Nat) : m.Passes (m.enter w n) [.entered w] x where
  alive := (alive_enter h).1
  waits hw := by
    rcases hw with hw | hw
    · exact .inl (queued_enter.2 hw)
    · exact .inr (.inl ((marked_enter h).2 hw))
  dep? _ _ hd := hd
  subscribed _ _ hx := hx
  notified _ _ _ hp := by simp at hp
  tracked _ hp := by simp at hp
  running hr hx := (hr ((isRunning_enter h).symm.trans hx)).enter
  entered he := entered_of_enter h he

/-- Another watcher is run, or marked. -/
theorem request (h : x ≠ w) : m.Passes (m.request w) (m.requested w) x := by
  rw [request_eq, requested]
  split
  · refine ⟨alive_mark.1, fun hw => ?_, fun _ _ hd => hd, fun _ _ hx => hx,
      fun _ _ _ hp => absurd hp List.not_mem_nil, fun _ hp => absurd hp List.not_mem_nil,
      fun hr hx => hr ((isRunning_mark m w x).symm.trans hx), id⟩
    rcases hw with hw | hw
    · exact .inl hw
    · exact .inr (.inl ((marked_mark_of_ne h).2 hw))
  · exact enter h 0

/-- A running watcher is marked. -/
theorem mark (h : m.state.isRunning w) : m.Passes (m.mark w) [] w where
  alive := alive_mark.1
  waits _ := .inr (.inl (marked_mark_self h))
  dep? _ _ hd := hd
  subscribed _ _ hx := hx
  notified _ _ _ hp := absurd hp List.not_mem_nil
  tracked _ hp := absurd hp List.not_mem_nil
  running hr hx := hr ((isRunning_mark m w w).symm.trans hx)
  entered := id

/-- A notification: of the subscribers only the dead are forgotten, and the others are queued. -/
theorem notify (d : DepId) (hd : ∀ p e, .changed p ∈ es → m.state.heap.depAt? p = some e → e = d)
    (htracked : ∀ p, .tracked x p ∉ es) : m.Passes (m.notify d) es x := by
  have halive : (m.notify d).sight.alive x → m.sight.alive x := by
    intro ha
    rcases (alive_push _).1 ha with ha | ha
    · exact ha
    · exact (mem_subscribers_iff.1 ha).2
  refine ⟨halive, fun hw => ?_, fun _ _ hd => hd, fun ha e hx => ?_, fun ha p e hp he hx => ?_,
    fun p hp => absurd hp (htracked p), fun hr hx => (hr hx).push _, fun he => ?_⟩
  · rcases hw with hw | hw
    · exact .inl ((queued_push _).2 (.inr hw))
    · exact .inr (.inl hw)
  · show x ∈ (m.state.heap.setSubscribers d (m.sight.subscribers d)).subscribers e
    rw [Heap.subscribers_setSubscribers]
    split
    · next h => exact mem_subscribers_iff.2 ⟨h.1 ▸ hx, halive ha⟩
    · exact hx
  · obtain rfl := hd p e hp he
    exact (queued_push _).2 (.inl (mem_subscribers_iff.2 ⟨hx, halive ha⟩))
  · exact he.of_cons rfl (by simp) fun _ hg => hg

/-- The condition and the frames of a watcher are changed, but not its flags. -/
theorem frames (heap : m'.state.heap = m.state.heap)
    (flags : (m'.state.watcher? x).map (fun y => (y.running, y.dirty)) =
      (m.state.watcher? x).map fun y => (y.running, y.dirty))
    (alive : m'.sight.alive x → m.sight.alive x) (queued : m.Queued x → m'.Queued x)
    (entered : m'.Entered x ↔ m.Entered x) : m.Passes m' [] x where
  alive := alive
  waits hw := by
    rcases hw with hw | ⟨y, hy, hrun, hdirty⟩
    · exact .inl (queued hw)
    · rw [hy] at flags
      obtain ⟨z, hz, he⟩ := Option.map_eq_some_iff.1 flags
      obtain ⟨hzr, hzd⟩ := Prod.mk.inj he
      exact .inr (.inl ⟨z, hz, hzr.trans hrun, hzd.trans hdirty⟩)
  dep? p d hd := by rw [heap]; exact hd
  subscribed _ d hx := by rw [heap]; exact hx
  notified _ _ _ hp := absurd hp List.not_mem_nil
  tracked _ hp := absurd hp List.not_mem_nil
  running hr hx := by
    refine entered.2 (hr ?_)
    have hflag : ∀ o : Option Watcher,
        o.any (·.running) = (o.map fun y => (y.running, y.dirty)).any (·.1) := by
      intro o
      cases o <;> rfl
    rw [State.isRunning, hflag, ← flags, ← hflag]
    exact hx
  entered := entered.1

end Passes

/-! ## The cases of a step -/

/-- A watcher is asked to run. -/
theorem passes_request (w x : WatcherId) :
    .entered x ∈ m.requested w ∨ m.Passes (m.request w) (m.requested w) x := by
  by_cases hx : x = w
  · subst hx
    rw [request_eq, requested]
    by_cases hr : m.state.isRunning x
    · rw [if_pos hr, if_pos hr]
      exact .inr (.mark hr)
    · rw [if_neg hr]
      exact .inl (List.mem_singleton_self _)
  · exact .inr (.request hx)

/-- The end of a run, before a rerun: the watcher runs no longer. -/
def quit (m : Machine σ) (w : WatcherId) (previous : Option WatcherId) : Machine σ :=
  { m with
    state := { m.state.modifyWatcher w (fun x => { x with running := false, dirty := false }) with
      active := previous } }

theorem leave_eq (m : Machine σ) (w : WatcherId) (previous : Option WatcherId) (n : Nat) :
    m.leave w previous n =
      if (m.state.watcher? w).any (·.dirty) && n < maxReruns then (m.quit w previous).enter w (n + 1)
      else m.quit w previous := rfl

theorem heap_leave (m : Machine σ) (w : WatcherId) (previous : Option WatcherId) (n : Nat) :
    (m.leave w previous n).state.heap = m.state.heap := by
  rw [leave_eq]
  split <;> rfl

theorem heap_unwind (s : State σ) (fs : List (Frame σ)) : (unwind s fs).heap = s.heap := by
  induction fs generalizing s with
  | nil => rfl
  | cons f fs ih =>
    cases f with
    | leave w previous n => exact ih _
    | _ => exact ih s

theorem watcher?_quit (m : Machine σ) (w x : WatcherId) (previous : Option WatcherId) :
    (m.quit w previous).state.watcher? x =
      if x = w then (m.state.watcher? x).map fun y => { y with running := false, dirty := false }
      else m.state.watcher? x :=
  State.watcher?_modifyWatcher m.state w x _

section Leave

variable {previous : Option WatcherId} {n : Nat} {rest : List (Frame σ)}

theorem isKept_quit (m : Machine σ) (w x : WatcherId) (previous : Option WatcherId) :
    (m.quit w previous).state.isKept x = m.state.isKept x :=
  State.any_modifyWatcher (fun y => { y with running := false, dirty := false }) Watcher.kept
    (fun _ => rfl) m.state w x

theorem alive_quit (hm : m.stack = .leave w previous n :: rest)
    (h : (({ m with stack := rest }).quit w previous).sight.alive x) : m.sight.alive x := by
  refine alive_of_cons hm (fun hk => ?_) (fun _ hg _ => .inl hg) h
  exact (isKept_quit { m with stack := rest } w x previous).symm.trans hk

theorem queued_quit (hm : m.stack = .leave w previous n :: rest) (h : m.Queued x) :
    (({ m with stack := rest }).quit w previous).Queued x :=
  h.of_cons hm List.not_mem_nil fun _ hg => hg

/-- The end of another watcher's run. -/
theorem passes_quit (hm : m.stack = .leave w previous n :: rest) (h : x ≠ w) :
    m.Passes (({ m with stack := rest }).quit w previous) [] x := by
  refine .frames rfl ?_ (alive_quit hm) (queued_quit hm)
    ⟨fun ⟨p, k, hg⟩ => ⟨p, k, ?_⟩, fun he => he.of_cons hm ?_ fun _ hg => hg⟩
  · rw [watcher?_quit, if_neg h]
  · rw [hm]
    exact List.mem_cons_of_mem _ hg
  · rintro p k ⟨⟩
    exact h rfl

/-- The end of the watcher's own run, not followed by another. -/
theorem passes_quit_self (hm : m.stack = .leave w previous n :: rest)
    (hg : (m.state.watcher? w).any (·.dirty) → .gaveUp w ∈ es)
    (hquiet : ∀ p, .changed p ∉ es ∧ .tracked w p ∉ es) :
    m.Passes (({ m with stack := rest }).quit w previous) es w where
  alive := alive_quit hm
  waits hw := by
    rcases hw with hw | ⟨y, hy, -, hdirty⟩
    · exact .inl (queued_quit hm hw)
    · exact .inr (.inr (hg (by rw [hy]; exact hdirty)))
  dep? _ _ hd := hd
  subscribed _ _ hx := hx
  notified _ p _ hp := absurd hp (hquiet p).1
  tracked p hp := absurd hp (hquiet p).2
  running _ hx := by
    have hw : (({ m with stack := rest }).quit w previous).state.isRunning w = false := by
      rw [State.isRunning, watcher?_quit, if_pos rfl]
      cases m.state.watcher? w <;> rfl
    rw [hw] at hx
    cases hx
  entered := fun ⟨p, k, hg⟩ => ⟨p, k, by rw [hm]; exact List.mem_cons_of_mem _ hg⟩

theorem passes_leave (hm : m.stack = .leave w previous n :: rest) (x : WatcherId) :
    .entered x ∈ m.left w n ∨
      m.Passes (({ m with stack := rest }).leave w previous n) (m.left w n) x := by
  rw [leave_eq, left]
  by_cases hdirty : (m.state.watcher? w).any (·.dirty)
  · by_cases hn : n < maxReruns
    · by_cases hx : x = w
      · subst hx
        exact .inl (by simp [hdirty, hn])
      · right
        simp only [hdirty, hn, Bool.true_and, decide_true, if_true]
        exact (passes_quit hm hx).trans (.enter hx (n + 1))
    · right
      simp only [hdirty, hn, Bool.true_and, decide_false, if_true, if_false, Bool.false_eq_true]
      by_cases hx : x = w
      · subst hx
        exact passes_quit_self hm (fun _ => List.mem_singleton_self _) (by simp)
      · refine (passes_quit hm hx).trans (.continues ⟨rfl, rfl⟩ (.refl _) ?_ ?_) <;> simp
  · right
    simp only [hdirty, Bool.false_and, if_false, Bool.false_eq_true]
    by_cases hx : x = w
    · subst hx
      exact passes_quit_self hm (fun h => absurd h hdirty) (by simp)
    · exact passes_quit hm hx

end Leave

section Perform

variable {rest : List (Frame σ)} {p : Program σ}

/-- A machine from whose stack a body was taken, and on which another was put. -/
theorem passes_body {q : Program σ} (hm : m.stack = .body p :: rest)
    (watchers : m'.state.watchers = m.state.watchers) (stack : m'.stack = .body q :: rest)
    (hext : m.state.heap.Extends m'.state.heap) : m.Passes m' [] x :=
  .quiet (.of_body hm watchers (.inr ⟨q, stack⟩)) hext

/-- A watcher is made: to all others nothing happens. -/
theorem passes_watch (hm : m.stack = .body p :: rest) (getter : Program σ)
    (next : WatcherId → Program σ) (hx : x ≠ ⟨m.state.watchers.size⟩) :
    m.Passes ({ m with stack := rest }.watch getter next) [.entered ⟨m.state.watchers.size⟩] x := by
  let made : Machine σ := ({ m with stack := rest } : Machine σ).withWatcher getter next
  have hwatcher : made.state.watcher? x = m.state.watcher? x := by
    rw [State.watcher?_push (s := m.state) rfl, if_neg hx]
  have hmade : m.Passes made [] x := by
    refine .frames rfl (by rw [hwatcher]) (alive_of_cons hm ?_ ?_)
      (fun hq => hq.of_cons hm List.not_mem_nil fun _ hg => List.mem_cons_of_mem _ hg)
      (entered_iff_of_cons (.adopt ⟨m.state.watchers.size⟩ next) hm (by simp) (by simp) rfl)
    · rw [State.isKept, hwatcher]
      exact id
    · intro g hg hxg
      rcases List.mem_cons.1 hg with rfl | hg
      · exact absurd (List.mem_singleton.1 hxg) hx
      · exact .inl hg
  rw [watch_eq_enter]
  exact hmade.trans (.enter hx 0)

/-- A watcher is kept no longer. -/
theorem passes_release (hm : m.stack = .body p :: rest) (w : WatcherId) (next : Program σ) :
    m.Passes ({ m with stack := rest }.perform (.release w next)) [] x := by
  have hkept : ∀ y, (m.state.modifyWatcher w fun x => { x with kept := false }).isKept y →
      m.state.isKept y := by
    intro y
    rw [State.isKept, State.watcher?_modifyWatcher, State.isKept]
    split
    · cases m.state.watcher? y <;> simp
    · exact id
  refine .frames rfl ?_ (alive_of_cons hm (hkept x) ?_)
    (fun hq => hq.of_cons hm List.not_mem_nil fun _ hg => List.mem_cons_of_mem _ hg)
    (entered_iff_of_cons (.body next) hm (by simp) (by simp) rfl)
  · show ((m.state.modifyWatcher w fun x => { x with kept := false }).watcher? x).map _ = _
    rw [State.watcher?_modifyWatcher]
    split
    · cases m.state.watcher? x <;> rfl
    · rfl
  · intro g hg hxg
    rcases List.mem_cons.1 hg with rfl | hg
    · exact absurd hxg List.not_mem_nil
    · exact .inl hg

/-- A tracked reading subscribes the active watcher. -/
theorem tracked_track (hh : m.state.heap.Sound) {ps : List Place} {q : Place}
    (hq : .tracked x q ∈ (ps.filter (isTracked m.state.heap)).map (Event.tracked w)) :
    ∃ d, (m.state.heap.track w ps).depAt? q = some d ∧
      x ∈ (m.state.heap.track w ps).subscribers d := by
  obtain ⟨q', hq', he⟩ := List.mem_map.1 hq
  cases he
  obtain ⟨hmem, htracked⟩ := List.mem_filter.1 hq'
  obtain ⟨hobs, hslot⟩ := Bool.and_eq_true_iff.1 htracked
  obtain ⟨d, hd, hlt⟩ := hh.exists_dep hobs hslot
  exact ⟨d, (Heap.Extends.track _ _ ps).dep? _ _ d hd, Heap.track_subscribes hmem hd hlt⟩

/-- A request of a program, seen from a watcher that it does not enter. -/
theorem passes_perform (hm : m.stack = .body p :: rest) (hh : m.state.heap.Sound) (x : WatcherId)
    (calm : ∀ message, .panicked message ∉ { m with stack := rest }.performed p) :
    .entered x ∈ { m with stack := rest }.performed p ∨
      m.Passes ({ m with stack := rest }.perform p) ({ m with stack := rest }.performed p) x := by
  cases p with
  | done => exact .inr (.quiet (.of_body hm rfl (.inl rfl)) (.refl _))
  | panic message => exact absurd (List.mem_singleton_self _) (calm message)
  | look next => exact .inr (passes_body hm rfl rfl (.refl _))
  | read reads next =>
    right
    cases hactive : m.state.active with
    | none =>
      simp only [perform, performed, hactive]
      exact passes_body hm rfl rfl (.refl _)
    | some w =>
      simp only [perform, performed, hactive]
      refine .continues (.of_body hm rfl (.inr ⟨_, rfl⟩)) (Heap.Extends.track _ w _)
        (fun q _ hq => ?_)
        fun q hq => tracked_track hh hq
      simp at hq
  | make draft next => exact .inr (passes_body hm rfl rfl (Heap.grows_build _ draft).toExtends)
  | edit change next => exact .inr (passes_body hm rfl rfl (.edit _ change))
  | tell change next => exact .inr (passes_body hm rfl rfl (.refl _))
  | write o key v next =>
    right
    simp only [perform, performed]
    by_cases hi : m.state.heap.ignores o key v
    · rw [Heap.store_of_ignores hi, if_pos hi]
      exact passes_body hm rfl rfl (.refl _)
    · have hext := Heap.Extends.store m.state.heap o key v
      obtain ⟨h', -, -, he⟩ := Heap.store_eq (Bool.eq_false_iff.2 hi)
      have hdep : (m.state.heap.store o key v).2 = m.state.heap.depAt? ⟨o, key⟩ := by rw [he]; rfl
      rw [if_neg hi]
      cases hd : (m.state.heap.store o key v).2 with
      | none =>
        refine .continues (.of_body hm rfl (.inr ⟨next, rfl⟩)) hext (fun q e hq => ?_) fun q hq => ?_
        · cases List.mem_singleton.1 hq
          rw [← hdep, hd]
          exact nofun
        · cases List.mem_singleton.1 hq
      | some d =>
        rw [hd] at hdep
        have hmid : m.Passes ((({ m with stack := rest }).withHeap
            (m.state.heap.store o key v).1).push (.body next)) [] x := passes_body hm rfl rfl hext
        refine hmid.trans (.notify d (fun q e hq hqe => ?_) fun q hq => ?_)
        · cases List.mem_singleton.1 hq
          exact Option.some.inj (hqe.symm.trans (hext.dep? _ _ d hdep.symm))
        · cases List.mem_singleton.1 hq
  | notify d next =>
    have hmid : m.Passes (({ m with stack := rest }).push (.body next)) [] x :=
      passes_body hm rfl rfl (.refl _)
    exact .inr (hmid.trans (.notify d (fun _ _ hp => absurd hp List.not_mem_nil)
      fun _ => List.not_mem_nil))
  | run w next =>
    have hmid : m.Passes (({ m with stack := rest }).push (.body next)) [] x :=
      passes_body hm rfl rfl (.refl _)
    rcases passes_request (m := ({ m with stack := rest }).push (.body next)) w x with h | h
    · exact .inl h
    · exact .inr (hmid.trans h)
  | watch getter next =>
    by_cases hx : x = ⟨m.state.watchers.size⟩
    · exact .inl (by simp [performed, hx])
    · exact .inr (passes_watch hm getter next hx)
  | release w next => exact .inr (passes_release hm w next)

end Perform

/-- The frames of a notification move on: the first of its watchers is asked to run. -/
theorem passes_pending {ws : List WatcherId} {rest : List (Frame σ)}
    (hm : m.stack = .pending (w :: ws) :: rest) (x : WatcherId) :
    .entered x ∈ m.requested w ∨
      m.Passes ({ m with stack := .pending ws :: rest }.request w) (m.requested w) x := by
  have halive : ({ m with stack := .pending ws :: rest } : Machine σ).sight.alive x →
      m.sight.alive x := by
    refine alive_of_cons hm id fun g hg hxg => ?_
    rcases List.mem_cons.1 hg with rfl | hg
    · exact .inr (List.mem_cons_of_mem _ hxg)
    · exact .inl hg
  have hentered : ({ m with stack := .pending ws :: rest } : Machine σ).Entered x ↔ m.Entered x :=
    entered_iff_of_cons (.pending ws) hm (by simp) (by simp) rfl
  by_cases hx : x = w
  · subst hx
    rw [request_eq, requested]
    by_cases hr : m.state.isRunning x
    · rw [if_pos hr, if_pos hr]
      have hmark := Passes.mark (m := { m with stack := .pending ws :: rest }) hr
      exact .inr ⟨fun ha => halive (hmark.alive ha), fun _ => .inr (.inl (marked_mark_self hr)),
        hmark.dep?, fun _ _ h => h, fun _ _ _ h => absurd h List.not_mem_nil,
        fun _ h => absurd h List.not_mem_nil,
        fun h => hmark.running fun h' => hentered.2 (h h'), fun he => hentered.1 (hmark.entered he)⟩
    · rw [if_neg hr]
      exact .inl (List.mem_singleton_self _)
  · have hfirst : m.Passes { m with stack := .pending ws :: rest } [] x := by
      refine .frames rfl rfl halive ?_ hentered
      rintro ⟨f, hf, hxf⟩
      rw [hm] at hf
      rcases List.mem_cons.1 hf with rfl | hf
      · exact ⟨.pending ws, List.mem_cons_self, (List.mem_cons.1 hxf).resolve_left hx⟩
      · exact ⟨f, List.mem_cons_of_mem _ hf, hxf⟩
    exact .inr (hfirst.trans (.request hx))

/-- The end of a watcher's first run, from where on it is kept. -/
theorem passes_adopt {next : WatcherId → Program σ} {rest : List (Frame σ)}
    (hm : m.stack = .adopt w next :: rest) : m.Passes m.step [] x := by
  have hstep : m.step =
      { m with
        state := m.state.modifyWatcher w fun x => { x with kept := true }
        stack := .body (next w) :: rest } := by rw [step, hm]
  rw [hstep]
  refine .frames rfl ?_ ?_
    (fun hq => hq.of_cons hm List.not_mem_nil fun _ hg => List.mem_cons_of_mem _ hg)
    (entered_iff_of_cons (.body (next w)) hm (by simp) (by simp) rfl)
  · show ((m.state.modifyWatcher w fun x => { x with kept := true }).watcher? x).map _ = _
    rw [State.watcher?_modifyWatcher]
    split
    · cases m.state.watcher? x <;> rfl
    · rfl
  · by_cases hx : x = w
    · exact fun _ => alive_iff.2 (.inr ⟨_, by rw [hm]; exact List.mem_cons_self, by simp [Frame.held, hx]⟩)
    · refine alive_of_cons hm (fun h => (State.isKept_modifyWatcher_of_ne _ hx).symm.trans h) ?_
      intro g hg hxg
      rcases List.mem_cons.1 hg with rfl | hg
      · exact absurd hxg List.not_mem_nil
      · exact .inl hg

/-- **A step that does not give up enters the getter of a watcher, or passes it by.** -/
theorem passes_step (hh : m.state.heap.Sound) (x : WatcherId)
    (calm : ∀ message, .panicked message ∉ m.events) :
    .entered x ∈ m.events ∨ m.Passes m.step m.events x := by
  unfold events at calm ⊢
  cases hm : m.stack with
  | nil =>
    have hstep : m.step = m := by rw [step, hm]
    rw [hstep]
    exact .inr (.quiet ⟨rfl, rfl⟩ (.refl _))
  | cons f rest =>
    cases f with
    | body p =>
      have hstep : m.step = { m with stack := rest }.perform p := by rw [step, hm]
      rw [hm] at calm
      rw [hstep]
      exact passes_perform hm hh x calm
    | leave w previous n =>
      have hstep : m.step = { m with stack := rest }.leave w previous n := by rw [step, hm]
      rw [hstep]
      exact passes_leave hm x
    | pending ws =>
      cases ws with
      | nil =>
        have hstep : m.step = { m with stack := rest } := by rw [step, hm]
        rw [hstep]
        exact .inr (.frames rfl rfl (alive_of_cons hm id fun _ hg _ => .inl hg)
          (fun hq => hq.of_cons hm List.not_mem_nil fun _ hg => hg)
          ⟨fun ⟨p, k, hg⟩ => ⟨p, k, by rw [hm]; exact List.mem_cons_of_mem _ hg⟩,
            fun he => he.of_cons hm (by simp) fun _ hg => hg⟩)
      | cons w ws =>
        have hstep : m.step = { m with stack := .pending ws :: rest }.request w := by rw [step, hm]
        rw [hstep]
        exact passes_pending hm x
    | adopt w next => exact .inr (passes_adopt hm)

end LiveMarkup.Machine

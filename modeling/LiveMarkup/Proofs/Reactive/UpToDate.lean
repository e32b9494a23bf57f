import Mathlib.Data.List.Permutation
import LiveMarkup.Proofs.Reactive.Happens

/-!
# No missed update

When no watcher is running, every living watcher has seen the last change of every slot that its
latest run has read, unless its reruns were cut off.

* `Machine.Informed`: the invariant that carries this through nested and interleaved runs.
* **`Informed.pass`**: a step that passes a watcher by keeps it informed.
* **`upToDate_of_history`**: the result, for every history in which no program gives up.
-/

namespace LiveMarkup

namespace Machine

variable {σ : Type} {m m' : Machine σ} {w x : WatcherId} {es new : List Event}

/-- Within one step no slot is changed after it was read. -/
theorem pairwise_events (w : WatcherId) :
    m.events.Pairwise fun a b => ∀ p, a = .tracked w p → b ≠ .changed p := by
  by_cases h : ∃ p, .changed p ∈ m.events
  · obtain ⟨p, hp⟩ := h
    rw [changed_of_events hp]
    exact List.pairwise_singleton _ _
  · exact List.pairwise_of_forall_mem_list fun a _ b hb p _ e => h ⟨p, e ▸ hb⟩

/-! ## The invariant -/

/-- A watcher is subscribed to what it has read, as long as it lives; and if one of these slots was
changed since, then it is about to run again, or was cut off. -/
structure Informed (m : Machine σ) (es : List Event) (w : WatcherId) : Prop where
  subscribed : ∀ p, .tracked w p ∈ latest w es →
    ∃ d, m.state.heap.depAt? p = some d ∧ (m.sight.alive w → w ∈ m.state.heap.subscribers d)
  told : m.sight.alive w → UpToDate w es ∨ m.Queued w ∨ m.Marked w ∨ CutOff w es
  running : m.state.isRunning w → m.Entered w

/-- **A step that passes a watcher by keeps it informed.** -/
theorem Informed.pass (h : m.Informed es w) (hp : m.Passes m' new w) (hne : .entered w ∉ new)
    (hpair : new.Pairwise fun a b => ∀ p, a = .tracked w p → b ≠ .changed p) :
    m'.Informed (es ++ new) w where
  subscribed p ht := by
    rw [latest_append_of_not_mem es hne] at ht
    rcases List.mem_append.1 ht with ht | ht
    · obtain ⟨d, hd, hs⟩ := h.subscribed p ht
      exact ⟨d, hp.dep? p d hd, fun ha => hp.subscribed ha d (hs (hp.alive ha))⟩
    · obtain ⟨d, hd, hs⟩ := hp.tracked p ht
      exact ⟨d, hd, fun _ => hs⟩
  told ha := by
    have hcut : ∀ e, e ∈ latest w es ∨ e ∈ new → e ∈ latest w (es ++ new) := by
      intro e he
      rw [latest_append_of_not_mem es hne]
      exact List.mem_append.2 he
    have hwaits (hw : m.Queued w ∨ m.Marked w) :
        UpToDate w (es ++ new) ∨ m'.Queued w ∨ m'.Marked w ∨ CutOff w (es ++ new) := by
      rcases hp.waits hw with hq | hm | hg
      · exact .inr (.inl hq)
      · exact .inr (.inr (.inl hm))
      · exact .inr (.inr (.inr (hcut _ (.inr hg))))
    rcases h.told (hp.alive ha) with hu | hq | hm | hc
    · by_cases hover : ∃ p, .tracked w p ∈ latest w es ∧ .changed p ∈ new
      · -- The change of a slot that was read is notified to the watcher, a subscriber.
        obtain ⟨p, ht, hcp⟩ := hover
        obtain ⟨d, hd, hs⟩ := h.subscribed p ht
        exact .inr (.inl (hp.notified ha p d hcp hd (hs (hp.alive ha))))
      · exact .inl ((upToDate_append_iff hne).2 ⟨hu, hpair, fun p ht hcp => hover ⟨p, ht, hcp⟩⟩)
    · exact hwaits (.inl hq)
    · exact hwaits (.inr hm)
    · exact .inr (.inr (.inr (hcut _ (.inl hc))))
  running := hp.running h.running

/-- A watcher whose getter has just been entered has read nothing yet. -/
theorem informed_entered (h : m.Entered w) : m.Informed (es ++ [.entered w]) w where
  subscribed p ht := by
    rw [latest_append_entered] at ht
    exact absurd ht List.not_mem_nil
  told _ := .inl (upToDate_entered w es)
  running _ := h

theorem Informed.step (h : m.Informed es w) (hh : m.state.heap.Sound)
    (calm : ∀ message, .panicked message ∉ m.events) : m.step.Informed (es ++ m.events) w := by
  by_cases he : .entered w ∈ m.events
  · rw [(enters_of_events he).1]
    exact informed_entered (entered_of_events he)
  · exact h.pass ((passes_step hh w calm).resolve_left he) he (pairwise_events w)

/-! ## The heap -/

/-- No step takes a dep from an observed slot. -/
theorem sound_step (hh : m.state.heap.Sound) : m.step.state.heap.Sound := by
  unfold step
  split
  · exact hh
  · next p rest hm =>
    cases p with
    | panic message => exact (heap_unwind _ _).symm ▸ hh
    | read reads next =>
      simp only [perform]
      split
      · exact Heap.Sound.track hh _ _
      · exact hh
    | make draft next => exact (Heap.grows_build _ draft).sound hh
    | edit change next => exact Heap.Sound.edit hh change
    | write o key v next =>
      have hs := Heap.Sound.store hh o key v
      simp only [perform]
      split
      · exact hs.setSubscribers _ _
      · exact hs
    | notify d next => exact Heap.Sound.setSubscribers hh d _
    | run w next => exact (heap_request _ w).symm ▸ hh
    | watch getter next => exact (heap_request _ _).symm ▸ hh
    | _ => exact hh
  · exact (heap_leave _ _ _ _).symm ▸ hh
  · exact hh
  · exact (heap_request _ _).symm ▸ hh
  · exact hh

end Machine

/-! ## Histories -/

variable {σ : Type} {host : σ} {m : Machine σ} {es : List Event}

theorem History.sound (h : History host m es) : m.state.heap.Sound := by
  induction h with
  | start => exact Heap.sound_empty
  | perform m es p before rest ih => exact ih
  | step m es before ih => exact Machine.sound_step ih

theorem History.informed (h : History host m es) (calm : ∀ message, .panicked message ∉ es)
    (w : WatcherId) : m.Informed es w := by
  induction h with
  | start =>
    refine ⟨fun p ht => absurd ht List.not_mem_nil, fun _ => .inl .nil, fun hr => ?_⟩
    simp [State.isRunning, State.watcher?, Machine.start] at hr
  | perform m es p before rest ih =>
    have hi := ih calm
    have hc : m.Continues { m with stack := [.body p], fault := none } :=
      ⟨rfl, by simp [Machine.work, rest, Frame.isBody]⟩
    refine ⟨fun q ht => ?_, fun ha => ?_, fun hr => hc.entered_iff.2 (hi.running hr)⟩
    · obtain ⟨d, hd, hs⟩ := hi.subscribed q ht
      exact ⟨d, hd, fun ha => hs (hc.alive_iff.1 ha)⟩
    · rcases hi.told (hc.alive_iff.1 ha) with hu | hq | hm | hcut
      · exact .inl hu
      · exact .inr (.inl (hc.queued_iff.2 hq))
      · exact .inr (.inr (.inl hm))
      · exact .inr (.inr (.inr hcut))
  | step m es before ih =>
    refine (ih fun message hm => calm message (List.mem_append_left _ hm)).step before.sound ?_
    exact fun message hm => calm message (List.mem_append_right _ hm)

/-- **No missed update.** While no watcher is running, a living one whose reruns were not cut off is
up to date, or the notification of a change is just about to run it. Where no run and no notification
is under way, no watcher is running, and all of them are up to date. -/
theorem upToDate_of_history (h : History host m es) (calm : ∀ message, .panicked message ∉ es) :
    ((∀ x, ¬ m.state.isRunning x) →
      ∀ w, m.sight.alive w → ¬ CutOff w es → UpToDate w es ∨ m.Queued w) ∧
    (m.work = [] → (∀ x, ¬ m.state.isRunning x) ∧
      ∀ w, m.sight.alive w → ¬ CutOff w es → UpToDate w es) := by
  have hquiet : (∀ x, ¬ m.state.isRunning x) →
      ∀ w, m.sight.alive w → ¬ CutOff w es → UpToDate w es ∨ m.Queued w := by
    intro still w ha hc
    rcases (h.informed calm w).told ha with hu | hq | ⟨x, hx, hr, -⟩ | hcut
    · exact .inl hu
    · exact .inr hq
    · exact absurd (by rw [State.isRunning, hx]; exact hr) (still w)
    · exact absurd hcut hc
  refine ⟨hquiet, fun hwork => ?_⟩
  have still : ∀ x, ¬ m.state.isRunning x := by
    intro x hr
    obtain ⟨previous, n, hf⟩ := Machine.entered_iff_work.1 ((h.informed calm x).running hr)
    rw [hwork] at hf
    exact List.not_mem_nil hf
  refine ⟨still, fun w ha hc => (hquiet still w ha hc).resolve_right fun hq => ?_⟩
  obtain ⟨f, hf, -⟩ := Machine.queued_iff_work.1 hq
  rw [hwork] at hf
  exact List.not_mem_nil hf

/-- A watcher reads a slot, which is then written. -/
theorem upToDate_after_write :
    let getter : Program Unit := .get ⟨0⟩ "a" fun _ => .done
    let program : Program Unit := .make (.object [("a", .value .null)]) fun v =>
      .edit (.observe v) (.watch getter fun _ => .write ⟨0⟩ "a" (.bool true) .done)
    let after := Machine.trace 14 { Machine.start () with stack := [.body program] } []
    History () after.1 after.2 ∧ after.1.work = [] ∧ after.1.sight.alive ⟨0⟩ ∧
      after.2 = [.entered ⟨0⟩, .tracked ⟨0⟩ ⟨⟨0⟩, "a"⟩, .changed ⟨⟨0⟩, "a"⟩, .entered ⟨0⟩,
        .tracked ⟨0⟩ ⟨⟨0⟩, "a"⟩] ∧ UpToDate ⟨0⟩ after.2 := by
  intro getter program after
  have hhistory : History () after.1 after.2 :=
    (History.start.perform (Machine.start ()) [] program rfl).trace 14
  have hevents : after.2 = [.entered ⟨0⟩, .tracked ⟨0⟩ ⟨⟨0⟩, "a"⟩, .changed ⟨⟨0⟩, "a"⟩,
      .entered ⟨0⟩, .tracked ⟨0⟩ ⟨⟨0⟩, "a"⟩] := by cbv
  have hwork : after.1.work = [] := by cbv
  have halive : after.1.sight.alive ⟨0⟩ = true := by cbv
  refine ⟨hhistory, hwork, halive, hevents, ?_⟩
  refine ((upToDate_of_history hhistory ?_).2 hwork).2 ⟨0⟩ halive ?_
  · rw [hevents]; simp
  · rw [hevents]; decide

end LiveMarkup

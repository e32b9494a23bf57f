import Mathlib.Data.List.Iterate
import LiveMarkup.Proofs.Reactive.Enrolment
import LiveMarkup.Proofs.Reactive.Observation
import LiveMarkup.Proofs.Reactive.ReadOnly

/-!
# Whom a write runs

Where all getters only read, the subscribers of a slot are those who ever read it while its object was
observed, in the order in which they first did. A write that is not ignored runs each of them that lives
once, and nobody else.

* `readers`: the watchers that have read a place, one after another.
* `Readership`: a machine whose watchers only read, with what it has been through.
* `Machine.Attended`: the subscribers of every slot are its readers.
* **`Machine.Attended.step`**: a step keeps this up, wherever objects come to be observed.
* **`Readership.runs_readers`**: what a write does, and whose getters it enters.
-/

namespace LiveMarkup

variable {σ : Type}

/-! ## Readers -/

/-- The watcher that has read a place. -/
def Event.reader? (p : Place) : Event → Option WatcherId
  | .tracked w q => if q = p then some w else none
  | _ => none

/-- The watchers that have read the slot at a place while its object was observed, one after another. -/
def readers (p : Place) (es : List Event) : List WatcherId := es.filterMap (Event.reader? p)

theorem readers_append (p : Place) (es new : List Event) :
    readers p (es ++ new) = readers p es ++ readers p new := List.filterMap_append

theorem mem_readers {p : Place} {es : List Event} {w : WatcherId} :
    w ∈ readers p es ↔ .tracked w p ∈ es := by
  rw [readers, List.mem_filterMap]
  constructor
  · rintro ⟨e, he, hw⟩
    cases e with
    | tracked x q =>
      rw [Event.reader?] at hw
      split at hw
      · next hq =>
        cases hw
        exact hq ▸ he
      · cases hw
    | _ => cases hw
  · intro h
    exact ⟨_, h, if_pos rfl⟩

/-- One watcher that has come any number of times has come. -/
theorem eraseDups_append_of_mem {ws new : List WatcherId} {o : Option WatcherId}
    (h : ∀ w, w ∈ new ↔ o = some w) : (ws ++ new).eraseDups = enlist ws.eraseDups o := by
  cases o with
  | none =>
    have hnil : new = [] := List.eq_nil_iff_forall_not_mem.2 fun w hw => by cases (h w).1 hw
    rw [hnil, List.append_nil]
    rfl
  | some w =>
    have hsame : new = List.replicate new.length w :=
      List.eq_replicate_iff.2 ⟨rfl, fun x hx => (Option.some.inj ((h x).1 hx)).symm⟩
    have hpos : new.length ≠ 0 := fun hz =>
      List.ne_nil_of_mem ((h w).2 rfl) (List.length_eq_zero_iff.1 hz)
    obtain ⟨n, hn⟩ := Nat.exists_eq_succ_of_ne_zero hpos
    rw [hsame, hn]
    clear hsame hn hpos h
    induction n with
    | zero => exact eraseDups_append_toList ws (some w)
    | succ n ih =>
      rw [List.replicate_succ', ← List.append_assoc, show [w] = (some w).toList from rfl,
        eraseDups_append_toList, ih]
      have hmem : w ∈ enlist ws.eraseDups (some w) := by
        rw [enlist]
        split
        · assumption
        · simp
      exact if_pos hmem

namespace Machine

variable {m : Machine σ} {es : List Event} {p q : Place} {d : DepId} {w : WatcherId}

/-- A tracked read is one of the active watcher, at a slot of an observed object. -/
theorem tracked_mem_events : .tracked w q ∈ m.events ↔
    ∃ reads next, m.next? = some (.read reads next) ∧ m.state.active = some w ∧
      q ∈ reads m.state.heap ∧ isTracked m.state.heap q := by
  constructor
  · intro h
    unfold events at h
    split at h
    · next p rest hm =>
      cases p with
      | read reads next =>
        simp only [performed] at h
        split at h
        · next x hactive =>
          obtain ⟨q', hq', he⟩ := List.mem_map.1 h
          cases he
          obtain ⟨hmem, htracked⟩ := List.mem_filter.1 hq'
          exact ⟨reads, next, next?_of_stack hm, hactive, hmem, htracked⟩
        · cases h
      | write o key v next =>
        simp only [performed] at h
        split at h <;> simp at h
      | run x next =>
        simp only [performed, requested] at h
        split at h <;> simp at h
      | _ => simp [performed] at h
    · next x previous n rest hm =>
      simp only [left] at h
      split at h
      · split at h <;> simp at h
      · cases h
    · simp only [requested] at h
      split at h <;> simp at h
    · cases h
  · rintro ⟨reads, next, htop, hactive, hmem, htracked⟩
    obtain ⟨rest, hm⟩ := stack_of_next? htop
    rw [events, hm]
    simp only [performed, hactive]
    exact List.mem_map_of_mem (List.mem_filter.2 ⟨hmem, htracked⟩)

/-! ## Quiet machines -/

/-- Only a reading subscribes where things are quiet. -/
theorem Quiet.ne_subscribe (h : m.Quiet) (d : DepId) (w : WatcherId) (next : Program σ) :
    m.next? ≠ some (.edit (.subscribe d w) next) :=
  fun top => (h.next? top).elim (fun hp => hp.1 d w rfl) id

theorem Quiet.careful (h : m.Quiet) : m.careful := by
  unfold Machine.careful
  split
  · next w next htop => exact ((h.next? htop).elim id id).elim
  · next d w next htop => exact absurd htop (h.ne_subscribe d w next)
  · rfl

theorem Quiet.subscribes?_iff (h : m.Quiet) : m.subscribes? d = some w ↔
    ∃ reads next, m.next? = some (.read reads next) ∧ m.state.active = some w ∧
      d ∈ (reads m.state.heap).filterMap m.state.heap.depAt? ∧ d.index < m.state.heap.deps.size := by
  unfold subscribes?
  split
  · next reads next htop =>
    constructor
    · intro hw
      split at hw
      · next hd => exact ⟨reads, next, htop, hw, hd⟩
      · cases hw
    · rintro ⟨reads', next', htop', hactive, hd⟩
      cases htop.symm.trans htop'
      rw [if_pos hd, hactive]
  · next e x next htop => exact absurd htop (h.ne_subscribe e x next)
  · next hno _ =>
    refine iff_of_false (by simp) ?_
    rintro ⟨reads, next, htop, -⟩
    exact hno reads next htop

/-- **The readers of a slot in a step are those whom it subscribes.** -/
theorem mem_readers_events (h : m.Quiet) (ht : m.state.heap.Tidy) (hd : m.state.heap.depAt? p = some d) :
    w ∈ readers p m.events ↔ m.subscribes? d = some w := by
  rw [mem_readers, tracked_mem_events, h.subscribes?_iff]
  refine exists_congr fun reads => exists_congr fun next =>
    and_congr_right fun _ => and_congr_right fun _ => ?_
  constructor
  · rintro ⟨hp, -⟩
    exact ⟨List.mem_filterMap.2 ⟨p, hp, hd⟩, ht.lt hd⟩
  · rintro ⟨hmem, -⟩
    obtain ⟨q, hq, hqd⟩ := List.mem_filterMap.1 hmem
    obtain ⟨hobject, hkey⟩ := ht.apart hqd hd
    have hpq : q = p := by
      cases p
      cases q
      simp_all
    refine ⟨hpq ▸ hq, Bool.and_eq_true_iff.2 ⟨ht.observed hd, ?_⟩⟩
    cases hs : m.state.heap.slot? p.object p.key with
    | some s => rfl
    | none => rw [Heap.depAt?, Heap.dep?, hs] at hd; cases hd

/-! ## Subscribers are readers -/

/-- The subscribers of every slot are its readers, and there are no other subscribers. -/
structure Attended (m : Machine σ) (es : List Event) : Prop where
  lists : ∀ p d, m.state.heap.depAt? p = some d → m.Lists d (readers p es)
  /-- A slot without a dep has no readers. -/
  unread : ∀ p, m.state.heap.depAt? p = none → readers p es = []
  /-- A dep with subscribers belongs to a slot. -/
  owned : ∀ d w, w ∈ m.state.heap.subscribers d → ∃ p, m.state.heap.depAt? p = some d

theorem Lists.congr {asked asked' : List WatcherId} (h : m.Lists d asked)
    (same : asked'.eraseDups = asked.eraseDups) : m.Lists d asked' := by
  have hmem : ∀ w, w ∈ asked' ↔ w ∈ asked := fun w => by
    rw [← List.mem_eraseDups, same, List.mem_eraseDups]
  refine ⟨by rw [same]; exact h.live, fun w hw => (hmem w).2 (h.listed w hw), fun w hw => ?_⟩
  exact h.made w ((hmem w).1 hw)

/-- Whom a dep has after a step, it had before, or the step has subscribed him. -/
theorem mem_subscribers_step (h : w ∈ m.step.state.heap.subscribers d) :
    w ∈ m.state.heap.subscribers d ∨ m.subscribes? d = some w := by
  rw [subscribers_step] at h
  split at h
  · exact .inl (mem_subscribers_iff.1 h).1
  · exact (List.mem_append.1 (mem_enlist h)).imp_right Option.mem_toList.1

/-- **A step keeps the subscribers of all slots their readers**, those of slots among them that come to be
observed. -/
theorem Attended.step {host : σ} (ha : m.Attended es) (hm : History host m es) (hq : m.Quiet)
    (ht : m.state.heap.Tidy) : m.step.Attended (es ++ m.events) := by
  have hkept : ∀ p d, m.state.heap.depAt? p = some d → m.step.state.heap.depAt? p = some d :=
    fun p d hd => dep?_step hd
  -- Where there is no dep nothing is read.
  have hunread : ∀ p, m.state.heap.depAt? p = none → readers p (es ++ m.events) = [] := by
    intro p hp
    rw [readers_append, ha.unread p hp, List.nil_append, List.eq_nil_iff_forall_not_mem]
    intro w hw
    obtain ⟨-, -, -, -, -, htracked⟩ := tracked_mem_events.1 (mem_readers.1 hw)
    obtain ⟨hobserved, hslot⟩ := Bool.and_eq_true_iff.1 htracked
    obtain ⟨d, hd, -⟩ := hm.sound.exists_dep hobserved hslot
    rw [Heap.depAt?, hd] at hp
    cases hp
  have howned : ∀ d w, w ∈ m.step.state.heap.subscribers d → ∃ p, m.state.heap.depAt? p = some d := by
    intro d w hw
    rcases mem_subscribers_step hw with hw | hw
    · exact ha.owned d w hw
    · obtain ⟨reads, next, -, -, hmem, -⟩ := hq.subscribes?_iff.1 hw
      obtain ⟨p, -, hp⟩ := List.mem_filterMap.1 hmem
      exact ⟨p, hp⟩
  refine ⟨fun p d hd => ?_, fun p hp => hunread p ?_, fun d w hw => ?_⟩
  · cases hp : m.state.heap.depAt? p with
    | some e =>
      obtain rfl := Option.some.inj ((hkept p e hp).symm.trans hd)
      refine (Enrolled.lists_step (ha.lists p e hp) hm hq.careful).congr ?_
      rw [readers_append, eraseDups_append_toList]
      exact eraseDups_append_of_mem fun w => mem_readers_events hq ht hp
    | none =>
      -- The dep is new, so that nobody is subscribed to it yet.
      have hnobody : m.step.state.heap.subscribers d = [] := by
        rw [List.eq_nil_iff_forall_not_mem]
        intro w hw
        obtain ⟨q, hq⟩ := howned d w hw
        obtain ⟨hobject, hkey⟩ := (tidy_step ht).apart hd (hkept q d hq)
        rw [Heap.depAt?, hobject, hkey] at hp
        rw [Heap.depAt?, hp] at hq
        cases hq
      rw [hunread p hp]
      refine ⟨?_, fun w hw => ?_, fun w hw => absurd hw List.not_mem_nil⟩
      · rw [Sight.subscribers, show m.step.sight.state = m.step.state from rfl, hnobody]
        rfl
      · rwa [hnobody] at hw
  · cases hd : m.state.heap.depAt? p with
    | none => rfl
    | some d =>
      rw [hkept p d hd] at hp
      cases hp
  · obtain ⟨p, hp⟩ := howned d w hw
    exact ⟨p, hkept p d hp⟩

end Machine

/-! ## Histories -/

/-- A machine whose watchers only read, with what it has been through. Programs are given to it while it is
at rest. -/
inductive Readership (host : σ) : Machine σ → List Event → Prop where
  | start : Readership host (Machine.start host) []
  | perform (m : Machine σ) (es : List Event) (p : Program σ) (before : Readership host m es)
      (rest : m.stack = []) (mannerly : p.Mannerly) : Readership host (m.asked p) es
  | step (m : Machine σ) (es : List Event) (before : Readership host m es) :
      Readership host m.step (es ++ m.events)

namespace Readership

open Machine

variable {host : σ} {m : Machine σ} {es : List Event}

theorem history (h : Readership host m es) : History host m es := by
  induction h with
  | start => exact .start
  | perform m es p before rest mannerly ih => exact ih.perform m es p rest
  | step m es before ih => exact ih.step m es

theorem quiet (h : Readership host m es) : m.Quiet := by
  induction h with
  | start => exact ⟨fun _ => trivial, .outside _ .rest, fun _ => rfl⟩
  | perform m es p before rest mannerly ih => exact ih.of_eq rfl rfl (.outside _ (.body p mannerly))
  | step m es before ih => exact ih.step before.history.disciplined

theorem tidy (h : Readership host m es) : m.state.heap.Tidy := by
  induction h with
  | start => exact Heap.tidy_empty
  | perform m es p before rest mannerly ih => exact ih
  | step m es before ih => exact tidy_step ih

theorem iterate (h : Readership host m es) (n : Nat) :
    Readership host (Machine.step^[n] m) (es ++ eventsIn n m) := by
  induction n generalizing m es with
  | zero =>
    rw [eventsIn, List.append_nil]
    exact h
  | succ n ih =>
    rw [eventsIn, ← List.append_assoc]
    exact ih (h.step m es)

theorem attended (h : Readership host m es) : m.Attended es := by
  induction h with
  | start =>
    refine ⟨fun p d hd => ?_, fun p _ => rfl, fun d w hw => ?_⟩
    · cases hd
    · have hnone : (Machine.start host).state.heap.subscribers d = [] :=
        Heap.subscribers_of_le (Nat.zero_le d.index)
      rw [hnone] at hw
      cases hw
  | perform m es p before rest mannerly ih =>
    exact ⟨fun q d hd => (ih.lists q d hd).ask rest p, ih.unread, ih.owned⟩
  | step m es before ih => exact ih.step before.history before.quiet before.tidy

/-- What a write comes to that is ignored. -/
theorem goes_ignored (rest : m.stack = []) {o : ObjectId} {key : String} {v : Value}
    (hi : m.state.heap.ignores o key v) :
    (m.asked (.write o key v .done)).Goes [] { m with fault := none } := by
  let written : Machine σ := { m with stack := [.body .done], fault := none }
  have hstep : (m.asked (.write o key v .done)).step = written := by
    show (Machine.perform { m with stack := [], fault := none } (.write o key v .done)) = written
    simp only [Machine.perform, Heap.store_of_ignores hi]
    rfl
  have hevents : (m.asked (.write o key v .done)).events = [] := if_pos hi
  have hdone : written.step = { m with fault := none } := by
    have hbody : written.stack = [.body .done] := rfl
    rw [step_done hbody, ← rest]
  have hlast : written.Goes [] { m with fault := none } := hdone ▸ Goes.of_step (.refl _)
  have hfirst := Goes.of_step (hstep.symm ▸ hlast)
  rwa [hevents] at hfirst

/-- **A write that is not ignored** runs the readers of the slot. -/
theorem invokes_readers (h : Readership host m es) (rest : m.stack = []) {o : ObjectId} {key : String}
    {v : Value} (hi : m.state.heap.ignores o key v = false) :
    (m.asked (.write o key v .done)).Invokes ((readers ⟨o, key⟩ es).eraseDups.filter m.sight.alive) [] := by
  have hk := h.perform m es (.write o key v .done) rest trivial
  have hlive := Machine.alive_asked rest (.write o key v .done)
  generalize hk' : m.asked (.write o key v .done) = k at hk hlive
  have hm : k.stack = [.body (.write o key v .done)] := by rw [← hk']; rfl
  have hheap : k.state.heap = m.state.heap := by rw [← hk']; rfl
  have hevents : k.events = [.changed ⟨o, key⟩] := by
    rw [events, hm]
    show (if k.state.heap.ignores o key v then [] else [Event.changed ⟨o, key⟩]) = _
    rw [hheap, hi]
    rfl
  have hstored : (k.state.heap.store o key v).2 = k.state.heap.depAt? ⟨o, key⟩ := by
    obtain ⟨h', -, -, he⟩ := Heap.store_eq (hheap.symm ▸ hi)
    rw [he]
    rfl
  refine .of_quiet_step (by rw [hevents]; rfl) ?_
  cases hd : k.state.heap.depAt? ⟨o, key⟩ with
  | none =>
    rw [hd] at hstored
    have hstack : k.step.stack = [.body .done] := by
      rw [Machine.step, hm]
      simp only [Machine.perform, hstored]
      rfl
    rw [hk.attended.unread _ hd]
    exact invokes_reading (q := .done) trivial hstack
  | some d =>
    rw [hd] at hstored
    have hnotified : k.notified? = some d := by rw [notified?, next?_of_stack hm]; exact hstored
    obtain ⟨-, -, p, next, below, hm', hfollows, hstack⟩ := step_of_notified? hnotified
    obtain ⟨rfl, rfl⟩ : p = .write o key v .done ∧ below = [] := by simpa [hm] using hm'.symm
    cases hfollows
    rw [(hk.attended.lists _ d hd).live, hlive] at hstack
    have hdisciplined := hk.history.disciplined
    have hruns := invokes_pending (hk.quiet.step hdisciplined) hdisciplined.step hstack
    have hall := hruns.bind (P := fun _ => True) (fun _ _ => trivial) trivial fun m' _ hm' =>
      invokes_reading (q := .done) trivial hm'
    rwa [List.append_nil] at hall

/-- **Whom a write runs.** Let all getters only read, whatever they read and however that depends on what
they have read. Then a write to a slot comes to its end without a fault. If it is ignored it changes
nothing, and enters no getter. Otherwise the getters that it enters are those of the watchers that have
read this slot while its object was observed, in any of their runs, and that live: each one once, in the
order in which they first did so. A write that creates the slot enters none. And the runs of every watcher
are counted accordingly. -/
theorem runs_readers (h : Readership host m es) (rest : m.stack = []) (o : ObjectId) (key : String)
    (v : Value) :
    ∃ new m', (m.asked (.write o key v .done)).Goes new m' ∧ m'.stack = [] ∧ m'.fault = none ∧
      Readership host m' (es ++ new) ∧
      Live.write o key v m = .ok () m' ∧
      (m.state.heap.ignores o key v → new = [] ∧ m'.state = m.state) ∧
      (m.state.heap.ignores o key v = false →
        invoked new = (readers ⟨o, key⟩ es).eraseDups.filter m.sight.alive) ∧
      (m.state.heap.slot? o key = none → invoked new = []) ∧ (invoked new).Nodup ∧
      ∀ w, w.index < m.state.watchers.size →
        m'.state.runs w = m.state.runs w + (invoked new).count w := by
  have hk := h.perform m es (.write o key v .done) rest trivial
  have hdisciplined := hk.history.disciplined
  have hcreated : m.state.heap.slot? o key = none → readers ⟨o, key⟩ es = [] := fun hs => by
    refine h.attended.unread ⟨o, key⟩ ?_
    rw [Heap.depAt?, Heap.dep?, hs]
    rfl
  -- What an execution comes to is a part of the history, and all its runs are counted.
  have hends : ∀ {new m'}, (m.asked (.write o key v .done)).Goes new m' → m'.fault = none ∧
      Readership host m' (es ++ new) ∧ ∀ w, w.index < m.state.watchers.size →
        m'.state.runs w = m.state.runs w + (invoked new).count w := by
    intro new m' hgoes
    refine ⟨?_, ?_, fun w hw => hgoes.runs hk.quiet hdisciplined hw⟩
    · have hkept : ∀ k : Machine σ, (k.Quiet ∧ k.Disciplined) ∧ k.fault = none →
          (k.step.Quiet ∧ k.step.Disciplined) ∧ k.step.fault = none := fun k hk =>
        ⟨⟨hk.1.1.step hk.1.2, hk.1.2.step⟩, (fault_step hk.1.1.calm).trans hk.2⟩
      exact (hgoes.preserves hkept ⟨⟨hk.quiet, hdisciplined⟩, rfl⟩).2
    · obtain ⟨n, rfl, rfl⟩ := hgoes
      exact hk.iterate n
  by_cases hi : m.state.heap.ignores o key v
  · have hgoes := goes_ignored rest hi
    obtain ⟨hfault, hread, hruns⟩ := hends hgoes
    exact ⟨[], _, hgoes, rest, hfault, hread, hgoes.perform_eq rest hfault, fun _ => ⟨rfl, rfl⟩,
      fun hc => absurd hi (by simp [hc]), fun _ => rfl, List.nodup_nil, hruns⟩
  · obtain ⟨new, m', hgoes, hstack, hnew⟩ := h.invokes_readers rest (Bool.eq_false_iff.2 hi)
    obtain ⟨hfault, hread, hruns⟩ := hends hgoes
    refine ⟨new, m', hgoes, hstack, hfault, hread, hgoes.perform_eq hstack hfault,
      fun hc => absurd hc hi, fun _ => hnew, fun hs => ?_, ?_, hruns⟩
    · rw [hnew, hcreated hs]
      rfl
    · rw [hnew]
      exact (nodup_eraseDups _).filter _

end Readership

/-- Reads a slot, and where it is true another one. -/
def Program.choosing : Program Unit :=
  .get ⟨0⟩ "a" fun v =>
    match v with
    | some (.bool true) => .get ⟨0⟩ "b" fun _ => .done
    | _ => .done

theorem Program.readOnly_choosing : choosing.ReadOnly := by
  intro h
  show (match h.peek ⟨0⟩ "a" with | some (.bool true) => _ | _ => _ : Program Unit).ReadOnly
  split
  · exact fun _ => trivial
  · trivial

/-- An observed object, and two watchers that read it. The first one then does not read the second slot any
more. -/
def Program.readingTwice : Program Unit :=
  .make (.object [("a", .value (.bool true)), ("b", .value (.bool true))]) fun v =>
    .edit (.observe v) <| .watch .choosing fun _ => .watch (.get ⟨0⟩ "b" fun _ => .done) fun _ =>
      .write ⟨0⟩ "a" (.bool false) .done

/-- The machine where all this has been done. -/
def Machine.readingTwice : Machine Unit := step^[20] ((start ()).asked .readingTwice)

theorem Readership.readingTwice :
    Readership () Machine.readingTwice (Machine.eventsIn 20 ((Machine.start ()).asked .readingTwice)) := by
  have hmannerly : Program.readingTwice.Mannerly := by
    intro v
    refine ⟨fun d w => nofun, Program.readOnly_choosing, fun _ => ⟨fun _ => trivial, fun _ => trivial⟩⟩
  exact (Readership.start.perform (Machine.start ()) [] .readingTwice rfl hmannerly).iterate 20

/-- A write to the second slot runs both, although the first watcher has not read it lately. -/
theorem Readership.write_readingTwice :
    ∃ new m', (Machine.readingTwice.asked (.write ⟨0⟩ "b" (.bool false) .done)).Goes new m' ∧
      invoked new = [⟨0⟩, ⟨1⟩] ∧ Machine.readingTwice.state.runs ⟨0⟩ = 2 ∧ m'.state.runs ⟨0⟩ = 3 := by
  have hrest : Machine.readingTwice.stack = [] := by cbv
  have hreaders : ((readers ⟨⟨0⟩, "b"⟩ (Machine.eventsIn 20
      ((Machine.start ()).asked .readingTwice))).eraseDups.filter Machine.readingTwice.sight.alive) =
        [⟨0⟩, ⟨1⟩] := by cbv
  obtain ⟨new, m', hgoes, -, -, -, -, -, hinvoked, -, -, hruns⟩ :=
    Readership.readingTwice.runs_readers hrest ⟨0⟩ "b" (.bool false)
  have hnew : invoked new = [⟨0⟩, ⟨1⟩] := (hinvoked (by cbv)).trans hreaders
  have hsize : Machine.readingTwice.state.watchers.size = 2 := by cbv
  have htwice : Machine.readingTwice.state.runs ⟨0⟩ = 2 := by cbv
  refine ⟨new, m', hgoes, hnew, htwice, ?_⟩
  rw [hruns ⟨0⟩ (by rw [hsize]; exact Nat.two_pos), hnew, htwice]
  rfl

end LiveMarkup

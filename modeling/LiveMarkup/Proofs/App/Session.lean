import LiveMarkup.App.Operations
import LiveMarkup.Proofs.App.Cycle
import LiveMarkup.Proofs.Reactive.Retained
import LiveMarkup.Proofs.Template.Following

/-!
# Serving an instance

The watcher of a mounted instance binds the template, which subscribes it to all that it reads, and
then renders. While it is not at that, the tree that it rendered last is what the template gives on
the data as they are, or the watcher is about to run, or its last render cycle has failed.

* `App.Tolerates`, `App.Tame`: what an instance puts up with from others.
* `App.Watched`: an instance's watcher is kept, and its data are observed.
* `App.Current`, `App.Phase`: the state of affairs between and during the runs of the watcher.
* **`App.Served.step`**: every step keeps an instance served.
-/

namespace LiveMarkup

variable {ε σ : Type}

namespace Machine

variable {m : Machine σ}

/-- The watcher whose getter is being executed right now. -/
def executing (m : Machine σ) : Option WatcherId :=
  match m.stack with
  | .body _ :: .leave w _ _ :: _ => some w
  | _ => none

/-- A watcher that does not run is not executing anything. -/
theorem entered_of_executing {w : WatcherId} (h : m.executing = some w) : m.Entered w := by
  unfold executing at h
  split at h
  · next p x previous n rest hm =>
    cases h
    exact ⟨previous, n, by rw [hm]; simp⟩
  · cases h

end Machine

namespace App

variable {id : AppId} {w : WatcherId} {m : Machine (Stage ε)} {data : ObjectId} {app : App}
  {template t : Tree} {log : List (Option Tree)}

/-- What an instance and its watcher put up with: nobody gives up, values that are used exist, no array
is changed, no value is written that holds an object inside an array, and nobody else touches the
instance, its surface and its watcher. -/
def Tolerates (id : AppId) (w : WatcherId) (m : Machine (Stage ε)) : Program (Stage ε) → Prop
  | .panic _ => False
  | .make draft _ => draft.Exists m.state.heap
  | .edit change _ => change.Exists m.state.heap ∧ change.SparesArrays
  | .write _ _ v _ => m.state.heap.Exists v ∧ m.state.heap.Clean v
  | .tell change _ => m.executing = some w ∨ m.state.host.Spares id (change m.state.host)
  | .release x _ => x ≠ w
  | _ => True

/-- The next request is tolerated. -/
def Tame (id : AppId) (w : WatcherId) (m : Machine (Stage ε)) : Prop :=
  ∀ p, m.next? = some p → Tolerates id w m p

/-- The watcher of an instance is kept, and serves data that are observed and have no object inside
an array. -/
structure Watched (id : AppId) (w : WatcherId) (data : ObjectId) (template : Tree)
    (m : Machine (Stage ε)) : Prop where
  bindable : m.state.heap.Bindable data
  paired : m.getters.size = m.state.watchers.size
  made : w.index < m.getters.size
  getter : m.getter w = App.getter id data template
  kept : m.state.isKept w
  running : m.state.isRunning w → m.Entered w

/-- A tree is what the template gives on the data, and the watcher is subscribed to all that was
read for it. -/
structure Current (h : Heap) (w : WatcherId) (data : ObjectId) (template t : Tree) : Prop where
  bound : (template.bind h data).result = .ok t.detached
  subscribed : h.Subscribed w (template.bind h data).reads

/-- How far the watcher of an instance has got. -/
inductive Phase (id : AppId) (w : WatcherId) (data : ObjectId) (template t : Tree) (failed : Prop)
    (m : Machine (Stage ε)) : Prop where
  /-- It does not run. -/
  | idle (out : ¬ m.Entered w)
      (upToDate : failed ∨ Current m.state.heap w data template t ∨ m.Queued w)
  /-- It has been entered. -/
  | reading (previous : Option WatcherId) (n : Nat) (rest : List (Frame (Stage ε)))
      (stack : m.stack = .body (getter id data template) :: .leave w previous n :: rest)
      (once : ∀ p k, .leave w p k ∉ rest) (active : m.state.active = some w)
  /-- It has bound the template. -/
  | telling (previous : Option WatcherId) (n : Nat) (rest : List (Frame (Stage ε)))
      (stack : m.stack =
        .body (.tell (fun s => s.cycle id (template.bind m.state.heap data).result) .done) ::
          .leave w previous n :: rest)
      (once : ∀ p k, .leave w p k ∉ rest)
      (subscribed : ∀ b, (template.bind m.state.heap data).result = .ok b →
        m.state.heap.Subscribed w (template.bind m.state.heap data).reads)
  /-- It has rendered. -/
  | finishing (previous : Option WatcherId) (n : Nat) (rest : List (Frame (Stage ε)))
      (stack : m.stack = .body .done :: .leave w previous n :: rest ∨
        m.stack = .leave w previous n :: rest)
      (once : ∀ p k, .leave w p k ∉ rest)
      (upToDate : failed ∨ Current m.state.heap w data template t)

/-- An instance is displayed and served. The log has the outcomes of its render cycles. -/
def Served (id : AppId) (w : WatcherId) (m : Machine (Stage ε)) (log : List (Option Tree)) : Prop :=
  ∃ app template t, app.template = some template ∧ Watched id w app.data template m ∧
    Displayed m.state.host id app template t ∧ log.reduceOption.getLast? = some t ∧
    Phase id w app.data template t (log.getLast? = some none) m

/-! ## What a step keeps up -/

section Tame

variable (tame : Tame id w m)

include tame

theorem Tame.calm (message : String) : .panicked message ∉ m.events :=
  fun h => tame _ (Machine.next?_of_panicked h)

theorem Tame.grounded : m.Grounded := by
  intro p top
  have hp := tame p top
  cases p with
  | make draft next => exact hp
  | edit change next => exact hp.1
  | write o key v next => exact hp.1
  | _ => trivial

theorem Tame.arrays (change : Heap.Edit) (next : Program (Stage ε))
    (top : m.next? = some (.edit change next)) : change.SparesArrays := (tame _ top).2

theorem Tame.clean (o : ObjectId) (key : String) (v : Value) (next : Program (Stage ε))
    (top : m.next? = some (.write o key v next)) : m.state.heap.Clean v := (tame _ top).2

theorem Tame.keeps (next : Program (Stage ε)) : m.next? ≠ some (.release w next) :=
  fun top => tame _ top rfl

end Tame

theorem Watched.alive (h : Watched id w data template m) : m.sight.alive w :=
  Machine.alive_iff.2 (.inl h.kept)

theorem Watched.step (h : Watched id w data template m) (tame : Tame id w m) :
    Watched id w data template m.step := by
  have hrunning : m.step.state.isRunning w → m.step.Entered w := by
    rcases Machine.passes_step h.bindable.wellformed.sound w tame.calm with he | hp
    · exact fun _ => Machine.entered_of_events he
    · exact hp.running h.running
  have hbindable : m.step.state.heap.Bindable data :=
    ⟨Machine.wellformed_step h.bindable.wellformed tame.grounded,
      Machine.isObserved_step h.bindable.observed,
      Machine.clean_step tame.arrays h.bindable.wellformed tame.grounded tame.clean
        h.bindable.exists_data h.bindable.clean⟩
  by_cases htell : ∃ change next, m.next? = some (.tell change next)
  · obtain ⟨change, next, htop⟩ := htell
    obtain ⟨rest, hm⟩ := Machine.stack_of_next? htop
    rw [Machine.step_tell hm] at hrunning hbindable ⊢
    exact ⟨hbindable, h.paired, h.made, h.getter, h.kept, hrunning⟩
  · have hret := Machine.retains_step (fun change next he => htell ⟨change, next, he⟩) tame.keeps
    obtain ⟨hmade, hgetter⟩ := hret.made h.made
    exact ⟨hbindable, hret.paired h.paired, hmade, hgetter.trans h.getter, hret.isKept h.kept,
      hrunning⟩

/-- While the watcher is not rendering, its instance is spared. -/
theorem Tame.spares_step (tame : Tame id w m)
    (hx : m.executing ≠ some w ∨ ∀ change next, m.next? ≠ some (.tell change next)) :
    m.state.host.Spares id m.step.state.host := by
  by_cases htell : ∃ change next, m.next? = some (.tell change next)
  · obtain ⟨change, next, htop⟩ := htell
    obtain ⟨rest, hm⟩ := Machine.stack_of_next? htop
    rw [Machine.step_tell hm]
    exact (tame _ htop).resolve_left (hx.resolve_right fun hno => hno change next htop)
  · have hret := Machine.retains_step (fun change next he => htell ⟨change, next, he⟩) tame.keeps
    rw [hret.host]
    exact .refl id _

/-- **What is current stays so until a slot that was read is written**; then the watcher is about
to run. -/
theorem Current.pass (hc : Current m.state.heap w data template t)
    (h : Watched id w data template m) (tame : Tame id w m)
    (hp : m.Passes m.step m.events w) :
    Current m.step.state.heap w data template t ∨ m.step.Queued w := by
  have halive := (h.step tame).alive
  by_cases hover : ∃ p ∈ (template.bind m.state.heap data).reads, .changed p ∈ m.events
  · obtain ⟨p, hread, hchanged⟩ := hover
    obtain ⟨d, hd, hs⟩ := hc.subscribed p hread
    exact .inr (hp.notified halive p d hchanged hd hs)
  · have hbind : template.bind m.step.state.heap data = template.bind m.state.heap data := by
      refine Tree.bind_congr h.bindable.wellformed.grounded (Machine.keepsArrays_step tame.arrays)
        h.bindable.exists_data template fun p hread => ?_
      obtain ⟨d, hd, -⟩ := hc.subscribed p hread
      obtain ⟨v, hs⟩ := Heap.slot?_of_dep? hd
      exact Machine.valueAt?_step tame.arrays (Heap.lt_of_slot? hs) fun hchanged =>
        hover ⟨p, hread, hchanged⟩
    refine .inl ⟨by rw [hbind]; exact hc.bound, fun p hread => ?_⟩
    rw [hbind] at hread
    obtain ⟨d, hd, hs⟩ := hc.subscribed p hread
    exact ⟨d, hp.dep? p d hd, hp.subscribed halive d hs⟩

/-! ## One step in each phase -/

variable {failed : Prop}

/-- The getter of the watcher is entered, which was not running but for the run that ends. -/
theorem Phase.entered (h : Watched id w data template m) (once : ∀ p k, .leave w p k ∉ m.stack.tail)
    (he : .entered w ∈ m.events) :
    Phase id w data template t failed m.step ∧ m.step.state.host = m.state.host := by
  obtain ⟨-, k, n, hk, hstep⟩ := Machine.enters_of_events he
  rw [hstep]
  refine ⟨.reading k.state.active n k.stack ?_ (fun p j hl => once p j (hk.inside p j hl)) rfl,
    hk.host⟩
  rw [Machine.stack_enter, hk.getter (h.paired ▸ h.made), h.getter]

/-- A watcher that does not run is entered, or passed by. -/
theorem Phase.idle_step (h : Watched id w data template m) (tame : Tame id w m)
    (out : ¬ m.Entered w) (upToDate : failed ∨ Current m.state.heap w data template t ∨ m.Queued w) :
    Phase id w data template t failed m.step ∧ m.state.host.Spares id m.step.state.host := by
  rcases Machine.passes_step h.bindable.wellformed.sound w tame.calm with he | hp
  · obtain ⟨hphase, hhost⟩ : Phase id w data template t failed m.step ∧ _ :=
      Phase.entered h (fun p k hl => out ⟨p, k, List.mem_of_mem_tail hl⟩) he
    exact ⟨hphase, hhost ▸ .refl id _⟩
  · have hout : ¬ m.step.Entered w := fun hx => out (hp.entered hx)
    refine ⟨.idle hout ?_, tame.spares_step (.inl fun hx => out (Machine.entered_of_executing hx))⟩
    rcases upToDate with hf | hc | hq
    · exact .inl hf
    · exact .inr (hc.pass h tame hp)
    · -- A watcher that waits cannot be marked or cut off, for it does not run.
      rcases hp.waits (.inl hq) with hq | ⟨x, hx, hr, -⟩ | hg
      · exact .inr (.inr hq)
      · refine absurd ((h.step tame).running ?_) hout
        rw [State.isRunning, hx]
        exact hr
      · exact absurd (Machine.entered_of_gaveUp hg) out

/-- The template is bound, and everything that a binding which succeeds has read is observed. -/
theorem Phase.reading_step (h : Watched id w data template m) {previous : Option WatcherId} {n : Nat}
    {rest : List (Frame (Stage ε))}
    (stack : m.stack = .body (getter id data template) :: .leave w previous n :: rest)
    (once : ∀ p k, .leave w p k ∉ rest) (active : m.state.active = some w) :
    Phase id w data template t failed m.step ∧ m.step.state.host = m.state.host := by
  obtain ⟨hbind, hsubscribed⟩ := h.bindable.bind_track w template
  rw [Machine.step_read stack active]
  refine ⟨.telling previous n rest ?_ once ?_, rfl⟩
  · rw [hbind]
  · rw [hbind]
    exact hsubscribed

/-- The run of the watcher comes to its end. -/
theorem Phase.finishing_step (h : Watched id w data template m) (tame : Tame id w m)
    {previous : Option WatcherId} {n : Nat} {rest : List (Frame (Stage ε))}
    (stack : m.stack = .body .done :: .leave w previous n :: rest ∨
      m.stack = .leave w previous n :: rest)
    (once : ∀ p k, .leave w p k ∉ rest)
    (upToDate : failed ∨ Current m.state.heap w data template t) :
    Phase id w data template t failed m.step ∧ m.state.host.Spares id m.step.state.host := by
  have htell : ∀ change next, m.next? ≠ some (.tell change next) := by
    intro change next he
    unfold Machine.next? at he
    rcases stack with hm | hm <;> rw [hm] at he <;> cases he
  refine ⟨?_, tame.spares_step (.inr htell)⟩
  rcases stack with hm | hm
  · have hstep : m.step = { m with stack := .leave w previous n :: rest } := by
      rw [Machine.step, hm]
      rfl
    rw [hstep]
    exact .finishing previous n rest (.inr rfl) once upToDate
  · rcases Machine.passes_step h.bindable.wellformed.sound w tame.calm with he | hp
    · exact (Phase.entered h (by rw [hm]; exact once) he).1
    · rcases Machine.step_leave hm with he | hquit
      · exact (Phase.entered h (by rw [hm]; exact once) he).1
      · refine .idle ?_ ?_
        · rintro ⟨p, k, hl⟩
          rw [hquit] at hl
          exact once p k hl
        · rcases upToDate with hf | hc
          · exact .inl hf
          · exact .inr (hc.pass h tame hp)

/-- The watcher renders what it has bound. -/
theorem Phase.telling_step (hd : Displayed m.state.host id app template t)
    {previous : Option WatcherId} {n : Nat} {rest : List (Frame (Stage ε))}
    (stack : m.stack =
      .body (.tell (fun s => s.cycle id (template.bind m.state.heap app.data).result) .done) ::
        .leave w previous n :: rest)
    (once : ∀ p k, .leave w p k ∉ rest)
    (subscribed : ∀ b, (template.bind m.state.heap app.data).result = .ok b →
      m.state.heap.Subscribed w (template.bind m.state.heap app.data).reads) :
    ∃ app' t' last, app'.template = app.template ∧ app'.data = app.data ∧
      Displayed m.step.state.host id app' template t' ∧
      m.state.host.outcome id m.step.state.host = [last] ∧ last.getD t = t' ∧
      Phase id w app.data template t' (last = none) m.step := by
  rw [Machine.step_tell stack]
  cases hb : (template.bind m.state.heap app.data).result with
  | error e =>
    obtain ⟨hd', houtcome⟩ := hd.cycle_error e
    exact ⟨app.failed (.bind e), t, none, rfl, rfl, hd', houtcome, rfl,
      .finishing previous n rest (.inl rfl) once (.inl rfl)⟩
  | ok b =>
    obtain ⟨t', report, hdetached, -, hd', -, houtcome⟩ :=
      hd.cycle_ok (Tree.skeleton_bind template hb)
    refine ⟨app.rendered t' report, t', some t', rfl, rfl, hd', houtcome, rfl,
      .finishing previous n rest (.inl rfl) once (.inr ⟨?_, subscribed b hb⟩)⟩
    show (template.bind m.state.heap app.data).result = _
    rw [hb, hdetached, Tree.detached_bind template hb]

/-! ## Every step -/

theorem getLast?_reduceOption_append {l : List (Option Tree)} {last : Option Tree}
    (h : l.reduceOption.getLast? = some t) :
    (l ++ [last]).reduceOption.getLast? = some (last.getD t) := by
  rw [List.reduceOption_append]
  cases last with
  | none => simpa [List.reduceOption] using h
  | some u => simp [List.reduceOption]

/-- **A step that others take with care, or the watcher itself, keeps an instance served.** -/
theorem Served.step (h : Served id w m log) (tame : Tame id w m) :
    Served id w m.step (log ++ m.state.host.outcome id m.step.state.host) := by
  obtain ⟨app, template, t, htemplate, hw, hd, hlast, hphase⟩ := h
  -- Where the instance is spared nothing is added to the log.
  have hspared : Phase id w app.data template t (log.getLast? = some none) m.step →
      m.state.host.Spares id m.step.state.host →
      Served id w m.step (log ++ m.state.host.outcome id m.step.state.host) := by
    intro hphase' hs
    obtain ⟨error, hd'⟩ := hd.spared hs
    rw [hs.outcome, List.append_nil]
    exact ⟨{ app with lastError := error }, template, t, htemplate, hw.step tame, hd', hlast, hphase'⟩
  cases hphase with
  | idle out upToDate =>
    obtain ⟨hphase', hs⟩ := Phase.idle_step hw tame out upToDate
    exact hspared hphase' hs
  | reading previous n rest stack once active =>
    obtain ⟨hphase', hhost⟩ := Phase.reading_step (t := t) hw stack once active
    exact hspared hphase' (hhost ▸ .refl id _)
  | telling previous n rest stack once subscribed =>
    obtain ⟨app', t', last, htemplate', hdata, hd', houtcome, hlast', hphase'⟩ :=
      Phase.telling_step hd stack once subscribed
    rw [houtcome]
    refine ⟨app', template, t', htemplate'.trans htemplate, ?_, hd', ?_, ?_⟩
    · rw [hdata]
      exact hw.step tame
    · rw [getLast?_reduceOption_append hlast, hlast']
    · rw [hdata, List.getLast?_append_of_ne_nil _ (List.cons_ne_nil _ _)]
      simpa using hphase'
  | finishing previous n rest stack once upToDate =>
    obtain ⟨hphase', hs⟩ := Phase.finishing_step hw tame stack once upToDate
    exact hspared hphase' hs

end App

end LiveMarkup

import LiveMarkup.Proofs.App.Mount
import LiveMarkup.Proofs.Patch.Paint
import LiveMarkup.Proofs.Patch.Texts
import LiveMarkup.Proofs.Reactive.Termination

/-!
# Rendering again

After its first render an instance only ever writes texts, whatever is done to the surface in between
and whatever becomes of the data. A render cycle fails where the template cannot be bound, and then
leaves everything as it was; or it writes the texts that have changed since the last one, on the nodes
that the first render has made for them.

* `Stage.Leaves`: a change of the stage by others.
* `App.Standing`: an instance after its first render.
* `App.Rerender`, **`App.Standing.rerender`**: a render cycle of such an instance.
* `App.Lifetime`: an instance from its first render on.
* `App.Turn`: how far its watcher has got.
* **`App.Lifetime.rerenders`**: all render cycles of its lifetime.
-/

namespace LiveMarkup

open Template (BindError)

variable {ε : Type} {s s' : Stage ε} {id : AppId} {app : App} {template first last : Tree}

namespace Stage

/-- Others have done what they like with the surface of an instance, and nothing to the instance, except
that its error may have been handed out. -/
def Leaves (id : AppId) (s s' : Stage ε) : Prop :=
  ∀ app, s.app? id = some app →
    (∃ error, s'.app? id = some { app with lastError := error }) ∧
      app.surface.index < s'.surfaces.size ∧ (s.surface app.surface).Worked (s'.surface app.surface)

theorem Leaves.refl (id : AppId) (s : Stage ε)
    (h : ∀ app, s.app? id = some app → app.surface.index < s.surfaces.size) : s.Leaves id s :=
  fun app happ => ⟨⟨app.lastError, happ⟩, h app happ, .refl⟩

theorem setSurface_self (s : Stage ε) (id : SurfaceId) (h : id.index < s.surfaces.size) :
    s.setSurface id (s.surface id) = s := by
  obtain ⟨surfaces, apps, extra⟩ := s
  refine congrArg (fun surfaces => Stage.mk surfaces apps extra) (Array.ext_getElem? fun i => ?_)
  rw [Array.getElem?_modify]
  split
  · next hi =>
    subst hi
    rw [surface, Array.getElem?_eq_getElem h]
    rfl
  · rfl

end Stage

namespace App

/-! ## Render cycles -/

/-- An instance after its first render: a node is recorded for every node of the tree rendered last, the
one of the first render, and those of the texts are text nodes. -/
structure Standing (s : Stage ε) (id : AppId) (app : App) (template first last : Tree) : Prop where
  app? : s.app? id = some app
  surface_lt : app.surface.index < s.surfaces.size
  compiled : app.template = some template
  shown : app.shown = some (.tree last)
  skeleton : last.skeleton = template.skeleton
  handled : last.Handled
  handle : last.handle = first.handle
  handles : last.handles = first.handles
  textHandles : last.textHandles = first.textHandles
  texts : ∀ x ∈ first.textHandles, (s.surface app.surface).IsText x

/-- The stage after a render cycle of an instance whose template was bound with a result. A cycle that
fails in binding is counted and its error kept; the surface is not touched. A cycle that succeeds has
written the texts that have changed, in document order, on the nodes of the first render, and nothing
else was recorded or done to the surface. -/
inductive Rerender (s : Stage ε) (id : AppId) (app : App) (template first last : Tree)
    (result : Except BindError Tree) : Stage ε → Prop where
  | failed (e : BindError) (bound : result = .error e) :
      Rerender s id app template first last result (s.setApp id (app.failed (.bind e)))
  | rendered (b t : Tree) (changes : List (NodeId × String)) (surface : Surface) (bound : result = .ok b)
      (tree : t.detached = b.detached) (handle : t.handle = first.handle)
      (handles : t.handles = first.handles)
      (changed : changes = changedTexts first.textHandles last.texts b.texts)
      (writes : surface = (s.surface app.surface).writeTexts changes)
      (written : (s.surface app.surface).Written changes surface) :
      Rerender s id app template first last result
        ((s.setSurface app.surface surface).setApp id
          (app.rendered t ⟨0, template.count, 0, 0, 0, changes.length⟩))

namespace Standing

theorem left (h : Standing s id app template first last) (hs : s.Leaves id s') :
    ∃ error, Standing s' id { app with lastError := error } template first last := by
  obtain ⟨⟨error, happ⟩, hlt, hworked⟩ := hs app h.app?
  exact ⟨error, happ, hlt, h.compiled, h.shown, h.skeleton, h.handled, h.handle, h.handles, h.textHandles,
    fun x hx => hworked.keepsTexts x (h.texts x hx)⟩

/-- **A render cycle of an instance after its first render** fails in binding, or writes texts. -/
theorem rerender (h : Standing s id app template first last) {result : Except BindError Tree}
    (hresult : ∀ b, result = .ok b → b.skeleton = template.skeleton) :
    Rerender s id app template first last result (s.cycle id result) ∧
      ∃ app' last', app'.data = app.data ∧
        Standing (s.cycle id result) id app' template first last' := by
  obtain ⟨happ, hsize, hsurface⟩ := Stage.app?_cycle h.app? h.surface_lt result
  have hcycle := Stage.cycle_eq h.app? result
  cases result with
  | error e =>
    refine ⟨?_, app.failed (.bind e), last, rfl, happ, hsize ▸ h.surface_lt, h.compiled, h.shown,
      h.skeleton, h.handled, h.handle, h.handles, h.textHandles, ?_⟩
    · rw [hcycle, App.cycle, Stage.setSurface_self s app.surface h.surface_lt]
      exact .failed e rfl
    · exact hsurface ▸ h.texts
  | ok b =>
    have hshape := h.skeleton.trans (hresult b rfl).symm
    obtain ⟨hrewritten, hnone, hdetached, hhandles, htexts, hhandle, hhandled⟩ :=
      Patch.rewritten_update (Patch.start (s.surface app.surface)) last b h.handled hshape
    obtain ⟨hwrites, hreport⟩ := hrewritten
    generalize hr : (Patch.start (s.surface app.surface)).update last b = r
      at hnone hdetached hhandles htexts hhandle hhandled hwrites hreport
    have hdone : app.cycle (s.surface app.surface) (.ok b) =
        (app.rendered r.tree r.patch.report, r.patch.surface) := by
      simp only [App.cycle, h.shown, Patch.run, hr, hnone]
    rw [hdone] at happ hsurface hcycle
    rw [h.textHandles] at hwrites hreport htexts
    have hreport' : r.patch.report = ⟨0, template.count, 0, 0, 0,
        (changedTexts first.textHandles last.texts b.texts).length⟩ := by
      rw [hreport, Tree.count_eq_of_skeleton_eq h.skeleton]
      simp [Patch.start, PatchReport.none]
    have hwritten : (s.surface app.surface).Written
        (changedTexts first.textHandles last.texts b.texts) r.patch.surface := by
      rw [hwrites]
      exact Surface.written_writeTexts fun c hc => h.texts c.1 (mem_of_mem_changedTexts hc)
    have hskeleton : r.tree.skeleton = template.skeleton :=
      (Tree.skeleton_eq_of_detached_eq hdetached).trans (hresult b rfl)
    refine ⟨?_, app.rendered r.tree r.patch.report, r.tree, rfl, happ, hsize ▸ h.surface_lt, h.compiled,
      rfl, hskeleton, hhandled, hhandle.trans h.handle, hhandles.trans h.handles, htexts, fun x hx => ?_⟩
    · rw [hcycle, hreport']
      exact .rendered b r.tree _ r.patch.surface rfl hdetached (hhandle.trans h.handle)
        (hhandles.trans h.handles) rfl hwrites hwritten
    · rw [show (app.rendered r.tree r.patch.report).surface = app.surface from rfl, hsurface, hwrites]
      exact Surface.keepsTexts_writeTexts _ _ x (h.texts x hx)

end Standing

/-! ## The watcher -/

variable {w : WatcherId} {data : ObjectId} {m m' : Machine (Stage ε)}

/-- What the watcher of an instance runs is known. -/
structure Serves (id : AppId) (w : WatcherId) (data : ObjectId) (template : Tree)
    (m : Machine (Stage ε)) : Prop where
  paired : m.getters.size = m.state.watchers.size
  made : w.index < m.getters.size
  getter : m.getter w = App.getter id data template

/-- How far the watcher of an instance has got. -/
inductive Turn (id : AppId) (w : WatcherId) (data : ObjectId) (template : Tree)
    (m : Machine (Stage ε)) : Prop where
  /-- It does not run. -/
  | idle (out : ¬ m.Entered w)
  /-- It has been entered. -/
  | reading (previous : Option WatcherId) (n : Nat) (rest : List (Frame (Stage ε)))
      (stack : m.stack = .body (getter id data template) :: .leave w previous n :: rest)
      (once : ∀ p k, .leave w p k ∉ rest)
  /-- It has bound the template. -/
  | telling (previous : Option WatcherId) (n : Nat) (rest : List (Frame (Stage ε)))
      (stack : m.stack =
        .body (.tell (fun s => s.cycle id (template.bind m.state.heap data).result) .done) ::
          .leave w previous n :: rest)
      (once : ∀ p k, .leave w p k ∉ rest)
  /-- It has rendered. -/
  | finishing (previous : Option WatcherId) (n : Nat) (rest : List (Frame (Stage ε)))
      (stack : m.stack = .body .done :: .leave w previous n :: rest ∨
        m.stack = .leave w previous n :: rest)
      (once : ∀ p k, .leave w p k ∉ rest)

theorem Serves.step (h : Serves id w data template m) : Serves id w data template m.step := by
  obtain ⟨hmade, hgetter⟩ := Machine.getter_step h.made
  exact ⟨Machine.paired_step h.paired, hmade, hgetter.trans h.getter⟩

/-- Where the watcher is not executed by the step, it is idle afterwards or was entered. -/
theorem Turn.of_step (h : Serves id w data template m) (once : ∀ p k, .leave w p k ∉ m.stack.tail) :
    Turn id w data template m.step := by
  by_cases he : .entered w ∈ m.events
  · obtain ⟨-, k, n, hk, hstep⟩ := Machine.enters_of_events he
    rw [hstep]
    refine .reading k.state.active n k.stack ?_ fun p j hl => once p j (hk.inside p j hl)
    rw [Machine.stack_enter, hk.getter (h.paired ▸ h.made), h.getter]
  · refine .idle fun ⟨p, k, hl⟩ => ?_
    exact (Machine.leave_of_step hl).elim he (once p k)

/-- The template is bound. -/
theorem Turn.reading_step {previous : Option WatcherId} {n : Nat} {rest : List (Frame (Stage ε))}
    (stack : m.stack = .body (getter id data template) :: .leave w previous n :: rest)
    (once : ∀ p k, .leave w p k ∉ rest) : Turn id w data template m.step := by
  cases hactive : m.state.active with
  | some x =>
    rw [Machine.step_read stack hactive]
    refine .telling previous n rest ?_ once
    rw [Tree.bind_track]
  | none =>
    have hstep : m.step =
        { m with
          stack := .body (.tell (fun s => s.cycle id (template.bind m.state.heap data).result) .done) ::
            .leave w previous n :: rest } := by
      obtain ⟨⟨heap, watchers, active, host⟩, getters, frames, fault⟩ := m
      subst stack
      subst hactive
      rfl
    rw [hstep]
    exact .telling previous n rest rfl once

/-- The run of the watcher comes to its end. -/
theorem Turn.finishing_step (h : Serves id w data template m) {previous : Option WatcherId} {n : Nat}
    {rest : List (Frame (Stage ε))}
    (stack : m.stack = .body .done :: .leave w previous n :: rest ∨
      m.stack = .leave w previous n :: rest)
    (once : ∀ p k, .leave w p k ∉ rest) : Turn id w data template m.step := by
  rcases stack with hm | hm
  · rw [Machine.step_done hm]
    exact .finishing previous n rest (.inr rfl) once
  · exact .of_step h (by rw [hm]; exact once)

/-! ## Lifetimes -/

/-- An instance from its first render on, of which the watcher and the tree are given. Programs may do
what they like, but for the instance itself; so may anybody else while the machine is at rest. -/
inductive Lifetime (id : AppId) (w : WatcherId) (first : Tree) : Machine (Stage ε) → Prop where
  | mounted (m m' : Machine (Stage ε)) (app app' : App) (target : Target) (unmounted : Unmounted m id app)
      (mount : App.mount id target m = .ok (.ok ()) m') (app? : m'.state.host.app? id = some app')
      (watcher : app'.watcher = some w) (tree : app'.tree? = some first) : Lifetime id w first m'
  | perform (m : Machine (Stage ε)) (p : Program (Stage ε)) (before : Lifetime id w first m)
      (rest : m.stack = []) : Lifetime id w first (m.asked p)
  | outside (m : Machine (Stage ε)) (h : Heap) (host : Stage ε) (before : Lifetime id w first m)
      (rest : m.stack = []) (leaves : m.state.host.Leaves id host) :
      Lifetime id w first { m with state := { m.state with heap := h, host := host } }
  | step (m : Machine (Stage ε)) (before : Lifetime id w first m)
      (leaves : ∀ change next, m.next? = some (.tell change next) →
        m.executing = some w ∨ m.state.host.Leaves id (change m.state.host)) :
      Lifetime id w first m.step

/-- What is known of an instance in its lifetime: what it shows, and how far its watcher has got. -/
def Lives (id : AppId) (w : WatcherId) (first : Tree) (m : Machine (Stage ε)) (app : App)
    (template last : Tree) : Prop :=
  Standing m.state.host id app template first last ∧ Serves id w app.data template m ∧
    Turn id w app.data template m

/-- A mount is the start of a lifetime. -/
theorem lives_mounted {app' : App} {target : Target} (hu : Unmounted m id app)
    (hmount : mount id target m = .ok (.ok ()) m') (happ : m'.state.host.app? id = some app')
    (hwatcher : app'.watcher = some w) (htree : app'.tree? = some first) :
    ∃ template, Lives id w first m' app' template first := by
  obtain ⟨node, template, b, hp, hb, hnone⟩ := mount_inv hu hmount
  obtain ⟨hmount', happ', hsize, hsurface⟩ := mount_ok hu hp hb rfl hnone
  obtain rfl : settled m id app node template _ = m' := by
    rw [hmount'] at hmount
    exact (EStateM.Result.ok.inj hmount).2
  obtain ⟨-, hhandled, hdetached, htexts⟩ :=
    Patch.worked_mount (Patch.start (m.state.host.surface app.surface)) b hnone
  generalize (Patch.start (m.state.host.surface app.surface)).mount node b = r
    at hnone happ' happ hsurface hsize hhandled hdetached htexts
  obtain rfl := Option.some.inj (happ'.symm.trans happ)
  obtain rfl := Option.some.inj hwatcher
  obtain rfl : r.tree = first := Option.some.inj htree
  have hskeleton : r.tree.skeleton = template.skeleton :=
    (Tree.skeleton_eq_of_detached_eq hdetached).trans (Tree.skeleton_bind template hb)
  refine ⟨template, ⟨happ', hsize ▸ hu.surface_lt, rfl, rfl, hskeleton, hhandled, rfl, rfl, rfl,
    fun x hx => hsurface ▸ htexts x hx⟩, ⟨?_, ?_, getter_settled hu _⟩,
    .idle fun ⟨_, _, hl⟩ => absurd hl List.not_mem_nil⟩
  · simp [settled, started, hu.paired]
  · simp [settled, started, hu.paired]

/-- **One step in the lifetime of an instance**: a render cycle, or none. -/
theorem Lives.step (h : Lives id w first m app template last)
    (leaves : ∀ change next, m.next? = some (.tell change next) →
      m.executing = some w ∨ m.state.host.Leaves id (change m.state.host)) :
    (∃ app' last', Lives id w first m.step app' template last') ∧
      (m.executing = some w ∧
          Rerender m.state.host id app template first last (template.bind m.state.heap app.data).result
            m.step.state.host ∨
        ∃ error, m.step.state.host.app? id = some { app with lastError := error }) := by
  obtain ⟨hstanding, hserves, hturn⟩ := h
  -- Where others take the step, the instance is left alone.
  have hothers : Turn id w app.data template m.step → m.state.host.Leaves id m.step.state.host →
      (∃ app' last', Lives id w first m.step app' template last') ∧
        ∃ error, m.step.state.host.app? id = some { app with lastError := error } := by
    intro hturn' hleaves
    obtain ⟨error, hstanding'⟩ := hstanding.left hleaves
    exact ⟨⟨{ app with lastError := error }, last, hstanding', hserves.step, hturn'⟩, error,
      hstanding'.app?⟩
  have hsame : (∀ change next, m.next? ≠ some (.tell change next)) →
      m.state.host.Leaves id m.step.state.host := by
    intro htell
    rw [Machine.host_step htell]
    refine .refl id _ fun app' happ => ?_
    obtain rfl := Option.some.inj (hstanding.app?.symm.trans happ)
    exact hstanding.surface_lt
  cases hturn with
  | idle out =>
    have hturn' : Turn id w app.data template m.step :=
      .of_step hserves fun p k hl => out ⟨p, k, List.mem_of_mem_tail hl⟩
    obtain ⟨hlives, herror⟩ := hothers hturn' <| by
      by_cases htell : ∃ change next, m.next? = some (.tell change next)
      · obtain ⟨change, next, htop⟩ := htell
        obtain ⟨rest, hm⟩ := Machine.stack_of_next? htop
        rw [Machine.step_tell hm]
        exact (leaves change next htop).resolve_left fun hx => out (Machine.entered_of_executing hx)
      · exact hsame fun change next htop => htell ⟨change, next, htop⟩
    exact ⟨hlives, .inr herror⟩
  | reading previous n rest stack once =>
    obtain ⟨hlives, herror⟩ := hothers (Turn.reading_step stack once) <| hsame <| by
      intro change next htop
      rw [Machine.next?_of_stack stack] at htop
      cases htop
    exact ⟨hlives, .inr herror⟩
  | telling previous n rest stack once =>
    obtain ⟨hrerender, app', last', hdata, hstanding'⟩ :=
      hstanding.rerender fun b (hb : (template.bind m.state.heap app.data).result = .ok b) =>
        Tree.skeleton_bind template hb
    have hserves' : Serves id w app'.data template m.step := hdata ▸ hserves.step
    rw [Machine.step_tell stack] at hserves' ⊢
    refine ⟨⟨app', last', hstanding', hserves', .finishing previous n rest (.inl rfl) once⟩,
      .inl ⟨?_, hrerender⟩⟩
    rw [Machine.executing, stack]
  | finishing previous n rest stack once =>
    obtain ⟨hlives, herror⟩ := hothers (Turn.finishing_step hserves stack once) <| hsame <| by
      intro change next htop
      unfold Machine.next? at htop
      rcases stack with hm | hm <;> rw [hm] at htop <;> cases htop
    exact ⟨hlives, .inr herror⟩

theorem Lifetime.lives (h : Lifetime id w first m) :
    ∃ app template last, Lives id w first m app template last := by
  induction h with
  | mounted m m' app app' target unmounted mount happ watcher tree =>
    exact ⟨app', _, first, (lives_mounted unmounted mount happ watcher tree).choose_spec⟩
  | perform m p before rest ih =>
    obtain ⟨app, template, last, hstanding, ⟨hpaired, hmade, hgetter⟩, -⟩ := ih
    refine ⟨app, template, last, hstanding, ⟨hpaired, hmade, hgetter⟩, .idle fun ⟨_, _, hl⟩ => ?_⟩
    cases List.mem_singleton.1 hl
  | outside m h host before rest leaves ih =>
    obtain ⟨app, template, last, hstanding, ⟨hpaired, hmade, hgetter⟩, -⟩ := ih
    obtain ⟨error, hstanding'⟩ := hstanding.left leaves
    refine ⟨{ app with lastError := error }, template, last, hstanding', ⟨hpaired, hmade, hgetter⟩,
      .idle fun ⟨_, _, hl⟩ => ?_⟩
    rw [rest] at hl
    exact absurd hl List.not_mem_nil
  | step m before leaves ih =>
    obtain ⟨app, template, last, hlives⟩ := ih
    obtain ⟨⟨app', last', hlives'⟩, -⟩ := hlives.step leaves
    exact ⟨app', template, last', hlives'⟩

/-- **Render cycles after the first only write texts.** Whatever is done to the surface, the data and the
watchers in the lifetime of an instance, every step either leaves the instance as it is, or is a render
cycle of it. Such a cycle fails in binding and touches nothing, or writes those texts that differ from
the ones of the last cycle that succeeded, each on the node of the first render and in document order;
no node is made, moved or removed, and the handles stay those of the first render. -/
theorem Lifetime.rerenders (h : Lifetime id w first m)
    (leaves : ∀ change next, m.next? = some (.tell change next) →
      m.executing = some w ∨ m.state.host.Leaves id (change m.state.host)) :
    ∃ app template last, Standing m.state.host id app template first last ∧
      (m.executing = some w ∧
          Rerender m.state.host id app template first last (template.bind m.state.heap app.data).result
            m.step.state.host ∨
        ∃ error, m.step.state.host.app? id = some { app with lastError := error }) := by
  obtain ⟨app, template, last, hlives⟩ := h.lives
  exact ⟨app, template, last, hlives.1, (hlives.step leaves).2⟩

end App

end LiveMarkup

/-! ## A paragraph that others have emptied -/

namespace LiveMarkup.App.Sample

/-- The text node of the mounted paragraph is taken from it. -/
def emptied : Machine (Stage Unit) :=
  { mounted with state := { mounted.state with
      host := mounted.state.host.setSurface ⟨0⟩
        ((mounted.state.host.surface ⟨0⟩).removeChild ⟨3⟩ ⟨4⟩) } }

/-- Some steps of a write to the slot that the paragraph shows. -/
def rewritten (k : Nat) : Machine (Stage Unit) :=
  Machine.step^[k] (emptied.asked (.write ⟨0⟩ "a" (.bool true) .done))

theorem lifetime_emptied : Lifetime ⟨0⟩ ⟨0⟩ first.tree emptied := by
  refine .outside mounted mounted.state.heap _ (.mounted made mounted _ _ (.node ⟨1⟩) unmounted_made
    mount_made.1 mount_made.2 rfl rfl) rfl fun app happ => ?_
  obtain rfl := Option.some.inj (mount_made.2.symm.trans happ)
  refine ⟨⟨none, mount_made.2⟩, show 0 < 1 by decide, ?_⟩
  exact .removeChild _ ⟨3⟩ ⟨4⟩ .refl

theorem lifetime_rewritten (k : Nat) (hk : k ≤ 3) : Lifetime ⟨0⟩ ⟨0⟩ first.tree (rewritten k) := by
  induction k with
  | zero => exact .perform emptied _ lifetime_emptied rfl
  | succ k ih =>
    rw [rewritten, Function.iterate_succ_apply']
    refine .step _ (ih (by omega)) fun change next htop => ?_
    match k, hk with
    | 0, _ => cases htop
    | 1, _ => cases htop
    | 2, _ => cases htop

end LiveMarkup.App.Sample

namespace LiveMarkup.App

/-- The watcher renders `true` where `null` was shown: a render cycle of the lifetime. -/
theorem Lifetime.rerenders_emptied :
    Lifetime ⟨0⟩ ⟨0⟩ Sample.first.tree (Sample.rewritten 3) ∧
      (Sample.rewritten 3).executing = some ⟨0⟩ ∧
      ∃ app template last, Standing (Sample.rewritten 3).state.host ⟨0⟩ app template Sample.first.tree last ∧
        ((Sample.rewritten 3).executing = some ⟨0⟩ ∧
            Rerender (Sample.rewritten 3).state.host ⟨0⟩ app template Sample.first.tree last
              (template.bind (Sample.rewritten 3).state.heap app.data).result
              (Sample.rewritten 3).step.state.host ∨
          ∃ error, (Sample.rewritten 3).step.state.host.app? ⟨0⟩ = some { app with lastError := error }) := by
  have hlifetime := Sample.lifetime_rewritten 3 (Nat.le_refl 3)
  exact ⟨hlifetime, rfl, hlifetime.rerenders fun _ _ _ => .inl rfl⟩

end LiveMarkup.App

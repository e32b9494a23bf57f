import Mathlib
import LiveMarkup.Proofs.App.Session
import LiveMarkup.Proofs.Reactive.Runs

/-!
# Mounting an instance

To mount an instance is to make one watcher, whose first run binds the template and renders it in the
place of the target.

* `App.Unmounted`: an instance that was made and not mounted.
* `App.settled`: the machine after a mount.
* **`App.mount_ok`**, `App.mount_error`: a mount whose first binding succeeds, or fails.
* **`App.Ready.served`**: a mounted instance is displayed and served.
-/

namespace LiveMarkup

open Template (BindError)

variable {ε : Type} {id : AppId} {app : App} {m m' : Machine (Stage ε)} {target : Target}
  {node : NodeId} {template : Tree}

/-! ## Operations on the stage -/

namespace App

open Live

theorem look_eq (h : m.state.host.app? id = some app) : look id m = .ok app m := by
  have hhost : (host : Live (Stage ε) (Stage ε)) m = .ok m.state.host m := rfl
  rw [look, bind_ok hhost, h]
  rfl

theorem modify_eq (h : m.state.host.app? id = some app) (change : App → App) :
    modify id change m =
      .ok () { m with state := { m.state with host := m.state.host.setApp id (change app) } } := by
  rw [modify, bind_ok (look_eq h)]
  rfl

theorem takeError_eq (h : m.state.host.app? id = some app) :
    takeError id m = .ok app.lastError
      { m with state := { m.state with
          host := m.state.host.setApp id { app with lastError := none } } } := by
  rw [takeError, bind_ok (look_eq h), bind_ok (modify_eq h _)]
  rfl

/-- A write to a property that an instance does not have. -/
theorem set_unknown_eq {key : String} (h : m.state.host.app? id = some app) (hkey : key ∉ app.keys)
    (v : Value) : set id key v m = .ok (.error (.unknownProperty key)) m := by
  rw [set, bind_ok (look_eq h), checkKey, if_neg hkey]
  rfl

theorem make_eq (surface : SurfaceId) (data : ObjectId) (m : Machine (Stage ε)) :
    make surface data m =
      .ok ⟨m.state.host.apps.size⟩
        { m with state := { m.state with
            heap := m.state.heap.observe (.object data)
            host := { m.state.host with
              apps := m.state.host.apps.push <|
                fresh surface data ((m.state.heap.observe (.object data)).keys data) } } } := rfl

theorem release_eq (m : Machine (Stage ε)) (w : WatcherId) :
    release w m =
      .ok ()
        { m with
          state := m.state.modifyWatcher w fun x => { x with kept := false }
          stack := []
          fault := none } :=
  perform_of_iterate 2 rfl rfl rfl

/-! ## A mount -/

/-- An instance of a stage that is not mounted. -/
structure Unmounted (m : Machine (Stage ε)) (id : AppId) (app : App) : Prop where
  app? : m.state.host.app? id = some app
  surface_lt : app.surface.index < m.state.host.surfaces.size
  fresh : app.isMounted = false
  paired : m.getters.size = m.state.watchers.size

/-- The stage during the first render cycle: the instance shows the target. -/
def aimed (s : Stage ε) (id : AppId) (app : App) (node : NodeId) : Stage ε :=
  s.setApp id { app with shown := some (.node node) }

/-- The machine after the first run of the watcher. -/
def started (m : Machine (Stage ε)) (id : AppId) (app : App) (node : NodeId) (template : Tree) :
    Machine (Stage ε) where
  state :=
    { heap := m.state.heap.track ⟨m.state.watchers.size⟩ (template.bind m.state.heap app.data).reads
      watchers := m.state.watchers.push ⟨1, false, false, true⟩
      active := m.state.active
      host := (aimed m.state.host id app node).cycle id (template.bind m.state.heap app.data).result }
  getters := m.getters.push (getter id app.data template)
  stack := []
  fault := none

/-- The machine after the mount, with the instance as the first render cycle left it. -/
def settled (m : Machine (Stage ε)) (id : AppId) (app : App) (node : NodeId) (template : Tree)
    (first : App) : Machine (Stage ε) :=
  { started m id app node template with
    state := { (started m id app node template).state with
      host := (started m id app node template).state.host.setApp id
        { first with template := some template, watcher := some ⟨m.state.watchers.size⟩ } } }

section

variable (hu : Unmounted m id app)
  (hprepare : prepare (m.state.host.surface app.surface) target = .ok (node, template))

include hu in
/-- The instance and its surface after the first render cycle. -/
theorem app?_started (node : NodeId) (template : Tree) :
    let first := ({ app with shown := some (.node node) } : App).cycle
      (m.state.host.surface app.surface) (template.bind m.state.heap app.data).result
    (started m id app node template).state.host.app? id = some first.1 ∧
      (started m id app node template).state.host.surfaces.size = m.state.host.surfaces.size ∧
      (started m id app node template).state.host.surface app.surface = first.2 := by
  have happ : (aimed m.state.host id app node).app? id =
      some { app with shown := some (.node node) } := by
    rw [aimed, Stage.app?_setApp, hu.app?]
    rfl
  exact Stage.app?_cycle happ hu.surface_lt _

include hu hprepare in
/-- A mount comes down to what the first render cycle leaves. -/
theorem mount_eq {first : App}
    (hfirst : (started m id app node template).state.host.app? id = some first) :
    (∀ e, first.lastError = some e → ∃ m', mount id target m = .ok (.error e) m') ∧
      (first.lastError = none →
        mount id target m = .ok (.ok ()) (settled m id app node template first)) := by
  have hhost : (host : Live (Stage ε) (Stage ε)) m = .ok m.state.host m := rfl
  let ready : Machine (Stage ε) :=
    { m with state := { m.state with host := aimed m.state.host id app node } }
  have haim : modify id (fun app => { app with shown := some (.node node) }) m = .ok () ready :=
    modify_eq hu.app? _
  have hwatch : Live.watch (getter id app.data template) ready =
      .ok ⟨m.state.watchers.size⟩ (started m id app node template) := watch_readTell hu.paired
  unfold mount
  rw [bind_ok (look_eq hu.app?), if_neg (by simp [hu.fresh]), bind_ok hhost, hprepare]
  simp only
  rw [bind_ok haim, bind_ok hwatch, bind_ok (look_eq hfirst)]
  refine ⟨fun e he => ?_, fun hnone => ?_⟩
  · rw [he]
    simp only
    rw [bind_ok (modify_eq hfirst _)]
    exact ⟨_, bind_ok (release_eq _ ⟨m.state.watchers.size⟩) _⟩
  · rw [hnone]
    simp only
    rw [bind_ok (modify_eq hfirst _)]
    rfl

include hu in
/-- A mount at a target that is not there, or is no template, leaves everything as it was. -/
theorem mount_unprepared {e : AppError}
    (hprepare : prepare (m.state.host.surface app.surface) target = .error e) :
    mount id target m = .ok (.error e) m := by
  have hhost : (host : Live (Stage ε) (Stage ε)) m = .ok m.state.host m := rfl
  unfold mount
  rw [bind_ok (look_eq hu.app?), if_neg (by simp [hu.fresh]), bind_ok hhost, hprepare]
  rfl

include hu hprepare in
/-- **A mount whose binding fails fails with the same error.** -/
theorem mount_error {e : BindError} (hb : (template.bind m.state.heap app.data).result = .error e) :
    ∃ m', mount id target m = .ok (.error (.bind e)) m' := by
  obtain ⟨hfirst, -, -⟩ := app?_started hu node template
  rw [hb] at hfirst
  exact (mount_eq hu hprepare hfirst).1 _ rfl

/-- The instance after its first render. -/
def firstRender (app : App) (node : NodeId) (r : Patched Tree) : App :=
  ({ app with shown := some (.node node) } : App).rendered r.tree r.patch.report

include hu hprepare in
/-- **A mount whose binding succeeds replaces a target that has a parent.** -/
theorem mount_ok {b : Tree} (hb : (template.bind m.state.heap app.data).result = .ok b)
    {r : Patched Tree} (hr : (Patch.start (m.state.host.surface app.surface)).mount node b = r)
    (hnone : r.error = none) :
    mount id target m = .ok (.ok ()) (settled m id app node template (app.firstRender node r)) ∧
      (settled m id app node template (app.firstRender node r)).state.host.app? id =
        some { app.firstRender node r with
          template := some template, watcher := some ⟨m.state.watchers.size⟩ } ∧
      (settled m id app node template (app.firstRender node r)).state.host.surfaces.size =
        m.state.host.surfaces.size ∧
      (settled m id app node template (app.firstRender node r)).state.host.surface app.surface =
        r.patch.surface := by
  obtain ⟨hfirst, hsize, hsurface⟩ := app?_started hu node template
  have hcycle : ({ app with shown := some (.node node) } : App).cycle
      (m.state.host.surface app.surface) (template.bind m.state.heap app.data).result =
        (app.firstRender node r, r.patch.surface) := by
    simp only [hb, App.cycle, Patch.run, hr, hnone]
    rfl
  rw [hcycle] at hfirst hsurface
  refine ⟨(mount_eq hu hprepare hfirst).2 rfl, ?_, hsize, hsurface⟩
  rw [settled, Stage.app?_setApp, hfirst]
  rfl

include hu hprepare in
/-- The mounted instance is displayed: its first tree was built from new nodes. -/
theorem displayed_settled (hlinked : (m.state.host.surface app.surface).Linked) {q : NodeId}
    (hq : (m.state.host.surface app.surface).parent? node = some q) {b : Tree}
    (hb : (template.bind m.state.heap app.data).result = .ok b) {r : Patched Tree}
    (hr : (Patch.start (m.state.host.surface app.surface)).mount node b = r) :
    Displayed (settled m id app node template (app.firstRender node r)).state.host id
        { app.firstRender node r with
          template := some template, watcher := some ⟨m.state.watchers.size⟩ } template r.tree ∧
      r.tree.detached = b := by
  obtain ⟨hnone, el, hplaced⟩ :=
    Patch.placed_mount (Patch.start (m.state.host.surface app.surface)) node b hlinked hq
  obtain ⟨-, happ, hsize, hsurface⟩ := mount_ok hu hprepare hb hr (hr ▸ hnone)
  rw [hr] at hplaced
  have hshows : r.patch.surface.Shows Surface.exact el r.tree :=
    hplaced.shows_but.mono fun _ _ _ _ hfit => hfit List.not_mem_nil
  refine ⟨⟨happ, hsize ▸ hu.surface_lt, rfl, ⟨el, hsurface ▸ hshows⟩, hplaced.nodup, ?_⟩, ?_⟩
  · rw [Tree.skeleton_eq_of_detached_eq hplaced.detached, Tree.skeleton_bind template hb]
  · rw [hplaced.detached, Tree.detached_bind template hb]

/-- The watcher of the mounted instance is idle and kept. -/
theorem watcher?_settled (m : Machine (Stage ε)) (id : AppId) (app : App) (node : NodeId)
    (template : Tree) (first : App) :
    (settled m id app node template first).state.watcher? ⟨m.state.watchers.size⟩ =
      some ⟨1, false, false, true⟩ := by
  simp [State.watcher?, settled, started]

include hu in
theorem getter_settled (first : App) :
    (settled m id app node template first).getter ⟨m.state.watchers.size⟩ =
      getter id app.data template := by
  simp only [Machine.getter, settled, started, ← hu.paired, Array.getElem?_push_size]
  rfl

include hu in
/-- A mount that succeeds has bound the template and replaced the target. -/
theorem mount_inv (h : mount id target m = .ok (.ok ()) m') :
    ∃ node template b, prepare (m.state.host.surface app.surface) target = .ok (node, template) ∧
      (template.bind m.state.heap app.data).result = .ok b ∧
      ((Patch.start (m.state.host.surface app.surface)).mount node b).error = none := by
  cases hp : prepare (m.state.host.surface app.surface) target with
  | error e =>
    rw [mount_unprepared hu hp] at h
    cases h
  | ok prepared =>
    obtain ⟨node, template⟩ := prepared
    refine ⟨node, template, ?_⟩
    cases hb : (template.bind m.state.heap app.data).result with
    | error e =>
      obtain ⟨m'', hm⟩ := mount_error hu hp hb
      rw [hm] at h
      cases h
    | ok b =>
      refine ⟨b, rfl, rfl, ?_⟩
      obtain ⟨hfirst, -, -⟩ := app?_started hu node template
      cases he : ((Patch.start (m.state.host.surface app.surface)).mount node b).error with
      | none => rfl
      | some e =>
        simp only [hb, App.cycle, Patch.run, he] at hfirst
        obtain ⟨m'', hm⟩ := (mount_eq hu hp hfirst).1 _ rfl
        rw [hm] at h
        cases h

end

/-- An instance that can be mounted: its data can be bound, and its surface has links that agree. -/
structure Ready (id : AppId) (m : Machine (Stage ε)) : Prop where
  paired : m.getters.size = m.state.watchers.size
  app : ∃ app, m.state.host.app? id = some app ∧ m.state.heap.Bindable app.data ∧
    app.surface.index < m.state.host.surfaces.size ∧ (m.state.host.surface app.surface).Linked

/-- **An instance that was mounted is displayed and served.** -/
theorem Ready.served (ready : Ready id m) (h : mount id target m = .ok (.ok ()) m') :
    ∃ app w t, m'.state.host.app? id = some app ∧ app.watcher = some w ∧ app.tree? = some t ∧
      m'.stack = [] ∧ Served id w m' [some t] := by
  obtain ⟨app, happ, hbindable, hlt, hlinked⟩ := ready.app
  have hfresh : app.isMounted = false := by
    refine Bool.eq_false_iff.2 fun hmounted => ?_
    unfold mount at h
    rw [bind_ok (look_eq happ), if_pos hmounted] at h
    cases h
  have hu : Unmounted m id app := ⟨happ, hlt, hfresh, ready.paired⟩
  obtain ⟨node, template, b, hp, hb, hnone⟩ := mount_inv hu h
  obtain ⟨q, hq⟩ := Patch.attached_of_mount hnone
  obtain ⟨hmount, happ', -⟩ := mount_ok hu hp hb rfl hnone
  obtain rfl : settled m id app node template _ = m' := by
    rw [hmount] at h
    exact (EStateM.Result.ok.inj h).2
  generalize hr : (Patch.start (m.state.host.surface app.surface)).mount node b = r at happ' h hmount
  obtain ⟨hdisplayed, hdetached⟩ := displayed_settled hu hp hlinked hq hb hr
  let w : WatcherId := ⟨m.state.watchers.size⟩
  obtain ⟨hbind, hsubscribed⟩ := hbindable.bind_track w template
  have hwatcher := watcher?_settled m id app node template (app.firstRender node r)
  let app' : App := { app.firstRender node r with template := some template, watcher := some w }
  refine ⟨app', w, r.tree, happ', rfl, rfl, rfl, app', template, r.tree, rfl,
    ⟨hbindable.track w _, ?_, ?_, getter_settled hu _, ?_, ?_⟩, hdisplayed, rfl,
    .idle (fun ⟨_, _, hl⟩ => absurd hl List.not_mem_nil) (.inr (.inl ⟨?_, ?_⟩))⟩
  · simp [settled, started, ready.paired]
  · simp [settled, started, ready.paired, w]
  · rw [State.isKept, hwatcher]
    rfl
  · intro hr
    rw [State.isRunning, hwatcher] at hr
    cases hr
  · show (template.bind (m.state.heap.track w _) app.data).result = _
    rw [hbind, hb, hdetached]
  · show (m.state.heap.track w _).Subscribed w (template.bind (m.state.heap.track w _) app.data).reads
    rw [hbind]
    exact hsubscribed b hb

end App

end LiveMarkup

/-! ## A mounted paragraph -/

namespace LiveMarkup.App.Sample

/-- A paragraph with one placeholder. -/
def page : Surface :=
  let paragraph := (Surface.empty.createElement "p").2.appendChild Surface.root ⟨1⟩
  (paragraph.createText "{{a}}").2.appendChild ⟨1⟩ ⟨2⟩

/-- The template of the paragraph. -/
def template : Tree := .element "p" Table.empty [.text "{{a}}" none] none

/-- An object with one slot, which some watchers are subscribed to. -/
def heap (subscribers : List WatcherId) : Heap :=
  ⟨#[⟨Table.empty.insert "a" ⟨.null, some ⟨0⟩⟩, true⟩], #[], #[subscribers]⟩

/-- The object before it is observed. -/
def blank : Machine (Stage Unit) :=
  (Machine.start ⟨#[page], #[], ()⟩).withHeap (Heap.empty.build (.object [("a", .value .null)])).2

/-- An instance of the object. -/
def made : Machine (Stage Unit) :=
  { blank with
    state := { blank.state with heap := heap [], host := ⟨#[page], #[fresh ⟨0⟩ ⟨0⟩ ["a"]], ()⟩ } }

/-- The first rendering. -/
def first : Patched Tree :=
  (Patch.start page).mount ⟨1⟩ (.element "p" Table.empty [.text "null" none] none)

/-- The instance is mounted at the paragraph. -/
def mounted : Machine (Stage Unit) :=
  ⟨⟨heap [⟨0⟩], #[⟨1, false, false, true⟩], none,
    (settled made ⟨0⟩ (fresh ⟨0⟩ ⟨0⟩ ["a"]) ⟨1⟩ template
      ((fresh ⟨0⟩ ⟨0⟩ ["a"]).firstRender ⟨1⟩ first)).state.host⟩, #[getter ⟨0⟩ ⟨0⟩ template], [], none⟩

theorem linked_page : page.Linked := by
  have hparagraph :
      ((Surface.empty.createElement "p").2.appendChild Surface.root ⟨1⟩).Linked :=
    (((Surface.Linked.empty.alloc _).record _).attach (by decide) (by decide) (by decide)).record _
  exact (((hparagraph.alloc _).record _).attach (by decide) (by decide) (by decide)).record _

theorem unmounted_made : Unmounted made ⟨0⟩ (fresh ⟨0⟩ ⟨0⟩ ["a"]) :=
  ⟨rfl, show 0 < 1 by decide, rfl, rfl⟩

/-- The mount of the instance. -/
theorem mount_made : mount ⟨0⟩ (.node ⟨1⟩) made = .ok (.ok ()) mounted ∧
    mounted.state.host.app? ⟨0⟩ =
      some { (fresh ⟨0⟩ ⟨0⟩ ["a"]).firstRender ⟨1⟩ first with
        template := some template, watcher := some ⟨0⟩ } := by
  have hprepare : prepare page (.node ⟨1⟩) = .ok (⟨1⟩, template) := by cbv
  have hbind : (template.bind (heap []) ⟨0⟩).result =
      .ok (.element "p" Table.empty [.text "null" none] none) := by cbv
  have hnone : first.error = none := by cbv
  obtain ⟨hmount, happ, -⟩ := mount_ok unmounted_made hprepare hbind rfl hnone
  have hmounted : settled made ⟨0⟩ (fresh ⟨0⟩ ⟨0⟩ ["a"]) ⟨1⟩ template
      ((fresh ⟨0⟩ ⟨0⟩ ["a"]).firstRender ⟨1⟩ first) = mounted := by
    have hreads : (template.bind (heap []) ⟨0⟩).reads = [⟨⟨0⟩, "a"⟩] := by cbv
    have htrack : (heap []).track ⟨0⟩ [⟨⟨0⟩, "a"⟩] = heap [⟨0⟩] := by cbv
    rw [← hreads] at htrack
    rw [mounted, ← htrack]
    rfl
  exact ⟨hmounted ▸ hmount, hmounted ▸ happ⟩

end LiveMarkup.App.Sample

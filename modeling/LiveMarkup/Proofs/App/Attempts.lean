import LiveMarkup.Proofs.App.Padded
import LiveMarkup.Proofs.App.Rerender
import LiveMarkup.Proofs.Reactive.Registered

/-!
# Attempts that fail

An instance that cannot be mounted, because its target is not there or is no template, or because its
first render fails, is left as it was, and so is all else: the surface, the data, and the subscriptions.

* `App.abandoned`, **`App.mount_abandons`**: what a mount whose first render fails leaves behind.
* `App.Alike`, **`App.Alike.mount`**: machines that a mount does not tell from one another.
* `App.Waiting`: an instance until it is mounted.
* `App.Meanwhile`: the same happens to two machines.
* **`App.Waiting.attempts`**: neither a mount that fails nor a render cycle that fails changes anything else.
-/

namespace LiveMarkup

open Template (BindError)

variable {ε : Type} {s : Stage ε} {id : AppId} {app : App} {m m' k : Machine (Stage ε)} {target : Target}
  {node : NodeId} {template : Tree}

namespace Stage

theorem setApp_setApp (s : Stage ε) (id : AppId) (a b : App) :
    (s.setApp id a).setApp id b = s.setApp id b := by
  obtain ⟨surfaces, apps, extra⟩ := s
  refine congrArg (fun apps => Stage.mk surfaces apps extra) (Array.ext_getElem? fun i => ?_)
  simp only [setApp, Array.getElem?_modify]
  split
  · cases apps[i]? <;> rfl
  · rfl

end Stage

/-- A first paint that fails does nothing. -/
theorem Patch.patch_of_mount_error (p : Patch) (node : NodeId) (t : Tree)
    (h : (p.mount node t).error ≠ none) : (p.mount node t).patch = p := by
  unfold mount at h ⊢
  split at h
  · rfl
  · exact absurd rfl h

namespace App

open Live

/-! ## What a mount leaves behind -/

/-- An instance that is neither mounted nor being so. -/
structure Blank (app : App) : Prop where
  watcher : app.watcher = none
  shown : app.shown = none
  lastError : app.lastError = none

/-- The error of the first render of a template that was bound with a result. -/
def firstError (surface : Surface) (node : NodeId) (result : Except BindError Tree) : Option AppError :=
  match result with
  | .error e => some (.bind e)
  | .ok b => ((Patch.start surface).mount node b).error.map .patch

theorem cycle_of_firstError {surface : Surface} {result : Except BindError Tree} {e : AppError}
    (h : firstError surface node result = some e) (app : App) :
    ({ app with shown := some (.node node) } : App).cycle surface result =
      (({ app with shown := some (.node node) } : App).failed e, surface) := by
  cases result with
  | error e' =>
    obtain rfl := Option.some.inj h
    rfl
  | ok b =>
    obtain ⟨e', he, rfl⟩ := Option.map_eq_some_iff.1 h
    have hpatch := (Patch.start surface).patch_of_mount_error node b (by rw [he]; exact nofun)
    simp only [App.cycle, Patch.run, he, hpatch]
    rfl

theorem error_of_firstError {surface : Surface} {b : Tree} (h : firstError surface node (.ok b) = none) :
    ((Patch.start surface).mount node b).error = none := Option.map_eq_none_iff.1 h

/-- The machine after a mount whose first render has failed: the watcher was made and is not kept. -/
def abandoned (m : Machine (Stage ε)) (id : AppId) (app : App) (template : Tree) :
    Machine (Stage ε) where
  state :=
    { heap := m.state.heap.track ⟨m.state.watchers.size⟩ (template.bind m.state.heap app.data).reads
      watchers := m.state.watchers.push ⟨1, false, false, false⟩
      active := m.state.active
      host := m.state.host.setApp id { app with cycles := app.cycles + 1 } }
  getters := m.getters.push (getter id app.data template)
  stack := []
  fault := none

section

variable (hu : Unmounted m id app)

section

include hu

/-- The stage after the first render cycle. -/
theorem host_started (node : NodeId) (template : Tree) :
    let first := ({ app with shown := some (.node node) } : App).cycle
      (m.state.host.surface app.surface) (template.bind m.state.heap app.data).result
    (started m id app node template).state.host =
      (m.state.host.setSurface app.surface first.2).setApp id first.1 := by
  have happ : (aimed m.state.host id app node).app? id =
      some { app with shown := some (.node node) } := by
    rw [aimed, Stage.app?_setApp, hu.app?]
    rfl
  exact (Stage.cycle_eq happ _).trans (Stage.setApp_setApp (m.state.host.setSurface _ _) id _ _)

variable (hprepare : prepare (m.state.host.surface app.surface) target = .ok (node, template))

include hprepare

/-- **A mount whose first render fails** leaves a watcher that is not kept, and nothing else. -/
theorem mount_abandons (hblank : app.Blank) {e : AppError}
    (hfirst : firstError (m.state.host.surface app.surface) node
      (template.bind m.state.heap app.data).result = some e) :
    mount id target m = .ok (.error e) (abandoned m id app template) := by
  have hcycle := cycle_of_firstError hfirst app
  obtain ⟨hstarted, -, -⟩ := app?_started hu node template
  have hstage := host_started hu node template
  simp only [hcycle] at hstarted hstage
  rw [Stage.setSurface_self _ _ hu.surface_lt] at hstage
  let ready : Machine (Stage ε) :=
    { m with state := { m.state with host := aimed m.state.host id app node } }
  have hhost : (host : Live (Stage ε) (Stage ε)) m = .ok m.state.host m := rfl
  have haim : modify id (fun app => { app with shown := some (.node node) }) m = .ok () ready :=
    modify_eq hu.app? _
  have hwatch : Live.watch (getter id app.data template) ready =
      .ok ⟨m.state.watchers.size⟩ (started m id app node template) := watch_readTell hu.paired
  have hcleared : (started m id app node template).state.host.setApp id
      { ({ app with shown := some (.node node) } : App).failed e with shown := none, lastError := none } =
        m.state.host.setApp id { app with cycles := app.cycles + 1 } := by
    obtain ⟨surface, data, keys, compiled, watcher, shown, lastError, lastReport, renders, cycles⟩ := app
    obtain ⟨rfl, rfl, rfl⟩ := hblank
    rw [hstage, Stage.setApp_setApp]
    rfl
  unfold mount
  rw [bind_ok (look_eq hu.app?), if_neg (by simp [hu.fresh]), bind_ok hhost, hprepare]
  simp only
  rw [bind_ok haim, bind_ok hwatch, bind_ok (look_eq hstarted)]
  simp only [failed]
  rw [bind_ok (modify_eq hstarted _), bind_ok (release_eq _ _), show _ = _ from hcleared]
  simp only [abandoned, started, State.modifyWatcher, Machine.modify_size_push]
  rfl

end

include hu

/-- The stage after a mount whose first render succeeds. -/
theorem host_settled {b : Tree} (hb : (template.bind m.state.heap app.data).result = .ok b)
    {r : Patched Tree} (hr : (Patch.start (m.state.host.surface app.surface)).mount node b = r) (hnone : r.error = none) :
    (settled m id app node template (app.firstRender node r)).state.host =
      (m.state.host.setSurface app.surface r.patch.surface).setApp id
        { app.firstRender node r with
          template := some template, watcher := some ⟨m.state.watchers.size⟩ } := by
  have hcycle : ({ app with shown := some (.node node) } : App).cycle
      (m.state.host.surface app.surface) (template.bind m.state.heap app.data).result =
        (app.firstRender node r, r.patch.surface) := by
    simp only [hb, App.cycle, Patch.run, hr, hnone]
    rfl
  have hstage := host_started hu node template
  simp only [hcycle] at hstage
  show (started m id app node template).state.host.setApp id _ = _
  rw [hstage, Stage.setApp_setApp]

end

/-! ## Live subscribers -/

section

variable {σ : Type} {n n' : Machine σ} {d : DepId} {ps : List Place} {y : Watcher}

theorem live_at_rest (rest : n.stack = []) (d : DepId) :
    n.sight.subscribers d = (n.state.heap.subscribers d).filter n.state.isKept := by
  refine List.filter_congr fun w _ => ?_
  rw [Bool.eq_iff_iff, Machine.alive_iff, rest]
  simp

theorem isKept_push {s s' : State σ} (hs : s'.watchers = s.watchers.push y) (w : WatcherId) :
    s'.isKept w = if w = ⟨s.watchers.size⟩ then y.kept else s.isKept w := by
  rw [State.isKept, State.watcher?_push hs]
  split <;> rfl

/-- A watcher that was made and has read some places is, if it is kept, the last one subscribed to their
deps. -/
theorem live_of_push (rest : n.stack = []) (registered : n.Registered) (rest' : n'.stack = [])
    (heap : n'.state.heap = n.state.heap.track ⟨n.state.watchers.size⟩ ps)
    (watchers : n'.state.watchers = n.state.watchers.push y) (d : DepId) :
    n'.sight.subscribers d = n.sight.subscribers d ++
      if y.kept ∧ d ∈ ps.filterMap n.state.heap.depAt? ∧ d.index < n.state.heap.deps.size
      then [⟨n.state.watchers.size⟩] else [] := by
  have hold : ∀ w ∈ n.state.heap.subscribers d, w ≠ ⟨n.state.watchers.size⟩ := by
    rintro w hw rfl
    exact Nat.lt_irrefl _ (registered d _ hw)
  have hout : (⟨n.state.watchers.size⟩ : WatcherId) ∉ n.state.heap.subscribers d :=
    fun hw => hold _ hw rfl
  have hsame : (n.state.heap.subscribers d).filter n'.state.isKept =
      (n.state.heap.subscribers d).filter n.state.isKept :=
    List.filter_congr fun w hw => by rw [isKept_push watchers, if_neg (hold w hw)]
  have hnew : n'.state.isKept ⟨n.state.watchers.size⟩ = y.kept := by
    rw [isKept_push watchers, if_pos rfl]
  rw [live_at_rest rest, live_at_rest rest', heap, Heap.subscribers_track]
  by_cases hc : d ∈ ps.filterMap n.state.heap.depAt? ∧ d.index < n.state.heap.deps.size
  · rw [if_pos ⟨hc.1, hc.2, hout⟩, List.filter_append, hsame]
    by_cases hk : y.kept
    · rw [if_pos ⟨hk, hc⟩, List.filter_cons_of_pos (hnew.trans hk), List.filter_nil]
    · rw [if_neg fun h => hk h.1, List.filter_cons_of_neg (by rwa [hnew]), List.filter_nil]
  · rw [if_neg fun h => hc ⟨h.1, h.2.1⟩, if_neg fun h => hc h.2, hsame, List.append_nil]

end

/-! ## Machines that are alike -/

/-- Two machines that differ in how often an instance was rendered and in the number of its watcher, and
in watchers and subscriptions that are dead. -/
structure Alike (id : AppId) (rename : WatcherId → WatcherId) (m k : Machine (Stage ε)) : Prop where
  host : ∃ app cycles, m.state.host.app? id = some app ∧
    k.state.host = m.state.host.setApp id { app with cycles := cycles, watcher := app.watcher.map rename }
  heap : m.state.heap.Twin k.state.heap
  subscribers : ∀ d, k.sight.subscribers d = (m.sight.subscribers d).map rename
  /-- The watchers of the instance are in the same condition and run the same. -/
  watcher : ∀ app w, m.state.host.app? id = some app → app.watcher = some w →
    k.getter (rename w) = m.getter w ∧ k.state.watcher? (rename w) = m.state.watcher? w

theorem Alike.refl (happ : m.state.host.app? id = some app) : Alike id (fun w => w) m m where
  host := ⟨app, app.cycles, happ, by rw [Option.map_id', Stage.setApp_self happ]⟩
  heap := .refl _
  subscribers d := (List.map_id' _).symm
  watcher app w happ hw := ⟨rfl, rfl⟩

/-- What is known of a machine while an instance on it is not mounted. -/
structure Fit (id : AppId) (m : Machine (Stage ε)) : Prop where
  disciplined : m.Disciplined
  registered : m.Registered
  blank : ∀ app, m.state.host.app? id = some app →
    app.Blank ∧ app.surface.index < m.state.host.surfaces.size

namespace Fit

theorem unmounted (h : Fit id m) (happ : m.state.host.app? id = some app) : Unmounted m id app := by
  obtain ⟨hblank, hlt⟩ := h.blank app happ
  exact ⟨happ, hlt, by rw [isMounted, hblank.watcher]; rfl, h.disciplined.paired⟩

/-- A mount that fails has not found its target, or its first render has failed. -/
theorem mount_error_inv (h : Fit id m) (happ : m.state.host.app? id = some app) {e : AppError}
    (hmount : mount id target m = .ok (.error e) m') :
    m' = m ∨ ∃ template, m' = abandoned m id app template := by
  have hu := h.unmounted happ
  cases hp : prepare (m.state.host.surface app.surface) target with
  | error e' =>
    rw [mount_unprepared hu hp] at hmount
    exact .inl (EStateM.Result.ok.inj hmount).2.symm
  | ok prepared =>
    obtain ⟨node, template⟩ := prepared
    cases hf : firstError (m.state.host.surface app.surface) node
        (template.bind m.state.heap app.data).result with
    | some e' =>
      rw [mount_abandons hu hp (h.blank app happ).1 hf] at hmount
      exact .inr ⟨template, (EStateM.Result.ok.inj hmount).2.symm⟩
    | none =>
      cases hb : (template.bind m.state.heap app.data).result with
      | error e' => rw [hb] at hf; cases hf
      | ok b =>
        rw [hb] at hf
        rw [(mount_ok hu hp hb rfl (error_of_firstError hf)).1] at hmount
        cases (EStateM.Result.ok.inj hmount).1

/-- Nothing but a dead watcher tells of a mount that has failed. -/
theorem alike_abandoned (h : Fit id m) (rest : m.stack = []) (happ : m.state.host.app? id = some app)
    (template : Tree) : Alike id (fun w => w) m (abandoned m id app template) where
  host := ⟨app, app.cycles + 1, happ, by rw [Option.map_id']; rfl⟩
  heap := .track _ _ _
  subscribers d := by
    rw [live_of_push rest h.registered rfl rfl rfl, if_neg fun hc => Bool.false_ne_true hc.1,
      List.append_nil, List.map_id']
  watcher app' w happ' hw := by rw [(h.blank app' happ').1.watcher] at hw; cases hw

theorem abandoned (h : Fit id m) (rest : m.stack = []) (happ : m.state.host.app? id = some app)
    (template : Tree) : Fit id (abandoned m id app template) where
  disciplined := h.disciplined.push rest rfl rfl rfl rfl rfl
  registered := by
    have hsize : (App.abandoned m id app template).state.watchers.size = m.state.watchers.size + 1 :=
      Array.size_push _
    rw [Machine.Registered, hsize]
    exact (h.registered.mono (Nat.le_succ _)).track (Nat.lt_succ_self _) _
  blank app' happ' := by
    have hblank := h.blank app happ
    rw [show (App.abandoned m id app template).state.host.app? id = _ from Stage.app?_setApp _ _ _,
      happ] at happ'
    obtain rfl := Option.some.inj happ'
    exact ⟨⟨hblank.1.watcher, hblank.1.shown, hblank.1.lastError⟩, hblank.2⟩

end Fit

/-- The instance on the other one of two machines that are alike, while it is not mounted. -/
theorem Alike.other {rename : WatcherId → WatcherId} (a : Alike id rename m k) (h : Fit id m)
    (happ : m.state.host.app? id = some app) :
    ∃ cycles, k.state.host = m.state.host.setApp id { app with cycles := cycles } ∧
      k.state.host.app? id = some { app with cycles := cycles } := by
  obtain ⟨app', cycles, happ', hhost⟩ := a.host
  obtain rfl := Option.some.inj (happ.symm.trans happ')
  have hsame : ({ app with cycles := cycles, watcher := app.watcher.map rename } : App) =
      { app with cycles := cycles } := by
    rw [(h.blank app happ).1.watcher]
    rfl
  rw [hsame] at hhost
  refine ⟨cycles, hhost, ?_⟩
  rw [hhost, Stage.app?_setApp, happ]
  rfl

section

variable {cycles : Nat} (a : Alike id (fun w => w) m k) (hm : Fit id m) (hk : Fit id k)
  (rest : m.stack = []) (rest' : k.stack = []) (happ : m.state.host.app? id = some app)
  (hhost : k.state.host = m.state.host.setApp id { app with cycles := cycles })

include a hm hk rest rest' happ hhost

/-- The same mount fails on two machines. -/
theorem Alike.abandoned (template : Tree) :
    Alike id (fun w => w) (abandoned m id app template)
      (abandoned k id { app with cycles := cycles } template) := by
  have hfail := hm.alike_abandoned rest happ template
  have hpresent : k.state.host.app? id = some { app with cycles := cycles } := by
    rw [hhost, Stage.app?_setApp, happ]
    rfl
  have hfail' := hk.alike_abandoned rest' hpresent template
  refine ⟨⟨{ app with cycles := app.cycles + 1 }, cycles + 1, ?_, ?_⟩, ?_, fun d => ?_, ?_⟩
  · exact (Stage.app?_setApp _ _ _).trans (by rw [happ]; rfl)
  · show k.state.host.setApp id _ = (m.state.host.setApp id _).setApp id _
    rw [hhost, Stage.setApp_setApp, Stage.setApp_setApp, Option.map_id']
  · exact (hfail.heap.symm.trans a.heap).trans hfail'.heap
  · rw [hfail'.subscribers, a.subscribers, hfail.subscribers]
  · intro app' w happ' hw
    rw [show (App.abandoned m id app template).state.host.app? id = _ from Stage.app?_setApp _ _ _,
      happ] at happ'
    obtain rfl := Option.some.inj happ'
    rw [show ({ app with cycles := app.cycles + 1 } : App).watcher = app.watcher from rfl,
      (hm.blank app happ).1.watcher] at hw
    cases hw

/-- The same mount succeeds on two machines. -/
theorem Alike.settled {b : Tree} {r : Patched Tree}
    (hb : (template.bind m.state.heap app.data).result = .ok b)
    (hr : (Patch.start (m.state.host.surface app.surface)).mount node b = r) (hnone : r.error = none) :
    ∃ rename, Alike id rename (settled m id app node template (app.firstRender node r))
        (settled k id { app with cycles := cycles } node template
          (({ app with cycles := cycles } : App).firstRender node r)) ∧
      ∀ w : WatcherId, w.index < m.state.watchers.size → rename w = w := by
  have hu := hm.unmounted happ
  have hu' : Unmounted k id { app with cycles := cycles } := hk.unmounted <| by
    rw [hhost, Stage.app?_setApp, happ]
    rfl
  have hsurface : k.state.host.surface app.surface = m.state.host.surface app.surface := by
    rw [hhost]
    rfl
  have hbind : template.bind k.state.heap app.data = template.bind m.state.heap app.data :=
    Tree.bind_of_data a.heap.objects a.heap.arrays template
  let w : WatcherId := ⟨m.state.watchers.size⟩
  let w' : WatcherId := ⟨k.state.watchers.size⟩
  let rename : WatcherId → WatcherId := fun x => if x = w then w' else x
  have hself : rename w = w' := if_pos rfl
  have hold : ∀ x : WatcherId, x.index < m.state.watchers.size → rename x = x := by
    rintro x hx
    refine if_neg ?_
    rintro rfl
    exact Nat.lt_irrefl _ hx
  have hstage := host_settled hu hb hr hnone
  have hb' : (template.bind k.state.heap app.data).result = .ok b := hbind ▸ hb
  have hstage' := host_settled hu' hb' (hsurface ▸ hr) hnone
  have hmounted := (Stage.app?_setApp (m.state.host.setSurface app.surface r.patch.surface) id
    { app.firstRender node r with template := some template, watcher := some w })
  rw [← hstage, show (m.state.host.setSurface app.surface r.patch.surface).app? id = some app from happ]
    at hmounted
  refine ⟨rename, ⟨⟨_, cycles + 1, hmounted, ?_⟩, ?_, fun d => ?_, ?_⟩, hold⟩
  · rw [hstage', hstage, hhost, Stage.setApp_setApp]
    have hcomm : ∀ (s : Stage ε) (a : App), (s.setApp id a).setSurface app.surface r.patch.surface =
        (s.setSurface app.surface r.patch.surface).setApp id a := fun _ _ => rfl
    rw [hcomm, Stage.setApp_setApp, Option.map_some, hself]
    rfl
  · exact ((Heap.Twin.track _ _ _).symm.trans a.heap).trans (.track _ _ _)
  · have hlive : (m.sight.subscribers d).map rename = m.sight.subscribers d := by
      refine (List.map_congr_left fun x hx => ?_).trans (List.map_id _)
      exact hold x (hm.registered d x (Machine.mem_subscribers_iff.1 hx).1)
    have hreads : (template.bind k.state.heap ({ app with cycles := cycles } : App).data).reads =
        (template.bind m.state.heap app.data).reads := congrArg Traced.reads hbind
    refine (live_of_push rest' hk.registered rfl rfl rfl d).trans ?_
    refine Eq.trans ?_ (congrArg (List.map rename) (live_of_push rest hm.registered rfl rfl rfl d).symm)
    rw [a.subscribers, hreads, a.heap.depAt?, a.heap.size, List.map_append, hlive, List.map_id']
    congr 1
    split
    · rw [List.map_singleton, hself]
    · rfl
  · intro app' x happ' hx
    obtain rfl := Option.some.inj (hmounted.symm.trans happ')
    obtain rfl : w = x := Option.some.inj hx
    rw [hself]
    refine ⟨?_, (watcher?_settled ..).trans (watcher?_settled ..).symm⟩
    exact (getter_settled hu' _).trans (getter_settled hu _).symm

end

/-- **A mount does not tell alike machines from one another.** -/
theorem Alike.mount (a : Alike id (fun w => w) m k) (hm : Fit id m) (hk : Fit id k)
    (rest : m.stack = []) (rest' : k.stack = []) (target : Target) :
    ∃ result m₂ k₂ rename, App.mount id target m = .ok result m₂ ∧ App.mount id target k = .ok result k₂ ∧
      Alike id rename m₂ k₂ ∧ ∀ w : WatcherId, w.index < m.state.watchers.size → rename w = w := by
  obtain ⟨app, -, happ, -⟩ := a.host
  obtain ⟨cycles, hhost, happ'⟩ := a.other hm happ
  have hu := hm.unmounted happ
  have hu' := hk.unmounted happ'
  have hsurface : k.state.host.surface app.surface = m.state.host.surface app.surface := by
    rw [hhost]
    rfl
  have hbind : ∀ t : Tree, t.bind k.state.heap app.data = t.bind m.state.heap app.data :=
    Tree.bind_of_data a.heap.objects a.heap.arrays
  have hprepare := congrArg (prepare · target) hsurface
  cases hp : prepare (m.state.host.surface app.surface) target with
  | error e =>
    exact ⟨.error e, m, k, fun w => w, mount_unprepared hu hp, mount_unprepared hu' (hprepare.trans hp), a,
      fun _ _ => rfl⟩
  | ok prepared =>
    obtain ⟨node, template⟩ := prepared
    cases hf : firstError (m.state.host.surface app.surface) node
        (template.bind m.state.heap app.data).result with
    | some e =>
      have hf' : firstError (k.state.host.surface app.surface) node
          (template.bind k.state.heap app.data).result = some e := by rw [hsurface, hbind, hf]
      exact ⟨.error e, _, _, fun w => w, mount_abandons hu hp (hm.blank app happ).1 hf,
        mount_abandons hu' (hprepare.trans hp) (hk.blank _ happ').1 hf',
        a.abandoned hm hk rest rest' happ hhost template, fun _ _ => rfl⟩
    | none =>
      cases hb : (template.bind m.state.heap app.data).result with
      | error e => rw [hb] at hf; cases hf
      | ok b =>
        rw [hb] at hf
        have hnone := error_of_firstError hf
        have hb' : (template.bind k.state.heap app.data).result = .ok b := by rw [hbind, hb]
        obtain ⟨rename, halike, hold⟩ := a.settled hm hk rest rest' happ hhost hb rfl hnone
        refine ⟨.ok (), _, _, rename, (mount_ok hu hp hb rfl hnone).1, ?_, halike, hold⟩
        have hmounts := congrArg (fun s => (Patch.start s).mount node b) hsurface
        exact (mount_ok hu' (hprepare.trans hp) hb' hmounts hnone).1

/-! ## Until an instance is mounted -/

/-- Others have left an instance alone, or an instance that is not there has not been made. -/
def Omits (id : AppId) (s s' : Stage ε) : Prop :=
  s'.app? id = s.app? id ∧ ∀ app, s.app? id = some app → app.surface.index < s'.surfaces.size

/-- An instance from before it was made to before it is mounted. Programs may do what they like, but for
the instance itself, and may subscribe only watchers that there are; so may anybody else while the machine
is at rest. -/
inductive Waiting (id : AppId) : Machine (Stage ε) → Prop where
  | start (host : Stage ε) (absent : host.app? id = none) : Waiting id (.start host)
  | made (m m' : Machine (Stage ε)) (surface : SurfaceId) (data : ObjectId) (before : Waiting id m)
      (rest : m.stack = []) (surface_lt : surface.index < m.state.host.surfaces.size)
      (make : make surface data m = .ok id m') : Waiting id m'
  | tried (m m' : Machine (Stage ε)) (app : App) (target : Target) (e : AppError) (before : Waiting id m)
      (rest : m.stack = []) (app? : m.state.host.app? id = some app)
      (mount : App.mount id target m = .ok (.error e) m') : Waiting id m'
  | perform (m : Machine (Stage ε)) (p : Program (Stage ε)) (before : Waiting id m) (rest : m.stack = []) :
      Waiting id (m.asked p)
  | outside (m : Machine (Stage ε)) (h : Heap) (host : Stage ε) (before : Waiting id m)
      (rest : m.stack = []) (registered : h.Registered m.state.watchers.size)
      (omits : Omits id m.state.host host) :
      Waiting id { m with state := { m.state with heap := h, host := host } }
  | step (m : Machine (Stage ε)) (before : Waiting id m)
      (subscribes : ∀ d w next, m.next? = some (.edit (.subscribe d w) next) →
        w.index < m.state.watchers.size)
      (omits : ∀ change next, m.next? = some (.tell change next) →
        Omits id m.state.host (change m.state.host)) : Waiting id m.step

theorem Fit.omitted (h : Fit id m) (disciplined : m'.Disciplined) (registered : m'.Registered)
    (omits : Omits id m.state.host m'.state.host) : Fit id m' where
  disciplined := disciplined
  registered := registered
  blank app happ := by
    rw [omits.1] at happ
    exact ⟨(h.blank app happ).1, omits.2 app happ⟩

theorem Fit.step (h : Fit id m)
    (subscribes : ∀ d w next, m.next? = some (.edit (.subscribe d w) next) →
      w.index < m.state.watchers.size)
    (omits : ∀ change next, m.next? = some (.tell change next) →
      Omits id m.state.host (change m.state.host)) : Fit id m.step := by
  refine h.omitted h.disciplined.step
    (h.registered.step h.disciplined h.disciplined.paired subscribes) ?_
  by_cases htell : ∃ change next, m.next? = some (.tell change next)
  · obtain ⟨change, next, htop⟩ := htell
    obtain ⟨rest, hm⟩ := Machine.stack_of_next? htop
    rw [Machine.step_tell hm]
    exact omits change next htop
  · rw [Machine.host_step fun change next htop => htell ⟨change, next, htop⟩]
    exact ⟨rfl, fun app happ => (h.blank app happ).2⟩

theorem Waiting.fit (h : Waiting id m) : Fit id m := by
  induction h with
  | start host absent =>
    exact ⟨Machine.disciplined_start host, fun d w hw => absurd hw List.not_mem_nil,
      fun app happ => by rw [show host.app? id = some app from happ] at absent; cases absent⟩
  | made m m' surface data before rest surface_lt make ih =>
    rw [make_eq] at make
    obtain ⟨rfl, rfl⟩ := EStateM.Result.ok.inj make
    refine ⟨ih.disciplined.of_eq rfl rfl rfl rfl,
      ih.registered.of_eq (Heap.Instruments.observe m.state.heap _).subscribers, fun app happ => ?_⟩
    obtain rfl := Option.some.inj (Array.getElem?_push_size.symm.trans happ)
    exact ⟨⟨rfl, rfl, rfl⟩, surface_lt⟩
  | tried m m' app target e before rest happ mount ih =>
    obtain rfl | ⟨template, rfl⟩ := ih.mount_error_inv happ mount
    · exact ih
    · exact ih.abandoned rest happ template
  | perform m p before rest ih => exact ⟨ih.disciplined.asked rest p, ih.registered, ih.blank⟩
  | outside m h host before rest registered omits ih =>
    exact ih.omitted (ih.disciplined.of_eq rfl rfl rfl rfl) registered omits
  | step m before subscribes omits ih => exact ih.step subscribes omits

/-! ## Later on -/

/-- Whatever is on a machine treats the watchers that are still to be made alike, and no fault is left over
from the last operation. -/
structure Impartial (id : AppId) (m : Machine (Stage ε)) : Prop where
  fault : m.fault = none
  watchers : ∀ i app w, m.state.host.app? i = some app → app.watcher = some w →
    w.index < m.state.watchers.size
  getters : ∀ w, (m.getter w).Padded m.state.watchers.size (Stage.Beside m.state.watchers.size id)
    (m.getter w)

/-- Two machines to which the same has happened since they were two others: the same programs, but for
the numbers of watchers, and the same changes from outside. -/
inductive Meanwhile (n : Nat) (id : AppId) (m m' : Machine (Stage ε)) :
    Machine (Stage ε) → Machine (Stage ε) → Prop where
  | now : Meanwhile n id m m' m m'
  | perform (k k' : Machine (Stage ε)) (p p' : Program (Stage ε)) (before : Meanwhile n id m m' k k')
      (same : p.Padded n (Stage.Beside n id) p') : Meanwhile n id m m' (k.asked p) (k'.asked p')
  | outside (k k' : Machine (Stage ε)) (h h' : Heap) (host : Stage ε) (before : Meanwhile n id m m' k k')
      (same : h.Padded n h') :
      Meanwhile n id m m' { k with state := { k.state with heap := h, host := host } }
        { k' with state := { k'.state with heap := h', host := host.pad n id } }
  | step (k k' : Machine (Stage ε)) (before : Meanwhile n id m m' k k') : Meanwhile n id m m' k.step k'.step

theorem Meanwhile.padded {n : Nat} {m m' k k' : Machine (Stage ε)} (h : Meanwhile n id m m' k k')
    (first : m.Padded n (Stage.Beside n id) m') : k.Padded n (Stage.Beside n id) k' := by
  induction h with
  | now => exact first
  | perform k k' p p' before same ih =>
    exact ⟨ih.state, ih.paired, ih.paired', ih.getter, .cons (.body same) .nil, rfl⟩
  | outside k k' h h' host before same ih =>
    exact ih.withState ((ih.state.withHeap same).withHost rfl) rfl rfl
  | step k k' before ih => exact ih.step

/-- A mount that has failed leaves one more watcher, which is dead. -/
theorem Fit.padded_abandoned (h : Fit id m) (rest : m.stack = []) (happ : m.state.host.app? id = some app)
    (impartial : Impartial id m) (template : Tree) :
    m.Padded m.state.watchers.size (Stage.Beside m.state.watchers.size id)
      (App.abandoned m id app template) :=
  Machine.padded_of_push rest h.disciplined h.registered impartial.fault impartial.getters rfl rfl rfl rfl
    (Stage.setApp_eq_pad happ impartial.watchers) rfl rfl rfl

/-- A render cycle whose outcome is no tree has kept its error, and that is all. -/
theorem Rerender.failed_of_outcome {s s' : Stage ε} {first last : Tree}
    {result : Except BindError Tree} (h : Rerender s id app template first last result s')
    (happ : s.app? id = some app) (houtcome : s.outcome id s' = [none]) :
    ∃ error, s' = s.setApp id (app.failed error) := by
  cases h with
  | failed e bound => exact ⟨.bind e, rfl⟩
  | rendered b t changes surface bound tree handle handles changed writes written =>
    have happ' : ((s.setSurface app.surface surface).setApp id
        (app.rendered t ⟨0, template.count, 0, 0, 0, changes.length⟩)).app? id =
          some (app.rendered t ⟨0, template.count, 0, 0, 0, changes.length⟩) := by
      rw [Stage.app?_setApp, show (s.setSurface app.surface surface).app? id = some app from happ]
      rfl
    unfold Stage.outcome at houtcome
    rw [happ, happ'] at houtcome
    simp [App.rendered, App.tree?] at houtcome

/-- **What fails leaves everything in place.**

* A mount that fails, for whatever reason, has counted its render cycle and done nothing else to the
  surfaces, the instances and the data; every dep has the live subscribers that it had.
* The next mount cannot tell whether there was one that failed. Nor can any later mount, of whatever
  instance, where the same has happened in the meantime, as long as programs treat watchers alike.
* A render cycle of a mounted instance that fails is counted and its error kept, and that is all. -/
theorem Waiting.attempts (h : Waiting id m) (rest : m.stack = []) {e : AppError}
    (happ : m.state.host.app? id = some app) (hmount : App.mount id target m = .ok (.error e) m') :
    (m'.stack = [] ∧ (∃ cycles, m'.state.host = m.state.host.setApp id { app with cycles := cycles }) ∧
      m'.state.heap.objects = m.state.heap.objects ∧ m'.state.heap.arrays = m.state.heap.arrays ∧
      ∀ d, m'.sight.subscribers d = m.sight.subscribers d) ∧
    (∀ target, ∃ result m₂ m₂' rename, App.mount id target m = .ok result m₂ ∧
      App.mount id target m' = .ok result m₂' ∧ Alike id rename m₂ m₂' ∧
      ∀ w : WatcherId, w.index < m.state.watchers.size → rename w = w) ∧
    (Impartial id m → m' = m ∨ ∀ k k', Meanwhile m.state.watchers.size id m m' k k' → ∀ i target,
      Live.Agrees m.state.watchers.size (Stage.Beside m.state.watchers.size id) (fun a b => b = a)
        (App.mount i target k) (App.mount i target k')) ∧
    ∀ w first (k : Machine (Stage ε)), Lifetime id w first k →
      (∀ change next, k.next? = some (.tell change next) →
        k.executing = some w ∨ k.state.host.Leaves id (change k.state.host)) →
      k.state.host.outcome id k.step.state.host = [none] →
      ∃ app error, k.state.host.app? id = some app ∧
        k.step.state.host = k.state.host.setApp id (app.failed error) := by
  have hfit := h.fit
  have htried : Waiting id m' := .tried m m' app target e h rest happ hmount
  have hleft := hfit.mount_error_inv happ hmount
  have halike : m'.stack = [] ∧ Alike id (fun w => w) m m' := by
    obtain rfl | ⟨template, rfl⟩ := hleft
    · exact ⟨rest, .refl happ⟩
    · exact ⟨rfl, hfit.alike_abandoned rest happ template⟩
  obtain ⟨hrest', ha⟩ := halike
  obtain ⟨cycles, hhost, -⟩ := ha.other hfit happ
  refine ⟨⟨hrest', ⟨cycles, hhost⟩, ha.heap.objects, ha.heap.arrays, fun d => ?_⟩,
    ha.mount hfit htried.fit rest hrest', fun impartial => ?_, fun w first k hlife hleaves houtcome => ?_⟩
  · rw [ha.subscribers, List.map_id']
  · obtain rfl | ⟨template, rfl⟩ := hleft
    · exact .inl rfl
    · have hpadded := hfit.padded_abandoned rest happ impartial template
      exact .inr fun k k' hmeanwhile i target => agrees_mount (hmeanwhile.padded hpadded) i target
  · obtain ⟨app, template, last, hstanding, hturn⟩ := hlife.rerenders hleaves
    rcases hturn with ⟨-, hrerender⟩ | ⟨error, happ'⟩
    · obtain ⟨error, he⟩ := hrerender.failed_of_outcome hstanding.app? houtcome
      exact ⟨app, error, hstanding.app?, he⟩
    · unfold Stage.outcome at houtcome
      rw [hstanding.app?, happ'] at houtcome
      simp at houtcome

end App

end LiveMarkup

/-! ## A paragraph whose data lack a member -/

namespace LiveMarkup.App.Sample

/-- A paragraph that shows a member of a member. -/
def deep : Surface :=
  let paragraph := (Surface.empty.createElement "p").2.appendChild Surface.root ⟨1⟩
  (paragraph.createText "{{a.b}}").2.appendChild ⟨1⟩ ⟨2⟩

def deepTemplate : Tree := .element "p" Table.empty [.text "{{a.b}}" none] none

/-- An instance of an object whose slot holds null is to be mounted at the paragraph. -/
def awaiting : Machine (Stage Unit) :=
  { made with state := { made.state with host := ⟨#[deep], made.state.host.apps, ()⟩ } }

theorem waiting_made : Waiting ⟨0⟩ made := by
  have hblank : Waiting ⟨0⟩ blank := .outside (.start ⟨#[page], #[], ()⟩) _ _ (.start _ rfl) rfl
    (fun d w hw => absurd hw List.not_mem_nil) ⟨rfl, nofun⟩
  refine .made blank made ⟨0⟩ ⟨0⟩ hblank rfl (show 0 < 1 by decide) ?_
  have hheap : blank.state.heap.observe (.object ⟨0⟩) = heap [] := by cbv
  have hkeys : (heap []).keys ⟨0⟩ = ["a"] := by cbv
  rw [make_eq, hheap, hkeys]
  rfl

theorem waiting_awaiting : Waiting ⟨0⟩ awaiting := by
  refine .outside made made.state.heap ⟨#[deep], made.state.host.apps, ()⟩ waiting_made rfl
    waiting_made.fit.registered ⟨rfl, fun app happ => ?_⟩
  obtain rfl := Option.some.inj happ
  exact show 0 < 1 by decide

theorem impartial_awaiting : Impartial ⟨0⟩ awaiting where
  fault := rfl
  watchers i app w happ hw := by
    obtain ⟨j⟩ := i
    cases j with
    | zero =>
      obtain rfl := Option.some.inj happ
      cases hw
    | succ j => cases happ
  getters _ := .done

theorem resolve_deep : Template.resolve (heap []) ⟨0⟩ (String.ofList ['a', '.', 'b']) =
    ⟨[⟨⟨0⟩, "a"⟩], .error (.unresolved "a.b" "b")⟩ := by
  have htrim : Text.trim (String.ofList ['a', '.', 'b']) = "a.b" := by cbv
  have hempty : "a.b".isEmpty = false := by decide
  have hsegments : Template.segments "a.b" = ["a", "b"] := by cbv
  have hdescend : Template.descend (heap []) (.object ⟨0⟩) ["a", "b"] = ⟨[⟨⟨0⟩, "a"⟩], .error "b"⟩ := by cbv
  unfold Template.resolve
  simp only [htrim, hempty, hsegments, hdescend]
  rfl

theorem bind_deep : (deepTemplate.bind (heap []) ⟨0⟩).result = .error (.unresolved "a.b" "b") := by
  have hpieces : Template.Piece.ofText "{{a.b}}".toList =
      [.literal [], .placeholder ['a', '.', 'b'], .literal []] := by cbv
  simp only [deepTemplate, Tree.bind, Tree.bindList, Template.interpolate, hpieces, Template.bindPieces,
    resolve_deep]
  rfl

/-- The mount fails, since null has no members. -/
theorem mount_awaiting : mount ⟨0⟩ (.node ⟨1⟩) awaiting =
    .ok (.error (.bind (.unresolved "a.b" "b")))
      (abandoned awaiting ⟨0⟩ (fresh ⟨0⟩ ⟨0⟩ ["a"]) deepTemplate) := by
  have hprepare : prepare deep (.node ⟨1⟩) = .ok (⟨1⟩, deepTemplate) := by cbv
  have hu : Unmounted awaiting ⟨0⟩ (fresh ⟨0⟩ ⟨0⟩ ["a"]) := ⟨rfl, show 0 < 1 by decide, rfl, rfl⟩
  have hfirst : firstError deep ⟨1⟩ (deepTemplate.bind (heap []) ⟨0⟩).result =
      some (.bind (.unresolved "a.b" "b")) := by
    rw [bind_deep]
    rfl
  exact mount_abandons hu hprepare ⟨rfl, rfl, rfl⟩ hfirst

end LiveMarkup.App.Sample

namespace LiveMarkup.App

/-- The instance is not mounted where its data lack what the paragraph shows, and nothing has happened. A
second attempt comes to the same as one that was the first. -/
theorem Waiting.attempts_awaiting :
    Waiting ⟨0⟩ Sample.awaiting ∧ Impartial ⟨0⟩ Sample.awaiting ∧ ∃ m' cycles,
      mount ⟨0⟩ (.node ⟨1⟩) Sample.awaiting = .ok (.error (.bind (.unresolved "a.b" "b"))) m' ∧
      m'.state.host =
        Sample.awaiting.state.host.setApp ⟨0⟩ { fresh ⟨0⟩ ⟨0⟩ ["a"] with cycles := cycles } ∧
      (∀ d, m'.sight.subscribers d = Sample.awaiting.sight.subscribers d) ∧
      Live.Agrees 0 (Stage.Beside 0 ⟨0⟩) (fun a b => b = a) (mount ⟨0⟩ (.node ⟨1⟩) Sample.awaiting)
        (mount ⟨0⟩ (.node ⟨1⟩) m') := by
  obtain ⟨⟨-, ⟨cycles, hhost⟩, -, -, hlive⟩, -, hlater, -⟩ :=
    Sample.waiting_awaiting.attempts rfl rfl Sample.mount_awaiting
  refine ⟨Sample.waiting_awaiting, Sample.impartial_awaiting, _, cycles, Sample.mount_awaiting, hhost, hlive,
    ?_⟩
  rcases hlater Sample.impartial_awaiting with hsame | hlater
  · have hsize :
        (abandoned Sample.awaiting ⟨0⟩ (fresh ⟨0⟩ ⟨0⟩ ["a"]) Sample.deepTemplate).getters.size = 1 := rfl
    rw [hsame] at hsize
    cases hsize
  · exact hlater _ _ .now ⟨0⟩ (.node ⟨1⟩)

end LiveMarkup.App

import LiveMarkup.Proofs.App.Mount
import LiveMarkup.Proofs.CommandLine.Writes
import LiveMarkup.Proofs.Patch.Paint
import LiveMarkup.Proofs.Template.Plain

/-!
# Instances of plain data

An instance whose data are plain is at rest, and what it shows is what its template gives on these
data. A write of plain data to one of its objects leaves it like that with the data written, unless
the template fails on them.

* `Heap.Bears`: an observed object holds plain data.
* **`Bears.assign`**, `Bears.followed_assign`: a write of plain data.
* `App.Mirrors`: an instance at rest shows plain data.
* **`App.mirrors_mount`**: a mount brings this about.
* **`Mirrors.write`**: a write keeps it up, or its render cycle fails as the template fails.
* **`Mirrors.html_eq`**: the document is as if the data had been there at first.
-/

namespace LiveMarkup

open Template (BindError)

variable {w : WatcherId} {template t b : Tree} {ms ms' : List (String × Draft)}

/-! ## Plain data of an instance -/

namespace Heap

variable {h h₁ : Heap} {data o : ObjectId} {d : Draft} {v : Value} {key : String}
  {walked parents : List String}

/-- An observed object holds plain data. -/
structure Bears (h : Heap) (data : ObjectId) (ms : List (String × Draft)) : Prop where
  wellformed : h.Wellformed
  observed : h.isObserved data
  plain : (Draft.object ms).Plain
  holds : ∃ cs, h.Holds (.object data) (.object ms) cs ∧ cs.Nodup

theorem Bears.bound (hb : h.Bears data ms) (t : Tree) : (t.bind h data).result = t.bound ms := by
  obtain ⟨cs, hholds, hnodup⟩ := hb.holds
  exact hholds.bound hnodup hb.plain t

theorem Bears.exists_data (hb : h.Bears data ms) : h.Exists (.object data) :=
  lt_of_isObserved hb.observed

theorem Bears.track (hb : h.Bears data ms) (w : WatcherId) (ps : List Place) :
    (h.track w ps).Bears data ms := by
  obtain ⟨cs, hholds, hnodup⟩ := hb.holds
  refine ⟨hb.wellformed.track w ps, ?_, hb.plain, cs, hholds.congr ?_, hnodup⟩
  · rw [isObserved_track]
    exact hb.observed
  · refine (track_agrees h w ps).keepsAt (fun o _ => ?_) hholds.inside
    rw [members, object?, (track_data h w ps).1, members, object?]

/-- A watcher that tracks a binding follows what it read. -/
theorem Bears.followed_track (hb : h.Bears data ms) (hok : t.bound ms = .ok b) (w : WatcherId) :
    (h.track w (t.bind h data).reads).Followed w
      (t.bind (h.track w (t.bind h data).reads) data).reads := by
  rw [Tree.bind_track]
  exact Tree.followed_track hb.wellformed.sound w t ((hb.bound t).trans hok)

/-- **A write of plain data** at a path of objects. -/
theorem Bears.assign (hb : h.Bears data ms) (hd : d.Plain) (built : h.build d = (v, h₁))
    (hp : Assignment.parent h₁ data walked parents = .ok o) (key : String) :
    ∃ ms', d.writeAt key parents ms = some ms' ∧ (h₁.store o key v).1.Bears data ms' := by
  obtain ⟨cs, hholds, hnodup⟩ := hb.holds
  obtain ⟨⟨ms', cs', hwrite, hholds', hnodup'⟩, -⟩ :=
    hholds.assign hnodup hb.wellformed.grounded hd built hp key
  have hwellformed := hb.wellformed.build d (hd.exists h)
  have hv := (hb.wellformed.grounded.build d (hd.exists h)).2
  have hobserved := (grows_build h d).isObserved_eq data
  rw [built] at hwellformed hv hobserved
  refine ⟨ms', hwrite, hwellformed.store o key hv, isObserved_store h₁ o key v ?_,
    hb.plain.writeAt hd hwrite, cs', hholds', hnodup'⟩
  rw [hobserved]
  exact hb.observed

/-- A path that the plain data accept leads to an object of the heap. -/
theorem Bears.exists_parent (hb : h.Bears data ms) (hw : (d.writeAt key parents ms).isSome)
    (built : h.build d = (v, h₁)) (walked : List String) :
    ∃ o, Assignment.parent h₁ data walked parents = .ok o := by
  obtain ⟨cs, hholds, -⟩ := hb.holds
  have hgrows := grows_build h d
  rw [built] at hgrows
  exact (hholds.congr (hgrows.keepsAt hholds.inside)).exists_parent hw walked

/-- **A write of plain data that the watcher is not told of** leaves the binding as it is, and the
watcher goes on following it. -/
theorem Bears.followed_assign (hb : h.Bears data ms) (hok : t.bound ms = .ok b)
    (hf : h.Followed w (t.bind h data).reads) (hd : d.Plain) (built : h.build d = (v, h₁))
    (hp : Assignment.parent h₁ data walked parents = .ok o) (key : String)
    (quiet : ∀ d, (h₁.store o key v).2 = some d → w ∉ h₁.subscribers d) :
    t.bind (h₁.store o key v).1 data = t.bind h data ∧
      (h₁.store o key v).1.Followed w (t.bind (h₁.store o key v).1 data).reads := by
  obtain ⟨cs, hholds, hnodup⟩ := hb.holds
  obtain ⟨-, hnew⟩ := hholds.assign hnodup hb.wellformed.grounded hd built hp key
  have hgrows := grows_build h d
  have hwellformed := hb.wellformed.build d (hd.exists h)
  rw [built] at hgrows hwellformed
  have hobserved : h₁.isObserved data := by
    rw [hgrows.isObserved_eq]
    exact hb.observed
  have hbuilt : t.bind h₁ data = t.bind h data := Tree.bind_of_agrees hb.wellformed.grounded
    hb.exists_data hgrows.agrees t ((hb.bound t).trans hok)
  have hf₁ : h₁.Followed w (t.bind h₁ data).reads := by
    rw [hbuilt]
    refine hf.of_extends hgrows.toExtends fun p _ hp => ?_
    rwa [hgrows.isObserved_eq] at hp
  have hbind : t.bind (h₁.store o key v).1 data = t.bind h data :=
    (hf₁.bind_store hwellformed (lt_of_isObserved hobserved)
      (observed_of_parent hwellformed.closed hobserved hp) quiet).trans hbuilt
  refine ⟨hbind, ?_⟩
  rw [hbind]
  refine hf.of_extends (hgrows.toExtends.trans (Extends.store h₁ o key v)) fun p hp hobs => ?_
  exact hnew p.object (lt_of_valueAt? (Tree.valueAt?_of_bind t ((hb.bound t).trans hok) hp)) hobs

end Heap

namespace App

variable {ε : Type} {id : AppId} {app : App} {m m' : Machine (Stage ε)} {s : Surface} {node : NodeId}

/-- An instance at rest, painted over a node of a surface, shows what its template gives on plain data,
which it holds; its watcher follows what was read. -/
structure Mirrors (s : Surface) (node : NodeId) (template : Tree) (m : Machine (Stage ε)) (id : AppId)
    (w : WatcherId) (app : App) (t : Tree) (ms : List (String × Draft)) : Prop where
  rest : m.stack = []
  only : m.Only w (fun h => (template.bind h app.data).reads)
    fun h stage => stage.cycle id (template.bind h app.data).result
  displayed : Displayed m.state.host id app template t
  settled : app.lastError = none
  keys : app.keys = ms.map Prod.fst
  bears : m.state.heap.Bears app.data ms
  bound : template.bound ms = .ok t.detached
  followed : m.state.heap.Followed w (template.bind m.state.heap app.data).reads
  painted : Patch.Painted s node t (m.state.host.surface app.surface)

/-- **The document is as if the data had been there at first.** -/
theorem Mirrors.html_eq (h : Mirrors s node template m id w app t ms) (hb : template.bound ms = .ok b) :
    (m.state.host.surface app.surface).html = ((Patch.start s).mount node b).patch.surface.html := by
  obtain ⟨el, hshows⟩ := h.displayed.shows_exact
  obtain rfl : t.detached = b := Except.ok.inj (h.bound.symm.trans hb)
  exact (h.painted.twins hshows (Tree.detached_bind template hb).symm).html_eq

/-- **A mount over a node that has a parent** brings the instance to show its data, if the template
can be bound; otherwise it fails as the template does. -/
theorem mirrors_mount {target : Target} (hu : Unmounted m id app)
    (hprepare : prepare (m.state.host.surface app.surface) target = .ok (node, template))
    (hlinked : (m.state.host.surface app.surface).Linked) {q : NodeId}
    (hq : (m.state.host.surface app.surface).parent? node = some q)
    (hb : m.state.heap.Bears app.data ms) (hkeys : app.keys = ms.map Prod.fst)
    (silent : ∀ d, m.state.heap.subscribers d = []) :
    (∀ e, template.bound ms = .error e → ∃ m', mount id target m = .ok (.error (.bind e)) m') ∧
      ∀ b, template.bound ms = .ok b → ∃ m' w app' t, mount id target m = .ok (.ok ()) m' ∧
        app'.surface = app.surface ∧
        Mirrors (m.state.host.surface app.surface) node template m' id w app' t ms := by
  have hbound := hb.bound template
  refine ⟨fun e he => mount_error hu hprepare (hbound.trans he), fun b hok => ?_⟩
  have hbind := hbound.trans hok
  obtain ⟨hnone, -⟩ :=
    Patch.placed_mount (Patch.start (m.state.host.surface app.surface)) node b hlinked hq
  have hpainted := Patch.Painted.first hlinked hq b
  generalize hr : (Patch.start (m.state.host.surface app.surface)).mount node b = r at hnone hpainted
  obtain ⟨hmount, -, -, hsurface⟩ := mount_ok hu hprepare hbind hr hnone
  obtain ⟨hdisplayed, hdetached⟩ := displayed_settled hu hprepare hlinked hq hbind hr
  let w : WatcherId := ⟨m.state.watchers.size⟩
  have hsole : m.state.heap.Sole w := fun d => .inl (silent d)
  let app' : App := { app.firstRender node r with template := some template, watcher := some w }
  refine ⟨_, w, app', r.tree, hmount, rfl, rfl,
    ⟨⟨1, watcher?_settled m id app node template _⟩, getter_settled hu _, hsole.track _⟩, hdisplayed,
    rfl, hkeys, hb.track w _, ?_, hb.followed_track hok w, ?_⟩
  · rw [hok, hdetached]
  · exact hsurface ▸ hpainted

/-! ## A write -/

/-- **A write of plain data** leaves the instance showing the data written, or its render cycle fails as
the template fails on them. -/
theorem Mirrors.write (h : Mirrors s node template m id w app t ms) {h₁ : Heap} {d : Draft} {v : Value}
    {o : ObjectId} {key : String} {walked parents : List String} (hd : d.Plain)
    (built : m.state.heap.build d = (v, h₁))
    (hp : Assignment.parent h₁ app.data walked parents = .ok o)
    (hw : d.writeAt key parents ms = some ms') (hkeys : ms'.map Prod.fst = ms.map Prod.fst) :
    ∃ m', Live.write o key v (m.withHeap h₁) = .ok () m' ∧
      ((∃ app' t', app'.surface = app.surface ∧ Mirrors s node template m' id w app' t' ms') ∨
        ∃ e, template.bound ms' = .error e ∧
          m'.state.host.app? id = some (app.failed (.bind e))) := by
  obtain ⟨ms'', hw', hbears⟩ := h.bears.assign hd built hp key
  obtain rfl : ms'' = ms' := Option.some.inj (hw'.symm.trans hw)
  have honly : (m.withHeap h₁).Only w (fun h => (template.bind h app.data).reads)
      fun h stage => stage.cycle id (template.bind h app.data).result := by
    refine ⟨h.only.idle, h.only.getter, h.only.sole.of_eq fun d' => ?_⟩
    have hsubscribers := (Heap.grows_build m.state.heap d).subscribers_eq d'
    rwa [built] at hsubscribers
  obtain ⟨m', hwrite, honly', hrest, hcases⟩ := Live.write_readTell honly o key v
  refine ⟨m', hwrite, ?_⟩
  rcases hcases with ⟨-, hheap, hhost⟩ | ⟨hquiet, hheap, hhost⟩
  · -- The watcher has bound the template anew.
    have hresult := hbears.bound template
    cases hbound : template.bound ms'' with
    | error e =>
      obtain ⟨hd', -⟩ := h.displayed.cycle_error e
      refine .inr ⟨e, rfl, ?_⟩
      rw [hhost]
      show (Stage.cycle m.state.host id (template.bind (h₁.store o key v).1 app.data).result).app? id = _
      rw [hresult, hbound]
      exact hd'.app?
    | ok b =>
      have hskeleton : b.skeleton = template.skeleton := Tree.skeleton_bind template hbound
      obtain ⟨t', report, hdetached, hhandles, hd', hretexted, -⟩ := h.displayed.cycle_ok hskeleton
      have hhost' : m'.state.host = m.state.host.cycle id (.ok b) := by
        rw [hhost]
        show Stage.cycle m.state.host id (template.bind (h₁.store o key v).1 app.data).result = _
        rw [hresult, hbound]
      have hheap' : m'.state.heap = (h₁.store o key v).1.track w
          (template.bind (h₁.store o key v).1 app.data).reads := hheap
      refine .inl ⟨app.rendered t' report, t', rfl, hrest, honly', hhost' ▸ hd', rfl,
        h.keys.trans hkeys.symm, ?_, ?_, ?_, ?_⟩
      · exact hheap' ▸ hbears.track w _
      · rw [hbound, hdetached, Tree.detached_bind template hbound]
      · exact hheap' ▸ hbears.followed_track hbound w
      · refine h.painted.retext (hhost' ▸ hretexted) hhandles ?_
        rw [Tree.skeleton_eq_of_detached_eq hdetached, hskeleton, h.displayed.skeleton]
  · obtain ⟨hbind, hfollowed⟩ :=
      h.bears.followed_assign h.bound h.followed hd built hp key hquiet
    have hheap' : m'.state.heap = (h₁.store o key v).1 := hheap
    have hhost' : m'.state.host = m.state.host := hhost
    refine .inl ⟨app, t, rfl, hrest, honly', hhost' ▸ h.displayed, h.settled,
      h.keys.trans hkeys.symm, hheap' ▸ hbears, ?_, hheap' ▸ hfollowed, hhost' ▸ h.painted⟩
    rw [← hbears.bound template, hbind, h.bears.bound template]
    exact h.bound

end App

end LiveMarkup

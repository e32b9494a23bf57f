import LiveMarkup.Proofs.CommandLine.Outcome
import LiveMarkup.Proofs.CommandLine.Paths
import LiveMarkup.Proofs.Reactive.Alone

/-!
# Assignments are read back

Where nobody watches the data of an instance but itself, and none of its objects holds itself, an assignment
and a placeholder of the same path mean the same slot.

* `App.Solitary`: an instance whose data nobody watches but itself.
* `App.Solitary.mounted`: an instance that was mounted where nobody watched its data.
* `App.Solitary.performs`: an assignment that is accepted comes to its end.
* **`App.Solitary.assign_resolves`**: the value of an assignment is what its path resolves to.
-/

namespace LiveMarkup

open Template (segments resolve)
open Live (bind_ok)

variable {ε : Type} {id : AppId} {app app' : App} {m m' : Machine (Stage ε)} {a : Assignment}
  {key : String} {v : Value} {p : Place} {arg : String}

/-- Render cycles leave an instance where it is. -/
theorem Stage.isSome_app?_cycle {s : Stage ε} (h : (s.app? id).isSome)
    (bound : Except Template.BindError Tree) : ((s.cycle id bound).app? id).isSome := by
  obtain ⟨app, happ⟩ := Option.isSome_iff_exists.1 h
  rw [cycle_eq happ, app?_setApp, show (s.setSurface app.surface _).app? id = some app from happ]
  rfl

namespace App

/-! ## Writes that come to their end -/

/-- A write to a property, whatever it reports. -/
theorem set_of_write (happ : m.state.host.app? id = some app) (hkey : key ∈ app.keys)
    (hwrite : Live.write app.data key v m = .ok () m') (happ' : m'.state.host.app? id = some app') :
    ∃ r k, App.set id key v m = .ok r k ∧ k.state.heap = m'.state.heap := by
  rw [App.set, bind_ok (look_eq happ), checkKey, if_pos hkey]
  simp only
  rw [bind_ok hwrite, bind_ok (look_eq happ')]
  split
  · exact ⟨.ok (), m', rfl, rfl⟩
  · rw [bind_ok (takeError_eq happ')]
    cases app'.lastError with
    | none => exact ⟨.ok (), _, rfl, rfl⟩
    | some e => exact ⟨.error e, _, rfl, rfl⟩

/-- A write further down. -/
theorem writeBelow_of_write {o : ObjectId} (hwrite : Live.write o key v m = .ok () m')
    (happ' : m'.state.host.app? id = some app') :
    ∃ r k, Assignment.writeBelow id o key v m = .ok r k ∧ (r = .ok () ∨ ∃ e, r = .error (.app e)) ∧
      k.state.heap = m'.state.heap := by
  rw [Assignment.writeBelow, bind_ok hwrite, bind_ok (takeError_eq happ')]
  cases app'.lastError with
  | none => exact ⟨.ok (), _, rfl, .inl rfl, rfl⟩
  | some e => exact ⟨.error (.app e), _, rfl, .inr ⟨e, rfl⟩, rfl⟩

/-! ## Operations on instances -/

/-- To make an instance is an operation from outside. -/
theorem reached_of_make {surface : SurfaceId} {data : ObjectId} (h : m.Reached)
    (hmake : make surface data m = .ok id m') : m'.Reached := by
  rw [make_eq] at hmake
  obtain ⟨-, rfl⟩ := EStateM.Result.ok.inj hmake
  let keys := (m.state.heap.observe (.object data)).keys data
  exact (h.edited (.observe (.object data))).told fun s =>
    { s with apps := s.apps.push (fresh surface data keys) }

/-- So is each part of a mount. -/
theorem reached_settled (h : m.Reached) (node : NodeId) (template : Tree) (first : App) :
    (settled m id app node template first).Reached := by
  let ready : Machine (Stage ε) :=
    { m with state := { m.state with host := aimed m.state.host id app node } }
  have hready : ready.Reached := h.told fun s => aimed s id app node
  have hwatch : Live.watch (getter id app.data template) ready =
      .ok ⟨m.state.watchers.size⟩ (started m id app node template) := Live.watch_readTell h.paired
  exact (hready.watched hwatch).told fun s =>
    s.setApp id { first with template := some template, watcher := some ⟨m.state.watchers.size⟩ }

/-! ## Instances on their own -/

/-- An instance between operations. Of the watchers subscribed to any slot of its data none is kept but its
own, which was made of these data and of some template. The data are there, and hold nothing that is not. -/
structure Solitary (id : AppId) (app : App) (m : Machine (Stage ε)) : Prop where
  reached : m.Reached
  app? : m.state.host.app? id = some app
  data : m.state.heap.Exists (.object app.data)
  grounded : m.state.heap.Grounded
  own : ∀ o key d, m.state.heap.ReachesObject app.data o → m.state.heap.dep? o key = some d →
    ∀ w ∈ m.state.heap.subscribers d, m.state.isKept w →
      app.watcher = some w ∧ ∃ template, m.getter w = getter id app.data template

namespace Solitary

/-- **An instance that was mounted where nobody watched its data** is on its own. -/
theorem mounted {target : Target} (h : m.Reached) (hu : Unmounted m id app)
    (data : m.state.heap.Exists (.object app.data)) (grounded : m.state.heap.Grounded)
    (nobody : ∀ o key d, m.state.heap.ReachesObject app.data o → m.state.heap.dep? o key = some d →
      ∀ w ∈ m.state.heap.subscribers d, m.state.isKept w = false)
    (hmount : mount id target m = .ok (.ok ()) m') :
    ∃ app', app'.data = app.data ∧ app'.keys = app.keys ∧ Solitary id app' m' := by
  obtain ⟨node, template, b, hprepare, hb, hnone⟩ := mount_inv hu hmount
  obtain ⟨hok, happ, -⟩ := mount_ok hu hprepare hb rfl hnone
  obtain rfl : settled m id app node template _ = m' := by
    rw [hok] at hmount
    exact (EStateM.Result.ok.inj hmount).2
  let new : WatcherId := ⟨m.state.watchers.size⟩
  let first := app.firstRender node ((Patch.start (m.state.host.surface app.surface)).mount node b)
  let last : App := { first with template := some template, watcher := some new }
  obtain ⟨hobjects, harrays⟩ :=
    Heap.track_data m.state.heap new (template.bind m.state.heap app.data).reads
  have hagrees := Heap.Agrees.of_eq hobjects harrays
  refine ⟨last, rfl, rfl, reached_settled h node template first, happ, hagrees.exists_mono data,
    grounded.of_agrees hagrees (congrArg Array.size hobjects) (congrArg Array.size harrays),
    fun o key d ho hd w hw hkept => ?_⟩
  suffices hnew : w = new from hnew ▸ ⟨rfl, template, getter_settled hu first⟩
  -- All others that are subscribed were there before, and none of those is kept.
  by_contra hne
  have hlisted : w ∈ m.state.heap.subscribers d := by
    rw [show (settled m id app node template first).state.heap.subscribers d = _ from
      Heap.subscribers_track_eq m.state.heap new (template.bind m.state.heap app.data).reads d] at hw
    refine (List.mem_append.1 (mem_enlist hw)).resolve_right fun hmem => hne ?_
    split at hmem
    · exact List.mem_singleton.1 hmem
    · cases hmem
  have hdep : m.state.heap.dep? o key = some d := by
    rw [← hd]
    unfold Heap.dep? Heap.slot? Heap.object?
    rw [← hobjects]
    rfl
  have hreached := (hagrees.reachesObject grounded data ho).1
  have hold : m.state.isKept w := by
    rw [State.isKept, State.watcher?, show (settled m id app node template first).state.watchers =
      m.state.watchers.push ⟨1, false, false, true⟩ from rfl, Array.getElem?_push,
      if_neg fun hindex => hne (congrArg WatcherId.mk hindex)] at hkept
    exact hkept
  rw [nobody o key d hreached hdep w hlisted] at hold
  cases hold

/-- While a value is laid out nobody comes to watch. -/
theorem alone (h : Solitary id app m) (a : Assignment) {o : ObjectId} {d : DepId}
    (ho : m.state.heap.ReachesObject app.data o) (hd : (a.laidOut m).state.heap.dep? o key = some d) :
    (a.laidOut m).Alone (fun s => (s.app? id).isSome) d := by
  have hgrows := Heap.grows_build m.state.heap a.value
  have hdep : m.state.heap.dep? o key = some d := (hgrows.dep?_eq o key).symm.trans hd
  have hown := h.own o key d ho hdep
  have hsame : (a.laidOut m).state.heap.subscribers d = m.state.heap.subscribers d :=
    hgrows.subscribers_eq d
  refine ⟨h.reached.idle, ?_, ?_, ?_⟩ <;> rw [hsame]
  · exact h.reached.nodup_subscribers d
  · exact fun w hw x hx hkept hkept' =>
      Option.some.inj ((hown w hw hkept).1.symm.trans (hown x hx hkept').1)
  · intro w hw hkept
    obtain ⟨-, template, hgetter⟩ := hown w hw hkept
    exact ⟨_, _, hgetter, fun _ _ hs => Stage.isSome_app?_cycle hs _⟩

/-- **An assignment that is accepted comes to its end**, and leaves the data as its write does. -/
theorem performs (h : Solitary id app m)
    (hplace : a.place (a.laidOut m).state.heap app.data app.keys = .ok p) :
    ∃ r m', a.perform id m = .ok r m' ∧ (r = .ok () ∨ ∃ e, r = .error (.app e)) ∧
      let stored := ((a.laidOut m).state.heap.store p.object p.key (a.assigned m)).1
      m'.state.heap.objects = stored.objects ∧ m'.state.heap.arrays = stored.arrays := by
  have happ : (a.laidOut m).state.host.app? id = some app := h.app?
  have hreached : m.state.heap.ReachesObject app.data p.object := by
    have hparent := (Assignment.parent_of_place hplace).1
    exact ((Heap.grows_build m.state.heap a.value).agrees.reachesObject h.grounded h.data
      (Assignment.reaches_of_parent hparent)).1
  have halone : ∀ d, (a.laidOut m).state.heap.dep? p.object p.key = some d →
      (a.laidOut m).Alone (fun s => (s.app? id).isSome) d := fun d hd => h.alone a hreached hd
  obtain ⟨m', hwrite, -, hobjects, harrays, hsome⟩ :=
    Machine.write_of_alone halone (Option.isSome_iff_exists.2 ⟨app, happ⟩) (a.assigned m)
  obtain ⟨app', happ'⟩ := Option.isSome_iff_exists.1 hsome
  by_cases hproperty : a.isProperty
  · rw [Assignment.perform_property hproperty]
    rw [Assignment.place_property hproperty] at hplace
    split at hplace
    · next hkey =>
      obtain rfl := Except.ok.inj hplace
      obtain ⟨r, k, hset, hheap⟩ := set_of_write happ hkey hwrite happ'
      rw [bind_ok hset]
      refine ⟨r.mapError AssignError.app, k, rfl, ?_, hheap ▸ hobjects, hheap ▸ harrays⟩
      cases r with
      | ok _ => exact .inl rfl
      | error e => exact .inr ⟨e, rfl⟩
    · cases hplace
  · obtain ⟨r, k, hbelow, hr, hheap⟩ := writeBelow_of_write hwrite happ'
    rw [Assignment.perform_below hproperty h.app?, hplace]
    exact ⟨r, k, hbelow, hr, hheap ▸ hobjects, hheap ▸ harrays⟩

/-- **What is written is what is read.** Let an assignment that was read from an argument, with its numerals
rounded in whatever way, be made to an instance whose data nobody else watches, and hold no object that is
reached from itself.

* If its path is refused, it fails for this reason, and no slot changes.
* Otherwise it comes to its end, without an error or with that of a render cycle. Its path then resolves to a
  value that is identical to the assigned one, and the last slot that is read for it is the one that was
  written. All other slots have their values, and none has gone or has changed places. -/
theorem assign_resolves [Json.Rounding] (h : Solitary id app m) (acyclic : m.state.heap.AcyclicObjects app.data)
    (hparse : Assignment.parse arg = .ok a) :
    (∀ e, a.place (a.laidOut m).state.heap app.data app.keys = .error e →
      ∃ m', a.perform id m = .ok (.error e) m' ∧ m.state.heap.KeepsBut m'.state.heap []) ∧
    ∀ p, a.place (a.laidOut m).state.heap app.data app.keys = .ok p →
      ∃ r m' v, a.perform id m = .ok r m' ∧ (r = .ok () ∨ ∃ e, r = .error (.app e)) ∧
        (resolve m'.state.heap app.data a.path).result = .ok v ∧ v.same (a.assigned m) ∧
        (resolve m'.state.heap app.data a.path).reads.getLast? = some p ∧
        m'.state.heap.valueAt? p = some v ∧ m.state.heap.KeepsBut m'.state.heap [p] := by
  have hgrows : m.state.heap.Grows (a.laidOut m).state.heap := Heap.grows_build m.state.heap a.value
  refine ⟨fun e he => ⟨_, Assignment.perform_refused h.app? he, hgrows.keepsBut⟩, fun p hp => ?_⟩
  obtain ⟨r, m', hperform, hr, hobjects, harrays⟩ := h.performs hp
  obtain ⟨hparent, hkey⟩ := Assignment.parent_of_place hp
  obtain ⟨-, hold⟩ := hgrows.agrees.reachesObject h.grounded h.data (Assignment.reaches_of_parent hparent)
  have hself : (a.assigned m).same (a.assigned m) := Assignment.same_self hparse m.state.heap
  obtain ⟨v, hsame, hstored⟩ := Heap.put_store (hgrows.agrees.exists_mono hold) hself
  have hput : (a.laidOut m).state.heap.Put m'.state.heap p.object p.key v :=
    hstored.of_eq hobjects harrays
  -- The write has not changed the path to its own object.
  have hstill := Assignment.parent_put (hgrows.agrees.acyclicObjects h.grounded h.data acyclic) hparent hput
  obtain ⟨htrim, hne⟩ := Assignment.readable_of_parse hparse
  obtain ⟨hresult, hlast⟩ := Template.resolve_of_parent htrim hne hstill (hkey ▸ hput.peek)
  refine ⟨r, m', v, hperform, hr, hresult, hsame, ?_, hput.peek, hgrows.keepsBut.trans hput.keepsBut⟩
  rw [hlast, show (segments a.path).getLastD "" = p.key from hkey.symm]

end Solitary

/-! ## An assignment beside what is shown -/

namespace Sample

theorem peek_nestedHeap {inner : Value} {subscribers : List WatcherId} {o : ObjectId}
    (h : (nestedHeap inner subscribers).peek o key = some v) :
    v = .bool true ∨ o = ⟨1⟩ ∧ v = inner ∨ o = ⟨2⟩ ∧ v = .object ⟨1⟩ := by
  obtain ⟨s, hs, rfl⟩ := Option.map_eq_some_iff.1 h
  obtain ⟨i⟩ := o
  have hfind : ∀ {k : String} {s' : Slot}, (Table.empty.insert k s').find? key = some s → s = s' := by
    intro k s' hk
    rw [Table.find?_insert] at hk
    split at hk
    · exact (Option.some.inj hk).symm
    · cases hk
  match i with
  | 0 => exact .inl (congrArg Slot.value (hfind hs))
  | 1 => exact .inr (.inl ⟨rfl, congrArg Slot.value (hfind hs)⟩)
  | 2 => exact .inr (.inr ⟨rfl, congrArg Slot.value (hfind hs)⟩)
  | i + 3 => cases hs

theorem reached_nestedMade : nestedMade.Reached := by
  have hblank : nestedBlank.Reached := (Machine.Reached.start _).built _
  exact reached_of_make hblank make_nestedBlank

/-- Nobody but the instance of the paragraph watches its data. -/
theorem solitary_nestedMounted :
    ∃ app, app.data = ⟨2⟩ ∧ app.keys = ["a"] ∧ Solitary ⟨0⟩ app nestedMounted := by
  have hgrounded : (nestedHeap (.object ⟨0⟩) []).Grounded := by
    refine ⟨fun {o key v} h => ?_, fun {a v} h => ?_⟩
    · rcases peek_nestedHeap h with rfl | ⟨-, rfl⟩ | ⟨-, rfl⟩
      · trivial
      · exact show 0 < 3 by decide
      · exact show 1 < 3 by decide
    · simp [Heap.items, nestedHeap] at h
  exact Solitary.mounted reached_nestedMade unmounted_nestedMade (show 2 < 3 by decide) hgrounded
    (fun _ _ _ _ _ _ _ => rfl) mount_nestedMade.1

/-- Each of its objects holds an older one. -/
theorem acyclicObjects_nestedMounted : nestedMounted.state.heap.AcyclicObjects ⟨2⟩ := by
  rw [heap_nestedMounted]
  refine Heap.acyclicObjects_of_lt (fun p key c h => ?_) ⟨2⟩
  rcases peek_nestedHeap h with hc | ⟨rfl, hc⟩ | ⟨rfl, hc⟩
  · cases hc
  · cases hc
    exact show 0 < 1 by decide
  · cases hc
    exact show 1 < 2 by decide

end Sample

/-- The new slot of the object in the middle is read by the path by which it was written. -/
theorem Solitary.assign_resolves_beside : ∃ app r m v,
    Solitary ⟨0⟩ app Sample.nestedMounted ∧ Sample.nestedMounted.state.heap.AcyclicObjects app.data ∧
      Assignment.parse "a.z=true" = .ok Sample.beside ∧
      Sample.beside.perform ⟨0⟩ Sample.nestedMounted = .ok r m ∧
      (resolve m.state.heap ⟨2⟩ "a.z").result = .ok v ∧ v.same (.bool true) := by
  obtain ⟨app, hdata, hkeys, hsolitary⟩ := Sample.solitary_nestedMounted
  have hacyclic : Sample.nestedMounted.state.heap.AcyclicObjects app.data :=
    hdata ▸ Sample.acyclicObjects_nestedMounted
  have hparse : Assignment.parse "a.z=true" = .ok Sample.beside := by cbv
  have hplace := Sample.heap_nestedMounted ▸ Sample.place_beside (.object ⟨0⟩) [⟨0⟩]
  rw [← hdata, ← hkeys] at hplace
  obtain ⟨r, m, v, hperform, -, hresult, hsame, -⟩ :=
    (hsolitary.assign_resolves hacyclic hparse).2 _ hplace
  exact ⟨app, r, m, v, hsolitary, hacyclic, hparse, hperform, hdata ▸ hresult, hsame⟩

end App

end LiveMarkup

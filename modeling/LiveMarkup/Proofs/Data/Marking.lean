import Mathlib.Data.List.Perm.Subperm
import Mathlib.Tactic.Choose
import LiveMarkup.Proofs.Data.Wellformed

/-!
# The walk of an observation

An observation marks exactly the objects that it gets to through slots. One that marks an object and then
goes on from its slots comes to an end, for it nests no deeper than there are objects to be marked. While it
is under way the objects that it has marked, but not left yet, may have slots without a dep, and may hold
objects that are not marked; all other marked ones are done with. It leaves the heap as `observe` does, but
for the names of the deps that it makes.

* `Heap.Awaits`: a heap in which one value is to be observed, and nothing else.
* **`Awaits.isObserved_observe`**: what is observed after an observation.
* `Heap.Done`: a slot that nothing is left to be done for.
* `Heap.Walked`: what a walk leaves, if some objects are still under way.
* **`run_observeWalk`**: the walk ends, and leaves so much.
* `Heap.Renames`: the same heap, but for the names of deps.
* **`observeWalk_renames`**: the walk and `observe` leave the same, but for the names of new deps.
* **`observeWalk_store`**: so it is when a write observes what it writes.
-/

namespace LiveMarkup.Heap

variable {h h' k : Heap} {o x : ObjectId} {key : String} {v : Value} {but : ObjectId → Prop} {depth : Nat}

/-! ## Objects that are left to be marked -/

theorem nodup_unobserved (h : Heap) : h.unobserved.Nodup := by
  have hids : h.objectIds.Nodup :=
    List.pairwise_map.2 (List.nodup_range.imp fun hne he => hne (ObjectId.mk.inj he))
  exact hids.sublist List.filter_sublist

theorem mem_unobserved_iff : x ∈ h.unobserved ↔ x.index < h.objects.size ∧ ¬ h.isObserved x := by
  refine ⟨fun hx => ?_, fun hx => mem_unobserved hx.1 hx.2⟩
  obtain ⟨hid, hx⟩ := List.mem_filter.1 hx
  obtain ⟨i, hi, rfl⟩ := List.mem_map.1 hid
  exact ⟨List.mem_range.1 hi, by simpa using hx⟩

theorem Instruments.unobserved_subset (a : h.Instruments h') : h'.unobserved ⊆ h.unobserved := fun x hx => by
  obtain ⟨hlt, hx⟩ := mem_unobserved_iff.1 hx
  exact mem_unobserved_iff.2 ⟨a.size ▸ hlt, fun hobs => hx (a.isObserved x hobs)⟩

theorem Instruments.length_unobserved_le (a : h.Instruments h') :
    h'.unobserved.length ≤ h.unobserved.length :=
  (h'.nodup_unobserved.subperm a.unobserved_subset).length_le

/-- Where an object is marked, there is one less to be marked. -/
theorem Instruments.length_unobserved_lt (a : h.Instruments h') (ho : h.Exists (.object o))
    (hold : ¬ h.isObserved o) (hnew : h'.isObserved o) : h'.unobserved.length < h.unobserved.length := by
  have hnodup : (o :: h'.unobserved).Nodup :=
    List.nodup_cons.2 ⟨fun hmem => (mem_unobserved_iff.1 hmem).2 hnew, h'.nodup_unobserved⟩
  exact (hnodup.subperm (List.cons_subset.2 ⟨mem_unobserved_iff.2 ⟨ho, hold⟩, a.unobserved_subset⟩)).length_le

theorem Instruments.isSome_dep? (a : h.Instruments h') (hd : (h.dep? o key).isSome) : (h'.dep? o key).isSome := by
  obtain ⟨d, hd⟩ := Option.isSome_iff_exists.1 hd
  exact Option.isSome_iff_exists.2 ⟨d, a.dep? o key d hd⟩

theorem Instruments.grounded (a : h.Instruments h') (hg : h.Grounded) : h'.Grounded :=
  hg.of_agrees a.agrees a.size (by rw [a.arrays])

theorem Instruments.reachesObject {c : ObjectId} (a : h.Instruments h') (hr : h'.ReachesObject o c) :
    h.ReachesObject o c := by
  induction hr with
  | refl => exact .refl
  | slot p key c before here ih => exact .slot p key c ih ((a.peek p key).symm.trans here)

/-! ## What an observation marks -/

theorem nodup_gather (h : Heap) {free : List ObjectId} (hfree : free.Nodup) (pending : List ObjectId) :
    (h.gather free pending).Nodup ∧ h.gather free pending ⊆ free := by
  fun_induction gather h free pending with
  | case1 => exact ⟨List.nodup_nil, List.nil_subset _⟩
  | case2 free o rest ho ih =>
    obtain ⟨hnodup, hsub⟩ := ih (hfree.erase o)
    refine ⟨List.nodup_cons.2 ⟨fun hmem => ?_, hnodup⟩, List.cons_subset.2 ⟨ho, fun x hx => ?_⟩⟩
    · exact (hfree.mem_erase_iff.1 (hsub hmem)).1 rfl
    · exact List.mem_of_mem_erase (hsub hx)
  | case3 free o rest ho ih => exact ih hfree

/-- A heap in which one value is to be observed, and nothing else: the slots of observed objects have deps, and
the objects in them are observed, unless it is that value that stands there. -/
structure Awaits (h : Heap) (v : Value) : Prop where
  sound : h.Sound
  tidy : h.Tidy
  grounded : h.Grounded
  exist : h.Exists v
  closed : ∀ {o key c}, h.isObserved o → h.peek o key = some (.object c) → h.isObserved c ∨ v = .object c

theorem Wellformed.awaits (hh : h.Wellformed) (ht : h.Tidy) (hv : h.Exists v) : h.Awaits v :=
  ⟨hh.sound, ht, hh.grounded, hv, fun ho hp => .inl (hh.closed ho hp)⟩

/-- An unobserved object that an observation can get to is gathered by it. -/
theorem Awaits.mem_gather (ha : h.Awaits (.object o)) (hr : h.ReachesObject o x) (hx : ¬ h.isObserved x) :
    x ∈ h.gather h.unobserved [o] := by
  induction hr with
  | refl => exact Heap.mem_gather h _ _ (mem_unobserved ha.exist hx) (.inl List.mem_cons_self)
  | slot p key c before here ih =>
    have hc : c ∈ h.unobserved := mem_unobserved (ha.grounded.slot here) hx
    by_cases hp : h.isObserved p
    · obtain rfl := Value.object.inj ((ha.closed hp here).resolve_left hx)
      exact Heap.mem_gather h _ _ hc (.inl List.mem_cons_self)
    · exact Heap.mem_gather h _ _ hc (.inr ⟨p, ih hp, mem_childObjects here⟩)

/-- **An observation marks exactly the objects that it gets to through slots.** -/
theorem Awaits.isObserved_observe (ha : h.Awaits (.object o)) (x : ObjectId) :
    (h.observeObject o).isObserved x ↔ h.isObserved x ∨ h.ReachesObject o x := by
  rw [observeObject, isObserved_foldl_mark]
  constructor
  · rintro (hx | ⟨hx, -⟩)
    · exact .inl hx
    · obtain ⟨p, hp, hr⟩ := reachesObject_of_mem_gather hx
      exact .inr (List.mem_singleton.1 hp ▸ hr)
  · rintro (hx | hr)
    · exact .inl hx
    · by_cases hx : h.isObserved x
      · exact .inl hx
      · exact .inr ⟨ha.mem_gather hr hx, hr.reaches.exists ha.grounded ha.exist⟩

/-! ## What a walk leaves -/

/-- Nothing is left to be done for a slot: it has a dep, and an object in it is observed. -/
def Done (h : Heap) (o : ObjectId) (key : String) : Prop :=
  (h.dep? o key).isSome ∧ ∀ c, h.peek o key = some (.object c) → h.isObserved c

theorem Done.mono (hd : h.Done o key) (a : h.Instruments h') : h'.Done o key := by
  refine ⟨a.isSome_dep? hd.1, fun c hc => ?_⟩
  exact a.isObserved c (hd.2 c ((a.peek o key).symm.trans hc))

theorem Sound.isSome_dep? (hs : h.Sound) (ho : h.isObserved o) (hp : (h.peek o key).isSome) :
    (h.dep? o key).isSome := by
  rw [peek, Option.isSome_map] at hp
  obtain ⟨d, hd, -⟩ := hs.exists_dep ho hp
  exact Option.isSome_iff_exists.2 ⟨d, hd⟩

/-- Deps are tidy, and the slots of observed objects are done with, those of some objects aside. -/
structure DoneBut (h : Heap) (but : ObjectId → Prop) : Prop where
  tidy : h.Tidy
  done : ∀ o key, h.isObserved o → ¬ but o → (h.peek o key).isSome → h.Done o key

/-- What the walk from a value makes of a heap while the slots of some objects are still to be done. -/
structure Walked (h : Heap) (v : Value) (but : ObjectId → Prop) (h' : Heap) : Prop where
  instruments : h.Instruments h'
  done : h'.DoneBut but
  observed : ∀ o, v = .object o → h'.isObserved o
  reached : ∀ x, h'.isObserved x → h.isObserved x ∨ ∃ o, v = .object o ∧ h.ReachesObject o x

/-- A slot that is there has a dep once it was given one. -/
theorem isSome_dep?_installDep (hp : (h.peek o key).isSome) : ((h.installDep o key).dep? o key).isSome := by
  rw [← (Instruments.installDep h o key).peek] at hp
  obtain ⟨v, hv⟩ := Option.isSome_iff_exists.1 hp
  obtain ⟨s, hs, -⟩ := Option.map_eq_some_iff.1 hv
  rw [dep?, hs]
  exact Option.isSome_iff_ne_none.2 (installDep_dep hs)

/-- Where deps are as they should be, and objects in the slots of observed objects are observed, nothing is left
to be done. -/
theorem Tidy.doneBut (ht : h.Tidy) (hs : h.Sound) (hc : h.Closed) : h.DoneBut but :=
  ⟨ht, fun _ _ ho _ hp => ⟨hs.isSome_dep? ho hp, fun _ => hc ho⟩⟩

theorem DoneBut.installDep (hd : h.DoneBut but) (ho : h.isObserved o) (key : String) :
    (h.installDep o key).DoneBut but where
  tidy := hd.tidy.installDep ho key
  done x k hx hbut hp := by
    rw [isObserved_installDep] at hx
    rw [(Instruments.installDep h o key).peek] at hp
    exact (hd.done x k hx hbut hp).mono (Instruments.installDep h o key)

/-- An object is marked, and its slots are to be done. -/
theorem DoneBut.setObserved (hd : h.DoneBut but) (o : ObjectId) :
    (h.modifyObject o fun f => { f with observed := true }).DoneBut fun x => but x ∨ x = o := by
  have hmark := Instruments.setObserved h o
  refine ⟨hd.tidy.setObserved o, fun x k hx hbut hp => ?_⟩
  obtain ⟨hbut, hne⟩ := not_or.1 hbut
  rw [isObserved_modifyObject, if_neg hne] at hx
  rw [hmark.peek] at hp
  exact (hd.done x k hx hbut hp).mono hmark

/-! ## The slots of an object -/

/-- What has been made of a heap on the way through the slots of a marked object, of which those with some
keys are left. -/
structure Midway (h : Heap) (o : ObjectId) (but : ObjectId → Prop) (keys : List String) (k : Heap) : Prop where
  instruments : h.Instruments k
  done : k.DoneBut fun x => but x ∨ x = o
  marked : k.isObserved o
  reached : ∀ x, k.isObserved x → h.isObserved x ∨ h.ReachesObject o x
  slots : ∀ key, (k.peek o key).isSome → key ∉ keys → k.Done o key

/-- One slot after another. The walk may go on from what stands in one as it does from any value on a heap
with fewer objects to be marked. -/
theorem Midway.observeSlots {onward : Value → Heap → Option Heap} (hg : h.Grounded)
    (onward_walks : ∀ k v, h.Instruments k → k.isObserved o → k.Exists v → (k.DoneBut fun x => but x ∨ x = o) →
      ∃ k', onward v k = some k' ∧ k.Walked v (fun x => but x ∨ x = o) k')
    {keys : List String} (hk : h.Midway o but keys k) :
    ∃ h', keys.foldlM (observeSlot onward o) k = some h' ∧ h.Midway o but [] h' := by
  induction keys generalizing k with
  | nil => exact ⟨k, rfl, hk⟩
  | cons key keys ih =>
    have hinstall := Instruments.installDep k o key
    have hobserved := isObserved_installDep k o
    have hfirst : (k.installDep o key).DoneBut fun x => but x ∨ x = o := hk.done.installDep hk.marked key
    have hmarked : (k.installDep o key).isObserved o := (hobserved o key).trans hk.marked
    -- The rest of the keys, once the walk has come back from the slot with the first one.
    have hrest : ∀ k', (k.installDep o key).Instruments k' → (k'.DoneBut fun x => but x ∨ x = o) →
        (∀ x, k'.isObserved x → h.isObserved x ∨ h.ReachesObject o x) →
        (∀ c, k.peek o key = some (.object c) → k'.isObserved c) → h.Midway o but keys k' := by
      intro k' ha hdone hreached hchild
      have hall := hinstall.trans ha
      refine ⟨hk.instruments.trans hall, hdone, hall.isObserved o hk.marked, hreached, fun key' hp hkey' => ?_⟩
      rw [hall.peek] at hp
      by_cases hne : key' = key
      · subst hne
        exact ⟨ha.isSome_dep? (isSome_dep?_installDep hp),
          fun c hc => hchild c ((hall.peek o key').symm.trans hc)⟩
      · exact (hk.slots key' hp (mt List.mem_cons.1 (not_or.2 ⟨hne, hkey'⟩))).mono hall
    rw [List.foldlM_cons, observeSlot]
    cases hv : (k.installDep o key).peek o key with
    | none =>
      rw [hinstall.peek] at hv
      refine ih (hrest _ (.refl _) hfirst (fun x hx => hk.reached x ((hobserved x key).symm.trans hx)) ?_)
      intro c hc
      cases hv.symm.trans hc
    | some v =>
      have ha := hk.instruments.trans hinstall
      obtain ⟨k', hwalk, hwalked⟩ :=
        onward_walks _ v ha hmarked ((ha.grounded hg).slot hv) hfirst
      have hpeek : h.peek o key = some v := (ha.peek o key).symm.trans hv
      have hmidway : h.Midway o but keys k' := by
        refine hrest k' hwalked.instruments hwalked.done (fun x hx => ?_) fun c hc => ?_
        · rcases hwalked.reached x hx with hx | ⟨c, rfl, hr⟩
          · exact hk.reached x ((hobserved x key).symm.trans hx)
          · exact .inr (ReachesObject.trans (.slot o key c .refl hpeek) (ha.reachesObject hr))
        · exact hwalked.observed c (Option.some.inj (hv.symm.trans ((hinstall.peek o key).trans hc)))
      obtain ⟨h', hfold, hend⟩ := ih hmidway
      exact ⟨h', by simpa [hwalk] using hfold, hend⟩

/-- An object that has just been marked has all its slots left. -/
theorem DoneBut.midway (hd : h.DoneBut but) (ho : h.Exists (.object o)) :
    (h.modifyObject o fun f => { f with observed := true }).Midway o but
      ((h.modifyObject o fun f => { f with observed := true }).keys o)
      (h.modifyObject o fun f => { f with observed := true }) := by
  refine ⟨.refl _, hd.setObserved o, isObserved_setObserved ho, fun x hx => .inl hx,
    fun key hp hkey => absurd (slot?_isSome_iff_mem_keys.1 ?_) hkey⟩
  rwa [peek, Option.isSome_map] at hp

/-- An object that was marked, and has no slots left, was walked through. -/
theorem Midway.walked (hend : (h.modifyObject o fun f => { f with observed := true }).Midway o but [] h') :
    h.Walked (.object o) but h' := by
  have hmark := Instruments.setObserved h o
  refine ⟨hmark.trans hend.instruments, ⟨hend.done.tidy, fun x key hx hbut hp => ?_⟩, fun c hc => ?_,
    fun x hx => ?_⟩
  · by_cases hxo : x = o
    · exact hxo ▸ hend.slots key (hxo ▸ hp) List.not_mem_nil
    · exact hend.done.done x key hx (not_or.2 ⟨hbut, hxo⟩) hp
  · obtain rfl := Value.object.inj hc
    exact hend.marked
  · rcases hend.reached x hx with hx | hr
    · by_cases hxo : x = o
      · exact .inr ⟨o, rfl, hxo ▸ .refl⟩
      · rw [isObserved_modifyObject, if_neg hxo] at hx
        exact .inl hx
    · exact .inr ⟨o, rfl, hmark.reachesObject hr⟩

/-- **The walk of an observation ends.** It nests no deeper than there are objects to be marked. -/
theorem run_observeWalk (hg : h.Grounded) (hv : h.Exists v) (hdepth : h.unobserved.length < depth)
    (hd : h.DoneBut but) : ∃ h', observeWalk depth v h = some h' ∧ h.Walked v but h' := by
  induction depth generalizing h v but with
  | zero => exact absurd hdepth (Nat.not_lt_zero _)
  | succ depth ih =>
    cases v with
    | object o =>
      rw [observeWalk]
      by_cases ho : h.isObserved o
      · rw [if_pos ho]
        refine ⟨h, rfl, .refl h, hd, fun c hc => ?_, fun x hx => .inl hx⟩
        obtain rfl := Value.object.inj hc
        exact ho
      · rw [if_neg ho]
        have hmark := Instruments.setObserved h o
        have hless := hmark.length_unobserved_lt hv ho (isObserved_setObserved hv)
        have hground := hmark.grounded hg
        obtain ⟨h', hfold, hend⟩ := (hd.midway hv).observeSlots hground fun k v hk hmarked hv hdone =>
          ih (hk.grounded hground) hv (by have := hk.length_unobserved_le; omega) hdone
        exact ⟨h', hfold, hend.walked⟩
    | _ => exact ⟨h, rfl, .refl h, hd, nofun, fun x hx => .inl hx⟩

/-- Objects that hold one that is to be marked are under way. -/
theorem Awaits.doneBut (ha : h.Awaits v) :
    h.DoneBut fun o => h.isObserved o ∧ ∃ key c, h.peek o key = some (.object c) ∧ ¬ h.isObserved c := by
  refine ⟨ha.tidy, fun o key ho hbut hp => ⟨ha.sound.isSome_dep? ho hp, fun c hc => ?_⟩⟩
  by_contra hn
  exact hbut ⟨ho, key, c, hc, hn⟩

/-- Once the value is observed nothing is left to be done. -/
theorem Awaits.finished (ha : h.Awaits v) (hw : h.Walked v but h') (hbut : ∀ o, but o → h.isObserved o) :
    h'.DoneBut fun _ => False := by
  have hi := hw.instruments
  refine ⟨hw.done.tidy, fun x key hx _ hp => ?_⟩
  by_cases hold : h.isObserved x
  · rw [hi.peek] at hp
    refine ⟨hi.isSome_dep? (ha.sound.isSome_dep? hold hp), fun c hc => ?_⟩
    rw [hi.peek] at hc
    exact (ha.closed hold hc).elim (hi.isObserved c) (hw.observed c)
  · exact hw.done.done x key hx (mt (hbut x) hold) hp

/-! ## The names of new deps -/

/-- The same data and the same observed objects, and at every slot the dep that a renaming gives. -/
structure Renames (f : DepId → DepId) (h h' : Heap) : Prop where
  size : h'.objects.size = h.objects.size
  arrays : h'.arrays = h.arrays
  members : ∀ o, h'.members o = h.members o
  isObserved : ∀ o, h'.isObserved o = h.isObserved o
  dep? : ∀ o key, h'.dep? o key = (h.dep? o key).map f
  subscribers : ∀ d, h'.subscribers (f d) = h.subscribers d
  /-- Different slots keep different deps. -/
  apart : ∀ o key x k d d', h.dep? o key = some d → h.dep? x k = some d' → f d = f d' → d = d'

/-- Where nothing is left to be done, the deps stand on the slots of observed objects. -/
theorem DoneBut.isSome_dep?_iff (hd : h.DoneBut fun _ => False) :
    (h.dep? o key).isSome ↔ h.isObserved o ∧ (h.peek o key).isSome := by
  constructor
  · intro hs
    obtain ⟨d, hdep⟩ := Option.isSome_iff_exists.1 hs
    refine ⟨hd.tidy.observed hdep, ?_⟩
    obtain ⟨s, hslot, -⟩ := Option.bind_eq_some_iff.1 hdep
    rw [peek, hslot]
    rfl
  · rintro ⟨ho, hp⟩
    exact (hd.done o key ho id hp).1

/-- A finished walk has marked exactly what it gets to. -/
theorem Walked.isObserved_iff {r : ObjectId} (hw : h.Walked (.object r) but h') (hd : h'.DoneBut fun _ => False)
    (x : ObjectId) : h'.isObserved x ↔ h.isObserved x ∨ h.ReachesObject r x := by
  constructor
  · intro hx
    refine (hw.reached x hx).imp_right ?_
    rintro ⟨o, ho, hr⟩
    exact (Value.object.inj ho).symm ▸ hr
  · rintro (hx | hr)
    · exact hw.instruments.isObserved x hx
    · induction hr with
      | refl => exact hw.observed r rfl
      | slot p key c before here ih =>
        rw [← hw.instruments.peek] at here
        exact (hd.done p key ih id (by rw [here]; rfl)).2 c here

/-- The deps that two instrumented heaps have for a slot: both are the one that it had, or both are new and have
no subscribers. -/
theorem Instruments.subscribers_eq {d d' : DepId} (a : h.Instruments h') (b : h.Instruments k)
    (hd : h'.dep? o key = some d) (hd' : k.dep? o key = some d') : h.subscribers d' = h.subscribers d := by
  rcases a.fresh o key d hd with hold | hnew
  · rw [Option.some.inj (hd'.symm.trans (b.dep? o key d hold))]
  rcases b.fresh o key d' hd' with hold | hnew'
  · rw [Option.some.inj (hd.symm.trans (a.dep? o key d' hold))]
  · rw [subscribers_of_le hnew, subscribers_of_le hnew']

/-- **Two ways to observe the same objects** differ in the names of the deps that they make. -/
theorem Instruments.renames (a : h.Instruments h') (b : h.Instruments k) (ha : h'.DoneBut fun _ => False)
    (hb : k.DoneBut fun _ => False) (observed : ∀ o, k.isObserved o = h'.isObserved o) :
    ∃ f : DepId → DepId, (∀ d, d.index < h.deps.size → f d = d) ∧ h'.Renames f k := by
  have hsome : ∀ o key, (k.dep? o key).isSome = (h'.dep? o key).isSome := fun o key => by
    rw [Bool.eq_iff_iff, ha.isSome_dep?_iff, hb.isSome_dep?_iff, observed, a.peek, b.peek]
  have hname : ∀ d : DepId, ∃ d' : DepId, (d.index < h.deps.size → d' = d) ∧
      (∀ o key, h'.dep? o key = some d → k.dep? o key = some d') ∧ k.subscribers d' = h'.subscribers d := by
    intro d
    by_cases hd : ∃ o key, h'.dep? o key = some d
    · obtain ⟨o, key, hd⟩ := hd
      obtain ⟨d', hd'⟩ := Option.isSome_iff_exists.1 ((hsome o key).trans (by rw [hd]; rfl))
      refine ⟨d', fun hlt => ?_, fun x k hx => ?_, ?_⟩
      · have hold := (a.fresh o key d hd).resolve_right (Nat.not_le_of_lt hlt)
        exact Option.some.inj (hd'.symm.trans (b.dep? o key d hold))
      · obtain ⟨rfl, rfl⟩ := ha.tidy.apart hd hx
        exact hd'
      · rw [a.subscribers, b.subscribers, a.subscribers_eq b hd hd']
    · refine ⟨d, fun _ => rfl, fun o key ho => absurd ⟨o, key, ho⟩ hd, ?_⟩
      rw [a.subscribers, b.subscribers]
  choose f hold hdep hsubscribers using hname
  refine ⟨f, hold, b.size.trans a.size.symm, b.arrays.trans a.arrays.symm,
    fun o => (b.members o).trans (a.members o).symm, observed, fun o key => ?_, hsubscribers,
    fun o key x l d d' hd hd' hf => ?_⟩
  · cases hd : h'.dep? o key with
    | none =>
      have hnone := hsome o key
      rw [hd] at hnone
      exact Option.isNone_iff_eq_none.1 (by simpa using hnone)
    | some d => exact hdep d o key hd
  · obtain ⟨rfl, rfl⟩ := hb.tidy.apart (hdep d o key hd) (hf ▸ hdep d' x l hd')
    exact Option.some.inj (hd.symm.trans hd')

/-- **The walk of an observation comes to what `observe` does**, but for the names of the deps that it makes:
those that there were keep their names. -/
theorem observeWalk_renames (ha : h.Awaits v) (hdepth : h.unobserved.length < depth) :
    ∃ h' f, observeWalk depth v h = some h' ∧ (∀ d, d.index < h.deps.size → f d = d) ∧
      (h.observe v).Renames f h' := by
  obtain ⟨h', hwalk, hwalked⟩ := run_observeWalk ha.grounded ha.exist hdepth ha.doneBut
  have hdone := ha.finished hwalked fun _ hbut => hbut.1
  have hclosed : (h.observe v).Closed := (Closed.observe ha.grounded ha.exist fun _ _ _ => ha.closed).1
  have hobserved : ∀ x, h'.isObserved x = (h.observe v).isObserved x := fun x => by
    rw [Bool.eq_iff_iff]
    cases v with
    | object r => rw [hwalked.isObserved_iff hdone, observe, ha.isObserved_observe]
    | _ =>
      refine ⟨fun hx => (hwalked.reached x hx).resolve_right ?_, hwalked.instruments.isObserved x⟩
      rintro ⟨o, ho, -⟩
      cases ho
  obtain ⟨f, hold, hrenames⟩ := (Instruments.observe h v).renames hwalked.instruments
    ((ha.tidy.observe v).doneBut (ha.sound.observe v) hclosed) hdone hobserved
  exact ⟨h', f, hwalk, hold, hrenames⟩

/-- **A write on an observed object** observes what it writes as the walk does. -/
theorem observeWalk_store (hh : h.Wellformed) (ht : h.Tidy) (hv : h.Exists v) (ho : h.isObserved o)
    (hi : h.ignores o key v = false) :
    ∃ k, h.Wrote o key v k ∧ ∀ depth, k.unobserved.length < depth →
      ∃ h' f, observeWalk depth v k = some h' ∧ (∀ d, d.index < k.deps.size → f d = d) ∧
        (h.store o key v).1.Renames f h' := by
  obtain ⟨k, hw, ⟨hs, hk⟩, he⟩ := store_eq hi
  have ha : k.Awaits v :=
    ⟨hs hh.sound, hk ht, hw.grounded hh.grounded hv, hw.exists_iff.2 hv, hw.closed_but hh.closed⟩
  refine ⟨k, hw, fun depth hdepth => ?_⟩
  rw [he, if_pos ho]
  exact observeWalk_renames ha hdepth

end LiveMarkup.Heap

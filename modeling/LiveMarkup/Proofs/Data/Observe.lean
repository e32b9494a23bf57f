import LiveMarkup.Proofs.Data.Heap
import LiveMarkup.Proofs.Table

/-!
# What observation does

Observation changes no data: it gives deps to slots and marks objects. Afterwards every slot of an
observed object has a dep, and whatever object stands in such a slot is observed as well.

* `Heap.Instruments`: a heap of the same data with more deps.
* `Heap.Sound`: the slots of observed objects have deps.
* `Heap.Grounded`: no handle dangles.
* `Heap.Closed`: the objects in the slots of observed objects are observed.
* **`Sound.observe`**, **`Closed.observe`**: an observation keeps both.
-/

namespace LiveMarkup

namespace Heap

variable {h h' h'' : Heap} {o x c : ObjectId} {key k : String} {d : DepId}

/-! ## Members -/

theorem peek_eq_findEntry (h : Heap) (o : ObjectId) (key : String) :
    h.peek o key = findEntry key (h.members o) := by
  unfold peek slot? members
  cases h.object? o with
  | none => rfl
  | some f => exact (findEntry_map key (·.value) f.slots.entries).symm

theorem keys_eq_members (h : Heap) (o : ObjectId) : h.keys o = (h.members o).map Prod.fst := by
  unfold keys members
  cases h.object? o with
  | none => rfl
  | some f => simp [Table.keys, Function.comp_def]

theorem members_modifyObject {f : Fields → Fields} (hf : ∀ g, (f g).slots = g.slots) :
    (h.modifyObject o f).members x = h.members x := by
  unfold members
  rw [object?_modifyObject]
  by_cases hx : x = o
  · rw [if_pos hx]
    cases h.object? x with
    | none => rfl
    | some g => simp [hf]
  · rw [if_neg hx]

theorem slot?_setObserved (h : Heap) (o x : ObjectId) (k : String) :
    (h.modifyObject o fun f => { f with observed := true }).slot? x k = h.slot? x k := by
  unfold slot?
  rw [object?_modifyObject]
  by_cases hx : x = o
  · rw [if_pos hx]; cases h.object? x <;> rfl
  · rw [if_neg hx]

theorem members_putSlot (h : Heap) (o x : ObjectId) (key : String) (s : Slot) :
    (h.putSlot o key s).members x =
      if x = o ∧ o.index < h.objects.size then putEntry key s.value (h.members x)
      else h.members x := by
  unfold members putSlot
  simp only [object?_modifyObject, ← isSome_object?_iff]
  by_cases hx : x = o
  · subst hx
    cases h.object? x with
    | none => simp
    | some f => simpa [Table.insert] using map_putEntry key Slot.value s f.slots.entries
  · simp [hx]

/-- A slot written with the value that it has. -/
theorem members_putSlot_of_peek {s : Slot} (hs : h.peek o key = some s.value) :
    (h.putSlot o key s).members x = h.members x := by
  rw [members_putSlot]
  split
  · next hx =>
    obtain ⟨rfl, -⟩ := hx
    rw [peek_eq_findEntry] at hs
    exact putEntry_of_findEntry hs
  · rfl

/-! ## Instrumented data -/

/-- The same data with more deps and more observed objects. -/
structure Instruments (h h' : Heap) : Prop where
  size : h'.objects.size = h.objects.size
  arrays : h'.arrays = h.arrays
  members : ∀ o, h'.members o = h.members o
  dep? : ∀ o key d, h.dep? o key = some d → h'.dep? o key = some d
  subscribers : ∀ d, h'.subscribers d = h.subscribers d
  isObserved : ∀ o, h.isObserved o → h'.isObserved o
  deps : h.deps.size ≤ h'.deps.size
  /-- A slot that had no dep has a new one. -/
  fresh : ∀ o key d, h'.dep? o key = some d → h.dep? o key = some d ∨ h.deps.size ≤ d.index

namespace Instruments

theorem refl (h : Heap) : h.Instruments h :=
  ⟨rfl, rfl, fun _ => rfl, fun _ _ _ hd => hd, fun _ => rfl, fun _ ho => ho, Nat.le_refl _,
    fun _ _ _ hd => .inl hd⟩

theorem trans (a : h.Instruments h') (b : h'.Instruments h'') : h.Instruments h'' :=
  ⟨b.size.trans a.size, b.arrays.trans a.arrays, fun o => (b.members o).trans (a.members o),
    fun o key d hd => b.dep? o key d (a.dep? o key d hd),
    fun d => (b.subscribers d).trans (a.subscribers d),
    fun o ho => b.isObserved o (a.isObserved o ho), Nat.le_trans a.deps b.deps,
    fun o key d hd => (b.fresh o key d hd).elim (a.fresh o key d) fun hle => .inr (Nat.le_trans a.deps hle)⟩

theorem toExtends (a : h.Instruments h') : h.Extends h' :=
  ⟨a.dep?, fun d w hw => by rwa [a.subscribers d]⟩

theorem peek (a : h.Instruments h') (o : ObjectId) (key : String) :
    h'.peek o key = h.peek o key := by
  rw [peek_eq_findEntry, peek_eq_findEntry, a.members]

theorem foldl {α : Type} {f : Heap → α → Heap} (hf : ∀ (h : Heap) a, h.Instruments (f h a)) (h : Heap)
    (l : List α) : h.Instruments (l.foldl f h) := by
  induction l generalizing h with
  | nil => exact refl h
  | cons a l ih => exact (hf h a).trans (ih (f h a))

theorem installDep (h : Heap) (o : ObjectId) (key : String) :
    h.Instruments (h.installDep o key) := by
  unfold Heap.installDep
  split
  · next v hs =>
    have hpeek : h.newDep.2.peek o key = some v := by
      rw [Heap.peek, slot?_newDep, hs]; rfl
    refine ⟨size_putSlot _ _ _ _, rfl, fun x => members_putSlot_of_peek hpeek, fun x k d hd => ?_,
      fun d => subscribers_newDep h d, fun x hx => by rwa [isObserved_putSlot], ?_, fun x k d hd => ?_⟩
    · have hne : ¬ (x = o ∧ k = key ∧ o.index < h.newDep.2.objects.size) := by
        rintro ⟨rfl, rfl, -⟩
        rw [dep?_of_slot? hs] at hd
        cases hd
      rw [Heap.dep?, slot?_putSlot, if_neg hne]
      exact hd
    · rw [deps_putSlot, size_deps_newDep]
      exact Nat.le_succ _
    · rw [Heap.dep?, slot?_putSlot] at hd
      split at hd
      · exact .inr (Nat.le_of_eq (congrArg DepId.index (Option.some.inj hd)))
      · exact .inl hd
  · exact refl h

/-- An object is marked as observed. -/
theorem setObserved (h : Heap) (o : ObjectId) :
    h.Instruments (h.modifyObject o fun f => { f with observed := true }) := by
  refine ⟨size_modifyObject _ _ _, rfl, fun x => members_modifyObject fun _ => rfl,
    fun x k d hd => by rw [Heap.dep?, slot?_setObserved]; exact hd, fun _ => rfl, fun x hx => ?_, Nat.le_refl _,
    fun x k d hd => by rw [Heap.dep?, slot?_setObserved] at hd; exact .inl hd⟩
  unfold Heap.isObserved at hx ⊢
  rw [object?_modifyObject]
  by_cases hxo : x = o
  · rw [if_pos hxo]
    cases hf : h.object? x <;> simp_all
  · rwa [if_neg hxo]

theorem mark (h : Heap) (o : ObjectId) : h.Instruments (h.mark o) :=
  (setObserved h o).trans (foldl (fun h key => installDep h o key) _ _)

theorem observe (h : Heap) (v : Value) : h.Instruments (h.observe v) := by
  unfold Heap.observe
  split
  · exact foldl (fun h o => mark h o) h _
  · exact refl h

end Instruments

/-! ## Deps of observed slots -/

/-- The deps of slots exist, and every slot of an observed object, one object aside, has one. -/
structure SoundBut (h : Heap) (but : ObjectId → Prop) : Prop where
  dep_lt : ∀ {o key d}, h.dep? o key = some d → d.index < h.deps.size
  observed_dep : ∀ {o key s}, ¬ but o → h.isObserved o → h.slot? o key = some s → s.dep ≠ none

/-- The deps of slots exist, and every slot of an observed object has one. -/
def Sound (h : Heap) : Prop := h.SoundBut fun _ => False

theorem sound_empty : Sound .empty where
  dep_lt {o key d} hd := by simp [dep?, slot?, object?, empty] at hd
  observed_dep {o key s} _ ho := by simp [isObserved, object?, empty] at ho

/-- The dep of a slot of an observed object. -/
theorem Sound.exists_dep (hh : h.Sound) (ho : h.isObserved o) (hs : (h.slot? o key).isSome) :
    ∃ d, h.dep? o key = some d ∧ d.index < h.deps.size := by
  obtain ⟨s, hs⟩ := Option.isSome_iff_exists.1 hs
  obtain ⟨d, hd⟩ := Option.ne_none_iff_exists'.1 (hh.observed_dep id ho hs)
  have hdep : h.dep? o key = some d := by rw [dep?, hs]; exact hd
  exact ⟨d, hdep, hh.dep_lt hdep⟩

/-- A slot with a dep that exists is written. -/
theorem SoundBut.putSlot {but : ObjectId → Prop} {s : Slot} (hh : h.SoundBut but)
    (hlt : ∀ d, s.dep = some d → d.index < h.deps.size)
    (hsome : ¬ but o → h.isObserved o → s.dep ≠ none) : (h.putSlot o key s).SoundBut but where
  dep_lt {x k d} hd := by
    rw [dep?, slot?_putSlot] at hd
    split at hd
    · exact hlt d hd
    · exact hh.dep_lt hd
  observed_dep {x k s'} hx hobs hs := by
    rw [isObserved_putSlot] at hobs
    rw [slot?_putSlot] at hs
    split at hs
    · next he =>
      obtain ⟨rfl, rfl, -⟩ := he
      obtain rfl := Option.some.inj hs
      exact hsome hx hobs
    · exact hh.observed_dep hx hobs hs

theorem SoundBut.newDep {but : ObjectId → Prop} (hh : h.SoundBut but) : h.newDep.2.SoundBut but where
  dep_lt {x k d} hd := by
    rw [size_deps_newDep]
    exact Nat.lt_succ_of_lt (hh.dep_lt hd)
  observed_dep hx hobs hs := hh.observed_dep hx hobs hs

theorem SoundBut.installDep {but : ObjectId → Prop} (hh : h.SoundBut but) (o : ObjectId)
    (key : String) : (h.installDep o key).SoundBut but := by
  unfold Heap.installDep
  split
  · refine hh.newDep.putSlot (fun d hd => ?_) fun _ _ => by simp
    obtain rfl := Option.some.inj hd
    exact (size_deps_newDep h).symm ▸ Nat.lt_succ_self _
  · exact hh

theorem slot?_installDep_of_ne (h : Heap) (o x : ObjectId) (hk : k ≠ key) :
    (h.installDep o key).slot? x k = h.slot? x k := by
  unfold Heap.installDep
  split
  · rw [slot?_putSlot, if_neg fun he => hk he.2.1, slot?_newDep]
  · rfl

theorem installDep_dep {s : Slot} (hs : (h.installDep o key).slot? o key = some s) :
    s.dep ≠ none := by
  unfold Heap.installDep at hs
  split at hs
  · next v hv =>
    have hlt : o.index < h.newDep.2.objects.size := lt_of_slot? (h := h) hv
    rw [slot?_putSlot, if_pos ⟨rfl, rfl, hlt⟩] at hs
    obtain rfl := Option.some.inj hs
    simp
  · next hn =>
    intro hdep
    obtain ⟨v, dep⟩ := s
    exact hn v (hs.trans (by rw [show dep = none from hdep]))

/-- An object that was marked has deps for all its slots once each was given one. -/
theorem sound_foldl_installDep (keys : List String) (hh : h.SoundBut (· = o))
    (hkeys : ∀ key s, h.slot? o key = some s → s.dep = none → key ∈ keys) :
    (keys.foldl (fun h key => h.installDep o key) h).Sound := by
  induction keys generalizing h with
  | nil =>
    refine ⟨hh.dep_lt, fun {x k s} _ hx hs => ?_⟩
    by_cases hxo : x = o
    · subst hxo
      exact fun hn => List.not_mem_nil (hkeys k s hs hn)
    · exact hh.observed_dep hxo hx hs
  | cons key keys ih =>
    refine ih (hh.installDep o key) fun k s hs hn => ?_
    have hk : k ≠ key := by
      rintro rfl
      exact installDep_dep hs hn
    have hold : h.slot? o k = some s := (slot?_installDep_of_ne h o o hk).symm.trans hs
    exact (List.mem_cons.1 (hkeys k s hold hn)).resolve_left hk

theorem slot?_isSome_iff_mem_keys : (h.slot? o key).isSome ↔ key ∈ h.keys o := by
  unfold slot? keys
  cases h.object? o with
  | none => simp
  | some f => exact Table.find?_isSome_iff

theorem isObserved_modifyObject {f : Fields → Fields} :
    (h.modifyObject o f).isObserved x =
      if x = o then (h.object? x).any (fun g => (f g).observed) else h.isObserved x := by
  unfold isObserved
  rw [object?_modifyObject]
  by_cases hx : x = o
  · rw [if_pos hx, if_pos hx]
    cases h.object? x <;> rfl
  · rw [if_neg hx, if_neg hx]

theorem Sound.mark (hh : h.Sound) (o : ObjectId) : (h.mark o).Sound := by
  refine sound_foldl_installDep (h.keys o) ⟨fun {x k d} hd => ?_, fun {x k s} hx hobs hs => ?_⟩
    fun k s hs _ => ?_
  · rw [dep?, slot?_setObserved] at hd
    exact hh.dep_lt hd
  · rw [isObserved_modifyObject, if_neg hx] at hobs
    rw [slot?_setObserved] at hs
    exact hh.observed_dep id hobs hs
  · rw [slot?_setObserved] at hs
    rw [← slot?_isSome_iff_mem_keys, hs]; rfl

/-- Observation gives a dep to every slot of what it marks. -/
theorem Sound.observe (hh : h.Sound) (v : Value) : (h.observe v).Sound := by
  have hfold : ∀ (l : List ObjectId) (h : Heap), h.Sound → (l.foldl Heap.mark h).Sound := by
    intro l
    induction l with
    | nil => exact fun _ hh => hh
    | cons o l ih => exact fun h hh => ih (h.mark o) (hh.mark o)
  unfold Heap.observe
  split
  · exact hfold _ _ hh
  · exact hh

/-! ## What is reached -/

/-- The gathered objects with the pending ones include all free objects that stand in a slot of a
gathered one. -/
theorem mem_gather (h : Heap) (free pending : List ObjectId) {x : ObjectId} (hx : x ∈ free)
    (hreach : x ∈ pending ∨ ∃ o ∈ h.gather free pending, x ∈ h.childObjects o) :
    x ∈ h.gather free pending := by
  fun_induction gather h free pending with
  | case1 free => simp at hreach
  | case2 free o rest ho ih =>
    by_cases hxo : x = o
    · exact hxo ▸ List.mem_cons_self
    · refine List.mem_cons_of_mem _ (ih ((List.mem_erase_of_ne hxo).2 hx) ?_)
      rcases hreach with hp | ⟨y, hy, hchild⟩
      · exact .inl (List.mem_append_right _ ((List.mem_cons.1 hp).resolve_left hxo))
      · rcases List.mem_cons.1 hy with rfl | hy
        · exact .inl (List.mem_append_left _ hchild)
        · exact .inr ⟨y, hy, hchild⟩
  | case3 free o rest ho ih =>
    refine ih hx (hreach.imp_left fun hp => ?_)
    exact (List.mem_cons.1 hp).resolve_left fun e => ho (e ▸ hx)

theorem mem_childObjects (hc : h.peek o key = some (.object c)) : c ∈ h.childObjects o := by
  rw [peek_eq_findEntry] at hc
  exact List.mem_filterMap.2 ⟨_, mem_of_findEntry hc, rfl⟩

theorem isObserved_installDep (h : Heap) (o x : ObjectId) (key : String) :
    (h.installDep o key).isObserved x = h.isObserved x := by
  unfold installDep
  split
  · rw [isObserved_putSlot, isObserved_newDep]
  · rfl

theorem isObserved_mark (h : Heap) (o x : ObjectId) :
    (h.mark o).isObserved x ↔ h.isObserved x ∨ x = o ∧ o.index < h.objects.size := by
  have hfold : ∀ (keys : List String) (h : Heap),
      (keys.foldl (fun h key => h.installDep o key) h).isObserved x = h.isObserved x := by
    intro keys
    induction keys with
    | nil => exact fun _ => rfl
    | cons key keys ih =>
      intro h
      rw [List.foldl_cons, ih, isObserved_installDep]
  rw [mark, hfold, isObserved_modifyObject]
  by_cases hx : x = o
  · subst hx
    simp only [if_true, true_and, ← isSome_object?_iff, isObserved]
    cases h.object? x <;> simp
  · simp [hx]

theorem isObserved_foldl_mark (l : List ObjectId) (h : Heap) (x : ObjectId) :
    (l.foldl mark h).isObserved x ↔ h.isObserved x ∨ x ∈ l ∧ x.index < h.objects.size := by
  induction l generalizing h with
  | nil => simp
  | cons o l ih =>
    rw [List.foldl_cons, ih, isObserved_mark, (Instruments.mark h o).size, List.mem_cons]
    constructor
    · rintro ((hx | ⟨rfl, hlt⟩) | ⟨hx, hlt⟩)
      · exact .inl hx
      · exact .inr ⟨.inl rfl, hlt⟩
      · exact .inr ⟨.inr hx, hlt⟩
    · rintro (hx | ⟨rfl | hx, hlt⟩)
      · exact .inl (.inl hx)
      · exact .inl (.inr ⟨rfl, hlt⟩)
      · exact .inr ⟨hx, hlt⟩

/-- The container that a value is a handle of exists. -/
def Exists (h : Heap) : Value → Prop
  | .object o => o.index < h.objects.size
  | .array a => a.index < h.arrays.size
  | _ => True

/-- An object that exists is observed once it was marked. -/
theorem isObserved_setObserved (ho : h.Exists (.object o)) :
    (h.modifyObject o fun f => { f with observed := true }).isObserved o := by
  obtain ⟨f, hf⟩ := Option.isSome_iff_exists.1 (isSome_object?_iff.2 ho)
  rw [isObserved_modifyObject, if_pos rfl, hf]
  rfl

/-- No handle in the heap dangles. -/
structure Grounded (h : Heap) : Prop where
  slot : ∀ {o key v}, h.peek o key = some v → h.Exists v
  item : ∀ {a v}, v ∈ h.items a → h.Exists v

/-- The objects in the slots of observed objects are observed. -/
def Closed (h : Heap) : Prop :=
  ∀ {o key c}, h.isObserved o → h.peek o key = some (.object c) → h.isObserved c

theorem mem_unobserved (hx : x.index < h.objects.size) (hn : ¬ h.isObserved x) :
    x ∈ h.unobserved := by
  refine List.mem_filter.2 ⟨?_, by simp [hn]⟩
  exact List.mem_map.2 ⟨x.index, List.mem_range.2 hx, rfl⟩

/-- **An observation closes what the observed objects hold**, one value aside that is observed now. -/
theorem Closed.observe {v : Value} (hg : h.Grounded) (hv : h.Exists v)
    (hc : ∀ o key c, h.isObserved o → h.peek o key = some (.object c) →
      h.isObserved c ∨ v = .object c) :
    (h.observe v).Closed ∧ ∀ c, v = .object c → (h.observe v).isObserved c := by
  have hinst := Instruments.observe h v
  cases v with
  | object r =>
    have hobs : ∀ x, (h.observe (.object r)).isObserved x ↔
        h.isObserved x ∨ x ∈ h.gather h.unobserved [r] ∧ x.index < h.objects.size :=
      fun x => isObserved_foldl_mark _ h x
    have hroot : (h.observe (.object r)).isObserved r := by
      rw [hobs]
      by_cases hr : h.isObserved r
      · exact .inl hr
      · exact .inr ⟨mem_gather h _ _ (mem_unobserved hv hr) (.inl List.mem_cons_self), hv⟩
    refine ⟨fun {o key c} ho hpeek => ?_, fun c hcr => ?_⟩
    · rw [hinst.peek] at hpeek
      rcases (hobs o).1 ho with ho | ⟨ho, -⟩
      · rcases hc o key c ho hpeek with hcobs | hcr
        · exact hinst.isObserved c hcobs
        · obtain rfl := Value.object.inj hcr
          exact hroot
      · rw [hobs]
        by_cases hcobs : h.isObserved c
        · exact .inl hcobs
        · have hlt : c.index < h.objects.size := hg.slot hpeek
          exact .inr ⟨mem_gather h _ _ (mem_unobserved hlt hcobs)
            (.inr ⟨o, ho, mem_childObjects hpeek⟩), hlt⟩
    · obtain rfl := Value.object.inj hcr
      exact hroot
  | _ =>
    refine ⟨fun {o key c} ho hpeek => (hc o key c ho hpeek).resolve_right (by simp), ?_⟩
    intro c hcr
    cases hcr

end Heap

end LiveMarkup

import LiveMarkup.Proofs.Data.Wellformed

/-!
# One more watcher on a heap

Two heaps with the same data, where one has a further watcher among its subscribers and numbers the others
accordingly. Whatever changes a heap keeps this so, since nothing but `Heap.subscribers` tells of them.

* `WatcherId.skip`: the number of a watcher where there is one more.
* `Heap.Twin`: the same data and as many deps.
* `Heap.Padded`: the subscribers of one are those of the other, but for one more.
* **`Heap.Padded.build`**, `edit`, `store`, `track`, `setSubscribers`: the changes.
-/

namespace LiveMarkup

/-- The number of a watcher where there is one more watcher, with a given number. -/
def WatcherId.skip (n : Nat) (w : WatcherId) : WatcherId := ⟨if w.index < n then w.index else w.index + 1⟩

namespace WatcherId

variable {n k : Nat} {v w : WatcherId}

theorem skip_inj : v.skip n = w.skip n ↔ v = w := by
  refine ⟨fun h => ?_, congrArg _⟩
  obtain ⟨i⟩ := v
  obtain ⟨j⟩ := w
  simp only [skip, mk.injEq] at h ⊢
  split at h <;> split at h <;> omega

theorem skip_ne (n : Nat) (w : WatcherId) : w.skip n ≠ ⟨n⟩ := by
  obtain ⟨i⟩ := w
  simp only [skip, ne_eq, mk.injEq]
  split <;> omega

theorem skip_of_le (h : n ≤ k) : skip n ⟨k⟩ = ⟨k + 1⟩ := by
  simp only [skip, if_neg (Nat.not_lt.2 h)]

theorem skip_of_lt (h : k < n) : skip n ⟨k⟩ = ⟨k⟩ := by
  simp only [skip, if_pos h]

theorem skip_index_iff (h : n ≤ k) : (w.skip n).index = k + 1 ↔ w.index = k := by
  simp only [skip]
  split <;> omega

/-- What others than the last one have in an array. -/
theorem getElem?_push_skip {α : Type} {xs : Array α} {x : α} (hn : xs.size = n) (w : WatcherId) :
    (xs.push x)[(w.skip n).index]? = xs[w.index]? := by
  have hne : (w.skip n).index ≠ xs.size := fun he => skip_ne n w (congrArg WatcherId.mk (he.trans hn))
  obtain ⟨i⟩ := w
  rw [Array.getElem?_push, if_neg hne]
  by_cases hi : i < n
  · rw [skip_of_lt hi]
  · have hle : xs.size ≤ i := hn ▸ Nat.le_of_not_lt hi
    rw [skip_of_le (Nat.le_of_not_lt hi), Array.getElem?_eq_none hle,
      Array.getElem?_eq_none (Nat.le_succ_of_le hle)]

/-- Without the watcher that there is more. -/
theorem filter_ne_map_skip (n : Nat) (ws : List WatcherId) :
    (ws.map (skip n)).filter (· ≠ ⟨n⟩) = ws.map (skip n) := by
  refine List.filter_eq_self.2 fun x hx => ?_
  obtain ⟨w, -, rfl⟩ := List.mem_map.1 hx
  exact decide_eq_true (skip_ne n w)

end WatcherId

namespace Heap

variable {h h' : Heap} {n : Nat} {o : ObjectId} {key : String} {d : DepId} {w : WatcherId}

/-- Two heaps with the same data and as many deps. -/
structure Twin (h h' : Heap) : Prop where
  objects : h'.objects = h.objects
  arrays : h'.arrays = h.arrays
  size : h'.deps.size = h.deps.size

namespace Twin

theorem refl (h : Heap) : h.Twin h := ⟨rfl, rfl, rfl⟩

theorem symm (t : h.Twin h') : h'.Twin h := ⟨t.objects.symm, t.arrays.symm, t.size.symm⟩

theorem trans {h'' : Heap} (t : h.Twin h') (t' : h'.Twin h'') : h.Twin h'' :=
  ⟨t'.objects.trans t.objects, t'.arrays.trans t.arrays, t'.size.trans t.size⟩

/-- A tracked reading changes nothing but subscribers. -/
theorem track (h : Heap) (w : WatcherId) (ps : List Place) : h.Twin (h.track w ps) :=
  ⟨(track_data h w ps).1, (track_data h w ps).2, size_deps_track h w ps⟩

theorem slot? (t : h.Twin h') : h'.slot? o key = h.slot? o key := by
  rw [Heap.slot?, Heap.slot?, object?, object?, t.objects]

theorem depAt? (t : h.Twin h') : h'.depAt? = h.depAt? := by
  funext p
  rw [Heap.depAt?, Heap.depAt?, dep?, dep?, t.slot?]

theorem isObserved (t : h.Twin h') : h'.isObserved = h.isObserved := by
  funext o
  rw [Heap.isObserved, Heap.isObserved, object?, object?, t.objects]

theorem keys (t : h.Twin h') : h'.keys o = h.keys o := by
  rw [Heap.keys, Heap.keys, object?, object?, t.objects]

theorem newDep (t : h.Twin h') : h'.newDep.1 = h.newDep.1 ∧ h.newDep.2.Twin h'.newDep.2 := by
  refine ⟨congrArg DepId.mk t.size, t.objects, t.arrays, ?_⟩
  rw [size_deps_newDep, size_deps_newDep, t.size]

theorem modifyObject (t : h.Twin h') (o : ObjectId) (f : Fields → Fields) :
    (h.modifyObject o f).Twin (h'.modifyObject o f) :=
  ⟨congrArg (·.modify o.index f) t.objects, t.arrays, t.size⟩

theorem modifyArray (t : h.Twin h') (a : ArrayId) (f : List Value → List Value) :
    Twin { h with arrays := h.arrays.modify a.index f } { h' with arrays := h'.arrays.modify a.index f } :=
  ⟨t.objects, congrArg (·.modify a.index f) t.arrays, t.size⟩

theorem putSlot (t : h.Twin h') (o : ObjectId) (key : String) (s : Slot) :
    (h.putSlot o key s).Twin (h'.putSlot o key s) := t.modifyObject o _

theorem newObject (t : h.Twin h') (f : Fields) :
    (h'.newObject f).1 = (h.newObject f).1 ∧ (h.newObject f).2.Twin (h'.newObject f).2 :=
  ⟨congrArg (ObjectId.mk ·.size) t.objects, congrArg (·.push f) t.objects, t.arrays, t.size⟩

theorem newArray (t : h.Twin h') (vs : List Value) :
    (h'.newArray vs).1 = (h.newArray vs).1 ∧ (h.newArray vs).2.Twin (h'.newArray vs).2 :=
  ⟨congrArg (ArrayId.mk ·.size) t.arrays, t.objects, congrArg (·.push vs) t.arrays, t.size⟩

theorem foldl {α : Type} {f : Heap → α → Heap} (hf : ∀ h h' a, h.Twin h' → (f h a).Twin (f h' a))
    (t : h.Twin h') (l : List α) : (l.foldl f h).Twin (l.foldl f h') := by
  induction l generalizing h h' with
  | nil => exact t
  | cons a l ih => exact ih (hf h h' a t)

theorem installDep (t : h.Twin h') (o : ObjectId) (key : String) :
    (h.installDep o key).Twin (h'.installDep o key) := by
  rw [Heap.installDep, Heap.installDep, t.slot?]
  split
  · dsimp only
    rw [t.newDep.1]
    exact t.newDep.2.putSlot o key _
  · exact t

theorem mark (t : h.Twin h') (o : ObjectId) : (h.mark o).Twin (h'.mark o) := by
  rw [Heap.mark, Heap.mark, t.keys]
  exact (t.modifyObject o _).foldl (fun h h' key t => t.installDep o key) _

theorem gather (t : h.Twin h') (free pending : List ObjectId) :
    h'.gather free pending = h.gather free pending := by
  have hchild : h'.childObjects = h.childObjects := by
    funext o
    rw [childObjects, childObjects, members, members, object?, object?, t.objects]
  induction free, pending using Heap.gather.induct h with
  | case1 free => rw [Heap.gather, Heap.gather]
  | case2 free o rest hfree ih =>
    rw [Heap.gather, Heap.gather, if_pos hfree, if_pos hfree, hchild, ih]
  | case3 free o rest hfree ih => rw [Heap.gather, Heap.gather, if_neg hfree, if_neg hfree, ih]

theorem observe (t : h.Twin h') (v : Value) : (h.observe v).Twin (h'.observe v) := by
  cases v with
  | object o =>
    rw [Heap.observe, Heap.observe, observeObject, observeObject, t.gather, unobserved, unobserved,
      objectIds, objectIds, t.objects, t.isObserved]
    exact t.foldl (fun h h' o t => t.mark o) _
  | _ => exact t

theorem store (t : h.Twin h') (o : ObjectId) (key : String) (v : Value) :
    (h'.store o key v).2 = (h.store o key v).2 ∧ (h.store o key v).1.Twin (h'.store o key v).1 := by
  rw [Heap.store, Heap.store, t.slot?, t.isObserved]
  split
  · split
    · exact ⟨rfl, t⟩
    · refine ⟨rfl, ?_⟩
      split
      · exact (t.putSlot o key _).observe v
      · exact t.putSlot o key _
  · split
    · refine ⟨rfl, ?_⟩
      dsimp only
      rw [t.newDep.1]
      exact (t.newDep.2.putSlot o key _).observe v
    · exact ⟨rfl, t.putSlot o key _⟩

end Twin

mutual

theorem Twin.build {h h' : Heap} (t : h.Twin h') : ∀ draft : Draft,
    (h'.build draft).1 = (h.build draft).1 ∧ (h.build draft).2.Twin (h'.build draft).2
  | .value v => by simpa only [Heap.build, true_and] using t
  | .array items => by
    obtain ⟨hvs, t'⟩ := t.buildItems items
    obtain ⟨ha, t''⟩ := t'.newArray (h.buildItems items).1
    simp only [Heap.build, hvs, ha]
    exact ⟨trivial, t''⟩
  | .object members => by
    obtain ⟨hes, t'⟩ := t.buildMembers members
    obtain ⟨ho, t''⟩ := t'.newObject ⟨slotsOf (h.buildMembers members).1, false⟩
    simp only [Heap.build, hes, ho]
    exact ⟨trivial, t''⟩

theorem Twin.buildItems {h h' : Heap} (t : h.Twin h') : ∀ items : List Draft,
    (h'.buildItems items).1 = (h.buildItems items).1 ∧ (h.buildItems items).2.Twin (h'.buildItems items).2
  | [] => by simpa only [Heap.buildItems, true_and] using t
  | d :: ds => by
    obtain ⟨hv, t'⟩ := t.build d
    obtain ⟨hvs, t''⟩ := t'.buildItems ds
    simp only [Heap.buildItems, hv, hvs]
    exact ⟨trivial, t''⟩

theorem Twin.buildMembers {h h' : Heap} (t : h.Twin h') : ∀ members : List (String × Draft),
    (h'.buildMembers members).1 = (h.buildMembers members).1 ∧
      (h.buildMembers members).2.Twin (h'.buildMembers members).2
  | [] => by simpa only [Heap.buildMembers, true_and] using t
  | (key, d) :: ms => by
    obtain ⟨hv, t'⟩ := t.build d
    obtain ⟨hes, t''⟩ := t'.buildMembers ms
    simp only [Heap.buildMembers, hv, hes]
    exact ⟨trivial, t''⟩

end

/-- The second heap has one more watcher among its subscribers, with a given number. -/
structure Padded (n : Nat) (h h' : Heap) : Prop extends h.Twin h' where
  subscribers : ∀ d, (h'.subscribers d).filter (· ≠ ⟨n⟩) = (h.subscribers d).map (WatcherId.skip n)

/-- The number of a watcher is another one after a silent change, where it is about a watcher. -/
def Edit.skip (n : Nat) : Edit → Edit
  | .subscribe d w => .subscribe d (w.skip n)
  | change => change

namespace Padded

/-- A change of data. -/
theorem of_twin {k k' : Heap} (p : h.Padded n h') (twin : k.Twin k')
    (eq : ∀ d, k.subscribers d = h.subscribers d) (eq' : ∀ d, k'.subscribers d = h'.subscribers d) :
    k.Padded n k' :=
  ⟨twin, fun d => by rw [eq, eq', p.subscribers]⟩

theorem mem_iff (p : h.Padded n h') : w.skip n ∈ h'.subscribers d ↔ w ∈ h.subscribers d := by
  have hmem : w.skip n ∈ (h'.subscribers d).filter (· ≠ ⟨n⟩) ↔ w.skip n ∈ h'.subscribers d :=
    List.mem_filter.trans (and_iff_left (decide_eq_true (WatcherId.skip_ne n w)))
  rw [← hmem, p.subscribers, List.mem_map]
  exact ⟨fun ⟨v, hv, he⟩ => WatcherId.skip_inj.1 he ▸ hv, fun hw => ⟨w, hw, rfl⟩⟩

theorem setSubscribers (p : h.Padded n h') (d : DepId) (ws : List WatcherId) :
    (h.setSubscribers d ws).Padded n (h'.setSubscribers d (ws.map (WatcherId.skip n))) where
  objects := p.objects
  arrays := p.arrays
  size := by rw [size_deps_setSubscribers, size_deps_setSubscribers, p.size]
  subscribers e := by
    rw [subscribers_setSubscribers, subscribers_setSubscribers, p.size]
    split
    · exact WatcherId.filter_ne_map_skip n ws
    · exact p.subscribers e

theorem subscribe (p : h.Padded n h') (d : DepId) (w : WatcherId) :
    (h.subscribe d w).Padded n (h'.subscribe d (w.skip n)) where
  objects := by rw [(subscribe_data h' d _).1, (subscribe_data h d _).1, p.objects]
  arrays := by rw [(subscribe_data h' d _).2, (subscribe_data h d _).2, p.arrays]
  size := by rw [size_deps_subscribe, size_deps_subscribe, p.size]
  subscribers e := by
    simp only [subscribers_subscribe, p.size, p.mem_iff]
    split
    · rw [List.filter_append, p.subscribers, List.map_append, List.filter_cons_of_pos]
      · rfl
      · exact decide_eq_true (WatcherId.skip_ne n w)
    · exact p.subscribers e

theorem track (p : h.Padded n h') (w : WatcherId) (ps : List Place) :
    (h.track w ps).Padded n (h'.track (w.skip n) ps) := by
  induction ps generalizing h h' with
  | nil => exact p
  | cons place ps ih =>
    rw [Heap.track, Heap.track, p.depAt?]
    split
    · exact ih (p.subscribe _ w)
    · exact ih p

theorem build (p : h.Padded n h') (draft : Draft) :
    (h'.build draft).1 = (h.build draft).1 ∧ (h.build draft).2.Padded n (h'.build draft).2 := by
  obtain ⟨hv, t⟩ := p.toTwin.build draft
  exact ⟨hv, p.of_twin t (grows_build h draft).subscribers_eq (grows_build h' draft).subscribers_eq⟩

theorem edit (p : h.Padded n h') (change : Edit) : (h.edit change).Padded n (h'.edit (change.skip n)) := by
  cases change with
  | push a v => exact ⟨p.toTwin.modifyArray a _, p.subscribers⟩
  | setItem a i v => exact ⟨p.toTwin.modifyArray a _, p.subscribers⟩
  | observe v =>
    exact p.of_twin (p.toTwin.observe v) (Instruments.observe h v).subscribers
      (Instruments.observe h' v).subscribers
  | newDep => exact p.of_twin p.toTwin.newDep.2 (subscribers_newDep h) (subscribers_newDep h')
  | subscribe d w => exact p.subscribe d w

theorem store (p : h.Padded n h') (o : ObjectId) (key : String) (v : Value) :
    (h'.store o key v).2 = (h.store o key v).2 ∧ (h.store o key v).1.Padded n (h'.store o key v).1 := by
  obtain ⟨hd, t⟩ := p.toTwin.store o key v
  exact ⟨hd, p.of_twin t (subscribers_store h o key v) (subscribers_store h' o key v)⟩

end Padded

end Heap

end LiveMarkup

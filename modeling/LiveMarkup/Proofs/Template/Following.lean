import LiveMarkup.Proofs.Template.Reading

/-!
# Following a template

A watcher that tracks a binding is subscribed to every observed slot that was read for it. From then
on a write that the watcher is not told of leaves the binding as it is.

* `Tree.bind_of_data`: who is subscribed to what plays no part in binding.
* `Heap.Followed`: a watcher is subscribed to the observed ones among some places.
* **`Tree.followed_track`**: a watcher that tracks a binding follows what it read.
* **`Followed.bind_store`**: a write that the watcher is not told of.
* `Heap.Bindable`: data of which everything that is read is observed.
-/

namespace LiveMarkup

namespace Heap

variable {h h' : Heap} {w : WatcherId} {ps : List Place} {data o x : ObjectId} {key k : String}
  {v : Value} {template b : Tree}

/-- A watcher is subscribed to places. -/
def Subscribed (h : Heap) (w : WatcherId) (ps : List Place) : Prop :=
  ∀ p ∈ ps, ∃ d, h.depAt? p = some d ∧ w ∈ h.subscribers d

/-- A watcher is subscribed to those of some places that belong to observed objects. -/
def Followed (h : Heap) (w : WatcherId) (ps : List Place) : Prop :=
  ∀ p ∈ ps, h.isObserved p.object → ∃ d, h.depAt? p = some d ∧ w ∈ h.subscribers d

theorem Followed.subscribed (hf : h.Followed w ps) (ho : ∀ p ∈ ps, h.isObserved p.object) :
    h.Subscribed w ps :=
  fun p hp => hf p hp (ho p hp)

/-- What is followed stays so while no other object of the places comes to be observed. -/
theorem Followed.of_extends (hf : h.Followed w ps) (he : h.Extends h')
    (ho : ∀ p ∈ ps, h'.isObserved p.object → h.isObserved p.object) : h'.Followed w ps := by
  intro p hp hobs
  obtain ⟨d, hd, hs⟩ := hf p hp (ho p hp hobs)
  exact ⟨d, he.dep? _ _ d hd, he.subscribers d w hs⟩

/-! ## Tracking -/

theorem track_agrees (h : Heap) (w : WatcherId) (ps : List Place) : h.Agrees (h.track w ps) :=
  .of_eq (track_data h w ps).1 (track_data h w ps).2

theorem isObserved_track (h : Heap) (w : WatcherId) (ps : List Place) (o : ObjectId) :
    (h.track w ps).isObserved o = h.isObserved o := by
  rw [isObserved, object?, (track_data h w ps).1, isObserved, object?]

theorem lt_of_valueAt? {p : Place} (hp : (h.valueAt? p).isSome) :
    p.object.index < h.objects.size := by
  obtain ⟨u, hu⟩ := Option.isSome_iff_exists.1 hp
  exact lt_of_peek hu

end Heap

/-! ## Deps play no part -/

section Deps

variable (objects : Array Fields) (arrays : Array (List Value)) (deps deps' : Array (List WatcherId))

namespace Template

theorem displayIn_deps (free : List ArrayId) (v : Value) :
    (⟨objects, arrays, deps'⟩ : Heap).displayIn free v = (⟨objects, arrays, deps⟩ : Heap).displayIn free v := by
  fun_induction Heap.displayIn ⟨objects, arrays, deps⟩ free v with
  | case7 free a hmem ih =>
    rw [Heap.displayIn, if_pos hmem]
    refine congrArg (String.intercalate ",") (List.map_congr_left fun u _ => ?_)
    split
    · rfl
    · exact ih u
  | case8 free a hmem => rw [Heap.displayIn, if_neg hmem]
  | _ => simp_all [Heap.displayIn]

theorem enter_deps (v : Value) (segment : String) :
    enter ⟨objects, arrays, deps'⟩ v segment = enter ⟨objects, arrays, deps⟩ v segment := by
  cases v <;> rfl

theorem descend_deps (v : Value) (segments : List String) :
    descend ⟨objects, arrays, deps'⟩ v segments = descend ⟨objects, arrays, deps⟩ v segments := by
  induction segments generalizing v with
  | nil => rfl
  | cons segment rest ih => simp only [descend, enter_deps objects arrays deps deps', ih]

theorem bindPieces_deps (data : ObjectId) (pieces : List Piece) :
    bindPieces ⟨objects, arrays, deps'⟩ data pieces = bindPieces ⟨objects, arrays, deps⟩ data pieces := by
  induction pieces with
  | nil => rfl
  | cons piece rest ih =>
    cases piece with
    | literal cs => simp only [bindPieces, ih]
    | placeholder e =>
      simp only [bindPieces, resolve, descend_deps objects arrays deps deps', ih, Heap.display,
        displayIn_deps objects arrays deps deps']
      rfl

end Template

namespace Tree

mutual

theorem bind_deps (data : ObjectId) (t : Tree) :
    t.bind ⟨objects, arrays, deps'⟩ data = t.bind ⟨objects, arrays, deps⟩ data := by
  cases t with
  | text content handle =>
    simp only [bind, Template.interpolate, Template.bindPieces_deps objects arrays deps deps']
  | element tag attributes children handle => simp only [bind, bindList_deps data children]

theorem bindList_deps (data : ObjectId) (ts : List Tree) :
    bindList ⟨objects, arrays, deps'⟩ data ts = bindList ⟨objects, arrays, deps⟩ data ts := by
  cases ts with
  | nil => rfl
  | cons t ts => simp only [bindList, bind_deps data t, bindList_deps data ts]

end

end Tree

end Deps

namespace Tree

open Heap

variable {h h' : Heap} {data : ObjectId} {b : Tree}

/-- A binding that succeeds is the same on a heap that has all data unchanged. -/
theorem bind_of_agrees (hg : h.Grounded) (hv : h.Exists (.object data)) (a : h.Agrees h') (t : Tree)
    (hb : (t.bind h data).result = .ok b) : t.bind h' data = t.bind h data :=
  bind_congr hg a.keepsArrays hv t fun _ hp => a.peek _ _ (lt_of_valueAt? (valueAt?_of_bind t hb hp))

/-- Binding depends on the objects and arrays only. -/
theorem bind_of_data (objects : h'.objects = h.objects) (arrays : h'.arrays = h.arrays) (t : Tree) :
    t.bind h' data = t.bind h data := by
  obtain ⟨objects', arrays', deps'⟩ := h'
  obtain ⟨_, _, deps⟩ := h
  subst objects
  subst arrays
  exact bind_deps objects' arrays' deps deps' data t

/-- Tracking changes nothing about a binding. -/
theorem bind_track (h : Heap) (w : WatcherId) (ps : List Place) (data : ObjectId) (t : Tree) :
    t.bind (h.track w ps) data = t.bind h data :=
  bind_of_data (track_data h w ps).1 (track_data h w ps).2 t

/-- The slots of observed objects that are read for a binding which succeeds have deps. -/
theorem exists_dep_of_bind {t : Tree} {p : Place} (hh : h.Sound) (hb : (t.bind h data).result = .ok b)
    (hp : p ∈ (t.bind h data).reads) (ho : h.isObserved p.object) :
    ∃ d, h.depAt? p = some d ∧ d.index < h.deps.size := by
  have hslot := valueAt?_of_bind t hb hp
  rw [valueAt?, peek, Option.isSome_map] at hslot
  exact hh.exists_dep ho hslot

/-- **A watcher that tracks a binding which succeeds follows what was read for it.** -/
theorem followed_track (hh : h.Sound) (w : WatcherId) (t : Tree) (hb : (t.bind h data).result = .ok b) :
    (h.track w (t.bind h data).reads).Followed w (t.bind h data).reads := by
  intro p hp ho
  rw [isObserved_track] at ho
  obtain ⟨d, hd, hlt⟩ := exists_dep_of_bind hh hb hp ho
  exact ⟨d, (Extends.track h w _).dep? _ _ d hd, track_subscribes hp hd hlt⟩

end Tree

namespace Heap

variable {h h' : Heap} {w : WatcherId} {data o : ObjectId} {key : String} {v : Value} {t b : Tree}

/-- **A write to an observed object that the watcher is not told of leaves the binding as it is.** -/
theorem Followed.bind_store (hh : h.Wellformed) (hv : h.Exists (.object data))
    (hf : h.Followed w (t.bind h data).reads) (ho : h.isObserved o)
    (quiet : ∀ d, (h.store o key v).2 = some d → w ∉ h.subscribers d) :
    t.bind (h.store o key v).1 data = t.bind h data := by
  by_cases hi : h.ignores o key v
  · rw [store_of_ignores hi]
  · refine Tree.bind_congr hh.grounded (keepsArrays_store h o key v) hv t fun p hp => ?_
    refine peek_store_of_ne ?_
    rintro ⟨hx, hk⟩
    obtain ⟨d, hd, hs⟩ := hf p hp (hx ▸ ho)
    obtain ⟨h', -, -, he⟩ := store_eq (Bool.eq_false_iff.2 hi)
    refine quiet d ?_ hs
    rw [he, ← hx, ← hk]
    exact hd

/-! ## Bindable data -/

/-- An object on a well-formed heap that is observed and has no object inside an array. -/
structure Bindable (h : Heap) (data : ObjectId) : Prop where
  wellformed : h.Wellformed
  observed : h.isObserved data
  clean : h.Clean (.object data)

namespace Bindable

theorem exists_data (hb : h.Bindable data) : h.Exists (.object data) := lt_of_isObserved hb.observed

theorem track (hb : h.Bindable data) (w : WatcherId) (ps : List Place) :
    (h.track w ps).Bindable data where
  wellformed := hb.wellformed.track w ps
  observed := by
    rw [isObserved_track]
    exact hb.observed
  clean := hb.clean.of_agrees (track_agrees h w ps) hb.wellformed.grounded hb.exists_data

/-- A watcher that tracks what a binding reads changes nothing about it, and where the binding succeeds
it is subscribed to all of that. -/
theorem bind_track (hb : h.Bindable data) (w : WatcherId) (template : Tree) :
    template.bind (h.track w (template.bind h data).reads) data = template.bind h data ∧
      ∀ b, (template.bind h data).result = .ok b →
        (h.track w (template.bind h data).reads).Subscribed w (template.bind h data).reads := by
  refine ⟨Tree.bind_track h w _ data template, fun b hr => ?_⟩
  refine (Tree.followed_track hb.wellformed.sound w template hr).subscribed fun p hread => ?_
  rw [isObserved_track]
  exact Tree.reads_observed hb.wellformed.closed hb.clean hb.observed template hread

end Bindable

end Heap

end LiveMarkup

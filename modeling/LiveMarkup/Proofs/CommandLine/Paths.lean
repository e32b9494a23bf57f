import LiveMarkup.Proofs.CommandLine.Writes
import LiveMarkup.Proofs.Json.Finite
import LiveMarkup.Proofs.Template.Foretold

/-!
# Paths that are written and read

An assignment finds its object by entering objects only, and then writes the last part of the path. A
placeholder enters whatever the path leads to. Where both find something they have come the same way, and a
write is not on the way to its own place unless an object holds itself.

* `Heap.KeepsBut`: all slots are as they were, but for those at some places.
* `Assignment.readable_of_parse`: the path of an assignment is one that a placeholder reads as it stands.
* `Assignment.same_self`: the value of an assignment is identical to itself.
* `Heap.AcyclicObjects`: no object is reached from itself.
* **`Assignment.parent_put`**: a write leaves the path to its object as it was.
* **`Template.resolve_of_parent`**: what stands at the place is what the whole path resolves to.
-/

namespace LiveMarkup

open Template (segments descend resolve)

/-! ## Changes at some places -/

namespace Heap

variable {h h' h'' : Heap} {o c : ObjectId} {key : String} {u v : Value} {ps qs : List Place}

/-- What there was is there, and all slots but those at some places have their values. The keys of every
object are in the order in which they were, and come before any new one. -/
structure KeepsBut (h h' : Heap) (ps : List Place) : Prop where
  inside : ∀ v, h.Exists v → h'.Exists v
  slots : ∀ o key, h.Exists (.object o) → ⟨o, key⟩ ∉ ps → h'.peek o key = h.peek o key
  keys : ∀ o, h.Exists (.object o) → h.keys o <+: h'.keys o
  items : ∀ a, h.Exists (.array a) → h'.items a = h.items a

theorem KeepsBut.trans (k : h.KeepsBut h' ps) (k' : h'.KeepsBut h'' qs) : h.KeepsBut h'' (ps ++ qs) where
  inside v hv := k'.inside v (k.inside v hv)
  slots o key ho hp := by
    obtain ⟨hps, hqs⟩ := not_or.1 (mt List.mem_append.2 hp)
    rw [k'.slots o key (k.inside _ ho) hqs, k.slots o key ho hps]
  keys o ho := (k.keys o ho).trans (k'.keys o (k.inside _ ho))
  items a ha := (k'.items a (k.inside _ ha)).trans (k.items a ha)

/-- New data are no change of what was there. -/
theorem Grows.keepsBut (g : h.Grows h') : h.KeepsBut h' [] where
  inside _ hv := g.agrees.exists_mono hv
  slots o key ho _ := g.agrees.peek o key ho
  keys o ho := by
    have hsame : h'.keys o = h.keys o := by rw [Heap.keys, Heap.keys, g.object? o ho]
    exact hsame ▸ List.prefix_refl _
  items := g.items

/-- A new value of one member is a change at its place. -/
theorem Put.keepsBut (put : h.Put h' o key v) : h.KeepsBut h' [⟨o, key⟩] where
  inside := put.inside
  slots x k _ hne := by
    rw [peek_eq_findEntry, peek_eq_findEntry]
    by_cases hx : x = o
    · subst hx
      have hk : k ≠ key := fun hk => hne (List.mem_singleton.2 (by rw [hk]))
      rw [put.here, findEntry_putEntry, if_neg hk]
    · rw [put.members x hx]
  keys x _ := by
    rw [keys_eq_members, keys_eq_members]
    by_cases hx : x = o
    · rw [hx, put.here, map_fst_putEntry]
      split
      · exact List.prefix_refl _
      · exact List.prefix_append _ _
    · exact put.members x hx ▸ List.prefix_refl _
  items a _ := put.items a

theorem Put.peek (put : h.Put h' o key v) : h'.peek o key = some v := by
  rw [peek_eq_findEntry, put.here, findEntry_putEntry, if_pos rfl]

theorem Put.of_eq (put : h.Put h' o key v) (objects : h''.objects = h'.objects)
    (arrays : h''.arrays = h'.arrays) : h.Put h'' o key v := by
  have hagrees : h'.Agrees h'' := .of_eq objects arrays
  have hmembers : ∀ x, h''.members x = h'.members x := fun x => by
    unfold Heap.members object?
    rw [objects]
  exact ⟨fun c hc => hagrees.exists_mono (put.inside c hc), (hmembers o).trans put.here,
    fun x hx => (hmembers x).trans (put.members x hx), fun a => by
      rw [Heap.items, arrays]
      exact put.items a⟩

/-- **A write leaves a value at its place that is identical to the written one**, be it that the write was
ignored. -/
theorem put_store (ho : h.Exists (.object o)) (hv : v.same v) :
    ∃ u, u.same v ∧ h.Put (h.store o key v).1 o key u := by
  by_cases hi : h.ignores o key v
  · obtain ⟨u, hu, -, hput⟩ := put_of_ignores hi
    rw [ignores, hu] at hi
    rw [store_of_ignores (by rw [ignores, hu]; exact hi)]
    exact ⟨u, hi, hput⟩
  · obtain ⟨h', hw, -, he⟩ := store_eq (Bool.eq_false_iff.2 hi)
    rw [he]
    dsimp only
    split
    · exact ⟨v, hv, (hw.put ho).observe v⟩
    · exact ⟨v, hv, hw.put ho⟩

/-! ## Data that do not hold themselves -/

/-- No object that is got to from this one holds an object from which it is got to itself. -/
def AcyclicObjects (h : Heap) (o : ObjectId) : Prop :=
  ∀ p key c, h.ReachesObject o p → h.peek p key = some (.object c) → ¬ h.ReachesObject c p

theorem AcyclicObjects.member (ha : h.AcyclicObjects o) (hc : h.peek o key = some (.object c)) :
    h.AcyclicObjects c :=
  fun p k d hp => ha p k d ((ReachesObject.slot o key c .refl hc).trans hp)

/-- Where objects hold older ones only, no object is reached from itself. -/
theorem acyclicObjects_of_lt (older : ∀ p key c, h.peek p key = some (.object c) → c.index < p.index)
    (o : ObjectId) : h.AcyclicObjects o := by
  have hle : ∀ {c p : ObjectId}, h.ReachesObject c p → p.index ≤ c.index := by
    intro c p hr
    induction hr with
    | refl => exact Nat.le_refl _
    | slot p key d _ here ih => exact (Nat.le_of_lt (older p key d here)).trans ih
  exact fun p key c _ hc hback => Nat.not_lt_of_le (hle hback) (older p key c hc)

/-- No object is got to from one that was there before but those that were. -/
theorem Agrees.reachesObject (a : h.Agrees h') (hg : h.Grounded) (ho : h.Exists (.object o))
    (hr : h'.ReachesObject o c) : h.ReachesObject o c ∧ h.Exists (.object c) := by
  induction hr with
  | refl => exact ⟨.refl, ho⟩
  | slot p key c before here ih =>
    obtain ⟨hp, hexists⟩ := ih
    rw [a.peek p key hexists] at here
    exact ⟨.slot p key c hp here, hg.slot here⟩

theorem Agrees.acyclicObjects (a : h.Agrees h') (hg : h.Grounded) (ho : h.Exists (.object o))
    (ha : h.AcyclicObjects o) : h'.AcyclicObjects o := by
  intro p key c hp hc hback
  obtain ⟨hp, hexists⟩ := a.reachesObject hg ho hp
  rw [a.peek p key hexists] at hc
  exact ha p key c hp hc (a.reachesObject hg (hg.slot hc) hback).1

end Heap

/-! ## The path to an object -/

variable {h h' : Heap} {o o' data : ObjectId} {key : String} {v : Value} {walked above : List String}
  {arg : String} {a : Assignment} {cs : List Char}

namespace Assignment

theorem reaches_of_parent (hp : parent h o walked above = .ok o') : h.ReachesObject o o' := by
  induction above generalizing o walked with
  | nil => exact Except.ok.inj hp ▸ .refl
  | cons segment rest ih =>
    rw [parent] at hp
    split at hp
    · next c hc => exact (Heap.ReachesObject.slot o segment c .refl hc).trans (ih hp)
    · cases hp
    · cases hp

/-- **A write leaves the path to its object as it was**, for it is not on the way. -/
theorem parent_put (ha : h.AcyclicObjects o) (hp : parent h o walked above = .ok o')
    (put : h.Put h' o' key v) : parent h' o walked above = .ok o' := by
  induction above generalizing o walked with
  | nil => exact hp
  | cons segment rest ih =>
    rw [parent] at hp ⊢
    split at hp
    · next c hc =>
      have hne : o ≠ o' := by
        rintro rfl
        exact ha o segment c .refl hc (reaches_of_parent hp)
      have hsame : h'.peek o segment = some (.object c) := by
        rw [Heap.peek_eq_findEntry, put.members o hne, ← Heap.peek_eq_findEntry, hc]
      rw [hsame]
      exact ih (ha.member hc) hp
    · cases hp
    · cases hp

end Assignment

namespace Template

/-- A placeholder comes the same way: the objects are entered by their keys. -/
theorem descend_of_parent (hp : Assignment.parent h o walked above = .ok o') (hv : h.peek o' key = some v) :
    (descend h (.object o) (above ++ [key])).result = .ok v ∧
      (descend h (.object o) (above ++ [key])).reads.getLast? = some ⟨o', key⟩ := by
  induction above generalizing o walked with
  | nil =>
    obtain rfl := Except.ok.inj hp
    simp [descend, enter, hv]
  | cons segment rest ih =>
    rw [Assignment.parent] at hp
    split at hp
    · next c hc =>
      obtain ⟨hresult, hlast⟩ := ih hp
      simp only [List.cons_append, descend, enter, hc]
      refine ⟨hresult, ?_⟩
      rw [List.nil_append, List.getLast?_cons, hlast]
      rfl
    · cases hp
    · cases hp

theorem splitAt_ne_nil (mark : Char) (cs : List Char) : splitAt mark cs ≠ [] := by
  cases cs with
  | nil => exact List.cons_ne_nil _ _
  | cons c cs =>
    rw [splitAt]
    split
    · exact List.cons_ne_nil _ _
    · split <;> exact List.cons_ne_nil _ _

/-- A path is what its last part is appended to. -/
theorem segments_eq (path : String) :
    segments path = (segments path).dropLast ++ [(segments path).getLastD ""] := by
  have hne : segments path ≠ [] := mt List.map_eq_nil_iff.1 (splitAt_ne_nil '.' path.toList)
  rw [List.getLastD_eq_getLast?, List.getLast?_eq_some_getLast hne]
  exact (List.dropLast_append_getLast hne).symm

/-- **What stands at a place is what the path to it resolves to**, and it is the last that is read. -/
theorem resolve_of_parent {path : String} (trimmed : Text.trim path = path) (ne : path.isEmpty = false)
    (hp : Assignment.parent h data walked (segments path).dropLast = .ok o)
    (hv : h.peek o ((segments path).getLastD "") = some v) :
    (resolve h data path).result = .ok v ∧
      (resolve h data path).reads.getLast? = some ⟨o, (segments path).getLastD ""⟩ := by
  obtain ⟨hresult, hlast⟩ := descend_of_parent hp hv
  rw [← segments_eq] at hresult hlast
  rw [resolve_of_trim trimmed ne rfl]
  dsimp only
  rw [hresult]
  exact ⟨rfl, hlast⟩

end Template

/-! ## What the command line reads -/

namespace Assignment

/-- **The path of an assignment is one that a placeholder reads as it stands**: no blanks are to be taken
away, and it is not empty. -/
theorem readable_of_parse [Json.Rounding] (hparse : parse arg = .ok a) :
    Text.trim a.path = a.path ∧ a.path.isEmpty = false := by
  obtain ⟨path, raw, rfl, hsegments⟩ := parse_eq_ok hparse
  refine ⟨?_, Bool.eq_false_iff.2 fun hempty => hsegments ?_⟩
  · rw [Text.trim, String.toList_ofList, Text.trimBlank_trimBlank]
  · rw [String.isEmpty_iff.1 hempty]
    rfl

theorem same_readValue [Json.Rounding] (raw : String) (h : Heap) :
    (h.build (readValue raw)).1.same (h.build (readValue raw)).1 := by
  unfold readValue
  cases hj : Json.read raw with
  | none => exact beq_self_eq_true _
  | some j =>
    cases j with
    | number n => exact Number.same_self (Json.finite_of_read hj).1
    | _ => exact beq_self_eq_true _

/-- **The value of an assignment is identical to itself**, for it is not NaN. -/
theorem same_self [Json.Rounding] (hparse : parse arg = .ok a) (h : Heap) :
    (h.build a.value).1.same (h.build a.value).1 := by
  obtain ⟨path, raw, rfl, -⟩ := parse_eq_ok hparse
  exact same_readValue raw h

end Assignment

end LiveMarkup

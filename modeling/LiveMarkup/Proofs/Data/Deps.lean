import LiveMarkup.Proofs.Data.Observe

/-!
# Deps of slots

Only the slots of observed objects have deps, each one of its own.

* `Heap.Tidy`: deps stand on observed objects, and no two slots share one.
* **`Tidy.observe`**: an observation keeps this up.
-/

namespace LiveMarkup.Heap

variable {h h' : Heap} {o x : ObjectId} {key k : String} {v : Value}

theorem dep?_putSlot (h : Heap) (o x : ObjectId) (key k : String) (s : Slot) :
    (h.putSlot o key s).dep? x k =
      if x = o ∧ k = key ∧ o.index < h.objects.size then s.dep else h.dep? x k := by
  rw [dep?, slot?_putSlot]
  split <;> rfl

/-- The deps of slots exist, they stand on observed objects only, and no two slots share one. -/
structure Tidy (h : Heap) : Prop where
  lt : ∀ {o key d}, h.dep? o key = some d → d.index < h.deps.size
  observed : ∀ {o key d}, h.dep? o key = some d → h.isObserved o
  apart : ∀ {o key x k d}, h.dep? o key = some d → h.dep? x k = some d → o = x ∧ key = k

theorem tidy_empty : Tidy .empty where
  lt hd := by simp [dep?, slot?, object?, empty] at hd
  observed hd := by simp [dep?, slot?, object?, empty] at hd
  apart hd := by simp [dep?, slot?, object?, empty] at hd

namespace Tidy

/-- The deps of slots are the same. -/
theorem of_eq (ht : h.Tidy) (dep : ∀ o key, h'.dep? o key = h.dep? o key)
    (size : h.deps.size ≤ h'.deps.size) (observed : ∀ o, h.isObserved o → h'.isObserved o) :
    h'.Tidy where
  lt hd := Nat.lt_of_lt_of_le (ht.lt ((dep _ _).symm.trans hd)) size
  observed hd := observed _ (ht.observed ((dep _ _).symm.trans hd))
  apart hd hd' := ht.apart ((dep _ _).symm.trans hd) ((dep _ _).symm.trans hd')

/-- A slot is written that keeps its dep. -/
theorem putSlot {s : Slot} (ht : h.Tidy) (hs : s.dep = h.dep? o key) : (h.putSlot o key s).Tidy := by
  refine ht.of_eq (fun x k => ?_) (Nat.le_refl _) fun x hx => (isObserved_putSlot _ _ _ _ _).trans hx
  rw [dep?_putSlot]
  split
  · next he => rw [hs, he.1, he.2.1]
  · rfl

/-- A slot of an observed object is written with a new dep. -/
theorem putNewDep (ht : h.Tidy) (ho : h.isObserved o) (key : String) (v : Value) :
    (h.newDep.2.putSlot o key ⟨v, some h.newDep.1⟩).Tidy := by
  have hdep : ∀ {x k d}, (h.newDep.2.putSlot o key ⟨v, some h.newDep.1⟩).dep? x k = some d →
      (d = h.newDep.1 ∧ x = o ∧ k = key) ∨ h.dep? x k = some d := fun {x k d} hd => by
    rw [dep?_putSlot] at hd
    split at hd
    · next he => exact .inl ⟨(Option.some.inj hd).symm, he.1, he.2.1⟩
    · exact .inr hd
  have hold : ∀ {x k}, h.dep? x k ≠ some h.newDep.1 := fun hd => Nat.lt_irrefl _ (ht.lt hd)
  refine ⟨fun {x k d} hd => ?_, fun {x k d} hd => ?_, fun {x k y l d} hd hd' => ?_⟩
  · rw [deps_putSlot, size_deps_newDep]
    rcases hdep hd with ⟨rfl, -, -⟩ | hd
    · exact Nat.lt_succ_self _
    · exact Nat.lt_succ_of_lt (ht.lt hd)
  · rw [isObserved_putSlot, isObserved_newDep]
    rcases hdep hd with ⟨-, rfl, -⟩ | hd
    · exact ho
    · exact ht.observed hd
  · rcases hdep hd with ⟨rfl, rfl, rfl⟩ | hd
    · rcases hdep hd' with ⟨-, rfl, rfl⟩ | hd'
      · exact ⟨rfl, rfl⟩
      · exact absurd hd' hold
    · rcases hdep hd' with ⟨rfl, -, -⟩ | hd'
      · exact absurd hd hold
      · exact ht.apart hd hd'

theorem installDep (ht : h.Tidy) (ho : h.isObserved o) (key : String) : (h.installDep o key).Tidy := by
  unfold Heap.installDep
  split
  · next v _ => exact ht.putNewDep ho key v
  · exact ht

theorem setObserved (ht : h.Tidy) (o : ObjectId) :
    (h.modifyObject o fun f => { f with observed := true }).Tidy := by
  have hmark := Instruments.setObserved h o
  refine ht.of_eq (fun x k => ?_) hmark.deps hmark.isObserved
  rw [dep?, slot?_setObserved, dep?]

theorem mark (ht : h.Tidy) (o : ObjectId) : (h.mark o).Tidy := by
  have hfold : ∀ (keys : List String) (h : Heap), h.Tidy → h.isObserved o →
      (keys.foldl (fun h key => h.installDep o key) h).Tidy := fun keys => by
    induction keys with
    | nil => exact fun _ ht _ => ht
    | cons key keys ih =>
      exact fun h ht ho =>
        ih _ (ht.installDep ho key) ((Instruments.installDep h o key).isObserved o ho)
  rw [Heap.mark]
  cases hf : h.object? o with
  | none =>
    rw [show h.keys o = [] by rw [keys, hf]]
    exact ht.setObserved o
  | some f =>
    have ho : h.Exists (.object o) := isSome_object?_iff.1 (by rw [hf]; rfl)
    exact hfold _ _ (ht.setObserved o) (isObserved_setObserved ho)

/-- **An observation** leaves deps tidy. -/
theorem observe (ht : h.Tidy) (v : Value) : (h.observe v).Tidy := by
  have hfold : ∀ (l : List ObjectId) (h : Heap), h.Tidy → (l.foldl Heap.mark h).Tidy := fun l => by
    induction l with
    | nil => exact fun _ ht => ht
    | cons o l ih => exact fun h ht => ih _ (ht.mark o)
  unfold Heap.observe
  split
  · exact hfold _ _ ht
  · exact ht

end Tidy

end LiveMarkup.Heap

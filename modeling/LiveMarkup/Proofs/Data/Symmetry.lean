import LiveMarkup.Proofs.Data.Equality

/-!
# Symmetry of equality

The walk remembers containers and not pairs of them. Where a container is met again further down in a
new pair, it says that the pair is equal, whatever the other side of the pair is; so the answer can
depend on the order of the two sides. It does not where a container is met again with the same other
one only, as it is by two values that hold themselves in step.

* `Heap.Partnered`: a container is met again with its first partner only.
* `partnered_of_not_crosses`: values that do not hold themselves, without containers that cross.
* `Heap.CongruentUpTo`: equal unfoldings, but for pairs that are taken for granted.
* `CongruentUpTo.of_matches`: a pair may be taken for granted further down its own unfoldings.
* **`Reached.congruentUpTo`**: what the walk finds equal has equal unfoldings but for the pairs under
  comparison.
* **`equal_comm_of_partnered`**: equality is exact, and so symmetric, where containers keep their
  partners.
* `not_equal_comm`: values whose equality depends on the order.
-/

namespace LiveMarkup.Heap

variable {h : Heap} {v w v' w' x y : Value} {S : Value → Value → Prop} {free : List Container}
  {k : Key}

/-! ## Partners -/

/-- A container that two values meet again, further down a path on which they have met it, is met
with the same other container. Two handles of one container end a comparison and do not count. -/
def Partnered (h : Heap) (v w : Value) : Prop :=
  ∀ p q (c c' d d' : Container), h.at? v p = some c.value → h.at? w p = some c'.value →
    h.at? v (p ++ q) = some d.value → h.at? w (p ++ q) = some d'.value → d ≠ d' →
    (d = c ∨ d = c' ∨ d' = c ∨ d' = c') → (d = c ∧ d' = c') ∨ (d = c' ∧ d' = c)

theorem Partnered.symm (hp : h.Partnered v w) : h.Partnered w v := by
  intro p q c c' d d' hc hc' hd hd' hne hshared
  have hpair := hp p q c' c d' d hc' hc hd' hd hne.symm (by tauto)
  tauto

theorem Partnered.child (hp : h.Partnered v w) (hv : h.child? v k = some v')
    (hw : h.child? w k = some w') : h.Partnered v' w' := by
  intro p q c c' d d' hc hc' hd hd'
  apply hp (k :: p) q c c' d d'
  · rw [at?_cons hv, hc]
  · rw [at?_cons hw, hc']
  · rw [List.cons_append, at?_cons hv, hd]
  · rw [List.cons_append, at?_cons hw, hd']

/-- The containers of two values that neither hold themselves nor cross are never met again. -/
theorem partnered_of_not_crosses (acyclicLeft : h.Acyclic v) (acyclicRight : h.Acyclic w)
    (apart : ¬ h.Crosses v w) (apart' : ¬ h.Crosses w v) : h.Partnered v w := by
  intro p q c c' d d' hc hc' hd hd' hne hshared
  by_cases hq : q = []
  · subst hq
    rw [List.append_nil] at hd hd'
    have hdc : d.value = c.value := Option.some.inj (hd.symm.trans hc)
    have hdc' : d'.value = c'.value := Option.some.inj (hd'.symm.trans hc')
    exact .inl ⟨Container.value_injective hdc, Container.value_injective hdc'⟩
  · rcases hshared with rfl | rfl | rfl | rfl
    · exact absurd ⟨p, q, d, hq, hc, hd⟩ acyclicLeft.not_crosses
    · exact absurd ⟨p, q, d, hq, hc', hd⟩ apart'
    · exact absurd ⟨p, q, d', hq, hc, hd'⟩ apart
    · exact absurd ⟨p, q, d', hq, hc', hd'⟩ acyclicRight.not_crosses

/-! ## Equal unfoldings, up to pairs taken for granted -/

/-- Two values have equal unfoldings, where pairs of a relation are taken for granted below them. -/
def CongruentUpTo (h : Heap) (S : Value → Value → Prop) (v w : Value) : Prop :=
  ∃ R : Value → Value → Prop, R v w ∧ ∀ x y, R x y → h.Matches (fun x y => R x y ∨ S x y) x y

/-- A relation with one more pair, in both orders. -/
def withPair (S : Value → Value → Prop) (v w x y : Value) : Prop :=
  S x y ∨ (x = v ∧ y = w) ∨ (x = w ∧ y = v)

theorem withPair_symm (hS : ∀ x y, S x y → S y x) (hxy : withPair S v w x y) :
    withPair S v w y x := by
  rcases hxy with hxy | ⟨hx, hy⟩ | ⟨hx, hy⟩
  · exact .inl (hS x y hxy)
  · exact .inr (.inr ⟨hy, hx⟩)
  · exact .inr (.inl ⟨hy, hx⟩)

theorem CongruentUpTo.of_same (hs : v.same w) : h.CongruentUpTo S v w :=
  ⟨fun x y => x.same y, hs, fun x y hxy => .same x y hxy⟩

theorem CongruentUpTo.matched (hc : h.CongruentUpTo S v w) :
    h.Matches (fun x y => h.CongruentUpTo S x y ∨ S x y) v w := by
  obtain ⟨R, hvw, hR⟩ := hc
  exact (hR v w hvw).mono fun x y hxy => hxy.imp_left fun hxy => ⟨R, hxy, hR⟩

theorem CongruentUpTo.symm (hS : ∀ x y, S x y → S y x) (hc : h.CongruentUpTo S v w) :
    h.CongruentUpTo S w v := by
  obtain ⟨R, hvw, hR⟩ := hc
  refine ⟨fun x y => R y x, hvw, fun x y hxy => ?_⟩
  exact (hR y x hxy).symm.mono fun a b hab => hab.imp_right (hS b a)

theorem CongruentUpTo.congruent (hc : h.CongruentUpTo (fun _ _ => False) v w) :
    h.Congruent v w := by
  obtain ⟨R, hvw, hR⟩ := hc
  refine ⟨R, fun x y hxy => (hR x y hxy).mono fun x y hxy => ?_, hvw⟩
  exact hxy.resolve_right id

/-- A pair that passes a step has equal unfoldings if what it holds has, with the pair itself taken
for granted. -/
theorem CongruentUpTo.of_matches (hS : ∀ x y, S x y → S y x)
    (hm : h.Matches (fun x y => h.CongruentUpTo (withPair S v w) x y ∨ withPair S v w x y) v w) :
    h.CongruentUpTo S v w := by
  have hsymm : ∀ x y, withPair S v w x y → withPair S v w y x := fun _ _ => withPair_symm hS
  -- The pair is granted to the values below it; it is among those to be matched itself instead.
  have regroup : ∀ x y, h.CongruentUpTo (withPair S v w) x y ∨ withPair S v w x y →
      (h.CongruentUpTo (withPair S v w) x y ∨ (x = v ∧ y = w) ∨ (x = w ∧ y = v)) ∨ S x y := by
    intro x y hxy
    unfold withPair at hxy ⊢
    tauto
  refine ⟨fun x y => h.CongruentUpTo (withPair S v w) x y ∨ (x = v ∧ y = w) ∨ (x = w ∧ y = v),
    .inr (.inl ⟨rfl, rfl⟩), fun x y hxy => ?_⟩
  rcases hxy with hxy | ⟨rfl, rfl⟩ | ⟨rfl, rfl⟩
  · exact hxy.matched.mono regroup
  · exact hm.mono regroup
  · refine hm.symm.mono fun a b hab => regroup a b ?_
    exact hab.imp (CongruentUpTo.symm hsymm) (hsymm b a)

/-! ## The walk -/

/-- Two values that the walk has reached: the containers below them that are under comparison are met
in the pairs in which they are compared. -/
structure Reached (h : Heap) (free : List Container) (S : Value → Value → Prop) (v w : Value) :
    Prop where
  symmetric : ∀ x y, S x y → S y x
  partnered : h.Partnered v w
  met : ∀ p (d d' : Container), h.at? v p = some d.value → h.at? w p = some d'.value → d ≠ d' →
    d ∉ free ∨ d' ∉ free → S d.value d'.value

theorem Reached.symm (hr : h.Reached free S v w) : h.Reached free S w v where
  symmetric := hr.symmetric
  partnered := hr.partnered.symm
  met p d d' hd hd' hne hfree := hr.symmetric _ _ (hr.met p d' d hd' hd hne.symm hfree.symm)

/-- What two containers hold is reached with their pair under comparison. -/
theorem Reached.child (c c' : Container) (hr : h.Reached free S c.value c'.value)
    (hv : h.child? c.value k = some v') (hw : h.child? c'.value k = some w') :
    h.Reached (free.erase c) (withPair S c.value c'.value) v' w' where
  symmetric _ _ := withPair_symm hr.symmetric
  partnered := hr.partnered.child hv hw
  met p d d' hd hd' hne hfree := by
    have hd : h.at? c.value (k :: p) = some d.value := (at?_cons hv p).trans hd
    have hd' : h.at? c'.value (k :: p) = some d'.value := (at?_cons hw p).trans hd'
    by_cases hc : d = c ∨ d' = c
    · have hpair := hr.partnered [] (k :: p) c c' d d' rfl rfl hd hd' hne (by tauto)
      rcases hpair with ⟨rfl, rfl⟩ | ⟨rfl, rfl⟩
      · exact .inr (.inl ⟨rfl, rfl⟩)
      · exact .inr (.inr ⟨rfl, rfl⟩)
    · obtain ⟨hdc, hdc'⟩ := not_or.1 hc
      rw [List.mem_erase_of_ne hdc, List.mem_erase_of_ne hdc'] at hfree
      exact .inl (hr.met (k :: p) d d' hd hd' hne hfree)

/-- A container under comparison is met in the pair in which it is compared. -/
theorem Reached.of_not_mem (c c' : Container) (hr : h.Reached free S c.value c'.value)
    (hc : c ∉ free) : h.CongruentUpTo S c.value c'.value ∨ S c.value c'.value := by
  by_cases hcc : c = c'
  · subst hcc
    exact .inl (.of_same (c.same_value))
  · exact .inr (hr.met [] c c' rfl rfl hcc (.inl hc))

/-- **What the walk finds equal has equal unfoldings**, but for the pairs under comparison. -/
theorem Reached.congruentUpTo (hr : h.Reached free S v w) (he : h.equalIn free v w) :
    h.CongruentUpTo S v w ∨ S v w := by
  -- By induction on the containers that are not under comparison yet.
  induction hn : free.length using Nat.strongRecOn generalizing free S v w with
  | ind n ih =>
    subst hn
    have hwalk := he
    unfold Heap.equalIn at he
    split at he
    · next a b =>
      by_cases hfree : .array a ∈ free
      · rcases equalIn_array_iff.1 hwalk with rfl | hn | ⟨length, hitems⟩
        · exact .inl (.of_same (Container.same_value (.array a)))
        · exact absurd hfree hn
        · refine .inl (.of_matches hr.symmetric (.array a b length fun i x y hx hy => ?_))
          have hreached := hr.child (.array a) (.array b) (k := .index i) hx hy
          exact ih _ (length_erase_lt hfree) hreached (hitems i x y hx hy) rfl
      · exact hr.of_not_mem (.array a) (.array b) hfree
    · next a b =>
      by_cases hfree : .object a ∈ free
      · rcases equalIn_object_iff.1 hwalk with rfl | hn | ⟨keys, hvalues⟩
        · exact .inl (.of_same (Container.same_value (.object a)))
        · exact absurd hfree hn
        · refine .inl (.of_matches hr.symmetric (.object a b keys fun key x y hx hy => ?_))
          have hreached := hr.child (.object a) (.object b) (k := .name key) hx hy
          -- The values of two objects are compared with their sides exchanged.
          have hswapped := ih _ (length_erase_lt hfree) hreached.symm (hvalues key x y hx hy) rfl
          exact hswapped.imp (.symm hreached.symmetric) (hreached.symmetric y x)
      · exact hr.of_not_mem (.object a) (.object b) hfree
    · exact .inl (.of_same he)

/-- **Equality does not depend on the order** of two values whose containers keep their partners, and
says then exactly whether their unfoldings are equal, whether or not they hold themselves. -/
theorem equal_comm_of_partnered (hg : h.Grounded) (hv : h.Exists v) (hw : h.Exists w)
    (hp : h.Partnered v w) :
    (h.equal v w ↔ h.Congruent v w) ∧ h.equal v w = h.equal w v := by
  have hroot : ∀ x y, h.Exists x → h.Exists y → h.Partnered x y →
      (h.equal x y ↔ h.Congruent x y) := by
    intro x y hx hy hxy
    refine ⟨fun he => ?_, fun hc => (hc.equalIn h.containers).1⟩
    have hreached : h.Reached h.containers (fun _ _ => False) x y :=
      { symmetric := fun _ _ => id
        partnered := hxy
        met := fun p d d' hd hd' _ hfree => by
          have hfree := hfree.resolve_left (not_not_intro (mem_containers.2 (hg.at? hx hd)))
          exact hfree (mem_containers.2 (hg.at? hy hd')) }
    exact ((hreached.congruentUpTo he).resolve_right id).congruent
  have hleft := hroot v w hv hw hp
  have hright := hroot w v hw hv hp.symm
  refine ⟨hleft, Bool.eq_iff_iff.2 ?_⟩
  rw [hleft, hright]
  exact ⟨Congruent.symm, Congruent.symm⟩

/-! ## Values that hold themselves -/

/-- Two arrays each of which holds itself alone, and an array that holds an empty one. -/
def looped : Heap where
  objects := #[]
  arrays := #[[.array ⟨0⟩], [.array ⟨1⟩], [.array ⟨3⟩], []]
  deps := #[]

theorem grounded_looped : looped.Grounded where
  slot hp := by cases hp
  item := by
    rintro ⟨_ | _ | _ | _ | n⟩ v hv
    · obtain rfl := List.mem_singleton.1 hv
      exact (by decide : 0 < 4)
    · obtain rfl := List.mem_singleton.1 hv
      exact (by decide : 1 < 4)
    · obtain rfl := List.mem_singleton.1 hv
      exact (by decide : 3 < 4)
    · cases hv
    · cases hv

/-- From an array that holds itself alone all paths lead to itself. -/
theorem at?_of_items_eq {a : ArrayId} (ha : h.items a = [.array a]) {p : List Key}
    (hp : h.at? (.array a) p = some v) : v = .array a := by
  induction p with
  | nil => exact (Option.some.inj hp).symm
  | cons k p ih =>
    obtain ⟨u, hu, hp⟩ := Option.bind_eq_some_iff.1 hp
    have hself : u = .array a := by
      cases k with
      | index i =>
        have hu : (h.items a)[i]? = some u := hu
        rw [ha] at hu
        exact List.mem_singleton.1 (List.mem_of_getElem? hu)
      | name key => cases hu
    exact ih (hself ▸ hp)

theorem equal_comm_looped :
    looped.equal (.array ⟨0⟩) (.array ⟨1⟩) = true ∧
      looped.Congruent (.array ⟨0⟩) (.array ⟨1⟩) ∧
      looped.equal (.array ⟨0⟩) (.array ⟨1⟩) = looped.equal (.array ⟨1⟩) (.array ⟨0⟩) := by
  have hpartnered : looped.Partnered (.array ⟨0⟩) (.array ⟨1⟩) := by
    intro p q c c' d d' hc hc' hd hd' _ _
    have hcd := (at?_of_items_eq rfl hd).trans (at?_of_items_eq rfl hc).symm
    have hcd' := (at?_of_items_eq rfl hd').trans (at?_of_items_eq rfl hc').symm
    exact .inl ⟨Container.value_injective hcd, Container.value_injective hcd'⟩
  have hcomm := equal_comm_of_partnered grounded_looped (v := .array ⟨0⟩) (w := .array ⟨1⟩)
    (by decide : 0 < 4) (by decide : 1 < 4) hpartnered
  have hequal : looped.equal (.array ⟨0⟩) (.array ⟨1⟩) = true := by cbv
  exact ⟨hequal, hcomm.1.1 hequal, hcomm.2⟩

/-- Equality can depend on the order: of values that do not hold themselves, where a container of one
is met again further down the other, and of an array that holds itself and one that does not. -/
theorem not_equal_comm :
    (shared.equal (.object ⟨1⟩) (.object ⟨3⟩) = true ∧
      shared.equal (.object ⟨3⟩) (.object ⟨1⟩) = false) ∧
      (looped.equal (.array ⟨0⟩) (.array ⟨2⟩) = true ∧
        looped.equal (.array ⟨2⟩) (.array ⟨0⟩) = false) := by
  refine ⟨⟨?_, ?_⟩, ?_, ?_⟩ <;> cbv

end LiveMarkup.Heap

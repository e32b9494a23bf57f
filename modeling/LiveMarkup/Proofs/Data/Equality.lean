import Mathlib.Data.List.Permutation
import Mathlib.Data.List.Perm.Subperm
import LiveMarkup.Data.Equality
import LiveMarkup.Proofs.Data.Wellformed

/-!
# Equality and unfoldings

Values with equal unfoldings are equal. The converse fails already for values that do not hold
themselves: a container that one side holds, and the other side holds further down, is taken for one
that holds itself.

* `Heap.Matches`, `Heap.Congruent`: one step of a comparison, and values with equal unfoldings.
* `equalIn_array_iff`, `equalIn_object_iff`: what the walk compares.
* **`Congruent.equalIn`**: values with equal unfoldings are equal, on every heap.
* `Heap.Crosses`: a container on one side that is met again further down the other.
* **`Comparable.congruent`**: where no container crosses, equal values have equal unfoldings.
* **`equal_iff_congruent`**: the two together, for values that do not hold themselves.
* `equal_of_not_congruent`: a pair of values that cross.
-/

namespace LiveMarkup

/-- The handle of a container. -/
def Container.value : Container → Value
  | array a => .array a
  | object o => .object o

theorem Container.value_injective {c d : Container} (hcd : c.value = d.value) : c = d := by
  cases c <;> cases d <;> cases hcd <;> rfl

theorem Container.same_value (c : Container) : c.value.same c.value := by
  cases c <;> exact beq_self_eq_true _

namespace Heap

variable {h : Heap} {v w u : Value} {R : Value → Value → Prop} {free : List Container}

/-! ## Unfoldings -/

/-- One step of a comparison, relative to a relation of the values that two containers hold. -/
inductive Matches (h : Heap) (R : Value → Value → Prop) : Value → Value → Prop where
  | same (v w : Value) (same : v.same w) : Matches h R v w
  | array (a b : ArrayId) (length : (h.items a).length = (h.items b).length)
      (items : ∀ (i : Nat) v w, (h.items a)[i]? = some v → (h.items b)[i]? = some w → R v w) :
      Matches h R (.array a) (.array b)
  | object (a b : ObjectId) (keys : ∀ key, (h.peek a key).isSome = (h.peek b key).isSome)
      (values : ∀ key v w, h.peek a key = some v → h.peek b key = some w → R v w) :
      Matches h R (.object a) (.object b)

/-- A relation all of whose pairs pass a step of the comparison. -/
def Bisimulation (h : Heap) (R : Value → Value → Prop) : Prop := ∀ v w, R v w → h.Matches R v w

/-- Two values have equal unfoldings. Two handles of one container always count as equal. -/
def Congruent (h : Heap) (v w : Value) : Prop := ∃ R, h.Bisimulation R ∧ R v w

theorem Matches.mono {S : Value → Value → Prop} (hs : h.Matches R v w) (hRS : ∀ v w, R v w → S v w) :
    h.Matches S v w := by
  cases hs with
  | same v w same => exact .same v w same
  | array a b length items => exact .array a b length fun i v w hv hw => hRS v w (items i v w hv hw)
  | object a b keys values =>
    exact .object a b keys fun key v w hv hw => hRS v w (values key v w hv hw)

theorem Matches.symm (hs : h.Matches R v w) : h.Matches (fun v w => R w v) w v := by
  cases hs with
  | same v w same => exact .same w v (Value.same_comm v w ▸ same)
  | array a b length items =>
    exact .array b a length.symm fun i v w hv hw => items i w v hw hv
  | object a b keys values =>
    exact .object b a (fun key => (keys key).symm) fun key v w hv hw => values key w v hw hv

theorem Congruent.matched (hc : h.Congruent v w) : h.Matches h.Congruent v w := by
  obtain ⟨R, hR, hvw⟩ := hc
  exact (hR v w hvw).mono fun v w hvw => ⟨R, hR, hvw⟩

theorem Congruent.symm (hc : h.Congruent v w) : h.Congruent w v := by
  obtain ⟨R, hR, hvw⟩ := hc
  exact ⟨fun v w => R w v, fun v w hvw => (hR w v hvw).symm, hvw⟩

/-! ## What the walk compares -/

theorem equalIn_of_same (hs : v.same w) (free : List Container) : h.equalIn free v w := by
  unfold equalIn
  split
  · rw [if_pos (Value.array.inj (beq_iff_eq.1 hs))]
  · rw [if_pos (Value.object.inj (beq_iff_eq.1 hs))]
  · exact hs

theorem equalIn_array_iff {a b : ArrayId} : h.equalIn free (.array a) (.array b) ↔
    a = b ∨ .array a ∉ free ∨ (h.items a).length = (h.items b).length ∧
      ∀ (i : Nat) v w, (h.items a)[i]? = some v → (h.items b)[i]? = some w →
        h.equalIn (free.erase (.array a)) v w := by
  rw [equalIn]
  split
  · next hab => simp [hab]
  split
  · next hab hfree =>
    rw [Bool.and_eq_true, beq_iff_eq, List.all_eq_true, or_iff_right hab,
      or_iff_right (not_not_intro hfree)]
    refine and_congr_right fun _ => ⟨fun hall i v w hv hw => ?_, fun hall p hp => ?_⟩
    · exact hall (v, w) (List.mem_of_getElem? (List.getElem?_zip_eq_some.2 ⟨hv, hw⟩))
    · obtain ⟨i, hi⟩ := List.mem_iff_getElem?.1 hp
      obtain ⟨hv, hw⟩ := List.getElem?_zip_eq_some.1 hi
      exact hall i p.1 p.2 hv hw
  · next hfree => simp [hfree]

/-- Tables of one length, all keys of one of them being keys of the other, have the same keys. -/
theorem isSome_findEntry_iff {α : Type} {es fs : List (String × α)} (hes : (es.map Prod.fst).Nodup)
    (hfs : (fs.map Prod.fst).Nodup) :
    (es.length = fs.length ∧ ∀ e ∈ es, (findEntry e.1 fs).isSome) ↔
      ∀ key, (findEntry key es).isSome = (findEntry key fs).isSome := by
  have hmem : ∀ (key : String) (gs : List (String × α)),
      (findEntry key gs).isSome ↔ key ∈ gs.map Prod.fst := fun key gs => by
    rw [Option.isSome_iff_ne_none, ne_eq, findEntry_eq_none_iff, Decidable.not_not]
  constructor
  · rintro ⟨hlength, hsub⟩ key
    have hsubset : es.map Prod.fst ⊆ fs.map Prod.fst := fun key hkey => by
      obtain ⟨e, he, rfl⟩ := List.mem_map.1 hkey
      exact (hmem e.1 fs).1 (hsub e he)
    have hperm := (hes.subperm hsubset).perm_of_length_le (by simp [hlength])
    rw [Bool.eq_iff_iff, hmem, hmem, hperm.mem_iff]
  · intro hkeys
    have hiff : ∀ key, key ∈ es.map Prod.fst ↔ key ∈ fs.map Prod.fst := fun key => by
      rw [← hmem, ← hmem, hkeys]
    refine ⟨?_, fun e he => ?_⟩
    · have hperm := (List.perm_ext_iff_of_nodup hes hfs).2 hiff
      simpa using hperm.length_eq
    · exact (hmem e.1 fs).2 ((hiff e.1).1 (List.mem_map.2 ⟨e, he, rfl⟩))

theorem equalIn_object_iff {a b : ObjectId} : h.equalIn free (.object a) (.object b) ↔
    a = b ∨ .object a ∉ free ∨ (∀ key, (h.peek a key).isSome = (h.peek b key).isSome) ∧
      ∀ key v w, h.peek a key = some v → h.peek b key = some w →
        h.equalIn (free.erase (.object a)) w v := by
  rw [equalIn]
  split
  · next hab => simp [hab]
  split
  · next hab hfree =>
    have hkeys := isSome_findEntry_iff (h.nodup_members a) (h.nodup_members b)
    simp only [← peek_eq_findEntry] at hkeys
    rw [Bool.and_eq_true, beq_iff_eq, List.all_eq_true, or_iff_right hab,
      or_iff_right (not_not_intro hfree), ← hkeys]
    constructor
    · rintro ⟨hlength, hall⟩
      refine ⟨⟨hlength, fun e he => ?_⟩, fun key v w hv hw => ?_⟩
      · have hstep := hall e he
        split at hstep
        · next hw => rw [hw]; rfl
        · cases hstep
      · rw [peek_eq_findEntry] at hv
        have hstep := hall (key, v) (mem_of_findEntry hv)
        rw [hw] at hstep
        exact hstep
    · rintro ⟨⟨hlength, hsome⟩, hall⟩
      refine ⟨hlength, fun e he => ?_⟩
      obtain ⟨w, hw⟩ := Option.isSome_iff_exists.1 (hsome e he)
      have hv : h.peek a e.1 = some e.2 := by
        rw [peek_eq_findEntry]
        exact (findEntry_eq_some_iff (h.nodup_members a)).2 he
      rw [hw]
      exact hall e.1 e.2 w hv hw
  · next hfree => simp [hfree]

/-! ## Equal unfoldings -/

/-- What two values have in common where they differ at most in what is compared further down. -/
theorem equalIn_of_matches (hm : h.Matches R v w)
    (below : ∀ c ∈ free, ∀ v w, R v w →
      h.equalIn (free.erase c) v w ∧ h.equalIn (free.erase c) w v) : h.equalIn free v w := by
  cases hm with
  | same v w same => exact equalIn_of_same same free
  | array a b length items =>
    refine equalIn_array_iff.2 (.inr (or_iff_not_imp_left.2 fun hfree => ⟨length, ?_⟩))
    exact fun i v w hv hw => (below _ (not_not.1 hfree) v w (items i v w hv hw)).1
  | object a b keys values =>
    refine equalIn_object_iff.2 (.inr (or_iff_not_imp_left.2 fun hfree => ⟨keys, ?_⟩))
    exact fun key v w hv hw => (below _ (not_not.1 hfree) v w (values key v w hv hw)).2

theorem length_erase_lt {c : Container} (hc : c ∈ free) :
    (free.erase c).length < free.length := by
  rw [List.length_erase_of_mem hc]
  exact Nat.sub_lt (List.length_pos_of_mem hc) Nat.one_pos

/-- **Values with equal unfoldings are equal**, in either order and within any containers under
comparison. -/
theorem Congruent.equalIn (hc : h.Congruent v w) (free : List Container) :
    h.equalIn free v w ∧ h.equalIn free w v := by
  induction hn : free.length using Nat.strongRecOn generalizing free v w with
  | ind n ih =>
    have below : ∀ c ∈ free, ∀ v w, h.Congruent v w →
        h.equalIn (free.erase c) v w ∧ h.equalIn (free.erase c) w v := fun c hfree v w hvw =>
      ih (free.erase c).length (hn ▸ length_erase_lt hfree) hvw (free.erase c) rfl
    exact ⟨equalIn_of_matches hc.matched below, equalIn_of_matches hc.symm.matched below⟩

/-! ## Paths -/

/-- A step from a container to a value that it holds. -/
inductive Key where
  | index (i : Nat)
  | name (key : String)

/-- The value that a container holds at a key. -/
def child? (h : Heap) : Value → Key → Option Value
  | .array a, .index i => (h.items a)[i]?
  | .object o, .name key => h.peek o key
  | _, _ => none

/-- The value at the end of a path of keys. -/
def at? (h : Heap) (v : Value) : List Key → Option Value
  | [] => some v
  | k :: ks => (h.child? v k).bind fun u => h.at? u ks

theorem at?_append (v : Value) (p q : List Key) :
    h.at? v (p ++ q) = (h.at? v p).bind fun u => h.at? u q := by
  induction p generalizing v with
  | nil => rfl
  | cons k p ih =>
    rw [List.cons_append, at?, at?, Option.bind_assoc]
    exact congrArg _ (funext fun u => ih u)

theorem at?_cons {k : Key} (hk : h.child? v k = some u) (p : List Key) :
    h.at? v (k :: p) = h.at? u p := by
  rw [at?, hk]
  rfl

/-- The paths of existing values lead to existing values. -/
theorem Grounded.at? (hg : h.Grounded) (hv : h.Exists v) {p : List Key} (hp : h.at? v p = some u) :
    h.Exists u := by
  induction p generalizing v with
  | nil => exact Option.some.inj hp ▸ hv
  | cons k p ih =>
    rw [Heap.at?] at hp
    obtain ⟨x, hx, hp⟩ := Option.bind_eq_some_iff.1 hp
    refine ih ?_ hp
    unfold child? at hx
    split at hx
    · exact hg.item (List.mem_of_getElem? hx)
    · exact hg.slot hx
    · cases hx

/-- No container below a value can be got to from itself. -/
def Acyclic (h : Heap) (v : Value) : Prop :=
  ∀ p (c : Container), h.at? v p = some c.value → ∀ q, q ≠ [] → h.at? c.value q ≠ some c.value

/-- A container at the end of a path from one value is met again further down that path from another. -/
def Crosses (h : Heap) (v w : Value) : Prop :=
  ∃ p q, ∃ c : Container, q ≠ [] ∧ h.at? v p = some c.value ∧ h.at? w (p ++ q) = some c.value

theorem Acyclic.not_crosses (hv : h.Acyclic v) : ¬ h.Crosses v v := by
  rintro ⟨p, q, c, hq, hp, hpq⟩
  rw [at?_append, hp] at hpq
  exact hv p c hp q hq hpq

theorem Crosses.of_child {v' w' : Value} {k : Key} (hc : h.Crosses v' w')
    (hv : h.child? v k = some v') (hw : h.child? w k = some w') : h.Crosses v w := by
  obtain ⟨p, q, c, hq, hp, hpq⟩ := hc
  exact ⟨k :: p, q, c, hq, (at?_cons hv p).trans hp, (at?_cons hw (p ++ q)).trans hpq⟩

/-- A container is found below what it holds. -/
theorem Crosses.of_below {c : Container} {w' : Value} {k : Key} {p : List Key} (hv : c.value = v)
    (hw : h.child? w k = some w') (hp : h.at? w' p = some c.value) : h.Crosses v w :=
  ⟨[], k :: p, c, List.cons_ne_nil k p, congrArg some hv.symm, (at?_cons hw p).trans hp⟩

/-! ## Equal values -/

theorem mem_containers {c : Container} : c ∈ h.containers ↔ h.Exists c.value := by
  cases c with
  | array a =>
    obtain ⟨i⟩ := a
    simp [containers, arrayIds, objectIds, Container.value, Exists]
  | object o =>
    obtain ⟨i⟩ := o
    simp [containers, arrayIds, objectIds, Container.value, Exists]

/-- Two values none of whose containers is under comparison, and none of which crosses. -/
structure Comparable (h : Heap) (free : List Container) (v w : Value) : Prop where
  left : ∀ p (c : Container), h.at? v p = some c.value → c ∈ free
  right : ∀ p (c : Container), h.at? w p = some c.value → c ∈ free
  acyclicLeft : ¬ h.Crosses v v
  acyclicRight : ¬ h.Crosses w w
  apart : ¬ h.Crosses v w
  apart' : ¬ h.Crosses w v

theorem Comparable.symm (hc : h.Comparable free v w) : h.Comparable free w v :=
  ⟨hc.right, hc.left, hc.acyclicRight, hc.acyclicLeft, hc.apart', hc.apart⟩

/-- What two comparable containers hold is comparable within one of them. -/
theorem Comparable.child {v' w' : Value} {k : Key} {c : Container} (hc : h.Comparable free v w)
    (hcv : c.value = v) (hv : h.child? v k = some v') (hw : h.child? w k = some w') :
    h.Comparable (free.erase c) v' w' where
  left p d hp := by
    have hne : d ≠ c := by
      rintro rfl
      exact hc.acyclicLeft (.of_below hcv hv hp)
    exact (List.mem_erase_of_ne hne).2 (hc.left (k :: p) d ((at?_cons hv p).trans hp))
  right p d hp := by
    have hne : d ≠ c := by
      rintro rfl
      exact hc.apart (.of_below hcv hw hp)
    exact (List.mem_erase_of_ne hne).2 (hc.right (k :: p) d ((at?_cons hw p).trans hp))
  acyclicLeft hx := hc.acyclicLeft (hx.of_child hv hv)
  acyclicRight hx := hc.acyclicRight (hx.of_child hw hw)
  apart hx := hc.apart (hx.of_child hv hw)
  apart' hx := hc.apart' (hx.of_child hw hv)

/-- Two comparable values that the walk finds equal, in one order or the other. -/
def Found (h : Heap) (v w : Value) : Prop :=
  ∃ free, h.Comparable free v w ∧ (h.equalIn free v w ∨ h.equalIn free w v)

theorem Found.symm (hf : h.Found v w) : h.Found w v := by
  obtain ⟨free, hc, he⟩ := hf
  exact ⟨free, hc.symm, he.symm⟩

/-- Equal values that are comparable pass a step of the comparison. -/
theorem Comparable.matches (hc : h.Comparable free v w) (he : h.equalIn free v w) :
    h.Matches h.Found v w := by
  have hwalk := he
  unfold Heap.equalIn at he
  split at he
  · next a b =>
    have hfree : .array a ∈ free := hc.left [] (.array a) rfl
    rcases equalIn_array_iff.1 hwalk with rfl | hn | ⟨length, hitems⟩
    · exact .same _ _ (beq_self_eq_true _)
    · exact absurd hfree hn
    · refine .array a b length fun i v w hv hw => ⟨free.erase (.array a), ?_, ?_⟩
      · exact hc.child (k := .index i) (c := .array a) rfl hv hw
      · exact .inl (hitems i v w hv hw)
  · next a b =>
    have hfree : .object a ∈ free := hc.left [] (.object a) rfl
    rcases equalIn_object_iff.1 hwalk with rfl | hn | ⟨keys, hvalues⟩
    · exact .same _ _ (beq_self_eq_true _)
    · exact absurd hfree hn
    · refine .object a b keys fun key v w hv hw => ⟨free.erase (.object a), ?_, ?_⟩
      · exact hc.child (k := .name key) (c := .object a) rfl hv hw
      · exact .inr (hvalues key v w hv hw)
  · exact .same _ _ he

/-- **Equal values have equal unfoldings** if they are comparable. -/
theorem Comparable.congruent (hc : h.Comparable free v w) (he : h.equalIn free v w) :
    h.Congruent v w := by
  refine ⟨h.Found, fun v w hf => ?_, free, hc, .inl he⟩
  obtain ⟨free, hc, he | he⟩ := hf
  · exact hc.matches he
  · exact (hc.symm.matches he).symm.mono fun _ _ => Found.symm

/-- **Equality of values that do not hold themselves.** Values with equal unfoldings are equal; equal
values have equal unfoldings unless a container of one is met again further down the other. -/
theorem equal_iff_congruent (hg : h.Grounded) (hv : h.Exists v) (hw : h.Exists w)
    (acyclicLeft : h.Acyclic v) (acyclicRight : h.Acyclic w) :
    (h.Congruent v w → h.equal v w) ∧
      (¬ h.Crosses v w → ¬ h.Crosses w v → (h.equal v w ↔ h.Congruent v w)) := by
  have complete : h.Congruent v w → h.equal v w := fun hc => (hc.equalIn h.containers).1
  refine ⟨complete, fun apart apart' => ⟨fun he => ?_, complete⟩⟩
  have hcomparable : h.Comparable h.containers v w :=
    ⟨fun p c hp => mem_containers.2 (hg.at? hv hp), fun p c hp => mem_containers.2 (hg.at? hw hp),
      acyclicLeft.not_crosses, acyclicRight.not_crosses, apart, apart'⟩
  exact hcomparable.congruent he

/-! ## Crossing values -/

/-- Where every step down leaves one level, values on one level do not cross. -/
theorem not_crosses_of_level {level : Value → Nat}
    (hlevel : ∀ v k u, h.child? v k = some u → level u + 1 = level v) (hvw : level v = level w) :
    ¬ h.Crosses v w := by
  have hpath : ∀ p v u, h.at? v p = some u → level u + p.length = level v := fun p => by
    induction p with
    | nil => exact fun v u hp => congrArg level (Option.some.inj hp).symm
    | cons k p ih =>
      intro v u hp
      rw [at?] at hp
      obtain ⟨x, hx, hp⟩ := Option.bind_eq_some_iff.1 hp
      rw [← hlevel v k x hx, ← ih x u hp, List.length_cons, Nat.add_assoc]
  rintro ⟨p, q, c, hq, hp, hpq⟩
  have hv := hpath p v c.value hp
  have hw := hpath (p ++ q) w c.value hpq
  rw [List.length_append] at hw
  have hlength : q.length = 0 := by omega
  exact hq (List.length_eq_zero_iff.1 hlength)

theorem acyclic_of_level {level : Value → Nat}
    (hlevel : ∀ v k u, h.child? v k = some u → level u + 1 = level v) (v : Value) : h.Acyclic v :=
  fun _ c _ q hq hcc => not_crosses_of_level hlevel (v := c.value) rfl ⟨[], q, c, hq, rfl, hcc⟩

/-- An empty object, two objects that hold it under one key, and one that holds one of these. -/
def shared : Heap where
  objects := #[⟨Table.ofList [], false⟩,
    ⟨Table.ofList [("k", ⟨.object ⟨0⟩, none⟩)], false⟩,
    ⟨Table.ofList [("k", ⟨.object ⟨0⟩, none⟩)], false⟩,
    ⟨Table.ofList [("k", ⟨.object ⟨1⟩, none⟩)], false⟩]
  arrays := #[]
  deps := #[]

/-- How many objects a value of `shared` holds one in the other. -/
def sharedLevel : Value → Nat
  | .object ⟨1⟩ => 1
  | .object ⟨2⟩ => 1
  | .object ⟨3⟩ => 2
  | _ => 0

theorem peek_shared {o : ObjectId} {key : String} (hp : shared.peek o key = some v) :
    (o, v) ∈ [(⟨1⟩, .object ⟨0⟩), (⟨2⟩, .object ⟨0⟩), (⟨3⟩, .object ⟨1⟩)] := by
  have hfind : ∀ x, shared.members o = [("k", x)] → v = x := fun x hm => by
    rw [peek_eq_findEntry, hm, findEntry] at hp
    split at hp
    · exact (Option.some.inj hp).symm
    · cases hp
  obtain ⟨_ | _ | _ | _ | n⟩ := o
  · cases hp
  · simp [hfind (.object ⟨0⟩) rfl]
  · simp [hfind (.object ⟨0⟩) rfl]
  · simp [hfind (.object ⟨1⟩) rfl]
  · cases hp

theorem exists_shared {n : Nat} (hn : n < 4) : shared.Exists (.object ⟨n⟩) := hn

theorem grounded_shared : shared.Grounded where
  slot hp := by
    have hmem := peek_shared hp
    simp only [List.mem_cons, Prod.mk.injEq, List.not_mem_nil, or_false] at hmem
    rcases hmem with ⟨-, rfl⟩ | ⟨-, rfl⟩ | ⟨-, rfl⟩ <;> exact exists_shared (by decide)
  item hv := absurd (lt_of_mem_items hv) (Nat.not_lt_zero _)

theorem level_shared (v : Value) (k : Key) (u : Value) (hk : shared.child? v k = some u) :
    sharedLevel u + 1 = sharedLevel v := by
  unfold child? at hk
  split at hk
  · exact absurd (lt_of_mem_items (List.mem_of_getElem? hk)) (Nat.not_lt_zero _)
  · have hmem := peek_shared hk
    simp only [List.mem_cons, Prod.mk.injEq, List.not_mem_nil, or_false] at hmem
    rcases hmem with ⟨rfl, rfl⟩ | ⟨rfl, rfl⟩ | ⟨rfl, rfl⟩ <;> rfl
  · cases hk

theorem equal_iff_congruent_shared :
    shared.equal (.object ⟨1⟩) (.object ⟨2⟩) ∧ shared.Congruent (.object ⟨1⟩) (.object ⟨2⟩) := by
  have hexact := equal_iff_congruent grounded_shared (v := .object ⟨1⟩) (w := .object ⟨2⟩)
    (exists_shared (by decide)) (exists_shared (by decide)) (acyclic_of_level level_shared _)
    (acyclic_of_level level_shared _)
  have hequal : shared.equal (.object ⟨1⟩) (.object ⟨2⟩) := by cbv
  exact ⟨hequal, (hexact.2 (not_crosses_of_level level_shared rfl)
    (not_crosses_of_level level_shared rfl)).1 hequal⟩

/-- A value that holds another further down is found equal to it on one side and not on the other. -/
theorem equal_of_not_congruent :
    shared.Grounded ∧ shared.Exists (.object ⟨1⟩) ∧ shared.Exists (.object ⟨3⟩) ∧
      shared.Acyclic (.object ⟨1⟩) ∧ shared.Acyclic (.object ⟨3⟩) ∧
      shared.equal (.object ⟨1⟩) (.object ⟨3⟩) = true ∧
      shared.equal (.object ⟨3⟩) (.object ⟨1⟩) = false ∧
      ¬ shared.Congruent (.object ⟨1⟩) (.object ⟨3⟩) := by
  refine ⟨grounded_shared, exists_shared (by decide), exists_shared (by decide),
    acyclic_of_level level_shared _, acyclic_of_level level_shared _, by cbv, by cbv, fun hc => ?_⟩
  have hequal := (hc.equalIn shared.containers).2
  rw [show shared.equalIn shared.containers (.object ⟨3⟩) (.object ⟨1⟩) = false by cbv] at hequal
  cases hequal

end Heap

end LiveMarkup

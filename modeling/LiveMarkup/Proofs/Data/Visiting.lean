import Mathlib.Data.List.Nodup
import Mathlib.Data.Option.Basic
import LiveMarkup.Data.Visiting
import LiveMarkup.Proofs.Data.Symmetry

/-!
# Walks end on all data

A walk with a stack of containers ends on data that hold themselves: what it looks into is no longer among
the containers that it can look into, and there are finitely many of those. It leaves the stack as it was,
and gives the answer of the walk that counts the containers which are left.

* `Heap.unvisited`: the containers that are not on the stack.
* `run_visit`: the visit of a container, if the walk inside it keeps the stack.
* **`run_equalWalk`**: the comparison ends, on any stack and any heap.
* `Heap.SameUnfolding`: the same scalars, arrays and objects at the ends of the same paths.
* **`sameUnfolding_iff_congruent`**: without NaN, these are the values that a bisimulation relates.
* **`equalWalk_of_sameUnfolding`**: the comparison ends, and does not separate values with the same
  unfolding.
-/

namespace LiveMarkup

namespace Walk

variable {α β : Type} {c : Container} {stack : List Container} {again answer : α} {inside : Walk α}

theorem visit_of_mem (hc : c ∈ stack) : (visit c again inside).run stack = some (again, stack) := by
  simp [visit, hc]

theorem visit_of_not_mem (hc : c ∉ stack)
    (hinside : inside.run (c :: stack) = some (answer, c :: stack)) :
    (visit c again inside).run stack = some (answer, stack) := by
  simp [visit, hc, hinside]

theorem run_mapM {f : α → Walk β} {g : α → β} {l : List α}
    (hf : ∀ a ∈ l, (f a).run stack = some (g a, stack)) :
    (l.mapM f).run stack = some (l.map g, stack) := by
  induction l with
  | nil => rfl
  | cons a l ih =>
    obtain ⟨ha, hl⟩ := List.forall_mem_cons.1 hf
    simp [List.mapM_cons, ha, ih hl]

theorem run_allM {f : α → Walk Bool} {g : α → Bool} {l : List α}
    (hf : ∀ a ∈ l, (f a).run stack = some (g a, stack)) :
    (l.allM f).run stack = some (l.all g, stack) := by
  induction l with
  | nil => rfl
  | cons a l ih =>
    obtain ⟨ha, hl⟩ := List.forall_mem_cons.1 hf
    cases hga : g a <;> simp [List.allM, ha, ih hl, hga]

end Walk

namespace Heap

variable {h : Heap} {v w u : Value} {stack : List Container} {c : Container} {depth : Nat}

/-! ## Containers that are not on the stack -/

theorem nodup_containers (h : Heap) : h.containers.Nodup := by
  refine List.nodup_append.2 ⟨?_, ?_, by simp⟩
  · exact (List.nodup_range.map fun i j hij => ArrayId.mk.inj hij).map
      fun a b hab => Container.array.inj hab
  · exact (List.nodup_range.map fun i j hij => ObjectId.mk.inj hij).map
      fun a b hab => Container.object.inj hab

/-- What one more condition leaves of a list without repetitions. -/
theorem filter_eq_erase {α : Type} [DecidableEq α] {l : List α} (hl : l.Nodup) {f g : α → Bool} {a : α}
    (hfg : ∀ b, g b ↔ b ≠ a ∧ f b) : l.filter g = (l.filter f).erase a := by
  rw [(hl.filter _).erase_eq_filter, List.filter_filter]
  refine List.filter_congr fun b _ => Bool.eq_iff_iff.2 ?_
  simp [hfg]

/-- The containers that are not on the stack. -/
def unvisited (h : Heap) (stack : List Container) : List Container :=
  h.containers.filter (· ∉ stack)

@[simp] theorem unvisited_nil (h : Heap) : h.unvisited [] = h.containers := by simp [unvisited]

theorem mem_unvisited : c ∈ h.unvisited stack ↔ h.Exists c.value ∧ c ∉ stack := by
  simp [unvisited, mem_containers]

theorem unvisited_cons (h : Heap) (c : Container) (stack : List Container) :
    h.unvisited (c :: stack) = (h.unvisited stack).erase c :=
  filter_eq_erase h.nodup_containers fun d => by simp

/-- Where a container is entered, there is one less to enter. -/
theorem length_unvisited_cons (hc : c ∈ h.unvisited stack) :
    (h.unvisited (c :: stack)).length < (h.unvisited stack).length := by
  rw [unvisited_cons]
  exact length_erase_lt hc

/-- An existing container is looked into unless it is on the stack. -/
theorem run_visit {α : Type} {again answer : α} {inside : Walk α} (hc : h.Exists c.value)
    (hinside : c ∈ h.unvisited stack → inside.run (c :: stack) = some (answer, c :: stack)) :
    (Walk.visit c again inside).run stack =
      some (if c ∈ h.unvisited stack then answer else again, stack) := by
  by_cases hstack : c ∈ stack
  · rw [if_neg fun hfree => (mem_unvisited.1 hfree).2 hstack]
    exact Walk.visit_of_mem hstack
  · have hfree := mem_unvisited.2 ⟨hc, hstack⟩
    rw [if_pos hfree]
    exact Walk.visit_of_not_mem hstack (hinside hfree)

/-! ## Comparison -/

/-- **The comparison ends and leaves the stack as it was.** Its calls are nested no deeper than there are
containers which are not on the stack. -/
theorem run_equalWalk (hg : h.Grounded) (hdepth : (h.unvisited stack).length < depth)
    (hv : h.Exists v) (hw : h.Exists w) :
    (h.equalWalk depth v w).run stack = some (h.equalIn (h.unvisited stack) v w, stack) := by
  induction depth generalizing stack v w with
  | zero => exact absurd hdepth (Nat.not_lt_zero _)
  | succ depth ih =>
    have hbelow : ∀ c ∈ h.unvisited stack, (h.unvisited (c :: stack)).length < depth := by
      intro c hc
      have hlength := length_unvisited_cons hc
      omega
    unfold equalIn
    split
    · next a b =>
      rw [equalWalk]
      split
      · rfl
      refine run_visit (c := .array a) hv fun hfree => ?_
      by_cases hlength : (h.items a).length = (h.items b).length
      · rw [if_pos hlength, beq_iff_eq.2 hlength, Bool.true_and]
        refine Walk.run_allM fun p hp => ?_
        obtain ⟨hl, hr⟩ := List.of_mem_zip hp
        rw [ih (hbelow _ hfree) (hg.item hl) (hg.item hr), unvisited_cons]
      · rw [if_neg hlength, beq_eq_false_iff_ne.2 hlength]
        rfl
    · next a b =>
      rw [equalWalk]
      split
      · rfl
      refine run_visit (c := .object a) hv fun hfree => ?_
      by_cases hlength : (h.members a).length = (h.members b).length
      · rw [if_pos hlength, beq_iff_eq.2 hlength, Bool.true_and]
        refine Walk.run_allM fun e he => ?_
        have he : h.peek a e.1 = some e.2 := by
          rw [peek_eq_findEntry]
          exact (findEntry_eq_some_iff (h.nodup_members a)).2 he
        cases hb : h.peek b e.1 with
        | none => rfl
        | some u => rw [ih (hbelow _ hfree) (hg.slot hb) (hg.slot he), unvisited_cons]
      · rw [if_neg hlength, beq_eq_false_iff_ne.2 hlength]
        rfl
    · next hno hno' =>
      rw [equalWalk]
      · rfl
      · exact hno
      · exact hno'

/-! ## Unfoldings -/

/-- Two values that look the same as long as they are not looked into. -/
inductive Resembles : Value → Value → Prop where
  | refl (v : Value) : Resembles v v
  | same (v w : Value) (same : v.same w) : Resembles v w
  | array (a b : ArrayId) : Resembles (.array a) (.array b)
  | object (o p : ObjectId) : Resembles (.object o) (.object p)

/-- Two values with the same unfolding, which may have no end: the same paths lead somewhere, and what they
lead to looks the same. Paths name the keys of objects, so that the order of these does not count. -/
def SameUnfolding (h : Heap) (v w : Value) : Prop :=
  ∀ p, Option.Rel Resembles (h.at? v p) (h.at? w p)

/-- No path leads to NaN. -/
def NaNFree (h : Heap) (v : Value) : Prop :=
  ∀ p n, h.at? v p = some (.number n) → n.isNaN = false

theorem NaNFree.child {k : Key} (hn : h.NaNFree v) (hk : h.child? v k = some u) : h.NaNFree u :=
  fun p n hp => hn (k :: p) n ((at?_cons hk p).trans hp)

theorem SameUnfolding.child {k : Key} {v' w' : Value} (hs : h.SameUnfolding v w)
    (hv : h.child? v k = some v') (hw : h.child? w k = some w') : h.SameUnfolding v' w' := by
  intro p
  have hp := hs (k :: p)
  rwa [at?_cons hv, at?_cons hw] at hp

theorem at?_singleton (v : Value) (k : Key) : h.at? v [k] = h.child? v k := by
  rw [at?]
  exact Option.bind_fun_some _

theorem isSome_eq_of_rel {α : Type} {R : α → α → Prop} {a b : Option α} (hr : Option.Rel R a b) :
    a.isSome = b.isSome := by
  cases hr <;> rfl

/-- Values with the same unfolding have children under the same keys. -/
theorem SameUnfolding.isSome_child (hs : h.SameUnfolding v w) (k : Key) :
    (h.child? v k).isSome = (h.child? w k).isSome := by
  have hk := isSome_eq_of_rel (hs [k])
  rwa [at?_singleton, at?_singleton] at hk

theorem same_of_eq (hn : h.NaNFree v) : v.same v := by
  cases v with
  | number n => exact Number.same_self (hn [] n rfl)
  | _ => exact beq_self_eq_true _

/-- Lists with items at the same indices have one length. -/
theorem length_eq_of_isSome_getElem? {α β : Type} {l : List α} {l' : List β}
    (hl : ∀ i : Nat, l[i]?.isSome = l'[i]?.isSome) : l.length = l'.length := by
  have hlength := hl l.length
  have hlength' := hl l'.length
  simp at hlength hlength'
  omega

theorem SameUnfolding.matches (hs : h.SameUnfolding v w) (hn : h.NaNFree v) :
    h.Matches (fun x y => h.SameUnfolding x y ∧ h.NaNFree x) v w := by
  have hchildren := hs.isSome_child
  cases Option.rel_some_some.1 (hs []) with
  | refl => exact .same v v (same_of_eq hn)
  | same _ _ same => exact .same v w same
  | array a b =>
    refine .array a b (length_eq_of_isSome_getElem? fun i => hchildren (.index i)) ?_
    exact fun i x y hx hy => ⟨hs.child (k := .index i) hx hy, hn.child (k := .index i) hx⟩
  | object a b =>
    refine .object a b (fun key => hchildren (.name key)) ?_
    exact fun key x y hx hy => ⟨hs.child (k := .name key) hx hy, hn.child (k := .name key) hx⟩

theorem Matches.resembles {R : Value → Value → Prop} (hm : h.Matches R v w) : Resembles v w := by
  cases hm with
  | same v w same => exact .same v w same
  | array a b length items => exact .array a b
  | object a b keys values => exact .object a b

theorem sameUnfolding_refl (v : Value) : h.SameUnfolding v v := fun p => by
  cases h.at? v p with
  | none => exact .none
  | some u => exact .some (.refl u)

/-- Identical values are handles of one container, or hold nothing. -/
theorem child?_of_same (hs : v.same w) (k : Key) : h.child? v k = h.child? w k := by
  cases v <;> cases w <;> first | rfl | cases hs | exact congrArg (h.child? · k) (beq_iff_eq.1 hs)

/-- Values that pass a step of a comparison have children under the same keys, which are related unless
they are one value. -/
theorem Matches.child {R : Value → Value → Prop} (hm : h.Matches R v w) (k : Key) :
    Option.Rel (fun x y => R x y ∨ x = y) (h.child? v k) (h.child? w k) := by
  have related : ∀ x y : Option Value, x.isSome = y.isSome →
      (∀ a b, x = some a → y = some b → R a b) → Option.Rel (fun a b => R a b ∨ a = b) x y := by
    intro x y hxy hR
    cases x with
    | none =>
      obtain rfl := Option.not_isSome_iff_eq_none.1 (Bool.eq_false_iff.1 hxy.symm)
      exact .none
    | some a =>
      obtain ⟨b, rfl⟩ := Option.isSome_iff_exists.1 hxy.symm
      exact .some (.inl (hR a b rfl rfl))
  cases hm with
  | same v w same =>
    rw [child?_of_same same]
    cases h.child? w k with
    | none => exact .none
    | some u => exact .some (.inr rfl)
  | array a b length items =>
    cases k with
    | index i =>
      have hi : ((h.items a)[i]?).isSome = ((h.items b)[i]?).isSome := by
        rw [Bool.eq_iff_iff]
        simp [length]
      exact related _ _ hi (items i)
    | name key => exact .none
  | object a b keys values =>
    cases k with
    | index i => exact .none
    | name key => exact related _ _ (keys key) (values key)

theorem Congruent.sameUnfolding (hc : h.Congruent v w) : h.SameUnfolding v w := by
  intro p
  induction p generalizing v w with
  | nil => exact .some hc.matched.resembles
  | cons k p ih =>
    have hk := hc.matched.child k
    rw [at?, at?]
    cases hv : h.child? v k <;> cases hw : h.child? w k <;> rw [hv, hw] at hk <;> cases hk
    · exact .none
    · next hxy =>
      rcases hxy with hxy | rfl
      · exact ih hxy
      · exact sameUnfolding_refl _ p

/-- **The values that a bisimulation relates are those with the same unfolding**, where there is no
NaN. -/
theorem sameUnfolding_iff_congruent (hn : h.NaNFree v) : h.SameUnfolding v w ↔ h.Congruent v w := by
  refine ⟨fun hs => ?_, Congruent.sameUnfolding⟩
  exact ⟨fun x y => h.SameUnfolding x y ∧ h.NaNFree x, fun x y hxy => hxy.1.matches hxy.2, hs, hn⟩

/-- **The comparison ends on all values, and never separates values with the same unfolding** that are
without NaN, whatever they hold and share, and whatever is on the stack. -/
theorem equalWalk_of_sameUnfolding (hg : h.Grounded) (hv : h.Exists v) (hw : h.Exists w)
    (stack : List Container) :
    ∃ answer, (∀ depth, (h.unvisited stack).length < depth →
        (h.equalWalk depth v w).run stack = some (answer, stack)) ∧
      (stack = [] → answer = h.equal v w) ∧
      (h.NaNFree v → h.SameUnfolding v w → answer = true) := by
  refine ⟨h.equalIn (h.unvisited stack) v w, fun depth hdepth => run_equalWalk hg hdepth hv hw, ?_, ?_⟩
  · rintro rfl
    rw [unvisited_nil]
    rfl
  · exact fun hn hs => (((sameUnfolding_iff_congruent hn).1 hs).equalIn _).1

/-- Two arrays each of which holds itself alone have one unfolding. -/
theorem equalWalk_looped :
    (looped.equalWalk 5 (.array ⟨0⟩) (.array ⟨1⟩)).run [] = some (true, []) ∧
      looped.equal (.array ⟨0⟩) (.array ⟨1⟩) = true := by
  obtain ⟨answer, hends, hroot, hsame⟩ :=
    equalWalk_of_sameUnfolding grounded_looped (v := .array ⟨0⟩) (w := .array ⟨1⟩)
      (by decide : 0 < 4) (by decide : 1 < 4) []
  have hnan : looped.NaNFree (.array ⟨0⟩) := fun p n hp => by
    cases at?_of_items_eq rfl hp
  have hcongruent : looped.Congruent (.array ⟨0⟩) (.array ⟨1⟩) := by
    refine ⟨fun x y => x = .array ⟨0⟩ ∧ y = .array ⟨1⟩, ?_, rfl, rfl⟩
    rintro x y ⟨rfl, rfl⟩
    refine .array ⟨0⟩ ⟨1⟩ rfl fun i x y hx hy => ?_
    exact ⟨List.mem_singleton.1 (List.mem_of_getElem? hx), List.mem_singleton.1 (List.mem_of_getElem? hy)⟩
  have htrue := hsame hnan hcongruent.sameUnfolding
  exact ⟨htrue ▸ hends 5 (by decide), htrue ▸ (hroot rfl).symm⟩

end Heap

end LiveMarkup

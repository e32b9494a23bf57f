import LiveMarkup.Proofs.Data.Wellformed

/-!
# Plain data on the heap

Plain data are scalars, arrays and objects without handles. The heap holds such data where they are
laid out in containers of their own, each of which is met once.

* `Draft.Plain`: data without handles, the keys of each object distinct.
* `Value.Alike`: scalars that no reader tells apart.
* `Heap.Holds`: a value holds data; the containers that make it up are listed.
* `HoldsMembers.split`: one member of an object with what it holds.
* **`Holds.exists_reaches`**: what can be got to from a value that holds plain data.
* **`Draft.Plain.holds_build`**: laying out plain data.
-/

namespace LiveMarkup

/-! ## Plain data -/

/-- Whether a value is no handle. -/
def Value.isScalar : Value → Bool
  | .array _ => false
  | .object _ => false
  | _ => true

/-- The same scalar, or numbers that are written alike: the two zeros. -/
inductive Value.Alike : Value → Value → Prop where
  | refl (v : Value) : Alike v v
  | number (a b : Number) (plain : a.plain = b.plain) : Alike (.number a) (.number b)

/-- Equal numbers are written alike. -/
theorem Number.plain_of_same {a b : Number} (h : a.same b) : a.plain = b.plain := by
  unfold Number.same at h
  simp only [Bool.and_eq_true, Bool.not_eq_true', Bool.or_eq_true, beq_iff_eq] at h
  obtain ⟨⟨ha, hb⟩, rfl | ⟨hza, hzb⟩⟩ := h
  · rfl
  · simp [Number.plain, NumberForm.write, NumberForm.plain, ha, hb, hza, hzb]

namespace Value

theorem alike_of_same {u v : Value} (h : u.same v) : u.Alike v := by
  cases u with
  | number a =>
    cases v with
    | number b => exact .number a b (Number.plain_of_same h)
    | _ => exact beq_iff_eq.1 h ▸ .refl _
  | _ => exact beq_iff_eq.1 h ▸ .refl _

theorem Alike.trans {u v w : Value} (h : u.Alike v) (h' : v.Alike w) : u.Alike w := by
  cases h with
  | refl => exact h'
  | number a b plain =>
    cases h' with
    | refl => exact .number a b plain
    | number b c plain' => exact .number a c (plain.trans plain')

/-- A container is like nothing else. -/
theorem Alike.eq_of_handle {u v : Value} (h : u.Alike v) (hv : v.isScalar = false) : u = v := by
  cases h with
  | refl => rfl
  | number => cases hv

end Value

namespace Draft

mutual

/-- The data have no handles, and the keys of each object are distinct. -/
def Plain : Draft → Prop
  | .value v => v.isScalar
  | .array items => AllPlain items
  | .object members => (members.map Prod.fst).Nodup ∧ MembersPlain members

def AllPlain : List Draft → Prop
  | [] => True
  | d :: ds => d.Plain ∧ AllPlain ds

def MembersPlain : List (String × Draft) → Prop
  | [] => True
  | (_, d) :: ms => d.Plain ∧ MembersPlain ms

end

mutual

/-- Plain data refer to nothing on the heap. -/
theorem Plain.exists {d : Draft} (hd : d.Plain) (h : Heap) : d.Exists h := by
  cases d with
  | value v =>
    cases v with
    | array => cases hd
    | object => cases hd
    | _ => trivial
  | array items => exact AllPlain.exist hd h
  | object members => exact MembersPlain.exist hd.2 h

theorem AllPlain.exist {ds : List Draft} (hds : AllPlain ds) (h : Heap) : AllExist h ds := by
  cases ds with
  | nil => trivial
  | cons d ds => exact ⟨Plain.exists hds.1 h, AllPlain.exist hds.2 h⟩

theorem MembersPlain.exist {ms : List (String × Draft)} (hms : MembersPlain ms) (h : Heap) :
    MembersExist h ms := by
  cases ms with
  | nil => trivial
  | cons m ms =>
    obtain ⟨key, d⟩ := m
    exact ⟨Plain.exists hms.1 h, MembersPlain.exist hms.2 h⟩

end

end Draft

/-! ## Data held -/

namespace Heap

variable {h h' : Heap} {o : ObjectId} {key : String} {u v : Value} {d : Draft} {cs cs' : List Value}
  {vs : List Value} {ds : List Draft} {es : List (String × Value)} {ms : List (String × Draft)}

mutual

/-- A value holds plain data. The containers that make it up are listed, outer ones first. -/
inductive Holds (h : Heap) : Value → Draft → List Value → Prop where
  | scalar (u v : Value) (isScalar : v.isScalar) (alike : u.Alike v) : Holds h u (.value v) []
  | array (a : ArrayId) (ds : List Draft) (cs : List Value) (inside : h.Exists (.array a))
      (items : HoldsAll h (h.items a) ds cs) : Holds h (.array a) (.array ds) (.array a :: cs)
  | object (o : ObjectId) (ms : List (String × Draft)) (cs : List Value)
      (inside : h.Exists (.object o)) (members : HoldsMembers h (h.members o) ms cs) :
      Holds h (.object o) (.object ms) (.object o :: cs)

inductive HoldsAll (h : Heap) : List Value → List Draft → List Value → Prop where
  | nil : HoldsAll h [] [] []
  | cons (v : Value) (vs : List Value) (d : Draft) (ds : List Draft) (cs cs' : List Value)
      (head : Holds h v d cs) (tail : HoldsAll h vs ds cs') :
      HoldsAll h (v :: vs) (d :: ds) (cs ++ cs')

inductive HoldsMembers (h : Heap) : List (String × Value) → List (String × Draft) → List Value →
    Prop where
  | nil : HoldsMembers h [] [] []
  | cons (key : String) (v : Value) (es : List (String × Value)) (d : Draft)
      (ms : List (String × Draft)) (cs cs' : List Value) (head : Holds h v d cs)
      (tail : HoldsMembers h es ms cs') : HoldsMembers h ((key, v) :: es) ((key, d) :: ms) (cs ++ cs')

end

/-- Some containers are as they were. -/
structure KeepsAt (h h' : Heap) (cs : List Value) : Prop where
  inside : ∀ c ∈ cs, h.Exists c → h'.Exists c
  members : ∀ o, .object o ∈ cs → h'.members o = h.members o
  items : ∀ a, .array a ∈ cs → h'.items a = h.items a

theorem KeepsAt.mono (k : h.KeepsAt h' cs) (hsub : ∀ c ∈ cs', c ∈ cs) : h.KeepsAt h' cs' :=
  ⟨fun c hc => k.inside c (hsub c hc), fun o ho => k.members o (hsub _ ho),
    fun a ha => k.items a (hsub _ ha)⟩

mutual

/-- A value holds the same data where its containers are as they were. -/
theorem Holds.congr {h h' : Heap} {v : Value} {d : Draft} {cs : List Value} (hh : h.Holds v d cs)
    (k : h.KeepsAt h' cs) : h'.Holds v d cs := by
  cases hh with
  | scalar v u isScalar alike => exact .scalar v u isScalar alike
  | array a ds cs inside items =>
    refine .array a ds cs (k.inside _ List.mem_cons_self inside) ?_
    rw [k.items a List.mem_cons_self]
    exact items.congr (k.mono fun c => List.mem_cons_of_mem _)
  | object o ms cs inside members =>
    refine .object o ms cs (k.inside _ List.mem_cons_self inside) ?_
    rw [k.members o List.mem_cons_self]
    exact members.congr (k.mono fun c => List.mem_cons_of_mem _)

theorem HoldsAll.congr {h h' : Heap} {vs : List Value} {ds : List Draft} {cs : List Value}
    (hh : h.HoldsAll vs ds cs) (k : h.KeepsAt h' cs) : h'.HoldsAll vs ds cs := by
  cases hh with
  | nil => exact .nil
  | cons v vs d ds cs cs' head tail =>
    exact .cons v vs d ds cs cs' (head.congr (k.mono fun c => List.mem_append_left _))
      (tail.congr (k.mono fun c => List.mem_append_right _))

theorem HoldsMembers.congr {h h' : Heap} {es : List (String × Value)} {ms : List (String × Draft)}
    {cs : List Value} (hh : h.HoldsMembers es ms cs) (k : h.KeepsAt h' cs) :
    h'.HoldsMembers es ms cs := by
  cases hh with
  | nil => exact .nil
  | cons key v es d ms cs cs' head tail =>
    exact .cons key v es d ms cs cs' (head.congr (k.mono fun c => List.mem_append_left _))
      (tail.congr (k.mono fun c => List.mem_append_right _))

end

mutual

/-- The containers that hold data exist. -/
theorem Holds.inside {h : Heap} {v : Value} {d : Draft} {cs : List Value} (hh : h.Holds v d cs) :
    ∀ c ∈ cs, h.Exists c := by
  cases hh with
  | scalar v u isScalar alike => exact fun _ hc => absurd hc List.not_mem_nil
  | array a ds cs inside items => exact List.forall_mem_cons.2 ⟨inside, items.inside⟩
  | object o ms cs inside members => exact List.forall_mem_cons.2 ⟨inside, members.inside⟩

theorem HoldsAll.inside {h : Heap} {vs : List Value} {ds : List Draft} {cs : List Value}
    (hh : h.HoldsAll vs ds cs) : ∀ c ∈ cs, h.Exists c := by
  cases hh with
  | nil => exact fun _ hc => absurd hc List.not_mem_nil
  | cons v vs d ds cs cs' head tail => exact List.forall_mem_append.2 ⟨head.inside, tail.inside⟩

theorem HoldsMembers.inside {h : Heap} {es : List (String × Value)} {ms : List (String × Draft)}
    {cs : List Value} (hh : h.HoldsMembers es ms cs) : ∀ c ∈ cs, h.Exists c := by
  cases hh with
  | nil => exact fun _ hc => absurd hc List.not_mem_nil
  | cons key v es d ms cs cs' head tail =>
    exact List.forall_mem_append.2 ⟨head.inside, tail.inside⟩

end

theorem Holds.of_object (hh : h.Holds (.object o) d cs) :
    ∃ ms cs', d = .object ms ∧ cs = .object o :: cs' ∧ h.Exists (.object o) ∧
      h.HoldsMembers (h.members o) ms cs' := by
  cases hh with
  | scalar _ _ isScalar alike => cases alike; cases isScalar
  | object _ ms cs' inside members => exact ⟨ms, cs', rfl, rfl, inside, members⟩

theorem Holds.of_array {a : ArrayId} (hh : h.Holds (.array a) d cs) :
    ∃ ds cs', d = .array ds ∧ cs = .array a :: cs' ∧ h.Exists (.array a) ∧
      h.HoldsAll (h.items a) ds cs' := by
  cases hh with
  | scalar _ _ isScalar alike => cases alike; cases isScalar
  | array _ ds cs' inside items => exact ⟨ds, cs', rfl, rfl, inside, items⟩

theorem Holds.mem_object (hh : h.Holds (.object o) d cs) : .object o ∈ cs := by
  obtain ⟨ms, cs', -, rfl, -, -⟩ := hh.of_object
  exact List.mem_cons_self

/-- A heap that has all data of another holds what that one holds. -/
theorem Agrees.keepsAt (a : h.Agrees h') (hm : ∀ o, h.Exists (.object o) → h'.members o = h.members o)
    (hcs : ∀ c ∈ cs, h.Exists c) : h.KeepsAt h' cs :=
  ⟨fun _ _ hc => a.exists_mono hc, fun o ho => hm o (hcs _ ho), fun i hi => a.items i (hcs _ hi)⟩

theorem Instruments.keepsAt (a : h.Instruments h') (cs : List Value) : h.KeepsAt h' cs :=
  ⟨fun _ _ hc => a.agrees.exists_mono hc, fun o _ => a.members o, fun i _ => by
    rw [Heap.items, Heap.items, a.arrays]⟩

theorem Grows.keepsAt (a : h.Grows h') (hcs : ∀ c ∈ cs, h.Exists c) : h.KeepsAt h' cs :=
  a.agrees.keepsAt (fun o ho => by rw [Heap.members, Heap.members, a.object? o ho]) hcs

/-! ## One member -/

/-- Members and the data that they hold have the same keys. -/
theorem HoldsMembers.map_fst (hh : h.HoldsMembers es ms cs) : es.map Prod.fst = ms.map Prod.fst := by
  induction ms generalizing es cs with
  | nil => cases hh; rfl
  | cons m ms ih =>
    cases hh with
    | cons key v es d ms cs cs' head tail => rw [List.map_cons, List.map_cons, ih tail]

/-- One member with what it holds, or the place where one would be added; its part of the containers can
be exchanged for another. -/
theorem HoldsMembers.split {h : Heap} (hh : h.HoldsMembers es ms cs) (key : String) :
    ∃ pre here post, cs = pre ++ here ++ post ∧
      ((findEntry key es = none ∧ findEntry key ms = none ∧ here = []) ∨
        ∃ v d, findEntry key es = some v ∧ findEntry key ms = some d ∧ h.Holds v d here) ∧
      ∀ h' v d here', h.KeepsAt h' (pre ++ post) → h'.Holds v d here' →
        h'.HoldsMembers (putEntry key v es) (putEntry key d ms) (pre ++ here' ++ post) := by
  induction ms generalizing es cs with
  | nil =>
    cases hh
    refine ⟨[], [], [], rfl, .inl ⟨rfl, rfl, rfl⟩, fun h' v d here' _ hv => ?_⟩
    exact .cons key v [] d [] here' [] hv .nil
  | cons m ms ih =>
    cases hh with
    | cons k u es e ms cs cs' head tail =>
      by_cases hk : k = key
      · refine ⟨[], cs, cs', rfl, .inr ⟨u, e, if_pos hk, if_pos hk, head⟩,
          fun h' v d here' keeps hv => ?_⟩
        rw [putEntry, if_pos hk, putEntry, if_pos hk]
        exact .cons k v es d ms here' cs' hv (tail.congr keeps)
      · obtain ⟨pre, here, post, rfl, hfound, hput⟩ := ih tail
        refine ⟨cs ++ pre, here, post, by simp, ?_, fun h' v d here' keeps hv => ?_⟩
        · rw [findEntry, if_neg hk, findEntry, if_neg hk]
          exact hfound
        · rw [putEntry, if_neg hk, putEntry, if_neg hk, List.append_assoc cs, List.append_assoc cs]
          rw [List.append_assoc] at keeps
          exact .cons k u _ e _ cs _ (head.congr (keeps.mono fun c => List.mem_append_left _))
            (hput h' v d here' (keeps.mono fun c => List.mem_append_right _) hv)

/-- What a member holds. -/
theorem HoldsMembers.find (hh : h.HoldsMembers es ms cs) (key : String) :
    (findEntry key es = none ∧ findEntry key ms = none) ∨
      ∃ v d here, findEntry key es = some v ∧ findEntry key ms = some d ∧ h.Holds v d here ∧
        here.Sublist cs := by
  obtain ⟨pre, here, post, rfl, hfound, -⟩ := hh.split key
  rcases hfound with ⟨hv, hd, -⟩ | ⟨v, d, hv, hd, hholds⟩
  · exact .inl ⟨hv, hd⟩
  · exact .inr ⟨v, d, here, hv, hd, hholds, (List.sublist_append_right _ _).trans
      (List.sublist_append_left _ _)⟩

/-- What an item holds. -/
theorem HoldsAll.get (hh : h.HoldsAll vs ds cs) (i : Nat) :
    (vs[i]? = none ∧ ds[i]? = none) ∨
      ∃ v d here, vs[i]? = some v ∧ ds[i]? = some d ∧ h.Holds v d here ∧ here.Sublist cs := by
  induction ds generalizing vs cs i with
  | nil => cases hh; exact .inl ⟨rfl, rfl⟩
  | cons d ds ih =>
    cases hh with
    | cons v vs d ds cs cs' head tail =>
      cases i with
      | zero => exact .inr ⟨v, d, cs, rfl, rfl, head, List.sublist_append_left _ _⟩
      | succ i =>
        rcases ih tail i with hn | ⟨u, e, here, hu, he, hholds, hsub⟩
        · exact .inl hn
        · exact .inr ⟨u, e, here, hu, he, hholds, hsub.trans (List.sublist_append_right _ _)⟩

theorem HoldsAll.length_eq (hh : h.HoldsAll vs ds cs) : vs.length = ds.length := by
  induction ds generalizing vs cs with
  | nil => cases hh; rfl
  | cons d ds ih =>
    cases hh with
    | cons v vs d ds cs cs' head tail => rw [List.length_cons, List.length_cons, ih tail]

/-- **What can be got to from a value that holds plain data** holds a part of them. -/
theorem Holds.exists_reaches (hh : h.Holds v d cs) (hr : h.Reaches v u) :
    ∃ d' cs', h.Holds u d' cs' ∧ ∀ c ∈ cs', c ∈ cs := by
  induction hr with
  | refl => exact ⟨d, cs, hh, fun c hc => hc⟩
  | slot o key u before here ih =>
    obtain ⟨d', _, hh', hsub⟩ := ih
    obtain ⟨ms, cs', -, rfl, -, members⟩ := hh'.of_object
    rw [peek_eq_findEntry] at here
    rcases members.find key with hn | ⟨v, e, cs'', hv, -, hholds, hsub'⟩
    · rw [hn.1] at here
      cases here
    · obtain rfl := Option.some.inj (hv.symm.trans here)
      exact ⟨e, cs'', hholds, fun c hc => hsub c (List.mem_cons_of_mem _ (hsub'.subset hc))⟩
  | item a u before here ih =>
    obtain ⟨d', _, hh', hsub⟩ := ih
    obtain ⟨ds, cs', -, rfl, -, items⟩ := hh'.of_array
    obtain ⟨i, hi⟩ := List.mem_iff_getElem?.1 here
    rcases items.get i with hn | ⟨v, e, cs'', hv, -, hholds, hsub'⟩
    · rw [hn.1] at hi
      cases hi
    · obtain rfl := Option.some.inj (hv.symm.trans hi)
      exact ⟨e, cs'', hholds, fun c hc => hsub c (List.mem_cons_of_mem _ (hsub'.subset hc))⟩

/-! ## Laying out plain data -/

theorem entries_foldl_writeSlot (es : List (String × Value)) (t : Table Slot)
    (nodup : (t.keys ++ es.map Prod.fst).Nodup) :
    (es.foldl (fun t e => writeSlot t e.1 e.2) t).entries =
      t.entries ++ es.map fun e => (e.1, ⟨e.2, none⟩) := by
  induction es generalizing t with
  | nil => simp
  | cons e es ih =>
    have hnew : e.1 ∉ t.keys := fun hm => (List.nodup_append.1 nodup).2.2 _ hm e.1 (by simp) rfl
    have hwrite : (writeSlot t e.1 e.2).entries = t.entries ++ [(e.1, ⟨e.2, none⟩)] := by
      rw [writeSlot, Table.find?_eq_none_iff.2 hnew]
      exact putEntry_of_not_mem _ hnew
    have hkeys : (writeSlot t e.1 e.2).keys = t.keys ++ [e.1] := by
      rw [Table.keys, hwrite, List.map_append]
      rfl
    rw [List.foldl_cons, ih _ (by rw [hkeys, List.append_assoc]; exact nodup), hwrite,
      List.append_assoc]
    rfl

/-- An object that is written member by member, under distinct keys, has these members. -/
theorem members_newObject_slotsOf (h : Heap) (nodup : (es.map Prod.fst).Nodup) :
    (h.newObject ⟨slotsOf es, false⟩).2.members ⟨h.objects.size⟩ = es := by
  rw [members, object?_newObject, if_pos rfl]
  show (slotsOf es).entries.map _ = es
  rw [slotsOf, entries_foldl_writeSlot es Table.empty nodup]
  simp [Table.empty, Function.comp_def]

theorem items_newArray (h : Heap) (vs : List Value) :
    (h.newArray vs).2.items ⟨h.arrays.size⟩ = vs := by
  simp [items, newArray]

/-- Containers that were made apart are different from those that were there. -/
theorem nodup_append_of_made {h : Heap} (hcs : cs.Nodup) (hcs' : cs'.Nodup)
    (old : ∀ c ∈ cs, h.Exists c) (made : ∀ c ∈ cs', ¬ h.Exists c) : (cs ++ cs').Nodup :=
  List.nodup_append.2 ⟨hcs, hcs', fun c hc c' hc' e => made c' hc' (e ▸ old c hc)⟩

end Heap

open Heap

mutual

/-- **Laying out plain data** makes containers of their own that hold them. -/
theorem Draft.Plain.holds_build {d : Draft} (hd : d.Plain) (h : Heap) :
    ∃ cs, (h.build d).2.Holds (h.build d).1 d cs ∧ cs.Nodup ∧ ∀ c ∈ cs, ¬ h.Exists c := by
  cases d with
  | value v =>
    exact ⟨[], .scalar v v hd (.refl v), List.nodup_nil, fun _ hc => absurd hc List.not_mem_nil⟩
  | array items =>
    obtain ⟨cs, hholds, hnodup, hmade⟩ := Draft.AllPlain.holds_buildItems hd h
    have hgrows := Grows.newArray (h.buildItems items).2 (h.buildItems items).1
    have hnew : ¬ (h.buildItems items).2.Exists (.array ⟨(h.buildItems items).2.arrays.size⟩) :=
      Nat.lt_irrefl _
    refine ⟨.array ⟨(h.buildItems items).2.arrays.size⟩ :: cs, .array _ items cs ?_ ?_,
      List.nodup_cons.2 ⟨fun hm => hnew (hholds.inside _ hm), hnodup⟩,
      List.forall_mem_cons.2 ⟨?_, hmade⟩⟩
    · simp [build, newArray, Heap.Exists]
    · rw [show (h.build (.array items)).2.items ⟨(h.buildItems items).2.arrays.size⟩ =
        (h.buildItems items).1 from items_newArray _ _]
      exact hholds.congr (hgrows.keepsAt hholds.inside)
    · exact fun hx => hnew ((grows_buildItems h items).agrees.exists_mono hx)
  | object members =>
    obtain ⟨cs, hholds, hnodup, hmade⟩ := Draft.MembersPlain.holds_buildMembers hd.2 h
    have hgrows := Grows.newObject (h := (h.buildMembers members).2)
      (dep_of_slotsOf (h.buildMembers members).1)
    have hnew : ¬ (h.buildMembers members).2.Exists
        (.object ⟨(h.buildMembers members).2.objects.size⟩) := Nat.lt_irrefl _
    refine ⟨.object ⟨(h.buildMembers members).2.objects.size⟩ :: cs, .object _ members cs ?_ ?_,
      List.nodup_cons.2 ⟨fun hm => hnew (hholds.inside _ hm), hnodup⟩,
      List.forall_mem_cons.2 ⟨?_, hmade⟩⟩
    · simp [build, newObject, Heap.Exists]
    · rw [show (h.build (.object members)).2.members ⟨(h.buildMembers members).2.objects.size⟩ =
        (h.buildMembers members).1 from
          members_newObject_slotsOf _ (by rw [hholds.map_fst]; exact hd.1)]
      exact hholds.congr (hgrows.keepsAt hholds.inside)
    · exact fun hx => hnew ((grows_buildMembers h members).agrees.exists_mono hx)

theorem Draft.AllPlain.holds_buildItems {ds : List Draft} (hds : Draft.AllPlain ds) (h : Heap) :
    ∃ cs, (h.buildItems ds).2.HoldsAll (h.buildItems ds).1 ds cs ∧ cs.Nodup ∧
      ∀ c ∈ cs, ¬ h.Exists c := by
  cases ds with
  | nil => exact ⟨[], .nil, List.nodup_nil, fun _ hc => absurd hc List.not_mem_nil⟩
  | cons d ds =>
    obtain ⟨cs, hhead, hnodup, hmade⟩ := Draft.Plain.holds_build hds.1 h
    obtain ⟨cs', htail, hnodup', hmade'⟩ := Draft.AllPlain.holds_buildItems hds.2 (h.build d).2
    exact ⟨cs ++ cs', .cons _ _ d ds cs cs'
      (hhead.congr ((grows_buildItems (h.build d).2 ds).keepsAt hhead.inside)) htail,
      nodup_append_of_made hnodup hnodup' hhead.inside hmade',
      List.forall_mem_append.2 ⟨hmade, fun c hc hx =>
        hmade' c hc ((grows_build h d).agrees.exists_mono hx)⟩⟩

theorem Draft.MembersPlain.holds_buildMembers {ms : List (String × Draft)}
    (hms : Draft.MembersPlain ms) (h : Heap) :
    ∃ cs, (h.buildMembers ms).2.HoldsMembers (h.buildMembers ms).1 ms cs ∧ cs.Nodup ∧
      ∀ c ∈ cs, ¬ h.Exists c := by
  cases ms with
  | nil => exact ⟨[], .nil, List.nodup_nil, fun _ hc => absurd hc List.not_mem_nil⟩
  | cons m ms =>
    obtain ⟨key, d⟩ := m
    obtain ⟨cs, hhead, hnodup, hmade⟩ := Draft.Plain.holds_build hms.1 h
    obtain ⟨cs', htail, hnodup', hmade'⟩ := Draft.MembersPlain.holds_buildMembers hms.2 (h.build d).2
    exact ⟨cs ++ cs', .cons key _ _ d ms cs cs'
      (hhead.congr ((grows_buildMembers (h.build d).2 ms).keepsAt hhead.inside)) htail,
      nodup_append_of_made hnodup hnodup' hhead.inside hmade',
      List.forall_mem_append.2 ⟨hmade, fun c hc hx =>
        hmade' c hc ((grows_build h d).agrees.exists_mono hx)⟩⟩

end

end LiveMarkup

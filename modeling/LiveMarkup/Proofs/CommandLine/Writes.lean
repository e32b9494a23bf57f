import LiveMarkup.CommandLine.Assignment
import LiveMarkup.Proofs.Data.Layout

/-!
# Writing plain data at a path

An assignment writes one member of an object that is found by its path. Where the heap holds plain
data, this is the write of plain data at the same path.

* `Draft.writeAt`, `Assignment.write?`: the write, on plain data.
* `Heap.Put`: one member of one object has a new value.
* **`Holds.writeAt`**: a write on the heap is the write on the data it holds.
* `plain_of_parseData`, `Assignment.plain_of_parse`: what the command line reads is plain.
-/

namespace LiveMarkup

open Template (segments)

/-! ## Writes on plain data -/

/-- Members with data written under a key of the object that a list of keys leads to, one by one;
nothing if one of those leads to anything but an object. -/
def Draft.writeAt (key : String) (d : Draft) :
    List String → List (String × Draft) → Option (List (String × Draft))
  | [], ms => some (putEntry key d ms)
  | segment :: rest, ms =>
    match findEntry segment ms with
    | some (.object inner) =>
      (d.writeAt key rest inner).map fun inner => putEntry segment (.object inner) ms
    | _ => none

/-- Instance data after an assignment, if the path is accepted: one key must be there already, and of
several all but the last must lead from object to object. -/
def Assignment.write? (a : Assignment) (ms : List (String × Draft)) :
    Option (List (String × Draft)) :=
  let path := segments a.path
  let key := path.getLastD ""
  match path.dropLast with
  | [] => if key ∈ ms.map Prod.fst then some (putEntry key a.value ms) else none
  | parents => a.value.writeAt key parents ms

namespace Draft

variable {d : Draft} {ms ms' : List (String × Draft)} {key : String}

theorem MembersPlain.put (hms : MembersPlain ms) (hd : d.Plain) :
    MembersPlain (putEntry key d ms) := by
  induction ms with
  | nil => exact ⟨hd, trivial⟩
  | cons m ms ih =>
    obtain ⟨k, e⟩ := m
    by_cases hk : k = key
    · rw [putEntry, if_pos hk]
      exact ⟨hd, hms.2⟩
    · rw [putEntry, if_neg hk]
      exact ⟨hms.1, ih hms.2⟩

theorem MembersPlain.find (hms : MembersPlain ms) (hf : findEntry key ms = some d) : d.Plain := by
  induction ms with
  | nil => cases hf
  | cons m ms ih =>
    obtain ⟨k, e⟩ := m
    by_cases hk : k = key
    · rw [findEntry, if_pos hk] at hf
      exact Option.some.inj hf ▸ hms.1
    · rw [findEntry, if_neg hk] at hf
      exact ih hms.2 hf

theorem Plain.put (hms : (object ms).Plain) (hd : d.Plain) : (object (putEntry key d ms)).Plain := by
  refine ⟨?_, hms.2.put hd⟩
  rw [map_fst_putEntry]
  split
  · exact hms.1
  · next hk =>
    refine List.nodup_append.2 ⟨hms.1, by simp, fun k hm k' hk' e => hk ?_⟩
    rw [← List.mem_singleton.1 hk', ← e]
    exact hm

/-- A write of plain data keeps data plain. -/
theorem Plain.writeAt {parents : List String} (hms : (object ms).Plain) (hd : d.Plain)
    (hw : d.writeAt key parents ms = some ms') : (object ms').Plain := by
  induction parents generalizing ms ms' with
  | nil => exact Option.some.inj hw ▸ hms.put hd
  | cons segment rest ih =>
    rw [Draft.writeAt] at hw
    split at hw
    · next inner hf =>
      obtain ⟨inner', hinner, rfl⟩ := Option.map_eq_some_iff.1 hw
      exact hms.put (ih (hms.2.find hf) hinner)
    · cases hw

end Draft

theorem Assignment.plain_of_write {a : Assignment} {ms ms' : List (String × Draft)}
    (ha : a.value.Plain) (hms : (Draft.object ms).Plain) (hw : a.write? ms = some ms') :
    (Draft.object ms').Plain := by
  unfold write? at hw
  dsimp only at hw
  split at hw
  · split at hw
    · exact Option.some.inj hw ▸ hms.put ha
    · cases hw
  · exact hms.writeAt ha hw

/-! ## What the command line reads -/

theorem Draft.membersPlain_iff {ms : List (String × Draft)} :
    Draft.MembersPlain ms ↔ ∀ m ∈ ms, m.2.Plain := by
  induction ms with
  | nil => simp [Draft.MembersPlain]
  | cons m ms ih =>
    obtain ⟨key, d⟩ := m
    rw [List.forall_mem_cons, Draft.MembersPlain, ih]

namespace Json

theorem map_fst_sortMembers {α : Type} (ms : List (String × α)) :
    ((sortMembers ms).map Prod.fst).Nodup :=
  ((List.mergeSort_perm _ _).map Prod.fst).nodup_iff.2 (Table.ofList ms).nodup

mutual

/-- The data of a JSON value are plain. -/
theorem plain_draft (j : Json) : j.draft.Plain := by
  cases j with
  | array items => exact plain_drafts items
  | object members =>
    refine ⟨map_fst_sortMembers _, Draft.membersPlain_iff.2 fun m hm => ?_⟩
    exact plain_memberDrafts members m
      (Table.mem_of_mem_ofList ((List.mergeSort_perm _ _).mem_iff.1 hm))
  | _ => rfl

theorem plain_drafts (js : List Json) : Draft.AllPlain (drafts js) := by
  cases js with
  | nil => trivial
  | cons j js => exact ⟨plain_draft j, plain_drafts js⟩

theorem plain_memberDrafts (ms : List (String × Json)) : ∀ m ∈ memberDrafts ms, m.2.Plain := by
  cases ms with
  | nil => exact fun _ hm => absurd hm List.not_mem_nil
  | cons m ms =>
    obtain ⟨name, j⟩ := m
    exact List.forall_mem_cons.2 ⟨plain_draft j, plain_memberDrafts ms⟩

end

end Json

/-- Instance data are plain. -/
theorem plain_of_parseData [Json.Rounding] {text : String} {ms : List (String × Draft)}
    (h : parseData text = .ok ms) : (Draft.object ms).Plain := by
  unfold parseData readJson at h
  cases hj : Json.read text with
  | none =>
    rw [hj] at h
    cases h
  | some j =>
    have hd := j.plain_draft
    rw [hj] at h
    dsimp only at h
    generalize j.draft = d at h hd
    cases d with
    | object members => exact Except.ok.inj h ▸ hd
    | _ => cases h

/-- What an assignment is read from: the trimmed text of a path without empty segments, and that of a
value. -/
theorem Assignment.parse_eq_ok [Json.Rounding] {arg : String} {a : Assignment} (hparse : parse arg = .ok a) :
    ∃ path raw, a = ⟨String.ofList (Text.trimBlank path), readValue raw⟩ ∧
      ¬ (Template.segments a.path).any String.isEmpty := by
  unfold parse at hparse
  dsimp only at hparse
  split at hparse
  · cases hparse
  · split at hparse
    · cases hparse
    · next hsegments =>
      obtain rfl := Except.ok.inj hparse
      exact ⟨_, _, rfl, hsegments⟩

/-- The data of an assignment are plain. -/
theorem Assignment.plain_of_parse [Json.Rounding] {arg : String} {a : Assignment} (h : parse arg = .ok a) :
    a.value.Plain := by
  obtain ⟨path, raw, rfl, -⟩ := parse_eq_ok h
  show (readValue raw).Plain
  unfold readValue
  split
  · exact Json.plain_draft _
  · rfl

/-! ## Writes on the heap -/

namespace Heap

variable {h h' : Heap} {o o' : ObjectId} {key : String} {v : Value} {d : Draft}
  {cs cs' pre here here' post : List Value} {ms : List (String × Draft)}

/-- One member of one object has a new value; what there was besides is as it was. -/
structure Put (h h' : Heap) (o : ObjectId) (key : String) (v : Value) : Prop where
  inside : ∀ c, h.Exists c → h'.Exists c
  here : h'.members o = putEntry key v (h.members o)
  members : ∀ x, x ≠ o → h'.members x = h.members x
  items : ∀ a, h'.items a = h.items a

theorem Put.keepsAt (p : h.Put h' o key v) (ho : .object o ∉ cs) : h.KeepsAt h' cs :=
  ⟨fun c _ => p.inside c, fun x hx => p.members x fun e => ho (e ▸ hx), fun a _ => p.items a⟩

/-- The list without its middle part, and with another one there. -/
theorem nodup_exchange (hcs : (pre ++ here ++ post).Nodup) (hhere' : here'.Nodup)
    (hdisj : ∀ c ∈ here', c ∉ pre ++ post) : (pre ++ here' ++ post).Nodup := by
  have houter : (pre ++ post).Nodup :=
    hcs.sublist ((List.sublist_append_left pre here).append_right post)
  have hperm : (pre ++ here' ++ post).Perm (here' ++ (pre ++ post)) := by
    rw [← List.append_assoc]
    exact List.perm_append_comm.append_right post
  exact hperm.nodup_iff.2
    (List.nodup_append.2 ⟨hhere', houter, fun c hc c' hc' e => hdisj c hc (e ▸ hc')⟩)

theorem not_mem_of_nodup {c : Value} (hcs : (pre ++ here ++ post).Nodup) (hc : c ∈ here) :
    c ∉ pre ++ post := by
  obtain ⟨hleft, -, hpost⟩ := List.nodup_append.1 hcs
  obtain ⟨-, -, hpre⟩ := List.nodup_append.1 hleft
  intro hm
  rcases List.mem_append.1 hm with hm | hm
  · exact hpre c hm c hc rfl
  · exact hpost c (List.mem_append_right _ hc) c hm rfl

/-- The containers of an object are its own, those of one member, and the rest; those of the member
can be exchanged. -/
theorem Holds.open_member (hh : h.Holds (.object o) (.object ms) cs) (nodup : cs.Nodup)
    (key : String) :
    ∃ here rest, here.Nodup ∧ (∀ c ∈ here, c ∉ rest) ∧ .object o ∉ here ∧ .object o ∉ rest ∧
      (∀ c, c ∈ cs ↔ c = .object o ∨ c ∈ here ∨ c ∈ rest) ∧
      ((h.peek o key = none ∧ findEntry key ms = none) ∨
        ∃ v d, h.peek o key = some v ∧ findEntry key ms = some d ∧ h.Holds v d here) ∧
      ∀ h' v d here', h'.Exists (.object o) → h'.members o = putEntry key v (h.members o) →
        h.KeepsAt h' rest → h'.Holds v d here' → here'.Nodup → .object o ∉ here' →
        (∀ c ∈ here', c ∉ rest) →
        ∃ cs', h'.Holds (.object o) (.object (putEntry key d ms)) cs' ∧ cs'.Nodup ∧
          ∀ c ∈ cs', c = .object o ∨ c ∈ here' ∨ c ∈ rest := by
  cases hh with
  | object _ _ cs inside members =>
    obtain ⟨hfresh, hcs⟩ := List.nodup_cons.1 nodup
    obtain ⟨pre, here, post, rfl, hfound, hput⟩ := members.split key
    have hmem : ∀ (l : List Value) c, c ∈ pre ++ l ++ post ↔ c ∈ l ∨ c ∈ pre ++ post := by
      intro l c
      simp only [List.mem_append]
      constructor
      · rintro ((hc | hc) | hc)
        · exact .inr (.inl hc)
        · exact .inl hc
        · exact .inr (.inr hc)
      · rintro (hc | hc | hc)
        · exact .inl (.inr hc)
        · exact .inl (.inl hc)
        · exact .inr hc
    rw [hmem] at hfresh
    refine ⟨here, pre ++ post, ?_, fun c => not_mem_of_nodup hcs, fun hm => hfresh (.inl hm),
      fun hm => hfresh (.inr hm), fun c => by rw [List.mem_cons, hmem], ?_,
      fun h' v d here' hinside hmembers keeps hv own hnot hdisj => ?_⟩
    · exact (List.nodup_append.1 (List.nodup_append.1 hcs).1).2.1
    · rw [peek_eq_findEntry]
      exact hfound.imp_left fun hn => ⟨hn.1, hn.2.1⟩
    · refine ⟨.object o :: (pre ++ here' ++ post), .object o _ _ hinside ?_,
        List.nodup_cons.2 ⟨fun hm => ?_, nodup_exchange hcs own hdisj⟩,
        fun c hc => by rwa [List.mem_cons, hmem] at hc⟩
      · rw [hmembers]
        exact hput h' v d here' keeps hv
      · exact ((hmem here' _).1 hm).elim hnot fun hm => hfresh (.inr hm)

/-- A path leads to one of the objects that hold the data. -/
theorem Holds.mem_parent {walked parents : List String} (hh : h.Holds (.object o) d cs)
    (hp : Assignment.parent h o walked parents = .ok o') : .object o' ∈ cs := by
  induction parents generalizing o d cs walked with
  | nil =>
    exact Except.ok.inj hp ▸ hh.mem_object
  | cons segment parents ih =>
    obtain ⟨ms, cs', -, rfl, -, members⟩ := hh.of_object
    rw [Assignment.parent, peek_eq_findEntry] at hp
    rcases members.find segment with ⟨hn, -⟩ | ⟨u, e, here, hu, -, hholds, hsub⟩
    · rw [hn] at hp
      cases hp
    · rw [hu] at hp
      cases u with
      | object c => exact List.mem_cons_of_mem _ (hsub.subset (ih hholds hp))
      | _ => cases hp

/-- **A write on the heap is the write on the data it holds.** The written value holds data in
containers of its own. -/
theorem Holds.writeAt {walked parents : List String} (hh : h.Holds (.object o) (.object ms) cs)
    (nodup : cs.Nodup) (hp : Assignment.parent h o walked parents = .ok o')
    (put : h.Put h' o' key v) (hv : h'.Holds v d here') (own : here'.Nodup)
    (apart : ∀ c ∈ here', c ∉ cs) :
    ∃ ms' cs', d.writeAt key parents ms = some ms' ∧ h'.Holds (.object o) (.object ms') cs' ∧
      cs'.Nodup ∧ ∀ c ∈ cs', c ∈ cs ∨ c ∈ here' := by
  induction parents generalizing o ms cs walked with
  | nil =>
    have hinside := put.inside _ (hh.inside _ hh.mem_object)
    obtain rfl := Except.ok.inj hp
    obtain ⟨here, rest, -, -, -, hrest, hmem, -, hput⟩ := hh.open_member nodup key
    obtain ⟨cs', hholds, hnodup, hsub⟩ := hput h' v d here' hinside put.here (put.keepsAt hrest) hv
      own (fun hm => apart _ hm ((hmem _).2 (.inl rfl)))
      fun c hc hm => apart c hc ((hmem c).2 (.inr (.inr hm)))
    refine ⟨putEntry key d ms, cs', rfl, hholds, hnodup, fun c hc => ?_⟩
    rcases hsub c hc with hc | hc | hc
    · exact .inl ((hmem c).2 (.inl hc))
    · exact .inr hc
    · exact .inl ((hmem c).2 (.inr (.inr hc)))
  | cons segment parents ih =>
    have hinside := put.inside _ (hh.inside _ hh.mem_object)
    obtain ⟨here, rest, hown, hdisj, hhere, hrest, hmem, hfound, hput⟩ :=
      hh.open_member nodup segment
    rw [Assignment.parent] at hp
    rcases hfound with ⟨hnone, -⟩ | ⟨u, e, hu, he, hholds⟩
    · rw [hnone] at hp
      cases hp
    · rw [hu] at hp
      cases u with
      | object c =>
        -- The data of the member are changed below it, and it is put back.
        obtain ⟨inner, _, rfl, -⟩ := hholds.of_object
        have hmem' := hholds.mem_parent hp
        obtain ⟨inner', here'', hwrite, hholds', hown', hsub⟩ := ih hholds hown hp
          fun x hx hm => apart x hx ((hmem x).2 (.inr (.inl hm)))
        have hsame : h'.members o = putEntry segment (.object c) (h.members o) := by
          rw [putEntry_of_findEntry (by rw [← peek_eq_findEntry]; exact hu)]
          exact put.members o fun e => hhere (e ▸ hmem')
        obtain ⟨cs', hholds'', hnodup, hsub'⟩ := hput h' (.object c) (.object inner') here'' hinside
          hsame (put.keepsAt fun hm => hdisj _ hmem' hm) hholds' hown'
          (fun hm => (hsub _ hm).elim hhere fun hm => apart _ hm ((hmem _).2 (.inl rfl)))
          fun x hx hm => (hsub x hx).elim (fun hx => hdisj x hx hm)
            fun hx => apart x hx ((hmem x).2 (.inr (.inr hm)))
        refine ⟨putEntry segment (.object inner') ms, cs', ?_, hholds'', hnodup, fun x hx => ?_⟩
        · rw [Draft.writeAt, he]
          simp only [hwrite, Option.map_some]
        · rcases hsub' x hx with hx | hx | hx
          · exact .inl ((hmem x).2 (.inl hx))
          · exact (hsub x hx).imp_left fun hx => (hmem x).2 (.inr (.inl hx))
          · exact .inl ((hmem x).2 (.inr (.inr hx)))
      | _ => cases hp

/-- A path that plain data accept leads to an object of the heap. -/
theorem Holds.exists_parent {parents : List String} (hh : h.Holds (.object o) (.object ms) cs)
    (hw : (d.writeAt key parents ms).isSome) (walked : List String) :
    ∃ o', Assignment.parent h o walked parents = .ok o' := by
  induction parents generalizing o ms cs walked with
  | nil => exact ⟨o, rfl⟩
  | cons segment parents ih =>
    cases hh with
    | object _ _ cs inside members =>
      rw [Assignment.parent, peek_eq_findEntry]
      rw [Draft.writeAt] at hw
      rcases members.find segment with hn | ⟨u, e, here, hu, he, hholds, -⟩
      · rw [hn.2] at hw
        cases hw
      · rw [he] at hw
        cases e with
        | object inner =>
          cases hholds with
          | object c inner cs inside' below =>
            rw [hu]
            rw [Option.isSome_map] at hw
            exact ih (.object c inner cs inside' below) hw _
        | _ => cases hw

/-- The objects along a path of observed ones are observed. -/
theorem observed_of_parent {walked parents : List String} (hclosed : h.Closed) (ho : h.isObserved o)
    (hp : Assignment.parent h o walked parents = .ok o') : h.isObserved o' := by
  induction parents generalizing o walked with
  | nil => exact Except.ok.inj hp ▸ ho
  | cons segment parents ih =>
    rw [Assignment.parent] at hp
    split at hp
    · next c hc => exact ih (hclosed ho hc) hp
    · cases hp
    · cases hp

/-! ## An assignment on the heap -/

theorem Wrote.put {h h' : Heap} (hw : h.Wrote o key v h') (ho : h.Exists (.object o)) :
    h.Put h' o key v :=
  ⟨fun _ => hw.exists_iff.2, (hw.members o).trans (if_pos ⟨rfl, ho⟩),
    fun x hx => (hw.members x).trans (if_neg fun e => hx e.1),
    fun a => by rw [items, items, hw.arrays]⟩

theorem Put.observe (p : h.Put h' o key v) (u : Value) : h.Put (h'.observe u) o key v := by
  have hi := Instruments.observe h' u
  refine ⟨fun c hc => hi.agrees.exists_mono (p.inside c hc), (hi.members o).trans p.here,
    fun x hx => (hi.members x).trans (p.members x hx), fun a => ?_⟩
  rw [Heap.items, hi.arrays]
  exact p.items a

/-- A write that is ignored leaves a value like the written one in its place. -/
theorem put_of_ignores (hi : h.ignores o key v) :
    ∃ u, h.peek o key = some u ∧ u.Alike v ∧ h.Put h o key u := by
  unfold ignores at hi
  cases hu : h.peek o key with
  | none => simp [hu] at hi
  | some u =>
    rw [hu] at hi
    refine ⟨u, rfl, Value.alike_of_same hi, fun _ hc => hc, ?_, fun _ _ => rfl, fun _ => rfl⟩
    rw [peek_eq_findEntry] at hu
    exact (putEntry_of_findEntry hu).symm

/-- **New data written to an object**: the data held change as plain data do, and nothing that was there
before is observed anew. -/
theorem Holds.assign {h h₁ : Heap} {walked parents : List String}
    (hh : h.Holds (.object o) (.object ms) cs) (nodup : cs.Nodup) (hg : h.Grounded) (hd : d.Plain)
    (built : h.build d = (v, h₁)) (hp : Assignment.parent h₁ o walked parents = .ok o')
    (key : String) :
    (∃ ms' cs', d.writeAt key parents ms = some ms' ∧
      (h₁.store o' key v).1.Holds (.object o) (.object ms') cs' ∧ cs'.Nodup) ∧
      ∀ x, h.Exists (.object x) → (h₁.store o' key v).1.isObserved x → h.isObserved x := by
  obtain ⟨here, hv, hown, hmade⟩ := hd.holds_build h
  have hgrows := grows_build h d
  rw [built] at hv hgrows
  have hdata := hh.congr (hgrows.keepsAt hh.inside)
  have hapart : ∀ c ∈ here, c ∉ cs := fun c hc hm => hmade c hc (hh.inside c hm)
  have hold : h.Exists (.object o') := hh.inside _ (hdata.mem_parent hp)
  have hnew : h₁.Exists (.object o') := hgrows.agrees.exists_mono hold
  have hnot : .object o' ∉ here := fun hm => hmade _ hm hold
  by_cases hi : h₁.ignores o' key v
  · -- The value that stays in place was there before, so that it is no new container.
    obtain ⟨u, hu, halike, hput⟩ := put_of_ignores hi
    rw [store_of_ignores hi]
    refine ⟨?_, fun x _ hx => by rwa [hgrows.isObserved_eq] at hx⟩
    have hstays : h.Exists u := by
      rw [hgrows.agrees.peek o' key hold] at hu
      exact hg.slot hu
    have hu' : h₁.Holds u d here := by
      cases hv with
      | scalar _ w isScalar alike => exact .scalar u w isScalar (halike.trans alike)
      | array => exact absurd (halike.eq_of_handle rfl ▸ hstays) (hmade _ List.mem_cons_self)
      | object => exact absurd (halike.eq_of_handle rfl ▸ hstays) (hmade _ List.mem_cons_self)
    obtain ⟨ms', cs', hwrite, hholds, hnodup, -⟩ := hdata.writeAt nodup hp hput hu' hown hapart
    exact ⟨ms', cs', hwrite, hholds, hnodup⟩
  · obtain ⟨h₂, hw, -, he⟩ := store_eq (Bool.eq_false_iff.2 hi)
    have hput := hw.put hnew
    have hput' : h₁.Put (h₁.store o' key v).1 o' key v := by
      rw [he]
      dsimp only
      split
      · exact hput.observe _
      · exact hput
    have hv' := hv.congr (hput'.keepsAt hnot)
    obtain ⟨ms', cs', hwrite, hholds, hnodup, -⟩ := hdata.writeAt nodup hp hput' hv' hown hapart
    refine ⟨⟨ms', cs', hwrite, hholds, hnodup⟩, fun x hx hobs => ?_⟩
    have hkept : h₂.isObserved x → h.isObserved x := by
      rw [hw.isObserved, hgrows.isObserved_eq]
      exact id
    rw [he] at hobs
    dsimp only at hobs
    split at hobs
    · rcases reaches_of_observe hobs with hobs | hr
      · exact hkept hobs
      · -- What is reached from the new value is new.
        obtain ⟨d', cs'', hx', hsub⟩ := (hv.congr (hput.keepsAt hnot)).exists_reaches hr
        exact absurd hx (hmade _ (hsub _ hx'.mem_object))
    · exact hkept hobs

end Heap

end LiveMarkup

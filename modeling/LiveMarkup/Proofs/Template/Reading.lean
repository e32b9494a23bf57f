import LiveMarkup.Proofs.Data.Wellformed
import LiveMarkup.Proofs.Patch.Retext
import LiveMarkup.Proofs.Template.Binds

/-!
# What a template reads

The result of a binding depends on the slots that were read for it, and on arrays, and on nothing
else. On data without objects in arrays all these slots belong to observed objects, and where the
binding succeeds they all exist.

* **`Tree.bind_congr`**: heaps that agree on what was read give the same binding.
* **`Tree.reads_observed`**: what is read is observed.
* `Tree.skeleton_bind`, `Tree.detached_bind`: a bound template has the shape of the template, and no
  handles.
-/

namespace LiveMarkup

namespace Heap

variable {h h' : Heap}

/-- The text of a value depends on arrays only. -/
theorem displayIn_congr (hg : h.Grounded) (ha : h.KeepsArrays h') (free free' : List ArrayId)
    (v : Value) (hv : h.Exists v)
    (hfree : ∀ a : ArrayId, a.index < h.arrays.size → (a ∈ free' ↔ a ∈ free))
    (hn : free.Nodup) (hn' : free'.Nodup) : h'.displayIn free' v = h.displayIn free v := by
  fun_induction displayIn h free v generalizing free' with
  | case7 free a hmem ih =>
    rw [displayIn, if_pos ((hfree a hv).2 hmem), ha.items a hv]
    congr 1
    refine List.map_congr_left fun u hu => ?_
    split
    · rfl
    · refine ih u _ (hg.item hu) (fun b hb => ?_) (hn.erase a) (hn'.erase a)
      rw [hn.mem_erase_iff, hn'.mem_erase_iff, hfree b hb]
  | case8 free a hmem => rw [displayIn, if_neg (mt (hfree a hv).1 hmem)]
  | _ => simp_all [displayIn]

theorem display_congr (hg : h.Grounded) (ha : h.KeepsArrays h') {v : Value} (hv : h.Exists v) :
    h'.display v = h.display v := by
  refine displayIn_congr hg ha _ _ v hv (fun a hlt => ?_) (nodup_arrayIds h) (nodup_arrayIds h')
  rw [mem_arrayIds_iff, mem_arrayIds_iff]
  exact iff_of_true (Nat.lt_of_lt_of_le hlt ha.size) hlt

end Heap

namespace Template

variable {h h' : Heap} {v w : Value} {data : ObjectId}

/-! ## The same values give the same binding -/

section Congruence

variable (hg : h.Grounded) (ha : h.KeepsArrays h')

include hg in
theorem enter_exists {segment : String} (hr : (enter h v segment).result = some w) : h.Exists w := by
  obtain ⟨o, rfl, hpeek⟩ | ⟨a, rfl, hmem⟩ | ⟨x, rfl⟩ := enter_eq_some hr
  · exact hg.slot hpeek
  · exact hg.item hmem
  · trivial

include ha in
theorem enter_congr {segment : String} (hv : h.Exists v)
    (hreads : ∀ p ∈ (enter h v segment).reads, h'.valueAt? p = h.valueAt? p) :
    enter h' v segment = enter h v segment := by
  cases v with
  | object o =>
    have hp := hreads ⟨o, segment⟩ (by simp [enter])
    rw [enter, enter, show h'.peek o segment = h.peek o segment from hp]
  | array a => rw [enter, enter, ha.items a hv]
  | _ => rfl

include hg ha in
theorem descend_congr (segments : List String) (hv : h.Exists v)
    (hreads : ∀ p ∈ (descend h v segments).reads, h'.valueAt? p = h.valueAt? p) :
    descend h' v segments = descend h v segments := by
  induction segments generalizing v with
  | nil => rfl
  | cons segment rest ih =>
    unfold descend at hreads ⊢
    cases hr : (enter h v segment).result with
    | none =>
      simp only [hr] at hreads
      simp only [enter_congr ha hv hreads, hr]
    | some w =>
      simp only [hr, List.mem_append] at hreads
      have henter := enter_congr ha hv fun p hp => hreads p (.inl hp)
      simp only [henter, hr, ih (enter_exists hg hr) fun p hp => hreads p (.inr hp)]

include hg in
theorem descend_exists (segments : List String) (hv : h.Exists v)
    (hr : (descend h v segments).result = .ok w) : h.Exists w := by
  induction segments generalizing v with
  | nil =>
    cases hr
    exact hv
  | cons segment rest ih =>
    unfold descend at hr
    cases hf : (enter h v segment).result with
    | none => simp [hf] at hr
    | some u =>
      simp only [hf] at hr
      exact ih (enter_exists hg hf) hr

theorem resolve_of_blank {path : String} (he : (Text.trim path).isEmpty) :
    resolve h data path = ⟨[], .error .emptyPlaceholder⟩ := by
  simp only [resolve, he, if_true]

theorem resolve_of_not_blank {path : String} (he : ¬ (Text.trim path).isEmpty) :
    resolve h data path =
      ⟨(descend h (.object data) (segments (Text.trim path))).reads,
        (descend h (.object data) (segments (Text.trim path))).result.mapError
          (.unresolved (Text.trim path))⟩ := by
  simp only [resolve, he]
  rfl

theorem resolve_of_trim {path trimmed : String} {keys : List String} (htrim : Text.trim path = trimmed)
    (hne : trimmed.isEmpty = false) (hkeys : segments trimmed = keys) :
    resolve h data path =
      ⟨(descend h (.object data) keys).reads,
        (descend h (.object data) keys).result.mapError (.unresolved trimmed)⟩ := by
  rw [resolve_of_not_blank (by rw [htrim, hne]; nofun), htrim, hkeys]

theorem reads_resolve {path : String} (he : ¬ (Text.trim path).isEmpty) :
    (resolve h data path).reads =
      (descend h (.object data) (segments (Text.trim path))).reads := by
  rw [resolve_of_not_blank he]

theorem descend_of_resolve {path : String} (he : ¬ (Text.trim path).isEmpty)
    (hr : (resolve h data path).result = .ok w) :
    (descend h (.object data) (segments (Text.trim path))).result = .ok w := by
  rw [resolve_of_not_blank he] at hr
  cases hd : (descend h (.object data) (segments (Text.trim path))).result with
  | error e => rw [hd] at hr; cases hr
  | ok u => rw [hd] at hr; exact congrArg Except.ok (Except.ok.inj hr)

include hg ha in
theorem resolve_congr (path : String) (hv : h.Exists (.object data))
    (hreads : ∀ p ∈ (resolve h data path).reads, h'.valueAt? p = h.valueAt? p) :
    resolve h' data path = resolve h data path := by
  by_cases he : (Text.trim path).isEmpty
  · rw [resolve_of_blank he, resolve_of_blank he]
  · rw [reads_resolve he] at hreads
    have hdescend := descend_congr hg ha _ hv hreads
    rw [resolve_of_not_blank he, resolve_of_not_blank he, hdescend]

include hg in
theorem resolve_exists (path : String) (hv : h.Exists (.object data))
    (hr : (resolve h data path).result = .ok w) : h.Exists w := by
  by_cases he : (Text.trim path).isEmpty
  · rw [resolve_of_blank he] at hr
    cases hr
  · exact descend_exists hg _ hv (descend_of_resolve he hr)

include hg ha in
theorem bindPieces_congr (ps : List Piece) (hv : h.Exists (.object data))
    (hreads : ∀ p ∈ (bindPieces h data ps).reads, h'.valueAt? p = h.valueAt? p) :
    bindPieces h' data ps = bindPieces h data ps := by
  induction ps with
  | nil => rfl
  | cons piece ps ih =>
    cases piece with
    | literal cs =>
      unfold bindPieces at hreads ⊢
      simp only [ih hreads]
    | placeholder e =>
      unfold bindPieces at hreads ⊢
      cases hr : (resolve h data (String.ofList e)).result with
      | error err =>
        simp only [hr] at hreads
        simp only [resolve_congr hg ha _ hv hreads, hr]
      | ok u =>
        simp only [hr, List.mem_append] at hreads
        have hres := resolve_congr hg ha _ hv fun p hp => hreads p (.inl hp)
        simp only [hres, hr, ih fun p hp => hreads p (.inr hp),
          Heap.display_congr hg ha (resolve_exists hg _ hv hr)]

include hg ha in
theorem interpolate_congr (text : String) (hv : h.Exists (.object data))
    (hreads : ∀ p ∈ (interpolate h data text).reads, h'.valueAt? p = h.valueAt? p) :
    interpolate h' data text = interpolate h data text :=
  bindPieces_congr hg ha _ hv hreads

end Congruence

/-! ## What is read exists -/

theorem valueAt?_of_enter {segment : String} (hr : (enter h v segment).result = some w)
    {p : Place} (hp : p ∈ (enter h v segment).reads) : (h.valueAt? p).isSome := by
  obtain ⟨rfl, rfl⟩ := mem_reads_enter hp
  exact Option.isSome_iff_exists.2 ⟨w, hr⟩

theorem valueAt?_of_descend (segments : List String) (hr : (descend h v segments).result = .ok w)
    {p : Place} (hp : p ∈ (descend h v segments).reads) : (h.valueAt? p).isSome := by
  induction segments generalizing v with
  | nil => exact absurd hp List.not_mem_nil
  | cons segment rest ih =>
    unfold descend at hr hp
    cases hf : (enter h v segment).result with
    | none => simp [hf] at hr
    | some u =>
      simp only [hf, List.mem_append] at hr hp
      rcases hp with hp | hp
      · exact valueAt?_of_enter hf hp
      · exact ih hr hp

theorem valueAt?_of_resolve {path : String} (hr : (resolve h data path).result = .ok w) {p : Place}
    (hp : p ∈ (resolve h data path).reads) : (h.valueAt? p).isSome := by
  by_cases he : (Text.trim path).isEmpty
  · rw [resolve_of_blank he] at hp
    exact absurd hp List.not_mem_nil
  · rw [reads_resolve he] at hp
    exact valueAt?_of_descend _ (descend_of_resolve he hr) hp

theorem Fills.valueAt? {ps : List Piece} {reads : List Place} {text : String}
    (hf : Fills h data ps reads text) {p : Place} (hp : p ∈ reads) : (h.valueAt? p).isSome := by
  induction hf with
  | nil => exact absurd hp List.not_mem_nil
  | literal cs ps reads text rest ih => exact ih hp
  | placeholder e v ps reads text found rest ih =>
    rcases List.mem_append.1 hp with hp | hp
    · exact valueAt?_of_resolve found hp
    · exact ih hp

/-! ## What is read is observed -/

/-- A container in the data; an object is an observed one. -/
def Within (h : Heap) (data : ObjectId) : Value → Prop
  | .object o => h.Reaches (.object data) (.object o) ∧ h.isObserved o
  | .array a => h.Reaches (.object data) (.array a)
  | _ => True

theorem Within.enter (hclosed : h.Closed) (hclean : h.Clean (.object data)) {segment : String}
    (hv : Within h data v)
    (hr : (enter h v segment).result = some w) : Within h data w := by
  obtain ⟨o, rfl, hpeek⟩ | ⟨a, rfl, hmem⟩ | ⟨x, rfl⟩ := enter_eq_some hr
  · have hreach : h.Reaches (.object data) w := .slot o segment w hv.1 hpeek
    cases w with
    | object c => exact ⟨hreach, hclosed hv.2 hpeek⟩
    | array a => exact hreach
    | _ => trivial
  · cases w with
    | object c => exact absurd (hclean a _ hv hmem) nofun
    | array b => exact .item a _ hv hmem
    | _ => trivial
  · trivial

theorem Within.observed_of_enter {segment : String} (hv : Within h data v) {p : Place}
    (hp : p ∈ (Template.enter h v segment).reads) : h.isObserved p.object := by
  obtain ⟨rfl, -⟩ := mem_reads_enter hp
  exact hv.2

theorem Within.observed_of_descend (hclosed : h.Closed) (hclean : h.Clean (.object data))
    (segments : List String) (hv : Within h data v) {p : Place}
    (hp : p ∈ (descend h v segments).reads) : h.isObserved p.object := by
  induction segments generalizing v with
  | nil => exact absurd hp List.not_mem_nil
  | cons segment rest ih =>
    unfold descend at hp
    cases hf : (Template.enter h v segment).result with
    | none =>
      simp only [hf] at hp
      exact Within.observed_of_enter hv hp
    | some u =>
      simp only [hf, List.mem_append] at hp
      rcases hp with hp | hp
      · exact Within.observed_of_enter hv hp
      · exact ih (Within.enter hclosed hclean hv hf) hp

theorem observed_of_resolve (hclosed : h.Closed) (hclean : h.Clean (.object data))
    (hdata : h.isObserved data) {path : String} {p : Place}
    (hp : p ∈ (resolve h data path).reads) : h.isObserved p.object := by
  by_cases he : (Text.trim path).isEmpty
  · rw [resolve_of_blank he] at hp
    exact absurd hp List.not_mem_nil
  · rw [reads_resolve he] at hp
    have hwithin : Within h data (.object data) := ⟨.refl, hdata⟩
    exact Within.observed_of_descend hclosed hclean _ hwithin hp

theorem observed_of_bindPieces (hclosed : h.Closed) (hclean : h.Clean (.object data))
    (hdata : h.isObserved data) (ps : List Piece) {p : Place}
    (hp : p ∈ (bindPieces h data ps).reads) : h.isObserved p.object := by
  induction ps with
  | nil => exact absurd hp List.not_mem_nil
  | cons piece ps ih =>
    cases piece with
    | literal cs => exact ih hp
    | placeholder e =>
      unfold bindPieces at hp
      cases hf : (resolve h data (String.ofList e)).result with
      | error err =>
        simp only [hf] at hp
        exact observed_of_resolve hclosed hclean hdata hp
      | ok u =>
        simp only [hf, List.mem_append] at hp
        rcases hp with hp | hp
        · exact observed_of_resolve hclosed hclean hdata hp
        · exact ih hp

end Template

namespace Tree

open Template

variable {h h' : Heap} {data : ObjectId}

mutual

/-- **Heaps that agree on what was read, and on arrays, give the same binding.** -/
theorem bind_congr {h h' : Heap} {data : ObjectId} (hg : h.Grounded) (ha : h.KeepsArrays h')
    (hv : h.Exists (.object data)) (t : Tree)
    (hreads : ∀ p ∈ (t.bind h data).reads, h'.valueAt? p = h.valueAt? p) :
    t.bind h' data = t.bind h data := by
  cases t with
  | text content handle =>
    unfold Tree.bind at hreads ⊢
    rw [interpolate_congr hg ha content hv hreads]
  | element tag attributes children handle =>
    unfold Tree.bind at hreads ⊢
    rw [bindList_congr hg ha hv children hreads]

theorem bindList_congr {h h' : Heap} {data : ObjectId} (hg : h.Grounded) (ha : h.KeepsArrays h')
    (hv : h.Exists (.object data)) (ts : List Tree)
    (hreads : ∀ p ∈ (bindList h data ts).reads, h'.valueAt? p = h.valueAt? p) :
    bindList h' data ts = bindList h data ts := by
  cases ts with
  | nil => rfl
  | cons t ts =>
    unfold bindList at hreads ⊢
    cases hr : (t.bind h data).result with
    | error e =>
      simp only [hr] at hreads
      simp only [bind_congr hg ha hv t hreads, hr]
    | ok b =>
      simp only [hr, List.mem_append] at hreads
      have hfirst := bind_congr hg ha hv t fun p hp => hreads p (.inl hp)
      have hrest := bindList_congr hg ha hv ts fun p hp => hreads p (.inr hp)
      simp only [hfirst, hrest, hr]

end

mutual

theorem Binds.valueAt? {t b : Tree} {reads : List Place} (hb : Binds h data t reads b) {p : Place}
    (hp : p ∈ reads) : (h.valueAt? p).isSome := by
  cases hb with
  | text content handle reads out fills => exact fills.valueAt? hp
  | element tag attributes children handle reads bs below => exact below.valueAt? hp

theorem BindsAll.valueAt? {ts bs : List Tree} {reads : List Place} (hb : BindsAll h data ts reads bs)
    {p : Place} (hp : p ∈ reads) : (h.valueAt? p).isSome := by
  cases hb with
  | nil => exact absurd hp List.not_mem_nil
  | cons t ts reads later b bs head tail =>
    rcases List.mem_append.1 hp with hp | hp
    · exact head.valueAt? hp
    · exact tail.valueAt? hp

end

/-- Everything that a binding which succeeds has read exists. -/
theorem valueAt?_of_bind (t : Tree) {b : Tree} (hr : (t.bind h data).result = .ok b) {p : Place}
    (hp : p ∈ (t.bind h data).reads) : (h.valueAt? p).isSome :=
  (binds_bind t hr).valueAt? hp

mutual

/-- **Everything that a binding reads is observed**, on data without objects in arrays. -/
theorem reads_observed {h : Heap} {data : ObjectId} (hclosed : h.Closed)
    (hclean : h.Clean (.object data)) (hdata : h.isObserved data) (t : Tree) {p : Place}
    (hp : p ∈ (t.bind h data).reads) : h.isObserved p.object := by
  cases t with
  | text content handle => exact observed_of_bindPieces hclosed hclean hdata _ hp
  | element tag attributes children handle =>
    exact reads_observedList hclosed hclean hdata children hp

theorem reads_observedList {h : Heap} {data : ObjectId} (hclosed : h.Closed)
    (hclean : h.Clean (.object data)) (hdata : h.isObserved data) (ts : List Tree) {p : Place}
    (hp : p ∈ (bindList h data ts).reads) : h.isObserved p.object := by
  cases ts with
  | nil => exact absurd hp List.not_mem_nil
  | cons t ts =>
    unfold bindList at hp
    cases hf : (t.bind h data).result with
    | error e =>
      simp only [hf] at hp
      exact reads_observed hclosed hclean hdata t hp
    | ok b =>
      simp only [hf, List.mem_append] at hp
      rcases hp with hp | hp
      · exact reads_observed hclosed hclean hdata t hp
      · exact reads_observedList hclosed hclean hdata ts hp

end

mutual

theorem Binds.skeleton {t b : Tree} {reads : List Place} (hb : Binds h data t reads b) :
    b.skeleton = t.skeleton := by
  cases hb with
  | text content handle reads out fills => rfl
  | element tag attributes children handle reads bs below =>
    rw [Tree.skeleton, Tree.skeleton, below.skeleton]

theorem BindsAll.skeleton {ts bs : List Tree} {reads : List Place} (hb : BindsAll h data ts reads bs) :
    skeletonList bs = skeletonList ts := by
  cases hb with
  | nil => rfl
  | cons t ts reads later b bs head tail =>
    rw [skeletonList, skeletonList, head.skeleton, tail.skeleton]

end

/-- A bound template has the shape of the template. -/
theorem skeleton_bind (t : Tree) {b : Tree} (hr : (t.bind h data).result = .ok b) :
    b.skeleton = t.skeleton :=
  (binds_bind t hr).skeleton

mutual

theorem Binds.detached {t b : Tree} {reads : List Place} (hb : Binds h data t reads b) :
    b.detached = b := by
  cases hb with
  | text content handle reads out fills => rfl
  | element tag attributes children handle reads bs below => rw [Tree.detached, below.detached]

theorem BindsAll.detached {ts bs : List Tree} {reads : List Place} (hb : BindsAll h data ts reads bs) :
    detachedList bs = bs := by
  cases hb with
  | nil => rfl
  | cons t ts reads later b bs head tail => rw [detachedList, head.detached, tail.detached]

end

/-- A bound template has no handles. -/
theorem detached_bind (t : Tree) {b : Tree} (hr : (t.bind h data).result = .ok b) : b.detached = b :=
  (binds_bind t hr).detached

end Tree

end LiveMarkup

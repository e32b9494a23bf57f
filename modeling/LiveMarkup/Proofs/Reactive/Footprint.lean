import LiveMarkup.Proofs.Reactive.Observation
import LiveMarkup.Proofs.Reactive.Retained
import LiveMarkup.Proofs.Template.Following

/-!
# The footprint of a binding

A watcher that binds a template comes to be subscribed to the slots that were read of observed objects, and
to nothing else. On any other heap that has the same in these slots, and the same arrays, the binding
reads the same and comes out the same.

* `Heap.mem_subscribers_track`: who is subscribed to a dep after tracking.
* `Tree.isObserved_iff_of_bind`: of the slots that are read, those of observed objects have deps.
* **`Machine.Leads.bind_footprint`**: what a binding under an active watcher reads and subscribes to.
-/

namespace LiveMarkup

variable {σ : Type} {h : Heap} {w x : WatcherId} {d : DepId} {ps : List Place} {p : Place}
  {data : ObjectId} {t b : Tree}

/-- Tracking subscribes one watcher, to the deps of the places. -/
theorem Heap.mem_subscribers_track (ht : h.Tidy) :
    x ∈ (h.track w ps).subscribers d ↔
      x ∈ h.subscribers d ∨ x = w ∧ ∃ p ∈ ps, h.depAt? p = some d := by
  have hlt : d ∈ ps.filterMap h.depAt? → d.index < h.deps.size := fun hd => by
    obtain ⟨p, -, hp⟩ := List.mem_filterMap.1 hd
    exact ht.lt hp
  rw [subscribers_track, ← List.mem_filterMap]
  by_cases hd : d ∈ ps.filterMap h.depAt?
  · by_cases hw : w ∈ h.subscribers d
    · rw [if_neg fun hc => hc.2.2 hw]
      refine ⟨.inl, ?_⟩
      rintro (hx | ⟨rfl, -⟩)
      · exact hx
      · exact hw
    · rw [if_pos ⟨hd, hlt hd, hw⟩, List.mem_append, List.mem_singleton, and_iff_left hd]
  · rw [if_neg fun hc => hd hc.1, or_iff_left fun hc => hd hc.2]

/-- Of the slots that a binding reads, those of observed objects have deps, and no others. -/
theorem Tree.isObserved_iff_of_bind (hh : h.Sound) (ht : h.Tidy) (hb : (t.bind h data).result = .ok b)
    (hp : p ∈ (t.bind h data).reads) : h.isObserved p.object ↔ ∃ d, h.depAt? p = some d := by
  refine ⟨fun ho => ?_, fun ⟨d, hd⟩ => ht.observed hd⟩
  obtain ⟨d, hd, -⟩ := exists_dep_of_bind hh hb hp ho
  exact ⟨d, hd⟩

namespace Machine.Leads

variable {m : Machine σ}

/-- **The slots that a binding reads are what its watcher comes to be subscribed to, and what decides
its result**, at any point of a run. -/
theorem bind_footprint {host : σ} (hl : (start host).Leads m) (hactive : m.state.active = some w)
    (hdata : m.state.heap.Exists (.object data)) {next : Except Template.BindError Tree → Program σ}
    {rest : List (Frame σ)}
    (top : m.stack = .body (.readTraced (fun h => t.bind h data) next) :: rest)
    (hbind : (t.bind m.state.heap data).result = .ok b) :
    let h := m.state.heap
    let reads := (t.bind h data).reads
    let h' := m.step.state.heap
    m.step = { m.withHeap h' with stack := .body (next (.ok b)) :: rest } ∧
      (h'.objects = h.objects ∧ h'.arrays = h.arrays) ∧
      (∀ p ∈ reads, (h.valueAt? p).isSome ∧ (h.isObserved p.object ↔ ∃ d, h.depAt? p = some d)) ∧
      (∀ d, w ∈ h'.subscribers d ↔
        w ∈ h.subscribers d ∨ ∃ p ∈ reads, h.isObserved p.object ∧ h.depAt? p = some d) ∧
      (∀ d x, x ≠ w → (x ∈ h'.subscribers d ↔ x ∈ h.subscribers d)) ∧
      ∀ h₂, h.KeepsArrays h₂ → (∀ p ∈ reads, h₂.valueAt? p = h.valueAt? p) →
        t.bind h₂ data = ⟨reads, .ok b⟩ := by
  intro h reads h'
  have hh := hl.wellformed Heap.wellformed_empty
  have ht := hl.tidy Heap.tidy_empty
  have hstep := step_read top hactive
  have hheap : h' = h.track w reads := congrArg (·.state.heap) hstep
  refine ⟨?_, hheap ▸ Heap.track_data h w reads, fun p hp => ?_, fun d => ?_, fun d x hx => ?_,
    fun h₂ ha hreads => ?_⟩
  · rw [hstep, hheap, ← hbind]
    rfl
  · exact ⟨Tree.valueAt?_of_bind t hbind hp, Tree.isObserved_iff_of_bind hh.sound ht hbind hp⟩
  · rw [hheap, Heap.mem_subscribers_track ht, and_iff_right rfl]
    refine or_congr_right ⟨fun ⟨p, hp, hd⟩ => ⟨p, hp, ht.observed hd, hd⟩, fun ⟨p, hp, _, hd⟩ => ⟨p, hp, hd⟩⟩
  · rw [hheap, Heap.mem_subscribers_track ht]
    exact or_iff_left fun hc => hx hc.1
  · rw [Tree.bind_congr hh.grounded ha hdata t hreads, ← hbind]

/-- A template that goes through an array to an object, which an observation does not. -/
def indexedTemplate : Tree := .text "\x7b\x7blist.0.x\x7d\x7d \x7b\x7bn\x7d\x7d" none

/-- An object with another one in an array is made and observed, and a watcher binds the template. -/
def indexed : Machine Unit :=
  { start () with
    stack := [.body (.make
      (.object [("list", .array [.object [("x", .value (.bool true))]]), ("n", .value .null)]) fun v =>
        .edit (.observe v)
          (.watch (.readTraced (fun h => indexedTemplate.bind h ⟨1⟩) fun _ => .done) fun _ => .done))] }

theorem leads_indexed : (start ()).Leads indexed.step.step.step := by
  have hstart : (start ()).Leads indexed := .perform _ _ .refl rfl
  have hmake : indexed.Grounded := by
    rintro p ⟨⟩
    exact ⟨⟨⟨trivial, trivial⟩, trivial⟩, trivial, trivial⟩
  have hobserve : indexed.step.Grounded := by
    rintro p ⟨⟩
    show 1 < 2
    decide
  have hwatch : indexed.step.step.Grounded := by
    rintro p ⟨⟩
    trivial
  exact ((hstart.step _ hmake).step _ hobserve).step _ hwatch

/-- The heap of the machine when its watcher binds. -/
def indexedHeap : Heap :=
  ⟨#[⟨Table.empty.insert "x" ⟨.bool true, none⟩, false⟩,
      ⟨(Table.empty.insert "list" ⟨.array ⟨0⟩, some ⟨0⟩⟩).insert "n" ⟨.null, some ⟨1⟩⟩, true⟩],
    #[[.object ⟨0⟩]], #[[], []]⟩

theorem heap_indexed : indexed.step.step.step.state.heap = indexedHeap := by cbv

theorem resolve_indexed :
    Template.resolve indexedHeap ⟨1⟩ "list.0.x" = ⟨[⟨⟨1⟩, "list"⟩, ⟨⟨0⟩, "x"⟩], .ok (.bool true)⟩ ∧
      Template.resolve indexedHeap ⟨1⟩ "n" = ⟨[⟨⟨1⟩, "n"⟩], .ok .null⟩ := by
  have hlist : Template.descend indexedHeap (.object ⟨1⟩) ["list", "0", "x"] =
      ⟨[⟨⟨1⟩, "list"⟩, ⟨⟨0⟩, "x"⟩], .ok (.bool true)⟩ := by cbv
  have hn : Template.descend indexedHeap (.object ⟨1⟩) ["n"] = ⟨[⟨⟨1⟩, "n"⟩], .ok .null⟩ := by cbv
  constructor
  · rw [Template.resolve_of_trim (by cbv : _ = "list.0.x") (by decide) (by cbv : _ = ["list", "0", "x"]),
      hlist]
    rfl
  · rw [Template.resolve_of_trim (by cbv : _ = "n") (by decide) (by cbv : _ = ["n"]), hn]
    rfl

theorem bind_indexed :
    indexedTemplate.bind indexedHeap ⟨1⟩ =
      ⟨[⟨⟨1⟩, "list"⟩, ⟨⟨0⟩, "x"⟩, ⟨⟨1⟩, "n"⟩], .ok (.text "true null" none)⟩ := by
  have hpieces : Template.Piece.ofText "\x7b\x7blist.0.x\x7d\x7d \x7b\x7bn\x7d\x7d".toList =
      [.literal [], .placeholder "list.0.x".toList, .literal [' '], .placeholder "n".toList,
        .literal []] := by cbv
  have htrue : indexedHeap.display (.bool true) = "true" := by cbv
  have hnull : indexedHeap.display .null = "null" := by cbv
  simp only [indexedTemplate, Tree.bind, Template.interpolate, hpieces, Template.bindPieces,
    String.ofList_toList, resolve_indexed, htrue, hnull]
  rfl

/-- Of the three slots that are read, the one inside the array is not observed. The watcher comes to be
subscribed to the other two, and what else the observed object holds does not matter. -/
theorem bind_footprint_indexed :
    (start ()).Leads indexed.step.step.step ∧ indexed.step.step.step.state.active = some ⟨0⟩ ∧
      indexedTemplate.bind indexed.step.step.step.state.heap ⟨1⟩ =
        ⟨[⟨⟨1⟩, "list"⟩, ⟨⟨0⟩, "x"⟩, ⟨⟨1⟩, "n"⟩], .ok (.text "true null" none)⟩ ∧
      (∀ d, ⟨0⟩ ∈ indexed.step.step.step.step.state.heap.subscribers d ↔ d = ⟨0⟩ ∨ d = ⟨1⟩) ∧
      (indexedTemplate.bind (indexedHeap.store ⟨1⟩ "more" (.bool true)).1 ⟨1⟩).result =
        .ok (.text "true null" none) := by
  have hdata : indexed.step.step.step.state.heap.Exists (.object ⟨1⟩) := by
    rw [heap_indexed]
    show 1 < 2
    decide
  have hbind : (indexedTemplate.bind indexed.step.step.step.state.heap ⟨1⟩).result =
      .ok (.text "true null" none) := by rw [heap_indexed, bind_indexed]
  have htop : indexed.step.step.step.stack =
      [.body (.readTraced (fun h => indexedTemplate.bind h ⟨1⟩) fun _ => .done), .leave ⟨0⟩ none 0,
        .adopt ⟨0⟩ fun _ => .done] := by rfl
  have hactive : indexed.step.step.step.state.active = some ⟨0⟩ := by rfl
  obtain ⟨-, -, -, hsubscribers, -, hagree⟩ := bind_footprint leads_indexed hactive hdata htop hbind
  rw [heap_indexed, bind_indexed] at hagree hsubscribers
  refine ⟨leads_indexed, hactive, by rw [heap_indexed, bind_indexed], fun d => ?_, ?_⟩
  · have hnone : indexedHeap.subscribers d = [] := by
      obtain ⟨i⟩ := d
      match i with
      | 0 | 1 => rfl
      | i + 2 => rfl
    have hinner : indexedHeap.isObserved ⟨0⟩ = false := by rfl
    have houter : indexedHeap.isObserved ⟨1⟩ = true := by rfl
    have hlist : indexedHeap.depAt? ⟨⟨1⟩, "list"⟩ = some ⟨0⟩ := by cbv
    have hn : indexedHeap.depAt? ⟨⟨1⟩, "n"⟩ = some ⟨1⟩ := by cbv
    rw [hsubscribers, hnone]
    simp only [List.not_mem_nil, false_or, List.exists_mem_cons_iff, hinner, houter, hlist, hn,
      Bool.false_eq_true, false_and, true_and, exists_false, or_false, Option.some.injEq]
    exact or_congr eq_comm eq_comm
  · rw [hagree _ (Heap.keepsArrays_store ..)]
    simp only [List.forall_mem_cons]
    exact ⟨by cbv, by cbv, by cbv, List.forall_mem_nil _⟩

end Machine.Leads

end LiveMarkup

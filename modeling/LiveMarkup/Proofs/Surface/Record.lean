import LiveMarkup.Proofs.Surface.Calls

/-!
# The record of a surface

The record holds all that was done to a surface. A request that is not recorded has changed nothing, and
one that is recorded does the same again when it is made from its record.

* `Op.call`: the request that an operation records.
* `Call.Recordable`: the requests that the record is kept of, all but loading.
* **`recorded_perform`**: a request changes nothing, or records the one operation that stands for it.
* **`recorded_performAll`**: requests and what they record come to the same.
* **`replay_log`**: the record of a surface, carried out on the surface as it was, gives the surface.
-/

namespace LiveMarkup.Surface

variable {s : Surface}

/-! ## The record under changes of nodes and links -/

@[simp] theorem log_modify (s : Surface) (id : NodeId) (f : SurfaceNode → SurfaceNode) :
    (s.modify id f).log = s.log := rfl

@[simp] theorem log_alloc (s : Surface) (k : Content) : (s.alloc k).2.log = s.log := rfl

@[simp] theorem log_record (s : Surface) (op : Op) : (s.record op).log = s.log.push op := rfl

@[simp] theorem log_detach (s : Surface) (id : NodeId) : (s.detach id).log = s.log := by
  unfold detach
  split <;> rfl

@[simp] theorem log_foldl_detach (s : Surface) (ids : List NodeId) :
    (ids.foldl detach s).log = s.log := by
  induction ids generalizing s with
  | nil => rfl
  | cons id ids ih => rw [List.foldl_cons, ih, log_detach]

@[simp] theorem log_attach (s : Surface) (p id : NodeId) (r : Option NodeId) :
    (s.attach p id r).log = s.log := by
  unfold attach
  split
  · rfl
  · rw [log_modify, log_modify, log_detach]

/-! ## One request -/

/-- The request that an operation records. -/
def Op.call : Op → Call
  | .createElement _ tag => .createElement tag
  | .createText _ text => .createText text
  | .setAttribute id name value => .setAttribute id name value
  | .append parent child => .appendChild parent child
  | .insertBefore parent id reference => .insertBefore parent id reference
  | .remove parent child => .removeChild parent child
  | .setText id text => .setText id text

/-- The requests that the record is kept of: all but loading. -/
def Call.Recordable : Call → Prop
  | .load .. => False
  | _ => True

/-- **A request changes nothing, or it records the operation that stands for it**, and no other. -/
theorem recorded_perform (s : Surface) {call : Call} (h : call.Recordable) :
    s.perform call = s ∨ ∃ op : Op, op.call = call ∧ (s.perform call).log = s.log.push op := by
  cases call with
  | createElement tag => exact .inr ⟨.createElement ⟨s.allocated⟩ tag, rfl, rfl⟩
  | createText text => exact .inr ⟨.createText ⟨s.allocated⟩ text, rfl, rfl⟩
  | setAttribute id name value =>
    simp only [perform, setAttribute]
    split
    · exact .inr ⟨.setAttribute id name value, rfl, rfl⟩
    · exact .inl rfl
  | appendChild parent child =>
    refine .inr ⟨.append parent child, rfl, ?_⟩
    rw [perform, appendChild, log_record, log_attach]
  | insertBefore parent id reference =>
    refine .inr ⟨.insertBefore parent id reference, rfl, ?_⟩
    rw [perform, insertBefore, log_record, log_attach]
  | removeChild parent child =>
    simp only [perform, removeChild]
    split
    · refine .inr ⟨.remove parent child, rfl, ?_⟩
      rw [log_record, log_detach]
    · exact .inl rfl
  | setText id text =>
    simp only [perform, setText]
    split
    · exact .inr ⟨.setText id text, rfl, rfl⟩
    · refine .inr ⟨.setText id text, rfl, ?_⟩
      -- the new text node and the children that are taken away leave no record of their own
      rw [log_record]
      split
      · rw [log_foldl_detach]
      · rw [log_attach, log_alloc, log_foldl_detach]
    · exact .inl rfl
  | load parent source => exact h.elim

/-! ## Any number of requests -/

/-- **Requests and what they record come to the same.** What is recorded is a selection of the requests,
and the others have changed nothing. -/
theorem recorded_performAll (s : Surface) {calls : List Call} (h : ∀ call ∈ calls, call.Recordable) :
    ∃ ops : List Op, (s.performAll calls).log = s.log ++ ops.toArray ∧
      (ops.map Op.call).Sublist calls ∧ s.performAll (ops.map Op.call) = s.performAll calls := by
  induction calls generalizing s with
  | nil => exact ⟨[], by simp [performAll], .slnil, rfl⟩
  | cons call calls ih =>
    obtain ⟨hcall, hcalls⟩ := List.forall_mem_cons.1 h
    obtain ⟨ops, hlog, hsub, hsame⟩ := ih (s.perform call) hcalls
    rcases recorded_perform s hcall with hnothing | ⟨op, hop, hpush⟩
    · rw [hnothing] at hlog hsame
      refine ⟨ops, ?_, hsub.cons call, ?_⟩
      · rw [performAll, List.foldl_cons, hnothing]
        exact hlog
      · rw [performAll, performAll, List.foldl_cons, hnothing]
        exact hsame
    · refine ⟨op :: ops, ?_, ?_, ?_⟩
      · rw [performAll, List.foldl_cons]
        refine hlog.trans ?_
        rw [hpush]
        simp
      · rw [List.map_cons, hop]
        exact hsub.cons_cons call
      · rw [List.map_cons, hop]
        exact hsame

/-- **The record is complete.** Whatever is asked of a surface with an empty record, its record, carried
out on the surface as it was, gives all its nodes and links and the same record again. -/
theorem replay_log (s : Surface) (empty : s.log = #[]) (calls : List Call)
    (h : ∀ call ∈ calls, call.Recordable) :
    s.performAll ((s.performAll calls).log.toList.map Op.call) = s.performAll calls := by
  obtain ⟨ops, hlog, -, hsame⟩ := recorded_performAll s h
  rw [empty, Array.empty_append] at hlog
  rw [hlog, List.toList_toArray]
  exact hsame

/-- Requests of all kinds: a text put into an element that is then given another text, by which it loses
the first one to a new node, an element moved under itself, and requests that name nodes of a wrong kind or
none. -/
def crossed : List Call :=
  [.createElement "p", .createText "one", .appendChild root ⟨1⟩, .insertBefore ⟨1⟩ ⟨2⟩ (some ⟨7⟩),
    .setText ⟨1⟩ "two", .appendChild ⟨1⟩ ⟨1⟩, .setAttribute ⟨2⟩ "id" "a", .setText root "three",
    .removeChild ⟨1⟩ ⟨2⟩, .setAttribute ⟨1⟩ "id" "a"]

/-- Of ten requests seven are recorded, and these lead to the same nodes. -/
theorem replay_log_crossed :
    let s := Surface.empty.performAll crossed
    Surface.empty.log = #[] ∧ (∀ call ∈ crossed, call.Recordable) ∧ s.log.size = 7 ∧
      s.children ⟨1⟩ = [⟨3⟩] ∧ Surface.empty.performAll (s.log.toList.map Op.call) = s := by
  have hrecordable : ∀ call ∈ crossed, call.Recordable := by
    simp [crossed, Call.Recordable]
  exact ⟨rfl, hrecordable, by decide, by decide, replay_log Surface.empty rfl crossed hrecordable⟩

end LiveMarkup.Surface

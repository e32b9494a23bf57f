import LiveMarkup.Proofs.Surface.Links
import LiveMarkup.Surface.Load

/-!
# Work on a surface

Whatever is done to a surface by its own operations, a text node stays a text node. Writing texts on
such nodes does nothing else.

* `Surface.Worked`: a surface after any number of operations.
* `Surface.KeepsTexts`, **`Worked.keepsTexts`**: text nodes stay text nodes.
* `Surface.writeTexts`, **`Surface.written_writeTexts`**: texts written on text nodes, and nothing else.
-/

namespace LiveMarkup.Surface

variable {s s' s'' : Surface} {x id : NodeId}

/-! ## Text nodes -/

def IsText (s : Surface) (x : NodeId) : Prop := ∃ content, s.content? x = some (.text content)

/-- All text nodes of one surface are text nodes of another. -/
def KeepsTexts (s s' : Surface) : Prop := ∀ x, s.IsText x → s'.IsText x

namespace KeepsTexts

theorem refl (s : Surface) : s.KeepsTexts s := fun _ h => h

theorem trans (h : s.KeepsTexts s') (h' : s'.KeepsTexts s'') : s.KeepsTexts s'' :=
  fun x hx => h' x (h x hx)

theorem of_content (h : ∀ x, s'.content? x = s.content? x) : s.KeepsTexts s' := by
  rintro x ⟨content, hx⟩
  exact ⟨content, (h x).trans hx⟩

theorem alloc (s : Surface) (k : Content) : s.KeepsTexts (s.alloc k).2 := by
  rintro x ⟨content, hx⟩
  have hne : x ≠ ⟨s.allocated⟩ := by
    rintro rfl
    exact Nat.lt_irrefl _ (lt_of_content? hx)
  exact ⟨content, by rw [content?_alloc, if_neg hne, hx]⟩

theorem attach (s : Surface) (parent id : NodeId) (reference : Option NodeId) :
    s.KeepsTexts (s.attach parent id reference) := of_content fun x => by simp

theorem detach (s : Surface) (id : NodeId) : s.KeepsTexts (s.detach id) := of_content fun x => by simp

theorem foldl_detach (s : Surface) (ids : List NodeId) :
    s.KeepsTexts (ids.foldl Surface.detach s) := by
  induction ids generalizing s with
  | nil => exact refl s
  | cons id ids ih => exact (detach s id).trans (ih (s.detach id))

/-- The content of one node is changed, which is no text or becomes one. -/
theorem modify {k : Content} (h : s.IsText id → ∃ content, k = .text content) :
    s.KeepsTexts (s.modify id fun n => { n with content := k }) := by
  rintro x ⟨content, hx⟩
  rw [IsText, content?_modify_content]
  split
  · next he =>
    subst he
    obtain ⟨content', rfl⟩ := h ⟨content, hx⟩
    exact ⟨content', by rw [hx]; rfl⟩
  · exact ⟨content, hx⟩

theorem record (h : s.KeepsTexts s') (op : Op) : s.KeepsTexts (s'.record op) := h

theorem setAttribute (s : Surface) (id : NodeId) (name value : String) :
    s.KeepsTexts (s.setAttribute id name value) := by
  unfold Surface.setAttribute
  split
  · next tag attributes hid =>
    refine KeepsTexts.record (KeepsTexts.modify ?_) _
    rintro ⟨content, htext⟩
    rw [hid] at htext
    cases htext
  · exact refl s

theorem setText (s : Surface) (id : NodeId) (text : String) : s.KeepsTexts (s.setText id text) := by
  unfold Surface.setText
  split
  · exact record (modify fun _ => ⟨text, rfl⟩) _
  · refine record ?_ _
    have hcleared := foldl_detach s (s.children id)
    split
    · exact hcleared
    · exact hcleared.trans ((alloc _ _).trans (attach _ _ _ _))
  · exact refl s

theorem removeChild (s : Surface) (parent child : NodeId) :
    s.KeepsTexts (s.removeChild parent child) := by
  unfold Surface.removeChild
  split
  · exact record (detach s child) _
  · exact refl s

mutual

theorem load (s : Surface) (parent : NodeId) (source : Source) :
    s.KeepsTexts (s.load parent source).2 := by
  have hplaced : s.KeepsTexts ((s.alloc (contentOf source)).2.attach parent
      (s.alloc (contentOf source)).1 none) := (alloc _ _).trans (attach _ _ _ _)
  cases source with
  | element name attributes children => exact hplaced.trans (loadAll _ _ children)
  | text content => exact hplaced
  | comment content => exact hplaced

theorem loadAll (s : Surface) (parent : NodeId) (sources : List Source) :
    s.KeepsTexts (s.loadAll parent sources) := by
  cases sources with
  | nil => exact refl s
  | cons source rest => exact (load s parent source).trans (loadAll _ parent rest)

end

end KeepsTexts

/-! ## Work -/

/-- A surface after any number of its own operations: recorded changes, source laid out on it, and its
record handed out. -/
inductive Worked (s : Surface) : Surface → Prop where
  | refl : Worked s s
  | createElement (s' : Surface) (tag : String) (before : Worked s s') :
      Worked s (s'.createElement tag).2
  | createText (s' : Surface) (text : String) (before : Worked s s') : Worked s (s'.createText text).2
  | setAttribute (s' : Surface) (id : NodeId) (name value : String) (before : Worked s s') :
      Worked s (s'.setAttribute id name value)
  | appendChild (s' : Surface) (parent child : NodeId) (before : Worked s s') :
      Worked s (s'.appendChild parent child)
  | insertBefore (s' : Surface) (parent id : NodeId) (reference : Option NodeId) (before : Worked s s') :
      Worked s (s'.insertBefore parent id reference)
  | removeChild (s' : Surface) (parent child : NodeId) (before : Worked s s') :
      Worked s (s'.removeChild parent child)
  | setText (s' : Surface) (id : NodeId) (text : String) (before : Worked s s') :
      Worked s (s'.setText id text)
  | load (s' : Surface) (parent : NodeId) (source : Source) (before : Worked s s') :
      Worked s (s'.load parent source).2
  | takeLog (s' : Surface) (before : Worked s s') : Worked s { s' with log := #[] }

theorem Worked.trans (h : s.Worked s') (h' : s'.Worked s'') : s.Worked s'' := by
  induction h' with
  | refl => exact h
  | createElement k tag before ih => exact .createElement k tag ih
  | createText k text before ih => exact .createText k text ih
  | setAttribute k id name value before ih => exact .setAttribute k id name value ih
  | appendChild k parent child before ih => exact .appendChild k parent child ih
  | insertBefore k parent id reference before ih => exact .insertBefore k parent id reference ih
  | removeChild k parent child before ih => exact .removeChild k parent child ih
  | setText k id text before ih => exact .setText k id text ih
  | load k parent source before ih => exact .load k parent source ih
  | takeLog k before ih => exact .takeLog k ih

/-- **Text nodes stay text nodes**, whatever is done to a surface. -/
theorem Worked.keepsTexts (h : s.Worked s') : s.KeepsTexts s' := by
  induction h with
  | refl => exact .refl s
  | createElement s' tag before ih => exact ih.trans (.record (.alloc s' _) _)
  | createText s' text before ih => exact ih.trans (.record (.alloc s' _) _)
  | setAttribute s' id name value before ih => exact ih.trans (.setAttribute s' id name value)
  | appendChild s' parent child before ih => exact ih.trans (.record (.attach s' _ _ _) _)
  | insertBefore s' parent id reference before ih => exact ih.trans (.record (.attach s' _ _ _) _)
  | removeChild s' parent child before ih => exact ih.trans (.removeChild s' parent child)
  | setText s' id text before ih => exact ih.trans (.setText s' id text)
  | load s' parent source before ih => exact ih.trans (.load s' parent source)
  | takeLog s' before ih => exact ih.trans (.of_content fun _ => rfl)

/-! ## Writing texts -/

/-- Texts are written on nodes, one after another. -/
def writeTexts (s : Surface) (changes : List (NodeId × String)) : Surface :=
  changes.foldl (fun s c => s.setText c.1 c.2) s

theorem writeTexts_append (s : Surface) (changes more : List (NodeId × String)) :
    s.writeTexts (changes ++ more) = (s.writeTexts changes).writeTexts more := List.foldl_append

theorem keepsTexts_writeTexts (s : Surface) (changes : List (NodeId × String)) :
    s.KeepsTexts (s.writeTexts changes) := by
  induction changes generalizing s with
  | nil => exact .refl s
  | cons c changes ih => exact (KeepsTexts.setText s c.1 c.2).trans (ih _)

/-- Exactly these texts were written: they are recorded, and no node was made, moved or removed. -/
structure Written (s : Surface) (changes : List (NodeId × String)) (s' : Surface) : Prop where
  log : s'.log = s.log ++ (changes.map fun c => Op.setText c.1 c.2).toArray
  allocated : s'.allocated = s.allocated
  children : ∀ x, s'.children x = s.children x
  parent : ∀ x, s'.parent? x = s.parent? x

theorem written_setText (h : s.IsText id) (text : String) :
    Written s [(id, text)] (s.setText id text) := by
  obtain ⟨content, hid⟩ := h
  have hset : s.setText id text =
      (s.modify id fun n => { n with content := .text text }).record (.setText id text) := by
    simp [setText, hid]
  rw [hset]
  exact ⟨by simp [record, modify], by simp, fun x => by simp, fun x => by simp⟩

/-- **Texts that are written on text nodes** are all that changes. -/
theorem written_writeTexts {changes : List (NodeId × String)} (h : ∀ c ∈ changes, s.IsText c.1) :
    Written s changes (s.writeTexts changes) := by
  induction changes generalizing s with
  | nil => exact ⟨by simp [writeTexts], rfl, fun _ => rfl, fun _ => rfl⟩
  | cons c changes ih =>
    obtain ⟨hc, hchanges⟩ := List.forall_mem_cons.1 h
    have hfirst := written_setText hc c.2
    have hrest := ih fun d hd => KeepsTexts.setText s c.1 c.2 d.1 (hchanges d hd)
    refine ⟨?_, hrest.allocated.trans hfirst.allocated,
      fun x => (hrest.children x).trans (hfirst.children x),
      fun x => (hrest.parent x).trans (hfirst.parent x)⟩
    rw [show s.writeTexts (c :: changes) = (s.setText c.1 c.2).writeTexts changes from rfl, hrest.log,
      hfirst.log]
    simp

end LiveMarkup.Surface

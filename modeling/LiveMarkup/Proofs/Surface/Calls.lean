import Mathlib.Data.List.Nodup
import LiveMarkup.Proofs.Surface.Markup

/-!
# Calls to a surface

Whatever is asked of a surface, and whatever nodes a request names, parents and children agree about
their links, the nodes that are not moved keep their order, and no content changes but that of the node
that is written.

* `Surface.Call`, `Surface.perform`, `Surface.performAll`: requests, and what they come to.
* `Surface.Initial`: surfaces as they are made.
* `Call.moves`, `Call.writes?`: the nodes that a request takes from their places, and the node that it
  writes.
* `Surface.Spares`: what is left as it was but for such nodes.
* **`Linked.perform`**, **`spares_perform`**: what a request leaves in agreement, and as it was.
* **`Initial.links`**: so it is after any number of requests.
-/

namespace LiveMarkup.Surface

variable {s s' s'' : Surface} {x p c id : NodeId} {r : Option NodeId}

/-! ## Requests -/

/-- What can be asked of a surface: the changes that it records, and loading. -/
inductive Call where
  | createElement (tag : String)
  | createText (text : String)
  | setAttribute (id : NodeId) (name value : String)
  | appendChild (parent child : NodeId)
  | insertBefore (parent id : NodeId) (reference : Option NodeId)
  | removeChild (parent child : NodeId)
  | setText (id : NodeId) (text : String)
  | load (parent : NodeId) (source : Source)

/-- The surface after a request. -/
def perform (s : Surface) : Call → Surface
  | .createElement tag => (s.createElement tag).2
  | .createText text => (s.createText text).2
  | .setAttribute id name value => s.setAttribute id name value
  | .appendChild parent child => s.appendChild parent child
  | .insertBefore parent id reference => s.insertBefore parent id reference
  | .removeChild parent child => s.removeChild parent child
  | .setText id text => s.setText id text
  | .load parent source => (s.load parent source).2

/-- The surface after one request after another. -/
def performAll (s : Surface) (calls : List Call) : Surface := calls.foldl perform s

/-- A surface as it is made: empty, or of a markup text. -/
inductive Initial : Surface → Prop where
  | empty : Initial Surface.empty
  | ofMarkup (markup : String) (s : Surface) (made : ofMarkup markup = .ok s) : Initial s

/-- A node can be moved under a parent: both exist, and they are not the same. -/
def Movable (s : Surface) (parent id : NodeId) : Prop :=
  parent.index < s.allocated ∧ id.index < s.allocated ∧ parent ≠ id

instance (s : Surface) (parent id : NodeId) : Decidable (s.Movable parent id) :=
  inferInstanceAs (Decidable (_ ∧ _))

/-- The nodes that a request takes from their places. -/
def Call.moves (s : Surface) : Call → List NodeId
  | .appendChild parent child | .insertBefore parent child _ =>
    if s.Movable parent child then [child] else []
  | .removeChild parent child => if s.parent? child = some parent then [child] else []
  | .setText id _ =>
    match s.content? id with
    | some (.element ..) => s.children id
    | _ => []
  | _ => []

/-- The node whose content a request writes. -/
def Call.writes? : Call → Option NodeId
  | .setAttribute id .. | .setText id _ => some id
  | _ => none

/-! ## Moving nodes -/

theorem attach_of_not_movable (h : ¬ s.Movable p id) (r : Option NodeId) : s.attach p id r = s := by
  unfold attach
  refine if_pos ?_
  by_contra hc
  simp only [Bool.or_eq_true, Option.isNone_iff_eq_none, beq_iff_eq, not_or] at hc
  obtain ⟨⟨hp, hid⟩, hne⟩ := hc
  exact h ⟨isSome_node?_iff.1 (Option.isSome_iff_ne_none.2 hp),
    isSome_node?_iff.1 (Option.isSome_iff_ne_none.2 hid), hne⟩

theorem Linked.move (h : s.Linked) (p id : NodeId) (r : Option NodeId) : (s.attach p id r).Linked := by
  by_cases hm : s.Movable p id
  · exact h.attach hm.1 hm.2.1 hm.2.2
  · rwa [attach_of_not_movable hm]

theorem Linked.foldl_detach (h : s.Linked) (ids : List NodeId) : (ids.foldl Surface.detach s).Linked := by
  induction ids generalizing s with
  | nil => exact h
  | cons id ids ih => exact ih (h.detach id)

theorem Linked.lt_of_mem_children (h : s.Linked) (hc : c ∈ s.children p) :
    p.index < s.allocated ∧ c.index < s.allocated :=
  ⟨Surface.lt_of_mem_children hc, lt_of_parent? (h.mem_children_iff.1 hc)⟩

mutual

/-- What placing a new node under any parent preserves, loading does. -/
theorem load_preserves {P : Surface → Prop} {s : Surface}
    (place : ∀ s parent k, P s → P ((s.alloc k).2.attach parent ⟨s.allocated⟩ none)) (h : P s)
    (parent : NodeId) (source : Source) : P (s.load parent source).2 := by
  have hplaced := place s parent (contentOf source) h
  cases source with
  | element name attributes children => exact loadAll_preserves place hplaced _ children
  | _ => exact hplaced

theorem loadAll_preserves {P : Surface → Prop} {s : Surface}
    (place : ∀ s parent k, P s → P ((s.alloc k).2.attach parent ⟨s.allocated⟩ none)) (h : P s)
    (parent : NodeId) (sources : List Source) : P (s.loadAll parent sources) := by
  cases sources with
  | nil => exact h
  | cons source rest => exact loadAll_preserves place (load_preserves place h parent source) parent rest

end

/-- What loading preserves and the empty surface has, surfaces have when they are made. -/
theorem Initial.of_load {P : Surface → Prop}
    (place : ∀ s parent k, P s → P ((s.alloc k).2.attach parent ⟨s.allocated⟩ none))
    (empty : P Surface.empty) (h : s.Initial) : P s := by
  cases h with
  | empty => exact empty
  | ofMarkup markup s made =>
    unfold Surface.ofMarkup at made
    cases hf : Source.parse markup with
    | error e => simp [hf, Except.map] at made
    | ok forest =>
      simp only [hf, Except.map, Except.ok.injEq] at made
      exact made ▸ loadAll_preserves place empty root forest

theorem Initial.linked (h : s.Initial) : s.Linked :=
  h.of_load (fun _ parent k hs => (hs.alloc k).move parent _ none) .empty

/-- **A request leaves the links in agreement.** -/
theorem Linked.perform (h : s.Linked) (call : Call) : (s.perform call).Linked := by
  cases call with
  | createElement tag => exact (h.alloc _).record _
  | createText text => exact (h.alloc _).record _
  | setAttribute id name value =>
    simp only [Surface.perform, setAttribute]
    split
    · exact (h.congr (fun x => by simp) fun x => by simp).record _
    · exact h
  | appendChild parent child => exact (h.move parent child none).record _
  | insertBefore parent id reference => exact (h.move parent id reference).record _
  | removeChild parent child =>
    simp only [Surface.perform, removeChild]
    split
    · exact (h.detach child).record _
    · exact h
  | setText id text =>
    simp only [Surface.perform, setText]
    split
    · exact (h.congr (fun x => by simp) fun x => by simp).record _
    · have hcleared := h.foldl_detach (s.children id)
      split
      · exact hcleared.record _
      · exact ((hcleared.alloc _).move id _ none).record _
    · exact h
  | load parent source => exact load_preserves (fun _ q k hs => (hs.alloc k).move q _ none) h parent source

/-! ## What is left as it was -/

/-- Whether a node was there and is none of those that are moved. -/
def stays (s : Surface) (moved : List NodeId) (c : NodeId) : Bool :=
  decide (c.index < s.allocated ∧ c ∉ moved)

/-- All nodes but one keep their content, and those that are not moved keep their places among one
another. -/
structure Spares (s : Surface) (moved : List NodeId) (written : Option NodeId) (s' : Surface) : Prop where
  allocated_le : s.allocated ≤ s'.allocated
  content : ∀ x, x.index < s.allocated → written ≠ some x → s'.content? x = s.content? x
  order : ∀ p, (s'.children p).filter (s.stays moved) = (s.children p).filter (s.stays moved)

/-- Lists that agree where one test is passed agree where a stronger one is. -/
theorem filter_eq_of_imp {α : Type} {weak strong : α → Bool} (h : ∀ a, strong a → weak a) {as bs : List α}
    (he : as.filter weak = bs.filter weak) : as.filter strong = bs.filter strong := by
  have htwice : ∀ cs : List α, cs.filter strong = (cs.filter weak).filter strong := fun cs => by
    rw [List.filter_filter]
    refine List.filter_congr fun a _ => ?_
    rw [Bool.eq_iff_iff, Bool.and_eq_true]
    exact ⟨fun ha => ⟨ha, h a ha⟩, And.left⟩
  rw [htwice as, he, ← htwice bs]

theorem filter_placeBefore {f : NodeId → Bool} (hid : f id = false) (reference : NodeId)
    (cs : List NodeId) : (placeBefore reference id cs).filter f = cs.filter f := by
  induction cs with
  | nil => simp [placeBefore, hid]
  | cons c cs ih =>
    rw [placeBefore]
    split
    · rw [List.filter_cons, hid]
      rfl
    · rw [List.filter_cons, ih, List.filter_cons]

/-- To place a node changes nothing among the others. -/
theorem filter_place_others {f : NodeId → Bool} (hid : f id = false) (r : Option NodeId) (cs : List NodeId) :
    (place r id cs).filter f = cs.filter f := by
  cases r with
  | none => simp [place, hid]
  | some reference => exact filter_placeBefore hid reference cs

namespace Spares

variable {moved moved' : List NodeId} {written : Option NodeId}

theorem of_children (allocated : s.allocated ≤ s'.allocated)
    (content : ∀ x, x.index < s.allocated → written ≠ some x → s'.content? x = s.content? x)
    (children : ∀ p, s'.children p = s.children p) : s.Spares moved written s' :=
  ⟨allocated, content, fun p => by rw [children]⟩

theorem refl (s : Surface) : s.Spares moved written s :=
  .of_children (Nat.le_refl _) (fun _ _ _ => rfl) fun _ => rfl

/-- One change after another. What the second one moves is moved by both, or was not there before. -/
theorem trans (h : s.Spares moved written s') (h' : s'.Spares moved' written s'')
    (sub : ∀ c ∈ moved', c.index < s.allocated → c ∈ moved) : s.Spares moved written s'' where
  allocated_le := Nat.le_trans h.allocated_le h'.allocated_le
  content x hx hne :=
    (h'.content x (Nat.lt_of_lt_of_le hx h.allocated_le) hne).trans (h.content x hx hne)
  order p := by
    refine (filter_eq_of_imp (fun c hc => ?_) (h'.order p)).trans (h.order p)
    obtain ⟨hlt, hout⟩ := of_decide_eq_true hc
    exact decide_eq_true ⟨Nat.lt_of_lt_of_le hlt h.allocated_le, fun hm => hout (sub c hm hlt)⟩

theorem record (h : s.Spares moved written s') (op : Op) : s.Spares moved written (s'.record op) :=
  ⟨h.allocated_le, h.content, h.order⟩

theorem alloc (s : Surface) (k : Content) : s.Spares [] written (s.alloc k).2 := by
  refine .of_children (by simp) (fun x hx _ => ?_) (children_alloc s k)
  rw [content?_alloc, if_neg]
  rintro rfl
  exact Nat.lt_irrefl _ hx

theorem detach (s : Surface) (id : NodeId) : s.Spares [id] written (s.detach id) := by
  refine ⟨by simp, fun x _ _ => content?_detach s id x, fun p => ?_⟩
  rw [children_detach]
  split
  · rw [List.filter_filter]
    refine List.filter_congr fun c _ => ?_
    rw [Bool.eq_iff_iff, Bool.and_eq_true]
    refine ⟨And.left, fun hc => ⟨hc, ?_⟩⟩
    exact decide_eq_true fun he => (of_decide_eq_true hc).2 (he ▸ List.mem_singleton_self id)
  · rfl

theorem foldl_detach (s : Surface) (ids : List NodeId) :
    s.Spares ids written (ids.foldl Surface.detach s) := by
  suffices ∀ (s' : Surface) (rest : List NodeId), rest ⊆ ids → s.Spares ids written s' →
      s.Spares ids written (rest.foldl Surface.detach s') from
    this s ids (fun _ h => h) (.refl s)
  intro s' rest hrest hs'
  induction rest generalizing s' with
  | nil => exact hs'
  | cons id rest ih =>
    obtain ⟨hid, hsub⟩ := List.cons_subset.1 hrest
    refine ih (s'.detach id) hsub (hs'.trans (.detach s' id) fun c hc _ => ?_)
    exact List.mem_singleton.1 hc ▸ hid

/-- A node is moved, or the request has no effect. -/
theorem attach (s : Surface) (p id : NodeId) (r : Option NodeId) :
    s.Spares (if s.Movable p id then [id] else []) written (s.attach p id r) := by
  by_cases hm : s.Movable p id
  · rw [if_pos hm]
    refine ⟨by simp, fun x _ _ => content?_attach s p id x r, fun q => ?_⟩
    rw [children_attach hm.1 hm.2.1 hm.2.2]
    have hspares : s.Spares [id] none (s.detach id) := .detach s id
    have hdetached := hspares.order q
    split
    · next hq =>
      rw [filter_place_others (by simp [stays]), ← hq]
      exact hdetached
    · exact hdetached
  · rw [if_neg hm, attach_of_not_movable hm]
    exact .refl s

/-- A new node is placed. -/
theorem adopt (s : Surface) (p : NodeId) (k : Content) :
    s.Spares [] written ((s.alloc k).2.attach p ⟨s.allocated⟩ none) := by
  refine (Spares.alloc s k).trans (.attach _ p ⟨s.allocated⟩ none) fun c hc hlt => ?_
  split at hc
  · rw [List.mem_singleton.1 hc] at hlt
    exact absurd hlt (Nat.lt_irrefl _)
  · exact hc

theorem load (s : Surface) (p : NodeId) (source : Source) :
    s.Spares [] written (s.load p source).2 :=
  load_preserves (P := fun s' => s.Spares [] written s')
    (fun s' q k h => h.trans (.adopt s' q k) fun _ hc _ => hc) (.refl s) p source

/-- The content of one node is written. -/
theorem modify (s : Surface) (id : NodeId) (k : Content) :
    s.Spares [] (some id) (s.modify id fun n => { n with content := k }) := by
  refine .of_children (by simp) (fun x _ hne => ?_) fun p => by simp
  rw [content?_modify_content, if_neg fun he => hne (congrArg some he.symm)]

end Spares

/-- **A request moves and writes no more than its nodes.** -/
theorem spares_perform (s : Surface) (call : Call) :
    s.Spares (call.moves s) call.writes? (s.perform call) := by
  cases call with
  | createElement tag => exact (Spares.alloc s _).record _
  | createText text => exact (Spares.alloc s _).record _
  | setAttribute id name value =>
    simp only [perform, setAttribute]
    split
    · exact (Spares.modify s id _).record _
    · exact .refl s
  | appendChild parent child => exact (Spares.attach s parent child none).record _
  | insertBefore parent id reference => exact (Spares.attach s parent id reference).record _
  | removeChild parent child =>
    simp only [perform, removeChild, Call.moves]
    split
    · exact (Spares.detach s child).record _
    · exact .refl s
  | setText id text =>
    simp only [perform, setText, Call.moves]
    cases hk : s.content? id with
    | none => exact .refl s
    | some k =>
      cases k with
      | text content => exact (Spares.modify s id _).record _
      | element tag attributes =>
        have hcleared : s.Spares (s.children id) (some id) ((s.children id).foldl Surface.detach s) :=
          .foldl_detach s (s.children id)
        dsimp only
        split
        · exact hcleared.record _
        · exact (hcleared.trans (.adopt _ id _) fun _ hc _ => absurd hc List.not_mem_nil).record _
      | _ => exact .refl s
  | load parent source => exact .load s parent source

/-! ## Any number of requests -/

/-- What a surface has when it is made and every request preserves, it has after any requests. -/
theorem performAll_preserves {P : Surface → Prop} (hstep : ∀ s call, P s → P (s.perform call)) (h : P s)
    (calls : List Call) : P (s.performAll calls) := by
  induction calls generalizing s with
  | nil => exact h
  | cons call calls ih => exact ih (hstep s call h)

/-- **Links agree after any requests.** A node is listed among the children of another if that one is its
parent, and only then, once, and both exist. And no further request changes the order of the children that
it does not take from their places, or the content of a node that it does not write. -/
theorem Initial.links {s₀ : Surface} (h : s₀.Initial) (calls : List Call) :
    let s := s₀.performAll calls
    (∀ p c, c ∈ s.children p ↔ s.parent? c = some p) ∧
    (∀ p c, c ∈ s.children p →
      (s.children p).count c = 1 ∧ p.index < s.allocated ∧ c.index < s.allocated) ∧
    ∀ call : Call,
      (∀ p, ((s.perform call).children p).filter (s.stays (call.moves s)) =
        (s.children p).filter fun c => c ∉ call.moves s) ∧
      ∀ x, x.index < s.allocated → call.writes? ≠ some x → (s.perform call).content? x = s.content? x := by
  intro s
  have hs : s.Linked := performAll_preserves (fun s call hs => hs.perform call) h.linked calls
  refine ⟨fun p c => hs.mem_children_iff, fun p c hc => ⟨?_, hs.lt_of_mem_children hc⟩, fun call => ?_⟩
  · exact List.count_eq_one_of_mem (hs.nodup_children p) hc
  · have hspares := s.spares_perform call
    refine ⟨fun p => (hspares.order p).trans (List.filter_congr fun c hc => ?_), hspares.content⟩
    simp [stays, (hs.lt_of_mem_children hc).2]

/-- Two elements are put into the document the wrong way round, and then nodes are named that do not exist
or are no children of their parents. -/
def reordered : List Call :=
  [.createElement "a", .createElement "b", .appendChild root ⟨1⟩, .insertBefore root ⟨2⟩ (some ⟨1⟩),
    .insertBefore ⟨2⟩ ⟨2⟩ none, .removeChild ⟨2⟩ ⟨1⟩, .appendChild ⟨9⟩ ⟨1⟩]

/-- The document lists both, each once, and is the parent of both. Were the first one put under the other,
that one would stay where it is. -/
theorem Initial.links_reordered :
    let s := Surface.empty.performAll reordered
    Surface.empty.Initial ∧ s.children root = [⟨2⟩, ⟨1⟩] ∧ s.parent? ⟨1⟩ = some root ∧
      ((s.perform (.appendChild ⟨2⟩ ⟨1⟩)).children root).filter (s.stays [⟨1⟩]) = [⟨2⟩] := by
  intro s
  have hchildren : s.children root = [⟨2⟩, ⟨1⟩] := by decide
  obtain ⟨hlinks, -, hfurther⟩ := Initial.empty.links reordered
  refine ⟨.empty, hchildren, (hlinks root ⟨1⟩).1 (by rw [hchildren]; decide), ?_⟩
  refine ((hfurther (.appendChild ⟨2⟩ ⟨1⟩)).1 root).trans ?_
  rw [hchildren]
  decide

end LiveMarkup.Surface

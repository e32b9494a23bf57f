import LiveMarkup.Proofs.Patch.Rebuild
import LiveMarkup.Proofs.Surface.Record

/-!
# The report of a patch balances

What a patch counts is what it records. Every node that it makes is put in the place of an old one or
appended; every node of the new tree is made by it or is one that it compared and used again. A patch
records nothing if the two trees agree in shape, tags and texts.

* `OpKind`, `tally`: how many operations of a kind there are.
* `Tree.bare`: a tree without its attributes and handles.
* `Patch.Accounted`: what a stretch of a patch has recorded, and how its counters stand to that.
* **`Patch.accounted_create`**: building a tree.
* **`Patch.accounted_update`**: patching a tree over another.
* **`Patch.report_balances`**: the report and the record of a whole patch.
-/

namespace LiveMarkup

namespace Surface

/-- The kinds of recorded changes. Elements and texts are made by one kind. -/
inductive OpKind where
  | create
  | dress
  | append
  | insert
  | remove
  | write
  deriving DecidableEq

def Op.kind : Op → OpKind
  | .createElement .. => .create
  | .createText .. => .create
  | .setAttribute .. => .dress
  | .append .. => .append
  | .insertBefore .. => .insert
  | .remove .. => .remove
  | .setText .. => .write

/-- The number of operations of a kind. -/
def tally (kind : OpKind) (ops : List Op) : Nat := ops.countP fun op => op.kind = kind

@[simp] theorem tally_nil (kind : OpKind) : tally kind [] = 0 := rfl

@[simp] theorem tally_cons (kind : OpKind) (op : Op) (ops : List Op) :
    tally kind (op :: ops) = tally kind ops + if op.kind = kind then 1 else 0 := by
  simp [tally, List.countP_cons]

@[simp] theorem tally_append (kind : OpKind) (ops more : List Op) :
    tally kind (ops ++ more) = tally kind ops + tally kind more :=
  List.countP_append

end Surface

namespace Tree

mutual

/-- A tree without its attributes and handles. -/
def bare : Tree → Tree
  | element tag _ children _ => element tag Table.empty (bareList children) none
  | text content _ => text content none

def bareList : List Tree → List Tree
  | [] => []
  | t :: ts => t.bare :: bareList ts

end

end Tree

namespace Patch

open Surface

/-- What a stretch of a patch has recorded, and how much its counters have grown by it. The nodes made
are inserted or appended, but for some that are `loose` yet; the `nodes` of new trees that the stretch
has dealt with are made or used again. -/
structure Accounted (p : Patch) (ops : List Op) (loose nodes : Nat) (p' : Patch) : Prop where
  log : p'.surface.log = p.surface.log ++ ops.toArray
  allocated : p'.surface.allocated = p.surface.allocated + tally .create ops
  created : p'.report.created = p.report.created + tally .create ops
  textWrites : p'.report.textWrites = p.report.textWrites + tally .write ops
  replaced : p'.report.replaced = p.report.replaced + tally .insert ops
  /-- A subtree that is inserted takes the place of one that is removed. -/
  removed : p'.report.removed + tally .insert ops = p.report.removed + tally .remove ops
  placed : tally .create ops = tally .insert ops + tally .append ops + loose
  /-- A subtree that is inserted was compared with the old one before it was made. -/
  shown : p'.report.patched + tally .create ops = p.report.patched + tally .insert ops + nodes

namespace Accounted

variable {p p' p'' : Patch} {ops more : List Op} {loose loose' nodes nodes' : Nat}

theorem refl (p : Patch) : p.Accounted [] 0 0 p := by
  constructor <;> simp

theorem trans (h : p.Accounted ops loose nodes p') (h' : p'.Accounted more loose' nodes' p'') :
    p.Accounted (ops ++ more) (loose + loose') (nodes + nodes') p'' := by
  obtain ⟨log, allocated, created, textWrites, replaced, removed, placed, shown⟩ := h
  obtain ⟨log', allocated', created', textWrites', replaced', removed', placed', shown'⟩ := h'
  constructor
  · simp [log', log]
  all_goals
    simp only [tally_append]
    omega

/-! ## One change -/

/-- A pair of nodes is compared. -/
theorem compared (p : Patch) : p.Accounted [] 0 1 p.compared := by
  constructor <;> simp [Patch.compared, count]

/-- A node is made. -/
theorem made {s' : Surface} {op : Op} (hop : op.kind = .create)
    (hlog : s'.log = p.surface.log.push op) (halloc : s'.allocated = p.surface.allocated + 1) :
    p.Accounted [op] 1 1 ⟨s', { p.report with created := p.report.created + 1 }⟩ := by
  constructor <;> simp [hop, hlog, halloc]

/-- An attribute is written, or nothing happens. -/
theorem dressed (s : Surface) (r : PatchReport) (id : NodeId) (name value : String) :
    ∃ ops, Accounted ⟨s, r⟩ ops 0 0 ⟨s.setAttribute id name value, r⟩ := by
  unfold setAttribute
  split
  · refine ⟨[.setAttribute id name value], ?_⟩
    constructor <;> simp [Op.kind]
  · exact ⟨[], refl _⟩

theorem dressedAll (s : Surface) (r : PatchReport) (id : NodeId) (es : List (String × String)) :
    ∃ ops, Accounted ⟨s, r⟩ ops 0 0 ⟨es.foldl (fun s e => s.setAttribute id e.1 e.2) s, r⟩ := by
  induction es generalizing s with
  | nil => exact ⟨[], refl _⟩
  | cons e es ih =>
    obtain ⟨ops, hfirst⟩ := dressed s r id e.1 e.2
    obtain ⟨more, hrest⟩ := ih (s.setAttribute id e.1 e.2)
    exact ⟨ops ++ more, hfirst.trans hrest⟩

/-- A text is written. -/
theorem written {id : NodeId} {before content : String}
    (hdata : p.surface.content? id = some (.text before)) :
    p.Accounted [.setText id content] 0 0 ((p.onSurface fun s => s.setText id content).count
      fun r => { r with textWrites := r.textWrites + 1 }) := by
  constructor <;> simp [count, onSurface, setText, hdata, Op.kind]

/-- An old tree is removed. -/
theorem removed_old {q id : NodeId}
    (hremove : p.surface.removeChild q id = (p.surface.detach id).record (.remove q id)) :
    p.Accounted [.remove q id] 0 0 ((p.onSurface fun s => s.removeChild q id).count
      fun r => { r with removed := r.removed + 1 }) := by
  constructor <;> simp [count, onSurface, hremove, Op.kind]

/-- A node that is loose is appended. -/
theorem append (h : p.Accounted ops (loose + 1) nodes p') (q id : NodeId) :
    p.Accounted (ops ++ [.append q id]) loose nodes
      (p'.onSurface fun s => s.appendChild q id) := by
  obtain ⟨log, allocated, created, textWrites, replaced, removed, placed, shown⟩ := h
  constructor
  · simp [onSurface, appendChild, log]
  · simp [onSurface, Op.kind, allocated]
  all_goals
    simp only [onSurface, tally_append, tally_cons, tally_nil, Op.kind, reduceCtorEq, if_true,
      if_false]
    omega

/-- Which of the nodes are appended under an old one makes no difference here. -/
theorem appended (h : p.Accounted ops loose nodes p') :
    p.Accounted ops loose nodes (p'.count fun r => { r with appended := r.appended + 1 }) :=
  ⟨h.log, h.allocated, h.created, h.textWrites, h.replaced, h.removed, h.placed, h.shown⟩

/-- A subtree that is loose is put in the place of an old one, which was compared with it. -/
theorem replace {q id fresh : NodeId} {r : Option NodeId}
    (h : p.Accounted ops 1 (nodes + 1) p')
    (hparent : (p'.surface.insertBefore q fresh r).parent? id = some q) :
    p.Accounted (ops ++ [.insertBefore q fresh r, .remove q id]) 0 nodes
      ((p'.onSurface fun s => (s.insertBefore q fresh r).removeChild q id).count
        fun report => { report with replaced := report.replaced + 1 }) := by
  obtain ⟨log, allocated, created, textWrites, replaced, removed, placed, shown⟩ := h
  have hremove := removeChild_of_parent? hparent
  constructor
  · simp only [count, onSurface]
    rw [hremove, log_record, log_detach, insertBefore, log_record, log_attach, log]
    simp
  · simp only [count, onSurface]
    rw [hremove, allocated_record, allocated_detach, insertBefore, allocated_record,
      allocated_attach, allocated]
    simp [Op.kind]
  all_goals
    simp only [count, onSurface, tally_append, tally_cons, tally_nil, Op.kind, reduceCtorEq, if_true,
      if_false]
    omega

end Accounted

/-! ## Building -/

mutual

/-- **Building a tree** makes all its nodes and appends all but the root. -/
theorem accounted_create (p : Patch) (t : Tree) :
    ∃ ops, p.Accounted ops 1 t.count (p.create t).2.2 := by
  cases t with
  | text content handle =>
    have hmade : p.Accounted [.createText ⟨p.surface.allocated⟩ content] 1 1
        ⟨(p.surface.createText content).2, { p.report with created := p.report.created + 1 }⟩ :=
      .made rfl rfl (by simp [createText])
    exact ⟨_, hmade⟩
  | element tag attributes children handle =>
    have hmade : p.Accounted [.createElement ⟨p.surface.allocated⟩ tag] 1 1
        ⟨(p.surface.createElement tag).2, { p.report with created := p.report.created + 1 }⟩ :=
      .made rfl rfl (by simp [createElement])
    obtain ⟨dress, hdressed⟩ := Accounted.dressedAll (p.surface.createElement tag).2
      { p.report with created := p.report.created + 1 } (p.surface.createElement tag).1
      attributes.entries
    obtain ⟨below, hbelow⟩ := accounted_createChildren ⟨_, _⟩ (p.surface.createElement tag).1 children
    rw [create, Tree.count]
    exact ⟨_, (hmade.trans hdressed).trans hbelow⟩

/-- Building children makes all their nodes and appends them. -/
theorem accounted_createChildren (p : Patch) (q : NodeId) (ts : List Tree) :
    ∃ ops, p.Accounted ops 0 (Tree.countList ts) (p.createChildren q ts).2 := by
  cases ts with
  | nil => exact ⟨[], .refl p⟩
  | cons t ts =>
    obtain ⟨ops, hfirst⟩ := accounted_create p t
    obtain ⟨more, hrest⟩ := accounted_createChildren
      ((p.create t).2.2.onSurface fun s => s.appendChild q (p.create t).1) q ts
    rw [createChildren, Tree.countList]
    exact ⟨_, (hfirst.append q (p.create t).1).trans hrest⟩

end

/-- What is new at the end of a list of children is made and appended. -/
theorem accounted_appendNew (p : Patch) (q : NodeId) (ts : List Tree) :
    ∃ ops, p.Accounted ops 0 (Tree.countList ts) (p.appendNew q ts).2 ∧ (ops = [] ↔ ts = []) := by
  induction ts generalizing p with
  | nil => exact ⟨[], .refl p, by simp⟩
  | cons t ts ih =>
    obtain ⟨ops, hfirst⟩ := accounted_create p t
    obtain ⟨more, hrest, -⟩ := ih
      (((p.create t).2.2.onSurface fun s => s.appendChild q (p.create t).1).count
        fun r => { r with appended := r.appended + 1 })
    rw [appendNew, Tree.countList]
    refine ⟨_, (hfirst.append q (p.create t).1).appended.trans hrest, ?_⟩
    simp

/-! ## Removing and replacing -/

variable {q id : NodeId} {pre ids : List NodeId}

/-- What is left over at the end of a list of children is removed. -/
theorem accounted_removeOld (p : Patch) (ts : List Tree) (h : p.surface.Linked)
    (hts : ts.map Tree.handle = ids.map some) (hids : p.surface.children q = pre ++ ids) :
    ∃ ops, p.Accounted ops 0 0 (p.removeOld q ts).1 ∧ (ops = [] ↔ ts = []) := by
  induction ts generalizing p ids with
  | nil => exact ⟨[], .refl p, by simp⟩
  | cons t ts ih =>
    obtain ⟨id, ids, rfl, ht, hts⟩ := List.map_eq_cons_iff.1 hts.symm
    obtain ⟨hremove, hlinked, hchildren⟩ := removeChild_of_children h hids
    obtain ⟨more, hrest, -⟩ := ih ((p.onSurface fun s => s.removeChild q id).count
      fun r => { r with removed := r.removed + 1 }) hlinked hts.symm hchildren
    rw [removeOld, ← ht]
    refine ⟨_, (Accounted.removed_old hremove).trans hrest, ?_⟩
    simp

/-- A tree is built in the place of one that was compared with it. -/
theorem accounted_replace {p p' : Patch} (h : p.Accounted [] 0 1 p') (linked : p'.surface.Linked)
    (hq : p'.surface.parent? id = some q) (new : Tree) :
    ∃ ops, p.Accounted ops 0 new.count (p'.replace id new).patch ∧ ops ≠ [] := by
  obtain ⟨ops, hmade⟩ := accounted_create p' new
  have htotal : p.Accounted ops 1 (new.count + 1) (p'.create new).2.2 := by
    rw [Nat.add_comm]
    exact h.trans hmade
  have hparent := (built_create p' new linked).parent?_insertBefore linked hq (some id)
  unfold Patch.replace
  rw [hq]
  refine ⟨_, htotal.replace hparent, ?_⟩
  simp

/-! ## Whole trees -/

mutual

/-- **Patching a tree over one that is shown** uses its nodes again or makes them, and records nothing
if tags, texts and shape are the same. -/
theorem accounted_update (p : Patch) (old new : Tree) {q id : NodeId}
    {fits : NodeId → Attributes → Attributes → Prop} (h : p.surface.Linked)
    (shows : p.surface.Shows fits id old) (nodup : old.handles.Nodup)
    (child : id ∈ p.surface.children q) (outside : q ∉ old.handles) :
    ∃ ops, p.Accounted ops 0 new.count (p.update old new).patch ∧
      (ops = [] ↔ old.bare = new.bare) := by
  have hparent : p.surface.parent? id = some q := h.mem_children_iff.1 child
  have hcompared := Accounted.compared p
  have hreplace : old.bare ≠ new.bare → ∃ ops,
      p.Accounted ops 0 new.count
        (p.compared.replace id new).patch ∧
      (ops = [] ↔ old.bare = new.bare) := by
    intro hne
    obtain ⟨ops, hall, hops⟩ := accounted_replace hcompared h hparent new
    exact ⟨ops, hall, iff_of_false hops hne⟩
  cases shows with
  | text id before data leaf =>
    cases new with
    | text content handle =>
      by_cases heq : before = content
      · subst heq
        rw [update_text_self]
        exact ⟨[], hcompared, by simp [Tree.bare]⟩
      · rw [update_text p heq]
        refine ⟨_, hcompared.trans (Accounted.written data), ?_⟩
        simp [Tree.bare, heq]
    | element tag attributes children handle =>
      rw [update_text_element]
      exact hreplace (by simp [Tree.bare])
  | element id tag carried attributes olds data fit below =>
    cases new with
    | text content handle =>
      rw [update_element_text]
      exact hreplace (by simp [Tree.bare])
    | element tag' attributes' news handle =>
      by_cases htag : tag = tag'
      · subst htag
        have hnodup := List.nodup_cons.1 nodup
        obtain ⟨ops, hall, hops⟩ := accounted_updateChildren p.compared olds news [] h below hnodup.2 rfl
          (lt_of_content? data) hnodup.1
        rw [update_element]
        refine ⟨ops, hcompared.trans hall, ?_⟩
        simp [Tree.bare, hops]
      · rw [update_element_of_ne p htag]
        exact hreplace (by simp [Tree.bare, htag])

/-- Patching a list of children over the one that is shown. -/
theorem accounted_updateChildren (p : Patch) (olds news : List Tree) {q : NodeId}
    (pre : List NodeId) {ids : List NodeId} {fits : NodeId → Attributes → Attributes → Prop}
    (h : p.surface.Linked) (shows : p.surface.ShowsAll fits ids olds)
    (nodup : (Tree.handlesList olds).Nodup) (hids : p.surface.children q = pre ++ ids)
    (hq : q.index < p.surface.allocated) (outside : q ∉ Tree.handlesList olds) :
    ∃ ops, p.Accounted ops 0 (Tree.countList news) (p.updateChildren q olds news).patch ∧
      (ops = [] ↔ Tree.bareList olds = Tree.bareList news) := by
  cases news with
  | nil =>
    obtain ⟨ops, hall, hops⟩ := accounted_removeOld p olds h shows.map_handle hids
    rw [updateChildren]
    refine ⟨ops, hall, hops.trans ?_⟩
    cases olds <;> simp [Tree.bareList]
  | cons new news =>
    cases shows with
    | nil =>
      obtain ⟨ops, hall, hops⟩ := accounted_appendNew p q (new :: news)
      rw [updateChildren]
      refine ⟨ops, hall, hops.trans ?_⟩
      simp [Tree.bareList]
    | cons id ids old olds head tail =>
      obtain ⟨hold, holds, hdisj⟩ := List.nodup_append.1 nodup
      have hout := not_or.1 (mt List.mem_append.2 outside)
      have hchild : id ∈ p.surface.children q := by rw [hids]; simp
      obtain ⟨hnone, id', hfirst⟩ := placed_update p old new h head hold hchild hout.1
      obtain ⟨ops, hall, hops⟩ := accounted_update p old new h head hold hchild hout.1
      obtain ⟨more, hrest, hmore⟩ := accounted_updateChildren (p.update old new).patch olds news
        (pre ++ [id']) hfirst.linked (hfirst.showsAll tail hdisj hout.2) holds
        (by rw [hfirst.place pre ids hids, List.append_assoc]; rfl)
        (Nat.lt_of_lt_of_le hq hfirst.keeps.grows) hout.2
      rw [updateChildren_cons p hnone, Tree.countList]
      refine ⟨ops ++ more, hall.trans hrest, ?_⟩
      rw [List.append_eq_nil_iff, hops, hmore, Tree.bareList, Tree.bareList, List.cons.injEq]

end

/-! ## The whole patch -/

/-- The report of a patch that starts with nothing counted, and the operations that it has recorded. -/
structure Balanced (s : Surface) (old new : Tree) (ops : List Op) (p : Patch) : Prop where
  log : p.surface.log = s.log ++ ops.toArray
  created : p.report.created = tally .create ops
  allocated : p.surface.allocated = s.allocated + p.report.created
  textWrites : p.report.textWrites = tally .write ops
  replaced : p.report.replaced = tally .insert ops
  removed : p.report.removed + p.report.replaced = tally .remove ops
  appended : p.report.created = p.report.replaced + tally .append ops
  count : new.count + p.report.replaced = p.report.created + p.report.patched
  silent : ops = [] ↔ old.bare = new.bare

theorem Accounted.balanced {s : Surface} {old new : Tree} {ops : List Op} {p : Patch}
    (h : (start s).Accounted ops 0 new.count p) (silent : ops = [] ↔ old.bare = new.bare) :
    Balanced s old new ops p := by
  obtain ⟨log, allocated, created, textWrites, replaced, removed, placed, shown⟩ := h
  simp only [start, PatchReport.none, Nat.zero_add, Nat.add_zero]
    at log allocated created textWrites replaced removed placed shown
  refine ⟨log, created, ?_, textWrites, replaced, ?_, ?_, ?_, silent⟩
  · rw [created, allocated]
  · rw [replaced, removed]
  · rw [created, replaced, placed]
  · rw [created, replaced]
    omega

/-- **The report of a patch balances.** A tree that is shown by distinct nodes is patched to another
without failing. The nodes that it says were created are those that the record makes, and as many as the
surface has grown by; all but the ones that replace an old subtree are appended. The nodes of the new tree
are those created and those compared, where the replaced ones are both. Nothing is recorded if and only
if the trees agree in shape, tags and texts. -/
theorem report_balances {s : Surface} {old : Tree} {parent : NodeId} (linked : s.Linked)
    (h : Shown.At s (.tree old) id parent) (new : Tree) :
    ((start s).run (.tree old) new).error = none ∧
      ∃ ops, Balanced s old new ops ((start s).run (.tree old) new).patch := by
  refine ⟨(brought_run linked h new).succeeds, ?_⟩
  cases h with
  | tree _ _ _ handle faithful link =>
  obtain ⟨⟨id', hshows⟩, hnodup⟩ := faithful
  obtain rfl : id' = id := Option.some.inj (hshows.handle_eq.symm.trans handle)
  have hchild := linked.mem_children_iff.2 link
  obtain ⟨ops, hall, hops⟩ := accounted_update (start s) old new linked hshows hnodup hchild
    (hshows.parent_not_mem hnodup hchild)
  exact ⟨ops, hall.balanced hops⟩

/-- A page of which a text is written, an element replaced and one removed. -/
theorem report_balances_paragraph :
    let placeholder := (Surface.empty.createElement "div").2.appendChild root ⟨1⟩
    let first := (start placeholder).run (.node ⟨1⟩) (.element "p" Table.empty
      [.text "one" none, .element "i" Table.empty [] none, .element "u" Table.empty [] none] none)
    let last := Tree.element "p" Table.empty
      [.text "two" none, .element "b" Table.empty [.text "bold" none] none] none
    let second := (start first.patch.surface).run (.tree first.tree) last
    first.patch.surface.Linked ∧ Shown.At first.patch.surface (.tree first.tree) ⟨2⟩ root ∧
      second.error = none ∧ second.patch.report = ⟨2, 3, 0, 1, 1, 1⟩ ∧
      ∃ ops, Balanced first.patch.surface first.tree last ops second.patch := by
  intro placeholder first last second
  have hlinked : placeholder.Linked :=
    (((Linked.empty.alloc _).record _).attach (by decide) (by decide) (by decide)).record _
  obtain ⟨-, hlinked', -, ⟨id', hat, -⟩, -, -, -⟩ := brought_run hlinked (.node ⟨1⟩ root rfl)
    (.element "p" Table.empty
      [.text "one" none, .element "i" Table.empty [] none, .element "u" Table.empty [] none] none)
  have hid : id' = ⟨2⟩ := by
    cases hat with
    | tree _ _ _ handle _ _ => exact Option.some.inj (handle.symm.trans (by rfl))
  subst hid
  obtain ⟨hnone, hbalanced⟩ := report_balances hlinked' hat last
  exact ⟨hlinked', hat, hnone, by decide, hbalanced⟩

end Patch

end LiveMarkup

import LiveMarkup.Proofs.App.Mount
import LiveMarkup.Proofs.Surface.ReadBack

/-!
# Instances on loaded markup

Wherever an instance is mounted on markup that was loaded, its template is the one that the source node at
that place makes. That the source went over a surface is not to be seen.

* `App.MountsAs`: what comes of every mount at a node.
* **`App.mountsAs_of_source?`**: a mount takes the template of what the node reads back as.
* `Surface.ReadsBack`: a node reads back as a source node, and is mounted with its template.
* **`Surface.load_reads_back`**: loading and reading back loses nothing.
-/

namespace LiveMarkup

variable {ε : Type}

/-- The node that a target names. -/
def Target.node? (s : Surface) : Target → Option NodeId
  | .selector text => s.query text
  | .node id => some id

namespace App

variable {id : AppId} {app : App} {m : Machine (Stage ε)} {target : Target} {s : Surface}
  {node q : NodeId} {source : Source} {template : Tree}

/-- A mount with a template comes to what the first binding of the template comes to. If that one succeeds
the instance keeps the template, its watcher binds this template from then on, and the tree that was bound
is shown. -/
def MountedWith (id : AppId) (app : App) (target : Target) (template : Tree) (m : Machine (Stage ε)) :
    Prop :=
  match (template.bind m.state.heap app.data).result with
  | .error e => ∃ m', mount id target m = .ok (.error (.bind e)) m'
  | .ok bound =>
    ∃ m' app' w shown, mount id target m = .ok (.ok ()) m' ∧ m'.state.host.app? id = some app' ∧
      app'.template = some template ∧ app'.watcher = some w ∧
      m'.getter w = getter id app.data template ∧ app'.tree? = some shown ∧ shown.detached = bound

/-- Whatever instance is mounted at a node, and by whatever target: it is mounted with a certain template,
or the mount fails with the error that there is in place of one, and leaves everything as it was. -/
def MountsAs (s : Surface) (node : NodeId) (compiled : Except CompileError Tree) : Prop :=
  ∀ (ε : Type) (m : Machine (Stage ε)) (id : AppId) (app : App) (target : Target),
    Unmounted m id app → m.state.host.surface app.surface = s → target.node? s = some node →
    match compiled with
    | .error e => mount id target m = .ok (.error (.compile e)) m
    | .ok template => MountedWith id app target template m

/-- The template of a target is that of the source that its node reads back as. -/
theorem prepare_eq (hnode : target.node? s = some node) (hsource : s.source? node = some source) :
    prepare s target =
      match source.compile with
      | .ok template => .ok (node, template)
      | .error e => .error (.compile e) := by
  have hlocate : locate s target = .ok (node, source) := by
    cases target with
    | node id =>
      cases hnode
      simp only [locate, pure_bind, hsource]
      rfl
    | selector text =>
      have hquery : s.query text = some node := hnode
      simp only [locate, hquery, pure_bind, hsource]
      rfl
  simp only [prepare, hlocate, bind, Except.bind]
  cases source.compile <;> rfl

/-- A mount in the place of a node that has a parent. -/
theorem mountedWith_of_prepare (hu : Unmounted m id app)
    (hprepare : prepare (m.state.host.surface app.surface) target = .ok (node, template))
    (hlinked : (m.state.host.surface app.surface).Linked)
    (hq : (m.state.host.surface app.surface).parent? node = some q) :
    MountedWith id app target template m := by
  unfold MountedWith
  split
  · next e hb => exact mount_error hu hprepare hb
  · next b hb =>
    obtain ⟨hnone, -⟩ :=
      Patch.placed_mount (Patch.start (m.state.host.surface app.surface)) node b hlinked hq
    obtain ⟨hmount, happ, -, -⟩ := mount_ok hu hprepare hb rfl hnone
    obtain ⟨-, hdetached⟩ := displayed_settled hu hprepare hlinked hq hb rfl
    exact ⟨_, _, _, _, hmount, happ, rfl, rfl, getter_settled hu _, rfl, hdetached⟩

/-- **A mount takes the template of what its node reads back as.** -/
theorem mountsAs_of_source? (hlinked : s.Linked) (hq : s.parent? node = some q)
    (hsource : s.source? node = some source) : MountsAs s node source.compile := by
  rintro ε m id app target hu rfl hnode
  have hprepare := prepare_eq hnode hsource
  cases hcompile : source.compile with
  | error e =>
    rw [hcompile] at hprepare
    exact mount_unprepared hu hprepare
  | ok template =>
    rw [hcompile] at hprepare
    exact mountedWith_of_prepare hu hprepare hlinked hq

end App

namespace Surface

variable {s : Surface} {id : NodeId} {x : Source}

/-- A node reads back as a source node with repeated attributes merged, which has the template of that
source node, or none for the same reason; and instances are mounted there with this template. -/
structure ReadsBack (s : Surface) (id : NodeId) (x : Source) : Prop where
  source : s.source? id = some x.merged
  template : x.merged.compile = x.compile
  mounts : App.MountsAs s id x.compile

theorem Lays.readsBack (h : s.Lays id x) (hs : s.Linked) (hp : ∃ q, s.parent? id = some q) :
    s.ReadsBack id x := by
  obtain ⟨q, hq⟩ := hp
  have hmounts := App.mountsAs_of_source? hs hq h.source?
  rw [Source.compile_merged] at hmounts
  exact ⟨h.source?, Source.compile_merged x, hmounts⟩

/-- All that is below a laid out node reads back. -/
theorem Lays.readsBack_at? (h : s.Lays id x) (hs : s.Linked) (hp : ∃ q, s.parent? id = some q)
    {path : List Nat} {y : Source} (hy : x.at? path = some y) :
    ∃ node, s.at? id path = some node ∧ s.ReadsBack node y := by
  rcases h.at? path with ⟨-, hnone⟩ | ⟨node, y', hnode, hy', hlays⟩
  · rw [hnone] at hy
    cases hy
  · obtain rfl : y' = y := Option.some.inj (hy'.symm.trans hy)
    exact ⟨node, hnode, hlays.readsBack hs (hs.exists_parent_at? hp hnode)⟩

/-- What is in a document that was read from markup reads back. -/
theorem readsBack_ofMarkup {markup : String} {forest : List Source}
    (hparse : Source.parse markup = .ok forest) :
    ∃ document, ofMarkup markup = .ok document ∧ ∀ i path x y, forest[i]? = some x →
      x.at? path = some y →
      ∃ node, document.at? root (i :: path) = some node ∧ document.ReadsBack node y := by
  have hmade : ofMarkup markup = .ok (empty.loadAll root forest) := by
    rw [ofMarkup, hparse]
    rfl
  have hlinked := Linked.ofMarkup hmade
  refine ⟨_, hmade, fun i path x y hx hy => ?_⟩
  have hroot : root.index < empty.allocated := by decide
  obtain ⟨ids, hloaded, hlays⟩ := laysAll_loadAll empty hroot forest
  have hids : (empty.loadAll root forest).children root = ids := hloaded.added
  rcases hlays.get? i with ⟨-, hnone⟩ | ⟨id, x', hid, hx', hlay⟩
  · rw [hnone] at hx
    cases hx
  · obtain rfl : x' = x := Option.some.inj (hx'.symm.trans hx)
    have hparent : (empty.loadAll root forest).parent? id = some root := by
      rw [← hlinked.mem_children_iff, hids]
      exact List.mem_of_getElem? hid
    obtain ⟨node, hnode, hback⟩ := hlay.readsBack_at? hlinked ⟨root, hparent⟩ hy
    refine ⟨node, ?_, hback⟩
    rw [Surface.at?, hids, hid, Option.bind_some, hnode]

/-- **Loading and reading back loses nothing.** A source node that is loaded under a node of a surface is
a new node there, the last child; nothing is recorded and no other node is changed. The new node reads back
as the source node with repeated attributes merged, which has the same template, or none for the same
reason; and so does every node below it, at the same place. An instance that is mounted at any of them is
mounted with the template of the source node that was loaded there. So it is with all nodes of a document
that was read from markup. -/
theorem load_reads_back (linked : s.Linked) {parent : NodeId} (exists_parent : parent.index < s.allocated)
    (x : Source) :
    let id := (s.load parent x).1
    let s' := (s.load parent x).2
    s.Added parent id s' ∧ s'.ReadsBack id x ∧
      (∀ path, (s'.at? id path).bind s'.source? = (x.at? path).map Source.merged) ∧
      (∀ path y, x.at? path = some y → ∃ node, s'.at? id path = some node ∧ s'.ReadsBack node y) ∧
      ∀ markup forest, Source.parse markup = .ok forest →
        ∃ document, ofMarkup markup = .ok document ∧ ∀ i path x y, forest[i]? = some x →
          x.at? path = some y →
          ∃ node, document.at? root (i :: path) = some node ∧ document.ReadsBack node y := by
  intro id s'
  have hadded : s.Added parent id s' := added_load exists_parent x
  obtain ⟨hid, -, hlays⟩ := lays_load s exists_parent x
  rw [← hid] at hlays
  obtain ⟨hlinked, -⟩ := linked.load exists_parent x
  have hparent : ∃ q, s'.parent? id = some q := ⟨parent, hadded.linked⟩
  refine ⟨hadded, hlays.readsBack hlinked hparent, fun path => ?_, fun path y hy => ?_,
    fun markup forest => readsBack_ofMarkup⟩
  · rcases hlays.at? path with ⟨hnode, hy⟩ | ⟨node, y, hnode, hy, hlay⟩
    · rw [hnode, hy]
      rfl
    · rw [hnode, hy, Option.bind_some, hlay.source?, Option.map_some]
  · exact hlays.readsBack_at? hlinked hparent hy

/-- A paragraph with an attribute that is given twice, and a comment. -/
def note : Source :=
  .element "p" [("class", "x"), ("id", "a"), ("class", "y")] [.comment "c", .text "{{a}}"]

/-- The template of the paragraph. -/
def noteTemplate : Tree :=
  .element "p" (Table.ofList [("class", "y"), ("id", "a")]) [.text "{{a}}" none] none

/-- An instance with one slot on a surface. -/
def hosting (s : Surface) : Machine (Stage Unit) :=
  { App.Sample.made with
    state := { App.Sample.made.state with host := ⟨#[s], #[.fresh ⟨0⟩ ⟨0⟩ ["a"]], ()⟩ } }

theorem unmounted_hosting (s : Surface) : App.Unmounted (hosting s) ⟨0⟩ (.fresh ⟨0⟩ ⟨0⟩ ["a"]) :=
  ⟨rfl, show 0 < 1 by decide, rfl, rfl⟩

/-- The paragraph reads back with the last value of the attribute at its first place, and an instance that
is mounted there by its name gets the template without the comment. -/
theorem load_reads_back_note :
    let s' := (empty.load root note).2
    empty.Linked ∧ root.index < empty.allocated ∧
      s'.source? ⟨1⟩ =
        some (.element "p" [("class", "y"), ("id", "a")] [.comment "c", .text "{{a}}"]) ∧
      note.compile = .ok noteTemplate ∧
      ∃ m' app', App.mount ⟨0⟩ (.selector "#a") (hosting s') = .ok (.ok ()) m' ∧
        m'.state.host.app? ⟨0⟩ = some app' ∧ app'.template = some noteTemplate := by
  intro s'
  have hroot : root.index < empty.allocated := by decide
  obtain ⟨-, hback, -⟩ := load_reads_back Linked.empty hroot note
  have hid : (empty.load root note).1 = ⟨1⟩ := (lays_load empty hroot note).1
  rw [hid] at hback
  have hcompile : note.compile = .ok noteTemplate := rfl
  refine ⟨Linked.empty, hroot, hback.source, hcompile, ?_⟩
  -- the mount depends on the document only by what it reads back
  have hquery : (Target.selector "#a").node? s' = some ⟨1⟩ := by
    have hread : Selector.read "#a" = .byId "a" := by cbv
    have hsize : s'.nodes.size = 4 := by decide
    have hfind : s'.find (Selector.byId "a").accepts 4 root = some ⟨1⟩ := by decide
    rw [Target.node?, query, hread, hsize, hfind]
  have hmounted := hback.mounts Unit (hosting s') ⟨0⟩ _ _ (unmounted_hosting s') rfl hquery
  have hbind : (noteTemplate.bind (App.Sample.heap []) ⟨0⟩).result =
      .ok (.element "p" (Table.ofList [("class", "y"), ("id", "a")]) [.text "null" none] none) := by cbv
  have hheap : (hosting s').state.heap = App.Sample.heap [] := rfl
  have hdata : (App.fresh ⟨0⟩ ⟨0⟩ ["a"]).data = ⟨0⟩ := rfl
  rw [hcompile] at hmounted
  simp only [App.MountedWith, hheap, hdata, hbind] at hmounted
  obtain ⟨m', app', -, -, hmount, happ, htemplate, -⟩ := hmounted
  exact ⟨m', app', hmount, happ, htemplate⟩

end Surface

end LiveMarkup

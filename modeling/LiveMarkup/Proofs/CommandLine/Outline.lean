import LiveMarkup.Proofs.App.Rerender
import LiveMarkup.Proofs.CommandLine.Snapshots
import LiveMarkup.Proofs.Patch.Outline

/-!
# Data never become markup

Whatever the data and the assignments of a session are, they only ever decide what the texts of its
snapshots say. Read back as markup, any two snapshots of the same template are the same document but for
texts.

* `App.Upkeep`: an instance of a session, whose document has kept its outline.
* **`Upkeep.perform`**, **`RenderRequest.outlined_assignAll`**: assignments keep it.
* `Stands.outlined`: the snapshots of a session.
* **`RenderRequest.run_outline`**: any two snapshots of the same markup and selector.
-/

namespace LiveMarkup

open Template (BindError segments)
open Live (bind_ok)

namespace App

variable {ε : Type} {s : Stage ε} {id : AppId} {w : WatcherId} {app : App} {template first last : Tree}
  {base : Surface} {m m' : Machine (Stage ε)}

/-! ## The outline of a document -/

/-- A render cycle changes nothing but what texts say. -/
theorem Standing.sameOutline_cycle (h : Standing s id app template first last)
    {result : Except BindError Tree} (hresult : ∀ b, result = .ok b → b.skeleton = template.skeleton) :
    ∃ app' last', app'.data = app.data ∧ app'.surface = app.surface ∧
      Standing (s.cycle id result) id app' template first last' ∧
      (s.surface app.surface).SameOutline ((s.cycle id result).surface app.surface) := by
  obtain ⟨hrerender, app', last', hdata, hstanding⟩ := h.rerender hresult
  have happ := hstanding.app?
  refine ⟨app', last', hdata, ?_, hstanding, ?_⟩
  · generalize s.cycle id result = s' at hrerender happ
    cases hrerender with
    | failed e bound =>
      rw [Stage.app?_setApp, h.app?] at happ
      exact (congrArg App.surface (Option.some.inj happ)).symm
    | rendered b t changes surface bound tree handle handles changed writes written =>
      rw [Stage.app?_setApp, show (s.setSurface app.surface surface).app? id = some app from h.app?] at happ
      exact (congrArg App.surface (Option.some.inj happ)).symm
  · generalize s.cycle id result = s' at hrerender
    cases hrerender with
    | failed e bound => exact .refl _
    | rendered b t changes surface bound tree handle handles changed writes written =>
      have hsurface : ((s.setSurface app.surface surface).setApp id
          (app.rendered t ⟨0, template.count, 0, 0, 0, changes.length⟩)).surface app.surface = surface :=
        Stage.surface_setSurface s surface h.surface_lt
      rw [hsurface, writes]
      refine .writeTexts fun c hc => h.texts c.1 ?_
      rw [changed] at hc
      exact mem_of_mem_changedTexts hc

/-- An instance at rest, with the only watcher that there is, whose document has the outline of the first
render. -/
structure Upkeep (base : Surface) (template first : Tree) (m : Machine (Stage ε)) (id : AppId)
    (w : WatcherId) (app : App) : Prop where
  rest : m.stack = []
  only : m.Only w (fun h => (template.bind h app.data).reads)
    fun h stage => stage.cycle id (template.bind h app.data).result
  standing : ∃ last, Standing m.state.host id app template first last
  outline : base.SameOutline (m.state.host.surface app.surface)

namespace Upkeep

theorem app? (h : Upkeep base template first m id w app) : m.state.host.app? id = some app :=
  h.standing.elim fun _ hs => hs.app?

/-- Data are laid out. -/
theorem built (h : Upkeep base template first m id w app) (d : Draft) :
    Upkeep base template first (m.withHeap (m.state.heap.build d).2) id w app where
  rest := h.rest
  only := ⟨h.only.idle, h.only.getter,
    h.only.sole.of_eq (Heap.grows_build m.state.heap d).subscribers_eq⟩
  standing := h.standing
  outline := h.outline

/-- The error of an instance is handed out. -/
theorem handsOut (h : Upkeep base template first m id w app) :
    ∃ m' app', takeError id m = .ok app.lastError m' ∧ app'.surface = app.surface ∧
      Upkeep base template first m' id w app' := by
  obtain ⟨last, hstanding⟩ := h.standing
  refine ⟨_, { app with lastError := none }, takeError_eq hstanding.app?, rfl, h.rest,
    ⟨h.only.idle, h.only.getter, h.only.sole⟩, ⟨last, ?_⟩, h.outline⟩
  refine ⟨?_, hstanding.surface_lt, hstanding.compiled, hstanding.shown, hstanding.skeleton,
    hstanding.handled, hstanding.handle, hstanding.handles, hstanding.textHandles, hstanding.texts⟩
  rw [Stage.app?_setApp, hstanding.app?]
  rfl

/-- **A write** keeps the outline. -/
theorem write (h : Upkeep base template first m id w app) (o : ObjectId) (key : String) (v : Value) :
    ∃ m' app', Live.write o key v m = .ok () m' ∧ app'.surface = app.surface ∧
      Upkeep base template first m' id w app' := by
  obtain ⟨last, hstanding⟩ := h.standing
  obtain ⟨m', hwrite, honly, hrest, hcases⟩ := Live.write_readTell h.only o key v
  rcases hcases with ⟨-, -, hhost⟩ | ⟨-, -, hhost⟩
  · obtain ⟨app', last', hdata, hsurface, hstanding', houtline⟩ := hstanding.sameOutline_cycle
      fun b (hb : (template.bind (m.state.heap.store o key v).1 app.data).result = .ok b) =>
        Tree.skeleton_bind template hb
    refine ⟨m', app', hwrite, hsurface, hrest, hdata ▸ honly, ⟨last', hhost ▸ hstanding'⟩, ?_⟩
    rw [hsurface, hhost]
    exact h.outline.trans houtline
  · exact ⟨m', app, hwrite, rfl, hrest, honly, ⟨last, hhost ▸ hstanding⟩, hhost ▸ h.outline⟩

/-- A write to a property of the instance. -/
theorem set (h : Upkeep base template first m id w app) (key : String) (v : Value) :
    ∃ result m' app', App.set id key v m = .ok result m' ∧ app'.surface = app.surface ∧
      Upkeep base template first m' id w app' := by
  rw [App.set, bind_ok (look_eq h.app?)]
  cases app.checkKey key with
  | error e => exact ⟨.error e, m, app, rfl, rfl, h⟩
  | ok _ =>
    obtain ⟨m', app', hwrite, hsurface, h'⟩ := h.write app.data key v
    dsimp only
    rw [bind_ok hwrite, bind_ok (look_eq h'.app?)]
    split
    · exact ⟨.ok (), m', app', rfl, hsurface, h'⟩
    · obtain ⟨m'', app'', htake, hsurface', h''⟩ := h'.handsOut
      rw [bind_ok htake]
      cases app'.lastError with
      | none => exact ⟨_, m'', app'', rfl, hsurface'.trans hsurface, h''⟩
      | some e => exact ⟨_, m'', app'', rfl, hsurface'.trans hsurface, h''⟩

end Upkeep

theorem source?_of_locate {target : Target} {node : NodeId} {source : Source}
    (h : locate base target = .ok (node, source)) : base.source? node = some source := by
  have hnode : ∀ id, locate base (.node id) = .ok (node, source) → base.source? node = some source := by
    intro id hid
    cases hs : base.source? id with
    | none =>
      simp only [locate, pure_bind, hs] at hid
      cases hid
    | some found =>
      simp only [locate, pure_bind, hs] at hid
      obtain ⟨rfl, rfl⟩ := Prod.mk.inj (Except.ok.inj hid)
      exact hs
  cases target with
  | node id => exact hnode id h
  | selector text =>
    cases hq : base.query text with
    | none =>
      simp only [locate, hq] at h
      cases h
    | some id =>
      refine hnode id ?_
      rw [← h]
      simp only [locate, hq]

/-- The template of a node of a surface that can be spelled. -/
theorem formed_prepare {target : Target} {node : NodeId} (h : base.Spellable)
    (hprepare : prepare base target = .ok (node, template)) : template.Formed := by
  unfold prepare at hprepare
  cases hlocate : locate base target with
  | error e => rw [hlocate] at hprepare; cases hprepare
  | ok located =>
    obtain ⟨id, source⟩ := located
    have hsource := source?_of_locate hlocate
    rw [hlocate] at hprepare
    simp only [Source.compile, bind, Except.bind, pure, Except.pure] at hprepare
    cases ht : source.template? with
    | none => rw [ht] at hprepare; cases hprepare
    | some t =>
      rw [ht] at hprepare
      obtain ⟨-, rfl⟩ := Prod.mk.inj (Except.ok.inj hprepare)
      exact (h.formed_readSource hsource).template? ht

/-- A mount on data that nobody is subscribed to. -/
theorem Unmounted.upkeep {target : Target} {node : NodeId} (hu : Unmounted m id app)
    (silent : ∀ d, m.state.heap.subscribers d = [])
    (hprepare : prepare (m.state.host.surface app.surface) target = .ok (node, template))
    (hmount : mount id target m = .ok (.ok ()) m') :
    ∃ b first w app', b.skeleton = template.skeleton ∧ app'.surface = app.surface ∧
      Upkeep ((Patch.start (m.state.host.surface app.surface)).mount node b).patch.surface template first
        m' id w app' := by
  obtain ⟨node', template', b, hprepare', hb, hnone⟩ := mount_inv hu hmount
  obtain ⟨rfl, rfl⟩ := Prod.mk.inj (Except.ok.inj (hprepare'.symm.trans hprepare))
  obtain ⟨hmount', happ, -, hsurface⟩ := mount_ok hu hprepare hb rfl hnone
  generalize hr : (Patch.start (m.state.host.surface app.surface)).mount node' b = r
    at hmount' happ hsurface hnone
  obtain rfl : settled m id app node' template' (app.firstRender node' r) = m' := by
    rw [hmount'] at hmount
    exact (EStateM.Result.ok.inj hmount).2
  obtain ⟨template, hstanding, -⟩ := lives_mounted hu hmount happ rfl rfl
  obtain rfl : template' = template := Option.some.inj hstanding.compiled
  have hsole : m.state.heap.Sole ⟨m.state.watchers.size⟩ := fun d => .inl (silent d)
  refine ⟨b, r.tree, _, { app.firstRender node' r with
      template := some template', watcher := some ⟨m.state.watchers.size⟩ },
    Tree.skeleton_bind template' hb, rfl, rfl,
    ⟨⟨1, watcher?_settled m id app node' template' _⟩, getter_settled hu _, hsole.track _⟩,
    ⟨r.tree, hstanding⟩, ?_⟩
  rw [hr]
  exact hsurface ▸ .refl _

/-- **An assignment** keeps the outline, whatever it writes and however it ends. -/
theorem Upkeep.perform {m : Machine (Stage Unit)} (h : Upkeep base template first m id w app)
    (a : Assignment) :
    ∃ result m' app', a.perform id m = .ok result m' ∧ app'.surface = app.surface ∧
      Upkeep base template first m' id w app' := by
  have hbuilt := h.built a.value
  rw [Assignment.perform, bind_ok (build_eq m a.value)]
  generalize m.withHeap (m.state.heap.build a.value).2 = k at hbuilt
  cases (segments a.path).dropLast with
  | nil =>
    obtain ⟨result, m', app', hset, hsurface, h'⟩ :=
      hbuilt.set ((segments a.path).getLastD "") (m.state.heap.build a.value).1
    exact ⟨_, m', app', bind_ok hset _, hsurface, h'⟩
  | cons segment rest =>
    have hheap : (Live.heap : Live (Stage Unit) Heap) k = .ok k.state.heap k := rfl
    dsimp only
    rw [bind_ok hheap, bind_ok (look_eq hbuilt.app?)]
    cases Assignment.parent k.state.heap app.data [] (segment :: rest) with
    | error e => exact ⟨_, k, app, rfl, rfl, hbuilt⟩
    | ok o =>
      obtain ⟨m', app', hwrite, hsurface, h'⟩ :=
        hbuilt.write o ((segments a.path).getLastD "") (m.state.heap.build a.value).1
      obtain ⟨m'', app'', htake, hsurface', h''⟩ := h'.handsOut
      dsimp only
      rw [bind_ok hwrite, bind_ok htake]
      cases app'.lastError with
      | none => exact ⟨_, m'', app'', rfl, hsurface'.trans hsurface, h''⟩
      | some e => exact ⟨_, m'', app'', rfl, hsurface'.trans hsurface, h''⟩

end App

namespace RenderRequest

open App (Upkeep Unmounted)

variable {id : AppId} {w : WatcherId} {app : App} {template first : Tree} {base s : Surface}
  {m : Machine (Stage Unit)} {node : NodeId} {r r' : RenderRequest} {shots shots' : List String}

/-- A text is the markup of a document with a given outline. -/
def Outlined (base : Surface) (html : String) : Prop := ∃ s, base.SameOutline s ∧ html = s.html

/-- **Assignments** give snapshots of the same outline. -/
theorem outlined_assignAll (as : List Assignment) (h : Upkeep base template first m id w app) :
    ∃ result m', assignAll id app.surface as m = .ok result m' ∧
      ∀ shots, result = .ok shots → ∀ html ∈ shots, Outlined base html := by
  induction as generalizing m app with
  | nil =>
    refine ⟨.ok [], m, rfl, ?_⟩
    rintro _ ⟨⟩ html hhtml
    exact absurd hhtml List.not_mem_nil
  | cons a as ih =>
    obtain ⟨result, m', app', hperform, hsurface, h'⟩ := h.perform a
    rw [assignAll, bind_ok hperform]
    cases result with
    | error e => exact ⟨_, m', rfl, fun _ hshots => by cases hshots⟩
    | ok _ =>
      obtain ⟨later, m'', hrest, hlater⟩ := ih h'
      rw [hsurface] at hrest
      have hhost : (Live.host : Live (Stage Unit) (Stage Unit)) m' = .ok m'.state.host m' := rfl
      refine ⟨later.map ((m'.state.host.surface app.surface).html :: ·), m'', ?_, fun shots hshots => ?_⟩
      · dsimp only
        rw [bind_ok hhost, bind_ok hrest]
        cases later <;> rfl
      · cases later with
        | error f => cases hshots
        | ok rest =>
          obtain rfl := Except.ok.inj hshots
          exact List.forall_mem_cons.2
            ⟨⟨_, h'.outline, by rw [hsurface]⟩, hlater rest rfl⟩

/-! ## Sessions -/

/-- **All snapshots of a session** have the outline of the first render. -/
theorem Stands.outlined (h : Stands r s node template) (hrun : r.run = .ok shots) :
    ∃ b, b.skeleton = template.skeleton ∧
      ∀ html ∈ shots, Outlined ((Patch.start s).mount node b).patch.surface html := by
  obtain ⟨target, ht, hprepare⟩ := h.target
  rw [run_eq r h.surface, session_eq r s ht] at hrun
  split at hrun
  · next result m'' hsession =>
    subst hrun
    obtain ⟨mounted, m', hmount, hsession⟩ := Live.bind_inv hsession
    cases mounted with
    | error e => cases (EStateM.Result.ok.inj hsession).1
    | ok _ =>
      obtain ⟨b, first, w, app', hshape, hsurface, hupkeep⟩ :=
        (unmounted_made s r.data).upkeep (silent_dataHeap r.data) hprepare hmount
      obtain ⟨result, m₁, hassign, hlater⟩ := outlined_assignAll r.assignments hupkeep
      have hhost : (Live.host : Live (Stage Unit) (Stage Unit)) m' = .ok m'.state.host m' := rfl
      rw [hsurface] at hassign
      replace hassign : assignAll ⟨0⟩ ⟨0⟩ r.assignments m' = .ok result m₁ := hassign
      dsimp only at hsession
      rw [bind_ok hhost, bind_ok hassign] at hsession
      cases result with
      | error f => cases (EStateM.Result.ok.inj hsession).1
      | ok rest =>
        obtain rfl := Except.ok.inj (EStateM.Result.ok.inj hsession).1
        refine ⟨b, hshape, List.forall_mem_cons.2 ⟨⟨_, hupkeep.outline, ?_⟩, hlater rest rfl⟩⟩
        rw [hsurface]
        rfl
  · cases hrun

/-- **Data cannot inject markup.** Any two snapshots of the same markup and selector, whatever the data and
the assignments, can be read as markup, and give the same forest once the texts are deleted. -/
theorem run_outline (r r' : RenderRequest) (markup : r'.markup = r.markup)
    (selector : r'.selector = r.selector) (hrun : r.run = .ok shots) (hrun' : r'.run = .ok shots') :
    ∀ html ∈ shots, ∀ html' ∈ shots', ∃ read read', Source.parse html = .ok read ∧
      Source.parse html' = .ok read' ∧ Source.strippedAll read = Source.strippedAll read' := by
  obtain ⟨s, node, template, hstands⟩ := exists_stands hrun
  obtain ⟨b, hshape, houtlined⟩ := hstands.outlined hrun
  obtain ⟨b', hshape', houtlined'⟩ := (hstands.congr markup selector).outlined hrun'
  obtain ⟨q, hq⟩ := hstands.parent
  have hlinked := Surface.Linked.ofMarkup hstands.surface
  have hs := Surface.Spellable.ofMarkup hstands.surface
  have hmounts := Patch.sameOutline_mount hlinked hq (hshape.trans hshape'.symm)
  have hformed : b.Formed := by
    obtain ⟨target, -, hprepare⟩ := hstands.target
    exact Tree.formed_of_skeleton hshape.symm (App.formed_prepare hs hprepare)
  intro html hhtml html' hhtml'
  obtain ⟨k, hk, rfl⟩ := houtlined html hhtml
  obtain ⟨k', hk', rfl⟩ := houtlined' html' hhtml'
  have hspellable := hk.spellable (Patch.spellable_mount hs hlinked hq hformed)
  exact ((hk.symm.trans hmounts).trans hk').exists_read hspellable

/-- A quotation over a key that holds a text. -/
def quoteRequest (text : String) : RenderRequest where
  markup := "<q>{{a}}</q>"
  data := [("a", .value (.string text))]
  selector := none
  assignments := []

theorem scan_quote : Markup.Token.scan "<q>{{a}}</q>".toList =
    some [.opening "q" [] false, .text "{{a}}".toList, .closing "q"] := by
  have h₁ : Markup.Token.next "<q>{{a}}</q>".toList =
      some (.opening "q" [] false, "{{a}}</q>".toList) := by cbv
  have h₂ : Markup.Token.next "{{a}}</q>".toList = some (.text "{{a}}".toList, "</q>".toList) := by cbv
  have h₃ : Markup.Token.next "</q>".toList = some (.closing "q", []) := by cbv
  rw [Markup.Token.scan_of_next (by decide) h₁, Markup.Token.scan_of_next (by decide) h₂,
    Markup.Token.scan_of_next (by decide) h₃, Markup.Token.scan_nil]
  rfl

/-- An empty text and one that spells a tag leave the same markup around them. -/
theorem run_outline_quote :
    (quoteRequest "").run = .ok ["<q></q>"] ∧
      (quoteRequest "<b>").run = .ok ["<q>&lt;b&gt;</q>"] ∧
      ∃ read read', Source.parse "<q></q>" = .ok read ∧
        Source.parse "<q>&lt;b&gt;</q>" = .ok read' ∧
        Source.strippedAll read = Source.strippedAll read' := by
  have hempty : (quoteRequest "").run = .ok ["<q></q>"] := by
    rw [run, Surface.ofMarkup, Source.parse, quoteRequest, scan_quote]
    cbv
  have htag : (quoteRequest "<b>").run = .ok ["<q>&lt;b&gt;</q>"] := by
    rw [run, Surface.ofMarkup, Source.parse, quoteRequest, scan_quote]
    cbv
  exact ⟨hempty, htag, run_outline (quoteRequest "") (quoteRequest "<b>") rfl rfl hempty htag _
    (by decide) _ (by decide)⟩

end RenderRequest

end LiveMarkup

import LiveMarkup.Proofs.App.Mount
import LiveMarkup.Proofs.App.Reports
import LiveMarkup.Proofs.Reactive.Confined

/-!
# Whose failure a write reports

From the time it is made on, whatever is written to its data from anywhere, an instance has at most one
error, that of its last render cycle. A write through the instance hands it out if the cycle was one of
its own, and it is not handed out again.

* `App.reportsIn`: what so many steps report of an instance.
* `App.Career`: an instance from the time it was made, with its log.
* `Career.ledger`: the log tells the error of the instance.
* `Career.takeError`, `Career.set_written`, `Career.mount`: operations on it.
* **`Career.failure_attributed`**: the result, for every career.
-/

namespace LiveMarkup

open Template (BindError)

variable {ε : Type} {id : AppId} {m m' : Machine (Stage ε)}

namespace Stage

/-- A change that, on whatever stage, renders an instance or minds it. -/
def Acting (id : AppId) (change : Stage ε → Stage ε) : Prop :=
  ∀ s : Stage ε, s.Acts id (change s)

/-- A render cycle of an instance minds all others. -/
theorem acting_cycle (id other : AppId) (bound : Except BindError Tree) :
    Acting id fun s : Stage ε => s.cycle other bound := by
  intro s
  by_cases hsame : other = id
  · exact .inl ⟨bound, by rw [hsame]⟩
  · refine .inr (.of_eq ?_)
    show (s.cycle other bound).app? id = s.app? id
    unfold cycle
    cases s.app? other with
    | none => rfl
    | some app =>
      have hne : other.index ≠ id.index := fun he => hsame (congrArg AppId.mk he)
      simp only [app?, setApp, setSurface, Array.getElem?_modify, if_neg hne]

end Stage

namespace App

variable {data : ObjectId} {keys : List String} {log new : List Report} {key : String} {v : Value}

/-- The watcher of any instance does nothing to others but mind them. -/
theorem confined_getter (id other : AppId) (data : ObjectId) (template : Tree) :
    (getter other data template : Program (Stage ε)).Confined (Stage.Acting id) :=
  fun _ => ⟨Stage.acting_cycle id other _, trivial⟩

/-- What so many steps report of an instance. -/
def reportsIn (id : AppId) : Nat → Machine (Stage ε) → List Report
  | 0, _ => []
  | n + 1, m => m.state.host.reports id m.step.state.host ++ reportsIn id n m.step

/-- A step that does not change the host reports nothing. -/
theorem reportsIn_succ (hhost : m.step.state.host = m.state.host) (n : Nat) :
    reportsIn id (n + 1) m = reportsIn id n m.step := by
  rw [reportsIn, hhost, Stage.reports_of_eq rfl, List.nil_append]

theorem reportsIn_of_rest (hm : m.stack = []) (n : Nat) : reportsIn id n m = [] := by
  have hstep := Machine.step_of_rest hm
  induction n with
  | zero => rfl
  | succ n ih => rw [reportsIn_succ (by rw [hstep]), hstep, ih]

/-- A write that nobody is notified of has nothing left to do. -/
theorem step_unnoticed {o : ObjectId} (hs : (m.state.heap.store o key v).2 = none) :
    (m.asked (.write o key v .done)).step.stack = [.body .done] ∧
      (m.asked (.write o key v .done)).step.state.host = m.state.host := by
  rw [Machine.step_write_none (m := m.asked (.write o key v .done)) rfl (Prod.ext rfl hs)]
  exact ⟨rfl, rfl⟩

/-- So it reports nothing. -/
theorem reportsIn_write {o : ObjectId} (hs : (m.state.heap.store o key v).2 = none) (n : Nat) :
    reportsIn id n (m.asked (.write o key v .done)) = [] := by
  obtain ⟨hstack, hhost⟩ := step_unnoticed hs
  have hdone := Machine.step_done hstack
  match n with
  | 0 => rfl
  | 1 => rw [reportsIn_succ hhost]; rfl
  | n + 2 => rw [reportsIn_succ hhost, reportsIn_succ (by rw [hdone]), hdone, reportsIn_of_rest rfl]

/-- And it takes two steps. -/
theorem write_unnoticed {o : ObjectId} (hs : (m.state.heap.store o key v).2 = none) :
    (Machine.step^[2] (m.asked (.write o key v .done))).stack = [] := by
  show (Machine.step (Machine.step _)).stack = []
  rw [Machine.step_done (step_unnoticed hs).1]

/-- An instance of some data with some keys, from the time when it was made, with its log. Programs may do
anything but give up, as long as they mind the instance; so may anybody else while the machine is at
rest. -/
inductive Career (id : AppId) (data : ObjectId) (keys : List String) :
    Machine (Stage ε) → List Report → Prop where
  | made (m m' : Machine (Stage ε)) (surface : SurfaceId) (rest : m.stack = [])
      (confined : m.Confined (Stage.Acting id)) (make : make surface data m = .ok id m')
      (collected : m'.state.heap.keys data = keys) : Career id data keys m' []
  | perform (m : Machine (Stage ε)) (log : List Report) (p : Program (Stage ε))
      (before : Career id data keys m log) (rest : m.stack = []) (confined : p.Confined (Stage.Acting id)) :
      Career id data keys (m.asked p) log
  | outside (m : Machine (Stage ε)) (log : List Report) (heap : Heap) (host : Stage ε)
      (before : Career id data keys m log) (rest : m.stack = []) (minds : m.state.host.Minds id host) :
      Career id data keys { m with state := { m.state with heap := heap, host := host } }
        (log ++ m.state.host.reports id host)
  | step (m : Machine (Stage ε)) (log : List Report) (before : Career id data keys m log) :
      Career id data keys m.step (log ++ m.state.host.reports id m.step.state.host)

namespace Career

theorem confined (h : Career id data keys m log) : m.Confined (Stage.Acting id) := by
  induction h with
  | made m m' surface rest confined make collected =>
    rw [make_eq] at make
    obtain ⟨-, rfl⟩ := EStateM.Result.ok.inj make
    exact confined.of_eq rfl confined.frames
  | perform m log p before rest confined ih => exact ih.asked confined
  | outside m log heap host before rest minds ih => exact ih.of_eq rfl ih.frames
  | step m log before ih => exact ih.step

/-- **The log tells the error of the instance**, throughout its career. -/
theorem ledger (h : Career id data keys m log) : Ledger id data keys m.state.host log := by
  induction h with
  | made m m' surface rest confined make collected =>
    rw [make_eq] at make
    obtain ⟨rfl, rfl⟩ := EStateM.Result.ok.inj make
    subst collected
    exact .fresh Array.getElem?_push_size
  | perform m log p before rest confined ih => exact ih
  | outside m log heap host before rest minds ih => exact ih.minds minds
  | step m log before ih =>
    rcases before.confined.host_step with hsame | ⟨change, hacting, hhost⟩
    · rw [hsame]
      exact ih.minds (.of_eq rfl)
    · rw [hhost]
      exact ih.acts (hacting _)

theorem iterate (h : Career id data keys m log) (n : Nat) :
    Career id data keys (Machine.step^[n] m) (log ++ reportsIn id n m) := by
  induction n generalizing m log with
  | zero =>
    rw [reportsIn, List.append_nil]
    exact h
  | succ n ih =>
    rw [reportsIn, ← List.append_assoc]
    exact ih (h.step m log)

/-! ## Operations from outside -/

/-- An operation goes on forever, or is a part of a career. -/
theorem performs (h : Career id data keys m log) (rest : m.stack = []) {p : Program (Stage ε)}
    (hp : p.Confined (Stage.Acting id)) :
    (Live.perform p m = .error .unfinished m ∧
        ∀ n, (Machine.step^[n] (m.asked p)).stack ≠ []) ∨
      ∃ n m', Live.perform p m = .ok () m' ∧ Machine.step^[n] (m.asked p) = m' ∧ m'.stack = [] ∧
        Career id data keys m' (log ++ reportsIn id n (m.asked p)) := by
  obtain hcut | ⟨n, m', hm', rfl, hrest⟩ := h.confined.performs hp
  · exact .inl hcut
  · exact .inr ⟨n, _, hm', rfl, hrest, (h.perform m log p rest hp).iterate n⟩

/-- An operation that has come to its end is a part of a career. -/
theorem performed (h : Career id data keys m log) (rest : m.stack = []) {p : Program (Stage ε)}
    (hp : p.Confined (Stage.Acting id)) (hm' : Live.perform p m = .ok () m') :
    m'.stack = [] ∧ ∃ new, Career id data keys m' (log ++ new) := by
  obtain ⟨hcut, -⟩ | ⟨n, k, hk, -, hrest, hcareer⟩ := h.performs rest hp
  · rw [hcut] at hm'
    cases hm'
  · rw [hk] at hm'
    obtain ⟨-, rfl⟩ := EStateM.Result.ok.inj hm'
    exact ⟨hrest, _, hcareer⟩

/-- The instance is changed, but not in its data, keys and render cycles, and its error at most handed
out. -/
theorem modify (h : Career id data keys m log) (rest : m.stack = []) (change : App → App)
    (hdata : ∀ app, (change app).data = app.data) (hkeys : ∀ app, (change app).keys = app.keys)
    (hcycles : ∀ app, (change app).cycles = app.cycles)
    (herror : ∀ app, (change app).lastError = app.lastError ∨ (change app).lastError = none) :
    ∃ m', App.modify id change m = .ok () m' ∧ m'.stack = [] ∧
      ∃ new, Career id data keys m' (log ++ new) := by
  obtain ⟨app, happ, -⟩ := h.ledger.app
  exact ⟨_, modify_eq happ change, rest, _, h.outside m log m.state.heap _ rest
    (Stage.minds_setApp happ (hdata app) (hkeys app) (hcycles app) (herror app))⟩

/-- **The error that the log comes to is handed out**, and nothing else is changed. -/
theorem takeError (h : Career id data keys m log) (rest : m.stack = []) :
    ∃ m', App.takeError id m = .ok (kept log) m' ∧ m'.stack = [] ∧ (kept log = none → m' = m) ∧
      Career id data keys m' (log ++ ((kept log).map .handedOut).toList) := by
  obtain ⟨app, happ, -, -, herror, -⟩ := h.ledger.app
  let cleared := m.state.host.setApp id { app with lastError := none }
  have htake := takeError_eq happ
  rw [herror] at htake
  refine ⟨{ m with state := { m.state with host := cleared } }, htake, rest, fun hnone => ?_, ?_⟩
  · have hsame : ({ app with lastError := none } : App) = app := by
      rw [← hnone, ← herror]
    have hcleared : cleared = m.state.host := (congrArg _ hsame).trans (Stage.setApp_self happ)
    rw [hcleared]
  · have hreports : m.state.host.reports id cleared = ((kept log).map .handedOut).toList := by
      have hcycles : ({ app with lastError := none } : App).cycles = app.cycles := rfl
      rw [Stage.reports_setApp happ hcycles, ← herror]
      cases app.lastError <;> rfl
    rw [← hreports]
    exact h.outside m log m.state.heap cleared rest (Stage.minds_setApp happ rfl rfl rfl (.inr rfl))

/-- A write that goes on forever. -/
theorem set_unfinished (h : Career id data keys m log) (hkey : key ∈ keys)
    (hwrite : Live.write data key v m = .error .unfinished m) :
    App.set id key v m = .error .unfinished m := by
  obtain ⟨app, happ, rfl, rfl, -⟩ := h.ledger.app
  rw [App.set, Live.bind_ok (look_eq happ), checkKey, if_pos hkey]
  exact Live.bind_error hwrite _

/-- **A write that comes to its end hands out the error of its own last render cycle**, if that one has
failed and its error was not handed out in the meantime. -/
theorem set_written (h : Career id data keys m log) (hkey : key ∈ keys)
    (hwrite : Live.write data key v m = .ok () m') (rest : m'.stack = [])
    (h' : Career id data keys m' (log ++ new)) :
    (kept new = none → App.set id key v m = .ok (.ok ()) m') ∧
      ∀ e, kept new = some e → ∃ k, App.set id key v m = .ok (.error e) k ∧ k.stack = [] ∧
        Career id data keys k (log ++ new ++ [.handedOut e]) := by
  obtain ⟨app, happ, rfl, rfl, -, hcycles⟩ := h.ledger.app
  obtain ⟨app', happ', -, -, -, hcycles'⟩ := h'.ledger.app
  rw [App.set, Live.bind_ok (look_eq happ), checkKey, if_pos hkey]
  simp only
  rw [Live.bind_ok hwrite, Live.bind_ok (look_eq happ')]
  have hcount : app'.cycles = app.cycles ↔ new.countP Report.isCycle = 0 := by
    rw [hcycles', hcycles, List.countP_append]
    omega
  obtain ⟨k, htake, hrest, hsame, hk⟩ := h'.takeError rest
  by_cases hno : new.countP Report.isCycle = 0
  · rw [if_pos (hcount.2 hno), kept_of_no_cycles hno]
    exact ⟨fun _ => rfl, fun e he => by cases he⟩
  · have hne : new ≠ [] := by
      rintro rfl
      exact hno rfl
    rw [if_neg fun hc => hno (hcount.1 hc), Live.bind_ok htake]
    rw [kept_append hne] at hsame hk ⊢
    refine ⟨fun hnone => ?_, fun e he => ⟨k, ?_, hrest, ?_⟩⟩
    · rw [hnone, hsame hnone]
      rfl
    · rw [he]
      rfl
    · rw [he] at hk
      exact hk

/-- **A mount is a part of a career**, whether it fails or not. -/
theorem mount (h : Career id data keys m log) (rest : m.stack = []) {target : Target}
    {result : Except AppError Unit} (hmount : App.mount id target m = .ok result m') :
    m'.stack = [] ∧ ∃ new, Career id data keys m' (log ++ new) := by
  have hnow : m.stack = [] ∧ ∃ new, Career id data keys m (log ++ new) :=
    ⟨rest, [], by rwa [List.append_nil]⟩
  obtain ⟨app, happ, -⟩ := h.ledger.app
  have hhost : (Live.host : Live (Stage ε) (Stage ε)) m = .ok m.state.host m := rfl
  unfold App.mount at hmount
  rw [Live.bind_ok (look_eq happ)] at hmount
  by_cases hmounted : app.isMounted
  · rw [if_pos hmounted] at hmount
    obtain ⟨-, rfl⟩ := EStateM.Result.ok.inj hmount
    exact hnow
  rw [if_neg hmounted, Live.bind_ok hhost] at hmount
  cases hp : prepare (m.state.host.surface app.surface) target with
  | error e =>
    rw [hp] at hmount
    obtain ⟨-, rfl⟩ := EStateM.Result.ok.inj hmount
    exact hnow
  | ok prepared =>
    obtain ⟨node, template⟩ := prepared
    rw [hp] at hmount
    obtain ⟨ready, haim, hrest, aimed, hready⟩ := h.modify rest
      (fun app => { app with shown := some (.node node) }) (fun _ => rfl) (fun _ => rfl)
      (fun _ => rfl) fun _ => .inl rfl
    simp only at hmount
    rw [Live.bind_ok haim] at hmount
    obtain ⟨w, first, hwatch, hmount⟩ := Live.bind_inv hmount
    rw [Live.watch, Live.bind_ok (Live.state_eq ready)] at hwatch
    obtain ⟨_, k, hperform, hwatch⟩ := Live.bind_inv hwatch
    obtain ⟨rfl, rfl⟩ := EStateM.Result.ok.inj hwatch
    obtain ⟨hrest, ran, hfirst⟩ := hready.performed hrest
      (p := .watch (getter id app.data template) fun _ => .done)
      ⟨confined_getter id id app.data template, fun _ => trivial⟩ hperform
    obtain ⟨app', happ', -⟩ := hfirst.ledger.app
    rw [Live.bind_ok (look_eq happ')] at hmount
    simp only [List.append_assoc] at hfirst
    cases he : app'.lastError with
    | none =>
      rw [he] at hmount
      obtain ⟨last, hsettle, hrest, settled, hlast⟩ := hfirst.modify hrest
        (fun app => { app with template := some template, watcher := some _ }) (fun _ => rfl)
        (fun _ => rfl) (fun _ => rfl) fun _ => .inl rfl
      simp only at hmount
      rw [Live.bind_ok hsettle] at hmount
      obtain ⟨-, rfl⟩ := EStateM.Result.ok.inj hmount
      exact ⟨hrest, _, by rwa [List.append_assoc] at hlast⟩
    | some e =>
      rw [he] at hmount
      obtain ⟨cleared, hclear, hrest, handed, hcleared⟩ := hfirst.modify hrest
        (fun app => { app with shown := none, lastError := none }) (fun _ => rfl) (fun _ => rfl)
        (fun _ => rfl) fun _ => .inr rfl
      simp only at hmount
      rw [Live.bind_ok hclear] at hmount
      obtain ⟨_, last, hrelease, hmount⟩ := Live.bind_inv hmount
      obtain ⟨-, rfl⟩ := EStateM.Result.ok.inj hmount
      simp only [List.append_assoc] at hcleared
      obtain ⟨hrest, released, hlast⟩ := hcleared.performed hrest (p := .release _ .done) trivial hrelease
      exact ⟨hrest, _, by rwa [List.append_assoc] at hlast⟩

/-! ## The result -/

end Career

/-! ## A paragraph whose data are cut off -/

namespace Sample

/-- A paragraph that shows a member of a member of a member. -/
def nested : Surface :=
  let paragraph := (Surface.empty.createElement "p").2.appendChild Surface.root ⟨1⟩
  (paragraph.createText "{{a.b.c}}").2.appendChild ⟨1⟩ ⟨2⟩

def nestedTemplate : Tree := .element "p" Table.empty [.text "{{a.b.c}}" none] none

/-- An object in an object in an object, which some watchers are subscribed to. -/
def nestedHeap (inner : Value) (subscribers : List WatcherId) : Heap :=
  ⟨#[⟨Table.empty.insert "c" ⟨.bool true, some ⟨2⟩⟩, true⟩,
      ⟨Table.empty.insert "b" ⟨inner, some ⟨1⟩⟩, true⟩,
      ⟨Table.empty.insert "a" ⟨.object ⟨1⟩, some ⟨0⟩⟩, true⟩],
    #[], #[subscribers, subscribers, subscribers]⟩

/-- The objects before they are observed. -/
def nestedBlank : Machine (Stage Unit) :=
  (Machine.start ⟨#[nested], #[], ()⟩).withHeap
    (Heap.empty.build (.object [("a", .object [("b", .object [("c", .value (.bool true))])])])).2

/-- An instance of the outermost object. -/
def nestedMade : Machine (Stage Unit) :=
  { nestedBlank with
    state := { nestedBlank.state with
      heap := nestedHeap (.object ⟨0⟩) [], host := ⟨#[nested], #[fresh ⟨0⟩ ⟨2⟩ ["a"]], ()⟩ } }

theorem make_nestedBlank : make ⟨0⟩ ⟨2⟩ nestedBlank = .ok ⟨0⟩ nestedMade := by
  have hheap : nestedBlank.state.heap.observe (.object ⟨2⟩) = nestedHeap (.object ⟨0⟩) [] := by cbv
  have hkeys : (nestedHeap (.object ⟨0⟩) []).keys ⟨2⟩ = ["a"] := by cbv
  rw [make_eq, hheap, hkeys]
  rfl

theorem career_nestedMade : Career ⟨0⟩ ⟨2⟩ ["a"] nestedMade [] := by
  have hkeys : nestedMade.state.heap.keys ⟨2⟩ = ["a"] := by cbv
  have hconfined : nestedBlank.Confined (Stage.Acting ⟨0⟩) :=
    ⟨fun _ => trivial, fun f hf => absurd hf List.not_mem_nil⟩
  exact .made nestedBlank nestedMade ⟨0⟩ rfl hconfined make_nestedBlank hkeys

theorem resolve_nested (h : Heap) :
    let found := Template.descend h (.object ⟨2⟩) ["a", "b", "c"]
    Template.resolve h ⟨2⟩ (String.ofList ['a', '.', 'b', '.', 'c']) =
      ⟨found.reads, found.result.mapError (.unresolved "a.b.c")⟩ := by
  have htrim : Text.trim (String.ofList ['a', '.', 'b', '.', 'c']) = "a.b.c" := by cbv
  have hempty : "a.b.c".isEmpty = false := by decide
  have hsegments : Template.segments "a.b.c" = ["a", "b", "c"] := by cbv
  unfold Template.resolve
  simp only [htrim, hempty, hsegments]
  rfl

theorem bind_nested (h : Heap) :
    let found := Template.descend h (.object ⟨2⟩) ["a", "b", "c"]
    nestedTemplate.bind h ⟨2⟩ =
      ⟨found.reads, (found.result.mapError (.unresolved "a.b.c")).map fun v =>
        .element "p" Table.empty [.text (h.display v) none] none⟩ := by
  have hpieces : Template.Piece.ofText "{{a.b.c}}".toList =
      [.literal [], .placeholder ['a', '.', 'b', '.', 'c'], .literal []] := by cbv
  simp only [nestedTemplate, Tree.bind, Tree.bindList, Template.interpolate, hpieces, Template.bindPieces,
    resolve_nested]
  cases (Template.descend h (.object ⟨2⟩) ["a", "b", "c"]).result with
  | error e => rfl
  | ok v => simp [Except.map, Except.mapError]

/-- The template on the data as they are at first. -/
theorem bind_nestedHeap (subscribers : List WatcherId) :
    nestedTemplate.bind (nestedHeap (.object ⟨0⟩) subscribers) ⟨2⟩ =
      ⟨[⟨⟨2⟩, "a"⟩, ⟨⟨1⟩, "b"⟩, ⟨⟨0⟩, "c"⟩],
        .ok (.element "p" Table.empty [.text "true" none] none)⟩ := by
  have hdescend : Template.descend (nestedHeap (.object ⟨0⟩) subscribers) (.object ⟨2⟩) ["a", "b", "c"] =
      ⟨[⟨⟨2⟩, "a"⟩, ⟨⟨1⟩, "b"⟩, ⟨⟨0⟩, "c"⟩], .ok (.bool true)⟩ := by cbv
  have hdisplay : (nestedHeap (.object ⟨0⟩) subscribers).display (.bool true) = "true" := by cbv
  rw [bind_nested, hdescend, ← hdisplay]
  rfl

/-- The template on the data when the innermost object was exchanged for null. -/
theorem bind_nestedHeap_null (subscribers : List WatcherId) :
    nestedTemplate.bind (nestedHeap .null subscribers) ⟨2⟩ =
      ⟨[⟨⟨2⟩, "a"⟩, ⟨⟨1⟩, "b"⟩], .error (.unresolved "a.b.c" "c")⟩ := by
  have hdescend : Template.descend (nestedHeap .null subscribers) (.object ⟨2⟩) ["a", "b", "c"] =
      ⟨[⟨⟨2⟩, "a"⟩, ⟨⟨1⟩, "b"⟩], .error "c"⟩ := by cbv
  rw [bind_nested, hdescend]
  rfl

/-- The first rendering. -/
def nestedFirst : Patched Tree :=
  (Patch.start nested).mount ⟨1⟩ (.element "p" Table.empty [.text "true" none] none)

/-- The instance as the first render cycle left it. -/
def nestedShown : App := (fresh ⟨0⟩ ⟨2⟩ ["a"]).firstRender ⟨1⟩ nestedFirst

/-- The instance is mounted at the paragraph. -/
def nestedMounted : Machine (Stage Unit) :=
  settled nestedMade ⟨0⟩ (fresh ⟨0⟩ ⟨2⟩ ["a"]) ⟨1⟩ nestedTemplate nestedShown

theorem unmounted_nestedMade : Unmounted nestedMade ⟨0⟩ (fresh ⟨0⟩ ⟨2⟩ ["a"]) :=
  ⟨rfl, show 0 < 1 by decide, rfl, rfl⟩

theorem mount_nestedMade : mount ⟨0⟩ (.node ⟨1⟩) nestedMade = .ok (.ok ()) nestedMounted ∧
    nestedMounted.state.host.app? ⟨0⟩ =
      some { nestedShown with template := some nestedTemplate, watcher := some ⟨0⟩ } := by
  have hprepare : prepare nested (.node ⟨1⟩) = .ok (⟨1⟩, nestedTemplate) := by cbv
  have hbind : (nestedTemplate.bind (nestedHeap (.object ⟨0⟩) []) ⟨2⟩).result =
      .ok (.element "p" Table.empty [.text "true" none] none) := by rw [bind_nestedHeap]
  have hnone : nestedFirst.error = none := by cbv
  obtain ⟨hmount, happ, -⟩ := mount_ok unmounted_nestedMade hprepare hbind rfl hnone
  exact ⟨hmount, happ⟩

theorem heap_nestedMounted : nestedMounted.state.heap = nestedHeap (.object ⟨0⟩) [⟨0⟩] := by
  have htrack : (nestedHeap (.object ⟨0⟩) []).track ⟨0⟩ [⟨⟨2⟩, "a"⟩, ⟨⟨1⟩, "b"⟩, ⟨⟨0⟩, "c"⟩] =
      nestedHeap (.object ⟨0⟩) [⟨0⟩] := by cbv
  have hheap : nestedMounted.state.heap = (nestedHeap (.object ⟨0⟩) []).track ⟨0⟩
      (nestedTemplate.bind (nestedHeap (.object ⟨0⟩) []) ⟨2⟩).reads := rfl
  rw [hheap, bind_nestedHeap, htrack]

theorem only_nestedMounted : nestedMounted.Only ⟨0⟩ (fun h => (nestedTemplate.bind h ⟨2⟩).reads)
    fun h stage => stage.cycle ⟨0⟩ (nestedTemplate.bind h ⟨2⟩).result := by
  have hsilent : (nestedHeap (.object ⟨0⟩) []).Sole ⟨0⟩ := by
    rintro ⟨i⟩
    match i with
    | 0 | 1 | 2 => exact .inl rfl
    | i + 3 => exact .inl rfl
  exact ⟨⟨1, watcher?_settled ..⟩, getter_settled unmounted_nestedMade _, hsilent.track _⟩

/-- The first render cycle has succeeded. -/
theorem career_nestedMounted : ∃ log, Career ⟨0⟩ ⟨2⟩ ["a"] nestedMounted log ∧ nestedMounted.stack = [] ∧
    kept log = none := by
  obtain ⟨hmount, happ⟩ := mount_nestedMade
  obtain ⟨hrest, _, hcareer⟩ := career_nestedMade.mount rfl hmount
  obtain ⟨app, happ', -, -, herror, -⟩ := hcareer.ledger.app
  obtain rfl := Option.some.inj (happ.symm.trans happ')
  exact ⟨_, hcareer, hrest, herror.symm⟩

/-- The innermost object was exchanged for null through the object that holds it. -/
def nestedFailing : Machine (Stage Unit) :=
  match Live.write ⟨1⟩ "b" .null nestedMounted with
  | .ok _ m => m
  | .error _ m => m

/-- The render cycle has failed, and nobody was told. -/
theorem career_nestedFailing : ∃ log, Career ⟨0⟩ ⟨2⟩ ["a"] nestedFailing log ∧ nestedFailing.stack = [] ∧
    nestedFailing.state.heap = nestedHeap .null [⟨0⟩] ∧
    (nestedFailing.state.host.app? ⟨0⟩).any App.isMounted ∧
    kept log = some (.bind (.unresolved "a.b.c" "c")) := by
  obtain ⟨-, happ⟩ := mount_nestedMade
  obtain ⟨_, hmounted, hrest, -⟩ := career_nestedMounted
  obtain ⟨m, hwrite, -, hrest', hcases⟩ := Live.write_readTell only_nestedMounted ⟨1⟩ "b" .null
  obtain ⟨-, _, hcareer⟩ := hmounted.performed hrest (p := .write ⟨1⟩ "b" .null .done) trivial hwrite
  obtain rfl : nestedFailing = m := by rw [nestedFailing, hwrite]
  have hstore : (nestedHeap (.object ⟨0⟩) [⟨0⟩]).store ⟨1⟩ "b" .null =
      (nestedHeap .null [⟨0⟩], some ⟨1⟩) := by cbv
  have htrack : (nestedHeap .null [⟨0⟩]).track ⟨0⟩ [⟨⟨2⟩, "a"⟩, ⟨⟨1⟩, "b"⟩] =
      nestedHeap .null [⟨0⟩] := by cbv
  rw [heap_nestedMounted, hstore] at hcases
  simp only [bind_nestedHeap_null, htrack] at hcases
  rcases hcases with ⟨-, hheap, hhost⟩ | ⟨hquiet, -⟩
  · have hfailed : nestedFailing.state.host.app? ⟨0⟩ =
        some (({ nestedShown with template := some nestedTemplate, watcher := some ⟨0⟩ } : App).failed
          (.bind (.unresolved "a.b.c" "c"))) := by
      rw [hhost, Stage.cycle_eq happ, Stage.app?_setApp]
      exact congrArg (Option.map _) happ
    refine ⟨_, hcareer, hrest', hheap, by rw [hfailed]; rfl, ?_⟩
    obtain ⟨app, happ', -, -, herror, -⟩ := hcareer.ledger.app
    obtain rfl := Option.some.inj (hfailed.symm.trans happ')
    exact herror.symm
  · exact absurd List.mem_cons_self (hquiet ⟨1⟩ rfl)

end Sample

end App

end LiveMarkup

import Mathlib
import LiveMarkup.CommandLine.Render
import LiveMarkup.Proofs.CommandLine.Mirrors
import LiveMarkup.Proofs.Markup.Token

/-!
# Snapshots of a session

Each snapshot of a session of assignments is what a session with no assignments gives on the data as
they are by then. Where the template fails on these data, the session ends with the failure that they
give at first.

* `Assignment.writeAll?`: instance data after a list of assignments.
* **`Mirrors.perform`**: an assignment is the write that it spells.
* `RenderRequest.Replay`: what assignments come to, told by the data alone.
* **`RenderRequest.replay_assignAll`**, **`Stands.run`**: a session is a replay.
* **`RenderRequest.run_incremental`**: the result, for every markup, selector, data and assignments.
-/

namespace LiveMarkup

open Template (BindError segments)
open Live (bind_ok)

variable {ms ms' : List (String × Draft)} {a : Assignment} {as : List Assignment}

/-! ## Instance data after assignments -/

namespace Assignment

/-- Instance data after a list of assignments, if all their paths are accepted. -/
def writeAll? (as : List Assignment) (ms : List (String × Draft)) : Option (List (String × Draft)) :=
  as.foldlM (fun ms a => a.write? ms) ms

theorem write?_of_key (h : (segments a.path).dropLast = []) (ms : List (String × Draft)) :
    a.write? ms =
      if (segments a.path).getLastD "" ∈ ms.map Prod.fst then
        some (putEntry ((segments a.path).getLastD "") a.value ms)
      else none := by
  rw [write?]
  simp only [h]

theorem write?_of_path {segment : String} {rest : List String}
    (h : (segments a.path).dropLast = segment :: rest) (ms : List (String × Draft)) :
    a.write? ms = a.value.writeAt ((segments a.path).getLastD "") (segment :: rest) ms := by
  rw [write?]
  simp only [h]

/-- No assignment adds a key to the data. -/
theorem map_fst_of_write? (h : a.write? ms = some ms') : ms'.map Prod.fst = ms.map Prod.fst := by
  cases hp : (segments a.path).dropLast with
  | nil =>
    rw [write?_of_key hp] at h
    split at h
    · next hmem =>
      obtain rfl := Option.some.inj h
      rw [map_fst_putEntry, if_pos hmem]
    · cases h
  | cons segment rest =>
    rw [write?_of_path hp, Draft.writeAt] at h
    split at h
    · next inner hfind =>
      obtain ⟨inner', -, rfl⟩ := Option.map_eq_some_iff.1 h
      have hmem : segment ∈ ms.map Prod.fst := List.mem_map.2 ⟨_, mem_of_findEntry hfind, rfl⟩
      rw [map_fst_putEntry, if_pos hmem]
    · cases h

end Assignment

namespace App

variable {id : AppId} {w : WatcherId} {app : App} {template t : Tree} {m m' : Machine (Stage Unit)}
  {s : Surface} {node : NodeId}

/-! ## One assignment -/

/-- The error of an instance is handed out once. -/
theorem takeError_none (h : m.state.host.app? id = some app) (hnone : app.lastError = none) :
    takeError id m = .ok none m := by
  have hself : ({ app with lastError := none } : App) = app := by
    rw [← hnone]
  rw [takeError_eq h, hnone, hself, Stage.setApp_self h]

/-- A write after which no error waits to be handed out. -/
theorem set_ok {key : String} {v : Value} {after : App} (happ : m.state.host.app? id = some app)
    (hkey : key ∈ app.keys) (hwrite : Live.write app.data key v m = .ok () m')
    (hafter : m'.state.host.app? id = some after) (hnone : after.lastError = none) :
    set id key v m = .ok (.ok ()) m' := by
  have hcheck : app.checkKey key = .ok () := if_pos hkey
  rw [set, bind_ok (look_eq happ), hcheck]
  dsimp only
  rw [bind_ok hwrite, bind_ok (look_eq hafter)]
  split
  · rfl
  · rw [bind_ok (takeError_none hafter hnone)]
    rfl

/-- A write that set off a render cycle, the last of which failed. -/
theorem set_error {key : String} {v : Value} {after : App} {e : AppError}
    (happ : m.state.host.app? id = some app) (hkey : key ∈ app.keys)
    (hwrite : Live.write app.data key v m = .ok () m')
    (hafter : m'.state.host.app? id = some after) (hcycles : after.cycles ≠ app.cycles)
    (herror : after.lastError = some e) : ∃ m'', set id key v m = .ok (.error e) m'' := by
  have hcheck : app.checkKey key = .ok () := if_pos hkey
  rw [set, bind_ok (look_eq happ), hcheck]
  dsimp only
  rw [bind_ok hwrite, bind_ok (look_eq hafter), if_neg hcycles, bind_ok (takeError_eq hafter), herror]
  exact ⟨_, rfl⟩

/-- What an assignment to an instance that shows its data comes to. It is refused, or it is the write
that it spells; then the instance shows the data written, or the template fails on them and that is the
error. -/
structure Assigns (s : Surface) (node : NodeId) (template : Tree) (m : Machine (Stage Unit)) (id : AppId)
    (w : WatcherId) (app : App) (ms : List (String × Draft)) (a : Assignment) : Prop where
  refused : a.write? ms = none → ∃ e m', a.perform id m = .ok (.error e) m'
  accepted : ∀ ms', a.write? ms = some ms' →
    (∃ m' app' t', a.perform id m = .ok (.ok ()) m' ∧ app'.surface = app.surface ∧
      Mirrors s node template m' id w app' t' ms') ∨
    ∃ e m', template.bound ms' = .error e ∧ a.perform id m = .ok (.error (.app (.bind e))) m'

theorem build_eq (m : Machine (Stage Unit)) (d : Draft) :
    (Live.build d : Live (Stage Unit) Value) m =
      .ok (m.state.heap.build d).1 (m.withHeap (m.state.heap.build d).2) := rfl

/-- An assignment to a property of the instance. -/
theorem Mirrors.perform_key (h : Mirrors s node template m id w app t ms) (ha : a.value.Plain)
    (hp : (segments a.path).dropLast = []) : Assigns s node template m id w app ms a := by
  have hwrite? := Assignment.write?_of_key hp ms
  have hperform : a.perform id m =
      (set id ((segments a.path).getLastD "") (m.state.heap.build a.value).1 >>= fun result =>
        pure (result.mapError AssignError.app)) (m.withHeap (m.state.heap.build a.value).2) := by
    rw [Assignment.perform, bind_ok (build_eq m a.value), hp]
  have happ : (m.withHeap (m.state.heap.build a.value).2).state.host.app? id = some app :=
    h.displayed.app?
  by_cases hkey : (segments a.path).getLastD "" ∈ app.keys
  · have hmem := hkey
    rw [h.keys] at hmem
    rw [if_pos hmem] at hwrite?
    refine ⟨fun hw => (by rw [hwrite?] at hw; cases hw), fun ms' hw => ?_⟩
    have hparent : Assignment.parent (m.state.heap.build a.value).2 app.data [] [] = .ok app.data := rfl
    obtain ⟨m', hwrite, hcases⟩ :=
      h.write ha rfl hparent (hwrite?.symm.trans hw) (Assignment.map_fst_of_write? hw)
    rcases hcases with ⟨app', t', hsurface, h'⟩ | ⟨e, hbound, hfailed⟩
    · refine .inl ⟨m', app', t', ?_, hsurface, h'⟩
      rw [hperform, bind_ok (set_ok happ hkey hwrite h'.displayed.app? h'.settled)]
      rfl
    · obtain ⟨m'', hset⟩ := set_error happ hkey hwrite hfailed (Nat.succ_ne_self _) rfl
      refine .inr ⟨e, m'', hbound, ?_⟩
      rw [hperform, bind_ok hset]
      rfl
  · have hmem := hkey
    rw [h.keys] at hmem
    rw [if_neg hmem] at hwrite?
    refine ⟨fun _ => ?_, fun ms' hw => (by rw [hwrite?] at hw; cases hw)⟩
    have hcheck : app.checkKey ((segments a.path).getLastD "") =
        .error (.unknownProperty ((segments a.path).getLastD "")) := if_neg hkey
    rw [hperform, set, bind_assoc, bind_ok (look_eq happ), hcheck]
    exact ⟨_, _, rfl⟩

/-- An assignment to a slot of an object below the instance. -/
theorem Mirrors.perform_path (h : Mirrors s node template m id w app t ms) (ha : a.value.Plain)
    {segment : String} {rest : List String} (hp : (segments a.path).dropLast = segment :: rest) :
    Assigns s node template m id w app ms a := by
  have hwrite? := Assignment.write?_of_path hp ms
  have happ : (m.withHeap (m.state.heap.build a.value).2).state.host.app? id = some app :=
    h.displayed.app?
  have hheap : (Live.heap : Live (Stage Unit) Heap) (m.withHeap (m.state.heap.build a.value).2) =
      .ok (m.state.heap.build a.value).2 (m.withHeap (m.state.heap.build a.value).2) := rfl
  cases hparent : Assignment.parent (m.state.heap.build a.value).2 app.data [] (segment :: rest) with
  | error e =>
    refine ⟨fun _ => ⟨e, m.withHeap (m.state.heap.build a.value).2, ?_⟩, fun ms' hw => ?_⟩
    · rw [Assignment.perform, bind_ok (build_eq m a.value), hp]
      dsimp only
      rw [bind_ok hheap, bind_ok (look_eq happ), hparent]
      rfl
    · obtain ⟨o, ho⟩ := h.bears.exists_parent (by rw [← hwrite?, hw]; rfl) rfl []
      rw [ho] at hparent
      cases hparent
  | ok o =>
    obtain ⟨ms'', hw'', -⟩ := h.bears.assign ha rfl hparent ((segments a.path).getLastD "")
    have hwritten := hwrite?.trans hw''
    obtain ⟨m', hwrite, hcases⟩ :=
      h.write ha rfl hparent hw'' (Assignment.map_fst_of_write? hwritten)
    refine ⟨fun hw => (by rw [hwritten] at hw; cases hw), fun ms' hw => ?_⟩
    obtain rfl : ms'' = ms' := Option.some.inj (hwritten.symm.trans hw)
    rw [Assignment.perform, bind_ok (build_eq m a.value), hp]
    dsimp only
    rw [bind_ok hheap, bind_ok (look_eq happ), hparent]
    dsimp only
    rw [bind_ok hwrite]
    rcases hcases with ⟨app', t', hsurface, h'⟩ | ⟨e, hbound, hfailed⟩
    · refine .inl ⟨m', app', t', ?_, hsurface, h'⟩
      rw [bind_ok (takeError_none h'.displayed.app? h'.settled)]
      rfl
    · rw [bind_ok (takeError_eq hfailed)]
      exact .inr ⟨e, _, hbound, rfl⟩

/-- **An assignment is the write that it spells**, if its path is accepted. -/
theorem Mirrors.perform (h : Mirrors s node template m id w app t ms) (ha : a.value.Plain) :
    Assigns s node template m id w app ms a := by
  cases hp : (segments a.path).dropLast with
  | nil => exact h.perform_key ha hp
  | cons segment rest => exact h.perform_path ha hp

end App

/-! ## Replays -/

namespace RenderRequest

open App (Mirrors Unmounted)

variable {shown : List (String × Draft) → Except BindError String} {r : RenderRequest} {f : Failure}
  {shots : List String} {result : Except Failure (List String)}

/-- The failure of an assignment. -/
def failedAt (a : Assignment) (e : AssignError) : Failure :=
  .during s!"failed to apply `{a.path}`" (.assign e)

/-- What assignments come to, where it is known what data are shown as, or how they fail to be. -/
def Replay (shown : List (String × Draft) → Except BindError String) (ms : List (String × Draft)) :
    List Assignment → Except Failure (List String) → Prop
  | [], result => result = .ok []
  | a :: as, result =>
    match a.write? ms with
    | none => ∃ e, result = .error (failedAt a e)
    | some ms' =>
      match shown ms' with
      | .error e => result = .error (failedAt a (.app (.bind e)))
      | .ok html => ∃ rest, Replay shown ms' as rest ∧ result = rest.map (html :: ·)

theorem replay_refused (path : a.write? ms = none) :
    Replay shown ms (a :: as) result ↔ ∃ e, result = .error (failedAt a e) := by
  simp only [Replay, path]

theorem replay_failed {e : BindError} (path : a.write? ms = some ms') (fails : shown ms' = .error e) :
    Replay shown ms (a :: as) result ↔ result = .error (failedAt a (.app (.bind e))) := by
  simp only [Replay, path, fails]

theorem replay_shown {html : String} (path : a.write? ms = some ms') (shows : shown ms' = .ok html) :
    Replay shown ms (a :: as) result ↔
      ∃ rest, Replay shown ms' as rest ∧ result = rest.map (html :: ·) := by
  simp only [Replay, path, shows]

/-- What a replay that gets past its first assignment has shown by then. -/
theorem Replay.shown_of_ok (h : Replay shown ms (a :: as) (.ok shots)) :
    ∃ ms' html rest, a.write? ms = some ms' ∧ shown ms' = .ok html ∧ Replay shown ms' as (.ok rest) ∧
      shots = html :: rest := by
  cases path : a.write? ms with
  | none =>
    obtain ⟨e, he⟩ := (replay_refused path).1 h
    cases he
  | some ms' =>
    cases hs : shown ms' with
    | error e => cases (replay_failed path hs).1 h
    | ok html =>
      obtain ⟨result, hrest, he⟩ := (replay_shown path hs).1 h
      cases result with
      | error f => cases he
      | ok rest => exact ⟨ms', html, rest, rfl, hs, hrest, Except.ok.inj he⟩

/-- A replay that succeeds shows the data after every assignment. -/
theorem Replay.shows_all (h : Replay shown ms as (.ok shots)) :
    shots.length = as.length ∧ ∀ i (hi : i < shots.length),
      ∃ ms', Assignment.writeAll? (as.take (i + 1)) ms = some ms' ∧ shown ms' = .ok shots[i] := by
  induction as generalizing ms shots with
  | nil =>
    obtain rfl := Except.ok.inj h
    exact ⟨rfl, fun i hi => absurd hi (Nat.not_lt_zero i)⟩
  | cons a as ih =>
    obtain ⟨ms', html, rest, path, shows, hrest, rfl⟩ := h.shown_of_ok
    obtain ⟨hlength, hall⟩ := ih hrest
    refine ⟨congrArg (· + 1) hlength, fun i hi => ?_⟩
    cases i with
    | zero => exact ⟨ms', by simp [Assignment.writeAll?, path], shows⟩
    | succ i =>
      obtain ⟨ms'', hwrite, hshown⟩ := hall i (Nat.lt_of_succ_lt_succ hi)
      refine ⟨ms'', ?_, hshown⟩
      rw [List.take_succ_cons, Assignment.writeAll?, List.foldlM_cons, path]
      exact hwrite

/-- A replay that gets to an assignment whose path is accepted, and no further, fails as the data written
there fail to be shown. -/
theorem Replay.fails {i : Nat} {ms₁ ms₂ : List (String × Draft)} (hi : as[i]? = some a)
    (before : Replay shown ms (as.take i) (.ok shots))
    (hwritten : Assignment.writeAll? (as.take i) ms = some ms₁) (hwrite : a.write? ms₁ = some ms₂)
    (fails : Replay shown ms (as.take (i + 1)) (.error f)) (all : Replay shown ms as result) :
    ∃ e, f = failedAt a (.app (.bind e)) ∧ shown ms₂ = .error e ∧ result = .error f := by
  induction i generalizing ms as shots result f with
  | zero =>
    cases as with
    | nil => cases hi
    | cons b as =>
      obtain rfl := Option.some.inj hi
      obtain rfl : ms = ms₁ := Option.some.inj hwritten
      rw [List.take_succ_cons, List.take_zero] at fails
      cases hs : shown ms₂ with
      | error e =>
        obtain rfl := Except.error.inj ((replay_failed hwrite hs).1 fails)
        exact ⟨e, rfl, rfl, (replay_failed hwrite hs).1 all⟩
      | ok html =>
        obtain ⟨rest, hrest, he⟩ := (replay_shown hwrite hs).1 fails
        rw [show rest = .ok [] from hrest] at he
        cases he
  | succ i ih =>
    cases as with
    | nil => cases hi
    | cons b as =>
      rw [List.take_succ_cons] at before fails hwritten
      obtain ⟨ms', html, rest, path, shows, hbefore, -⟩ := before.shown_of_ok
      rw [Assignment.writeAll?, List.foldlM_cons, path] at hwritten
      obtain ⟨failed, hfails, he⟩ := (replay_shown path shows).1 fails
      obtain ⟨later, hlater, rfl⟩ := (replay_shown path shows).1 all
      cases failed with
      | ok shots => cases he
      | error g =>
        obtain rfl : f = g := Except.error.inj he
        obtain ⟨e, hf, hshown, rfl⟩ := ih hi hbefore hwritten hfails hlater
        exact ⟨e, hf, hshown, rfl⟩

/-! ## Sessions -/

variable {id : AppId} {w : WatcherId} {app : App} {template t : Tree} {m : Machine (Stage Unit)}
  {s : Surface} {node : NodeId}

/-- The document that a template over a node of a surface gives on data. -/
def document (s : Surface) (node : NodeId) (template : Tree) (ms : List (String × Draft)) :
    Except BindError String :=
  (template.bound ms).map fun b => ((Patch.start s).mount node b).patch.surface.html

/-- An instance that shows its data gives the document that the template does. -/
theorem document_eq (h : Mirrors s node template m id w app t ms) :
    document s node template ms = .ok (m.state.host.surface app.surface).html := by
  rw [document, h.bound]
  exact congrArg Except.ok (h.html_eq h.bound).symm

/-- **Assignments to an instance that shows its data** are a replay. -/
theorem replay_assignAll (h : Mirrors s node template m id w app t ms)
    (has : ∀ a ∈ as, a.value.Plain) :
    ∃ result m', assignAll id app.surface as m = .ok result m' ∧
      Replay (document s node template) ms as result := by
  induction as generalizing m app t ms with
  | nil => exact ⟨.ok [], m, rfl, rfl⟩
  | cons a as ih =>
    obtain ⟨ha, has⟩ := List.forall_mem_cons.1 has
    obtain ⟨hrefused, haccepted⟩ := h.perform ha
    rw [assignAll]
    cases path : a.write? ms with
    | none =>
      obtain ⟨e, m', hperform⟩ := hrefused path
      rw [bind_ok hperform]
      exact ⟨.error (failedAt a e), m', rfl, (replay_refused path).2 ⟨e, rfl⟩⟩
    | some ms' =>
      rcases haccepted ms' path with ⟨m', app', t', hperform, hsurface, h'⟩ | ⟨e, m', hbound, hperform⟩
      · obtain ⟨result, m'', hrest, hreplay⟩ := ih h' has
        rw [hsurface] at hrest
        have hshown := document_eq h'
        rw [hsurface] at hshown
        refine ⟨result.map _, m'', ?_, (replay_shown path hshown).2 ⟨result, hreplay, rfl⟩⟩
        have hhost : (Live.host : Live (Stage Unit) (Stage Unit)) m' = .ok m'.state.host m' := rfl
        rw [bind_ok hperform]
        dsimp only
        rw [bind_ok hhost, bind_ok hrest]
        cases result <;> rfl
      · have hfails : document s node template ms' = .error e := by
          rw [document, hbound]
          rfl
        rw [bind_ok hperform]
        exact ⟨.error (failedAt a (.app (.bind e))), m', rfl, (replay_failed path hfails).2 rfl⟩

/-- A request whose markup can be read and whose target is found and has a parent. -/
structure Stands (r : RenderRequest) (s : Surface) (node : NodeId) (template : Tree) : Prop where
  surface : Surface.ofMarkup r.markup = .ok s
  target : ∃ target, r.target s = .ok target ∧ App.prepare s target = .ok (node, template)
  parent : ∃ q, s.parent? node = some q

/-- The heap of a session once its instance is made. -/
def dataHeap (ms : List (String × Draft)) : Heap :=
  (Heap.empty.buildObject ms).2.observe (.object (Heap.empty.buildObject ms).1)

/-- The machine of a session once its instance is made. -/
def made (s : Surface) (ms : List (String × Draft)) : Machine (Stage Unit) :=
  let data := (Heap.empty.buildObject ms).1
  ⟨⟨dataHeap ms, #[], none,
    ⟨#[s], #[App.fresh ⟨0⟩ data ((dataHeap ms).keys data)], ()⟩⟩, #[], [], none⟩

theorem make_made (s : Surface) (ms : List (String × Draft)) :
    App.make ⟨0⟩ (Heap.empty.buildObject ms).1
      ((Machine.start (⟨#[s], #[], ()⟩ : Stage Unit)).withHeap (Heap.empty.buildObject ms).2) =
        .ok ⟨0⟩ (made s ms) := rfl

theorem unmounted_made (s : Surface) (ms : List (String × Draft)) :
    Unmounted (made s ms) ⟨0⟩ (App.fresh ⟨0⟩ (Heap.empty.buildObject ms).1
      ((dataHeap ms).keys (Heap.empty.buildObject ms).1)) :=
  ⟨rfl, Nat.zero_lt_one, rfl, rfl⟩

/-- Nobody is subscribed to the data of a new instance. -/
theorem silent_dataHeap (ms : List (String × Draft)) (d : DepId) : (dataHeap ms).subscribers d = [] := by
  have hinst := Heap.Instruments.observe (Heap.empty.buildObject ms).2
    (.object (Heap.empty.buildObject ms).1)
  have hbuild : (Heap.empty.build (.object ms)).2 = (Heap.empty.buildObject ms).2 := rfl
  rw [dataHeap, hinst.subscribers, ← hbuild, (Heap.grows_build Heap.empty (.object ms)).subscribers_eq]
  rfl

/-- The new instance holds the data that it was given. -/
theorem bears_dataHeap (hms : (Draft.object ms).Plain) :
    (dataHeap ms).Bears (Heap.empty.buildObject ms).1 ms ∧
      (dataHeap ms).keys (Heap.empty.buildObject ms).1 = ms.map Prod.fst := by
  have hwellformed := Heap.wellformed_empty.build (.object ms) (hms.exists _)
  have hdata := (Heap.wellformed_empty.grounded.build (.object ms) (hms.exists _)).2
  obtain ⟨cs, hholds, hnodup, -⟩ := hms.holds_build Heap.empty
  have hinst := Heap.Instruments.observe (Heap.empty.buildObject ms).2
    (.object (Heap.empty.buildObject ms).1)
  have hheld := hholds.congr (hinst.keepsAt cs)
  refine ⟨⟨hwellformed.observe hdata, ?_, hms, cs, hheld, hnodup⟩, ?_⟩
  · exact (Heap.Closed.observe hwellformed.grounded hdata
      fun _ _ _ ho hp => .inl (hwellformed.closed ho hp)).2 _ rfl
  · obtain ⟨ms', cs', he, -, -, members⟩ := hheld.of_object
    cases he
    rw [Heap.keys_eq_members]
    exact members.map_fst

/-- A session on a surface starts by mounting the instance made for it. -/
theorem session_eq (r : RenderRequest) (s : Surface) {target : Target} (ht : r.target s = .ok target) :
    r.session s (Heap.empty.buildObject r.data).1
      ((Machine.start (⟨#[s], #[], ()⟩ : Stage Unit)).withHeap (Heap.empty.buildObject r.data).2) =
    (do
      match ← App.mount ⟨0⟩ target with
      | .error e => return .error (.assign (.app e))
      | .ok () =>
        let html := ((← Live.host).surface ⟨0⟩).html
        match ← assignAll ⟨0⟩ ⟨0⟩ r.assignments with
        | .error f => return .error f
        | .ok snapshots => return .ok (html :: snapshots) : Live (Stage Unit) _)
      (made s r.data) := by
  rw [session, bind_ok (make_made s r.data)]
  generalize r.target s = found at ht
  subst ht
  rfl

/-- What a request comes to on a surface. -/
theorem run_eq (r : RenderRequest) (hs : Surface.ofMarkup r.markup = .ok s) :
    r.run =
      match r.session s (Heap.empty.buildObject r.data).1
        ((Machine.start (⟨#[s], #[], ()⟩ : Stage Unit)).withHeap (Heap.empty.buildObject r.data).2) with
      | .ok result _ => result
      | .error e _ => .error (.fault e) := by
  rw [run, hs]
  rfl

/-- **A session** shows the data that it starts with and replays its assignments. -/
theorem Stands.run (h : Stands r s node template) (hdata : (Draft.object r.data).Plain)
    (has : ∀ a ∈ r.assignments, a.value.Plain) :
    (∃ e, document s node template r.data = .error e ∧ r.run = .error (.assign (.app (.bind e)))) ∨
      ∃ html result, document s node template r.data = .ok html ∧
        Replay (document s node template) r.data r.assignments result ∧
        r.run = result.map (html :: ·) := by
  obtain ⟨target, ht, hprepare⟩ := h.target
  obtain ⟨q, hq⟩ := h.parent
  obtain ⟨hbears, hkeys⟩ := bears_dataHeap hdata
  obtain ⟨hfails, hmounts⟩ := App.mirrors_mount (unmounted_made s r.data) hprepare
    (Surface.Linked.ofMarkup h.surface) hq hbears hkeys
    (silent_dataHeap r.data)
  rw [run_eq r h.surface, session_eq r s ht]
  cases hbound : template.bound r.data with
  | error e =>
    obtain ⟨m', hmount⟩ := hfails e hbound
    refine .inl ⟨e, by rw [document, hbound]; rfl, ?_⟩
    rw [bind_ok hmount]
    rfl
  | ok b =>
    obtain ⟨m', w, app', t, hmount, hsurface, hmirrors⟩ := hmounts b hbound
    obtain ⟨result, m'', hassign, hreplay⟩ := replay_assignAll hmirrors has
    have hshown := document_eq hmirrors
    rw [hsurface] at hassign hshown
    replace hassign : assignAll ⟨0⟩ ⟨0⟩ r.assignments m' = .ok result m'' := hassign
    refine .inr ⟨_, result, hshown, hreplay, ?_⟩
    have hhost : (Live.host : Live (Stage Unit) (Stage Unit)) m' = .ok m'.state.host m' := rfl
    rw [bind_ok hmount]
    dsimp only
    rw [bind_ok hhost, bind_ok hassign]
    cases result <;> rfl

/-- A session whose first data are shown replays its assignments. -/
theorem Stands.run_shown {html : String} (h : Stands r s node template)
    (hdata : (Draft.object r.data).Plain) (has : ∀ a ∈ r.assignments, a.value.Plain)
    (shows : document s node template r.data = .ok html) :
    ∃ result, Replay (document s node template) r.data r.assignments result ∧
      r.run = result.map (html :: ·) := by
  rcases h.run hdata has with ⟨e, hfails, -⟩ | ⟨html', result, hshown, hreplay, hrun⟩
  · rw [shows] at hfails
    cases hfails
  · obtain rfl : html = html' := Except.ok.inj (shows.symm.trans hshown)
    exact ⟨result, hreplay, hrun⟩

/-- A request that stands does so with other data and other assignments. -/
theorem Stands.congr {r' : RenderRequest} (h : Stands r s node template)
    (markup : r'.markup = r.markup) (selector : r'.selector = r.selector) :
    Stands r' s node template := by
  obtain ⟨target, ht, hprepare⟩ := h.target
  refine ⟨markup ▸ h.surface, ⟨target, ?_, hprepare⟩, h.parent⟩
  rw [RenderRequest.target, selector]
  exact ht

/-- The snapshots of a session show the data that it starts with, and those after each assignment. -/
theorem Stands.shows_all (h : Stands r s node template) (hdata : (Draft.object r.data).Plain)
    (has : ∀ a ∈ r.assignments, a.value.Plain) (hrun : r.run = .ok shots) :
    shots.length = r.assignments.length + 1 ∧ ∀ i (hi : i < shots.length),
      ∃ ms, Assignment.writeAll? (r.assignments.take i) r.data = some ms ∧
        document s node template ms = .ok shots[i] := by
  rcases h.run hdata has with ⟨e, -, he⟩ | ⟨html, result, hshown, hreplay, he⟩
  · rw [he] at hrun
    cases hrun
  · rw [he] at hrun
    cases result with
    | error f => cases hrun
    | ok rest =>
      obtain rfl : html :: rest = shots := Except.ok.inj hrun
      obtain ⟨hlength, hall⟩ := hreplay.shows_all
      refine ⟨congrArg (· + 1) hlength, fun i hi => ?_⟩
      cases i with
      | zero => exact ⟨r.data, rfl, hshown⟩
      | succ i => exact hall i (Nat.lt_of_succ_lt_succ hi)

/-- A session that gets to an assignment whose path is accepted, and no further, fails as the data
written there fail to be shown. -/
theorem Stands.fails {i : Nat} {ms₁ ms₂ : List (String × Draft)} (h : Stands r s node template)
    (hdata : (Draft.object r.data).Plain) (has : ∀ a ∈ r.assignments, a.value.Plain)
    (hi : r.assignments[i]? = some a)
    (before : ({ r with assignments := r.assignments.take i } : RenderRequest).run = .ok shots)
    (hfails : ({ r with assignments := r.assignments.take (i + 1) } : RenderRequest).run = .error f)
    (hwritten : Assignment.writeAll? (r.assignments.take i) r.data = some ms₁)
    (hwrite : a.write? ms₁ = some ms₂) :
    ∃ e, f = failedAt a (.app (.bind e)) ∧ r.run = .error f ∧
      document s node template ms₂ = .error e := by
  have htake : ∀ n, ∀ a ∈ r.assignments.take n, a.value.Plain := fun n a ha =>
    has a (List.mem_of_mem_take ha)
  have hat : ∀ as, Stands { r with assignments := as } s node template := fun as =>
    h.congr rfl rfl
  rcases (hat (r.assignments.take i)).run hdata (htake i) with
    ⟨e, -, he⟩ | ⟨html, result, hshown, hbefore, he⟩
  · rw [he] at before
    cases before
  · rw [he] at before
    obtain ⟨failed, fails, hfailed⟩ :=
      (hat (r.assignments.take (i + 1))).run_shown hdata (htake (i + 1)) hshown
    obtain ⟨whole, all, hwhole⟩ := h.run_shown hdata has hshown
    rw [hfailed] at hfails
    cases failed with
    | ok later => cases hfails
    | error g =>
      obtain rfl : g = f := Except.error.inj hfails
      cases result with
      | error g' => cases before
      | ok shots' =>
        obtain ⟨e, hf, hdocument, rfl⟩ := Replay.fails hi hbefore hwritten hwrite fails all
        exact ⟨e, hf, hwhole, hdocument⟩

/-- The markup of a request that succeeds can be read, and its target is found and has a parent. -/
theorem exists_stands (h : r.run = .ok shots) : ∃ s node template, Stands r s node template := by
  cases hs : Surface.ofMarkup r.markup with
  | error e =>
    rw [run, hs] at h
    cases h
  | ok s =>
    cases ht : r.target s with
    | error f =>
      rw [run_eq r hs, session, bind_ok (make_made s r.data), ht] at h
      cases h
    | ok target =>
      rw [run_eq r hs, session_eq r s ht] at h
      cases hmount : App.mount ⟨0⟩ target (made s r.data) with
      | error e m' =>
        have hfails : ∀ k, (App.mount (ε := Unit) ⟨0⟩ target >>= k) (made s r.data) =
            (.error e m' : EStateM.Result _ _ (Except Failure (List String))) := fun k => by
          show EStateM.bind _ _ _ = _
          rw [EStateM.bind, hmount]
        rw [hfails] at h
        cases h
      | ok mounted m' =>
        rw [bind_ok hmount] at h
        cases mounted with
        | error e => cases h
        | ok _ =>
          obtain ⟨node, template, b, hprepare, -, hnone⟩ :=
            App.mount_inv (unmounted_made s r.data) hmount
          exact ⟨s, node, template, hs, ⟨target, ht, hprepare⟩, Patch.attached_of_mount hnone⟩

/-- A session with no assignments shows the data that it starts with. -/
theorem Stands.run_nil (h : Stands r s node template) (hms : (Draft.object ms).Plain) :
    ({ r with data := ms, assignments := [] } : RenderRequest).run =
      match document s node template ms with
      | .ok html => .ok [html]
      | .error e => .error (.assign (.app (.bind e))) := by
  have h' : Stands { r with data := ms, assignments := [] } s node template := h.congr rfl rfl
  rcases h'.run hms nofun with ⟨e, hfails, hrun⟩ | ⟨html, result, hshown, hreplay, hrun⟩
  · rw [hrun, show document s node template ms = .error e from hfails]
  · obtain rfl : result = .ok [] := hreplay
    rw [hrun, show document s node template ms = .ok html from hshown]
    rfl

end RenderRequest

/-- Data after plain assignments are plain. -/
theorem Assignment.plain_of_writeAll (hms : (Draft.object ms).Plain) (has : ∀ a ∈ as, a.value.Plain)
    (hw : writeAll? as ms = some ms') : (Draft.object ms').Plain := by
  induction as generalizing ms with
  | nil => exact Option.some.inj hw ▸ hms
  | cons a as ih =>
    obtain ⟨ha, has⟩ := List.forall_mem_cons.1 has
    rw [writeAll?, List.foldlM_cons] at hw
    obtain ⟨ms₁, hwrite, hw⟩ := Option.bind_eq_some_iff.1 hw
    exact ih (plain_of_write ha hms hwrite) has hw

namespace RenderRequest

/-- **Rendering after assignments is rendering from scratch**, however the numerals of the data and of the
assignments were rounded. Every snapshot of a session is the only
snapshot that the data as they are by then give. If a session fails at an assignment whose path is
accepted, the data written by it fail to be rendered, with the same bind error. -/
theorem run_incremental [Json.Rounding] (r : RenderRequest) (hdata : ∃ text, parseData text = .ok r.data)
    (hassign : ∀ a ∈ r.assignments, ∃ arg, Assignment.parse arg = .ok a) :
    (∀ shots, r.run = .ok shots →
      shots.length = r.assignments.length + 1 ∧ ∀ i (hi : i < shots.length),
        ∃ ms, Assignment.writeAll? (r.assignments.take i) r.data = some ms ∧
          ({ r with data := ms, assignments := [] } : RenderRequest).run = .ok [shots[i]]) ∧
    ∀ i a shots f ms ms', r.assignments[i]? = some a →
      ({ r with assignments := r.assignments.take i } : RenderRequest).run = .ok shots →
      ({ r with assignments := r.assignments.take (i + 1) } : RenderRequest).run = .error f →
      Assignment.writeAll? (r.assignments.take i) r.data = some ms → a.write? ms = some ms' →
      ∃ e, f = failedAt a (.app (.bind e)) ∧ r.run = .error f ∧
        ({ r with data := ms', assignments := [] } : RenderRequest).run =
          .error (.assign (.app (.bind e))) := by
  have hplain : (Draft.object r.data).Plain := hdata.elim fun _ h => plain_of_parseData h
  have has : ∀ a ∈ r.assignments, a.value.Plain := fun a ha =>
    (hassign a ha).elim fun _ h => Assignment.plain_of_parse h
  have hafter : ∀ {i ms}, Assignment.writeAll? (r.assignments.take i) r.data = some ms →
      (Draft.object ms).Plain := fun hw =>
    Assignment.plain_of_writeAll hplain (fun a ha => has a (List.mem_of_mem_take ha)) hw
  refine ⟨fun shots hrun => ?_, fun i a shots f ms ms' hi hbefore hfails hwritten hwrite => ?_⟩
  · obtain ⟨s, node, template, hstands⟩ := exists_stands hrun
    obtain ⟨hlength, hall⟩ := hstands.shows_all hplain has hrun
    refine ⟨hlength, fun i hi => ?_⟩
    obtain ⟨ms, hw, hdocument⟩ := hall i hi
    refine ⟨ms, hw, ?_⟩
    rw [hstands.run_nil (hafter hw), hdocument]
  · obtain ⟨s, node, template, hstands⟩ := exists_stands hbefore
    replace hstands : Stands r s node template := hstands.congr rfl rfl
    obtain ⟨e, hf, hrun, hdocument⟩ :=
      hstands.fails hplain has hi hbefore hfails hwritten hwrite
    have hms := Assignment.plain_of_write (has a (List.mem_of_getElem? hi)) (hafter hwritten) hwrite
    refine ⟨e, hf, hrun, ?_⟩
    rw [hstands.run_nil hms, hdocument]

/-- A paragraph over a key, with an assignment to it. -/
def paragraphRequest : RenderRequest where
  markup := "<p>\x7b\x7ba\x7d\x7d</p>"
  data := [("a", .value (.string "x"))]
  selector := none
  assignments := [⟨"a", .value (.string "y")⟩]

theorem run_incremental_paragraph :
    paragraphRequest.run = .ok ["<p>x</p>", "<p>y</p>"] ∧
      ∃ ms, Assignment.writeAll? (paragraphRequest.assignments.take 1) paragraphRequest.data = some ms ∧
        ({ paragraphRequest with data := ms, assignments := [] } : RenderRequest).run =
          .ok ["<p>y</p>"] := by
  have hdata : parseData "\x7b\x22a\x22:\x22x\x22\x7d" = .ok paragraphRequest.data := by cbv
  have hassign : Assignment.parse "a=y" = .ok ⟨"a", .value (.string "y")⟩ := by cbv
  have hscan : Markup.Token.scan paragraphRequest.markup.toList =
      some [.opening "p" [] false, .text "\x7b\x7ba\x7d\x7d".toList, .closing "p"] := by
    have h₁ : Markup.Token.next "<p>\x7b\x7ba\x7d\x7d</p>".toList =
        some (.opening "p" [] false, "\x7b\x7ba\x7d\x7d</p>".toList) := by cbv
    have h₂ : Markup.Token.next "\x7b\x7ba\x7d\x7d</p>".toList =
        some (.text "\x7b\x7ba\x7d\x7d".toList, "</p>".toList) := by cbv
    have h₃ : Markup.Token.next "</p>".toList = some (.closing "p", []) := by cbv
    rw [paragraphRequest, Markup.Token.scan_of_next (by decide) h₁,
      Markup.Token.scan_of_next (by decide) h₂, Markup.Token.scan_of_next (by decide) h₃,
      Markup.Token.scan_nil]
    rfl
  have hrun : paragraphRequest.run = .ok ["<p>x</p>", "<p>y</p>"] := by
    rw [run, Surface.ofMarkup, Source.parse, hscan]
    cbv
  have hassigns : ∀ a ∈ paragraphRequest.assignments, ∃ arg, Assignment.parse arg = .ok a := by
    rintro a ha
    obtain rfl := List.mem_singleton.1 ha
    exact ⟨_, hassign⟩
  obtain ⟨-, hall⟩ := (run_incremental paragraphRequest ⟨_, hdata⟩ hassigns).1 _ hrun
  exact ⟨hrun, hall 1 (by decide)⟩

end RenderRequest

end LiveMarkup

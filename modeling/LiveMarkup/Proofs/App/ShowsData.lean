import Mathlib
import LiveMarkup.Proofs.App.Mount

/-!
# A mounted instance shows its data

From its mount on, whatever writes are made to its data by operations from outside and by the getters
of other watchers, an instance shows what its template gives on the data, or the tree of the last render
cycle that succeeded.

* `App.Session`: a mounted instance, with the outcomes of its render cycles.
* `App.ready_make`: a new instance can be mounted.
* `App.Session.live`, `App.Session.set`: operations from outside are parts of a session.
* **`App.shows_data`**: the result, for every session.
-/

namespace LiveMarkup.App

variable {ε : Type} {id : AppId} {w : WatcherId} {m m' : Machine (Stage ε)}
  {log : List (Option Tree)}

/-- An instance that was mounted, the programs that were performed since, and the steps they took, with
the outcomes of the instance's render cycles: the trees rendered, and nothing where a cycle failed. -/
inductive Session (id : AppId) (w : WatcherId) : Machine (Stage ε) → List (Option Tree) → Prop where
  | mounted (m m' : Machine (Stage ε)) (target : Target) (app : App) (t : Tree) (ready : Ready id m)
      (mount : App.mount id target m = .ok (.ok ()) m') (app? : m'.state.host.app? id = some app)
      (watcher : app.watcher = some w) (tree : app.tree? = some t) : Session id w m' [some t]
  | perform (m : Machine (Stage ε)) (log : List (Option Tree)) (p : Program (Stage ε))
      (before : Session id w m log) (rest : m.stack = []) :
      Session id w { m with stack := [.body p], fault := none } log
  | step (m : Machine (Stage ε)) (log : List (Option Tree)) (before : Session id w m log)
      (tame : Tame id w m) :
      Session id w m.step (log ++ m.state.host.outcome id m.step.state.host)

/-! ## New instances -/

/-- **A new instance can be mounted.** -/
theorem ready_make {surface : SurfaceId} {data : ObjectId} (hh : m.state.heap.Wellformed)
    (paired : m.getters.size = m.state.watchers.size) (hdata : m.state.heap.Exists (.object data))
    (hclean : m.state.heap.Clean (.object data))
    (hlt : surface.index < m.state.host.surfaces.size)
    (hlinked : (m.state.host.surface surface).Linked) (hmake : make surface data m = .ok id m') :
    Ready id m' := by
  have hobserve := Heap.Instruments.observe m.state.heap (.object data)
  have hobserved := (Heap.Closed.observe hh.grounded hdata
    fun _ _ _ ho hp => .inl (hh.closed ho hp)).2 data rfl
  rw [make_eq] at hmake
  obtain ⟨rfl, rfl⟩ := EStateM.Result.ok.inj hmake
  refine ⟨paired, fresh surface data ((m.state.heap.observe (.object data)).keys data), ?_,
    ⟨hh.observe hdata, hobserved, ?_⟩, hlt, hlinked⟩
  · simp [Stage.app?]
  · exact hclean.of_agrees hobserve.agrees hh.grounded hdata

/-! ## The invariant of a session -/

/-- At rest nothing runs and nothing waits. -/
theorem Served.at_rest (h : Served id w m log) (rest : m.stack = []) :
    ∃ app template t, app.template = some template ∧ Watched id w app.data template m ∧
      Displayed m.state.host id app template t ∧ log.reduceOption.getLast? = some t ∧
      (log.getLast? = some none ∨ Current m.state.heap w app.data template t) := by
  obtain ⟨app, template, t, htemplate, hw, hd, hlast, hphase⟩ := h
  refine ⟨app, template, t, htemplate, hw, hd, hlast, ?_⟩
  cases hphase with
  | idle out upToDate =>
    rcases upToDate with hf | hc | ⟨f, hf, -⟩
    · exact .inl hf
    · exact .inr hc
    · rw [rest] at hf
      exact absurd hf List.not_mem_nil
  | reading previous n fs stack once active => rw [rest] at stack; cases stack
  | telling previous n fs stack once subscribed => rw [rest] at stack; cases stack
  | finishing previous n fs stack once upToDate =>
    rw [rest] at stack
    rcases stack with hm | hm <;> cases hm

/-- A program is given to a machine at rest. -/
theorem Served.perform (h : Served id w m log) (rest : m.stack = []) (p : Program (Stage ε)) :
    Served id w { m with stack := [.body p], fault := none } log := by
  obtain ⟨app, template, t, htemplate, hw, hd, hlast, hsettled⟩ := h.at_rest rest
  have hrunning : ¬ m.state.isRunning w := by
    intro hr
    obtain ⟨previous, n, hf⟩ := hw.running hr
    rw [rest] at hf
    exact List.not_mem_nil hf
  refine ⟨app, template, t, htemplate, ⟨hw.bindable, hw.paired, hw.made, hw.getter, hw.kept,
    fun hr => absurd hr hrunning⟩, hd, hlast, .idle ?_ ?_⟩
  · rintro ⟨previous, n, hf⟩
    cases List.mem_singleton.1 hf
  · exact hsettled.imp_right .inl

/-- **An instance is served throughout a session.** -/
theorem Session.served (h : Session id w m log) : Served id w m log := by
  induction h with
  | mounted m m' target app t ready mount app? watcher tree =>
    obtain ⟨app', w', t', happ', hwatcher', htree', -, hserved⟩ := ready.served mount
    obtain rfl : app' = app := Option.some.inj (happ'.symm.trans app?)
    obtain rfl : w' = w := Option.some.inj (hwatcher'.symm.trans watcher)
    obtain rfl : t' = t := Option.some.inj (htree'.symm.trans tree)
    exact hserved
  | perform m log p before rest ih => exact ih.perform rest p
  | step m log before tame ih => exact ih.step tame

/-! ## Operations from outside -/

/-- A step that is taken in a session. -/
theorem Session.exists_step (h : ∃ log', Session id w m (log ++ log')) (tame : Tame id w m) :
    ∃ log', Session id w m.step (log ++ log') := by
  obtain ⟨log', hs⟩ := h
  exact ⟨_, by rw [← List.append_assoc]; exact hs.step m _ tame⟩

theorem Session.exists_iterate (h : ∃ log', Session id w m (log ++ log'))
    (tame : ∀ k, Tame id w (Machine.step^[k] m)) (n : Nat) :
    ∃ log', Session id w (Machine.step^[n] m) (log ++ log') := by
  induction n with
  | zero => exact h
  | succ n ih =>
    rw [Function.iterate_succ_apply']
    exact Session.exists_step ih (tame n)

/-- An operation all steps of which are tolerated is a part of a session. -/
theorem Session.live {p : Program (Stage ε)} (h : Session id w m log) (rest : m.stack = [])
    (tame : ∀ k, Tame id w (Machine.step^[k] { m with stack := [.body p], fault := none }))
    (hp : Live.perform p m = .ok () m') :
    (∃ log', Session id w m' (log ++ log')) ∧ m'.stack = [] ∧ m'.fault = none := by
  obtain ⟨⟨n, rfl⟩, hrest, hfault⟩ := Live.perform_ok hp
  refine ⟨?_, hrest, hfault⟩
  have hasked : ∃ log', Session id w { m with stack := [.body p], fault := none } (log ++ log') :=
    ⟨[], by rw [List.append_nil]; exact h.perform m log p rest⟩
  exact Session.exists_iterate hasked tame n

/-- Handing out an error is a part of a session. -/
theorem Session.takeError (h : ∃ log', Session id w m (log ++ log')) (rest : m.stack = [])
    (fault : m.fault = none) {e : Option AppError} (ht : App.takeError id m = .ok e m') :
    (∃ log', Session id w m' (log ++ log')) ∧ m'.stack = [] := by
  obtain ⟨log', hs⟩ := h
  obtain ⟨app, _, _, _, _, hd, _⟩ := hs.served.at_rest rest
  rw [takeError_eq hd.app?] at ht
  obtain ⟨rfl, rfl⟩ := EStateM.Result.ok.inj ht
  refine ⟨?_, rest⟩
  let change : Stage ε → Stage ε := fun s => s.setApp id { app with lastError := none }
  have hspares : m.state.host.Spares id (change m.state.host) := by
    intro app' happ'
    obtain rfl : app = app' := Option.some.inj (hd.app?.symm.trans happ')
    refine ⟨⟨none, ?_⟩, rfl⟩
    rw [Stage.app?_setApp, happ']
    rfl
  have htell : ∃ log', Session id w _ (log ++ log') := Session.exists_step
    ⟨log', hs.perform m _ (.tell change .done) rest⟩ (by rintro p ⟨⟩; exact .inr hspares)
  have hdone := Session.exists_step htell (by rintro p ⟨⟩; trivial)
  obtain ⟨⟨heap, watchers, active, host⟩, getters, stack, fault'⟩ := m
  subst rest fault
  exact hdone

/-- **A write through an instance is a part of a session.** -/
theorem Session.set {app : App} {key : String} {v : Value} {r : Except AppError Unit}
    (h : Session id w m log) (rest : m.stack = []) (happ : m.state.host.app? id = some app)
    (tame : ∀ k, Tame id w
      (Machine.step^[k] { m with stack := [.body (.write app.data key v .done)], fault := none }))
    (hset : App.set id key v m = .ok r m') :
    (∃ log', Session id w m' (log ++ log')) ∧ m'.stack = [] := by
  rw [App.set, Live.bind_ok (look_eq happ)] at hset
  cases hkey : app.checkKey key with
  | error e =>
    rw [hkey] at hset
    obtain ⟨-, rfl⟩ := EStateM.Result.ok.inj hset
    exact ⟨⟨[], by rwa [List.append_nil]⟩, rest⟩
  | ok u =>
    rw [hkey] at hset
    obtain ⟨_, m₁, hwrite, hset⟩ := Live.bind_inv hset
    obtain ⟨⟨log', hs⟩, hrest, hfault⟩ := h.live rest tame hwrite
    obtain ⟨app', _, _, _, _, hd, _⟩ := hs.served.at_rest hrest
    rw [Live.bind_ok (look_eq hd.app?)] at hset
    split at hset
    · obtain ⟨-, rfl⟩ := EStateM.Result.ok.inj hset
      exact ⟨⟨log', hs⟩, hrest⟩
    · obtain ⟨e, m₂, herror, hset⟩ := Live.bind_inv hset
      obtain rfl : m₂ = m' := by cases e <;> exact (EStateM.Result.ok.inj hset).2
      exact Session.takeError ⟨log', hs⟩ hrest hfault herror

/-! ## The result -/

/-- **A mounted instance shows its data.** Whenever a session is at rest, the last render cycle has
succeeded and the tree is what the template gives on the data as they are, or it has failed and the
tree is that of the last cycle that succeeded; and the surface shows exactly this tree. -/
theorem shows_data (h : Session id w m log) (rest : m.stack = []) :
    ∃ app template t el, m.state.host.app? id = some app ∧ app.template = some template ∧
      app.tree? = some t ∧ app.handle = some el ∧
      ((log.getLast? = some (some t) ∧
          (template.bind m.state.heap app.data).result = .ok t.detached) ∨
        (log.getLast? = some none ∧ log.reduceOption.getLast? = some t)) ∧
      (m.state.host.surface app.surface).Shows Surface.exact el t := by
  obtain ⟨app, template, t, htemplate, -, hd, hlast, hsettled⟩ := h.served.at_rest rest
  obtain ⟨el, hshows⟩ := hd.shows_exact
  refine ⟨app, template, t, el, hd.app?, htemplate, by rw [tree?, hd.shown],
    by rw [handle, hd.shown]; exact hshows.handle_eq, ?_, hshows⟩
  by_cases hfailed : log.getLast? = some none
  · exact .inr ⟨hfailed, hlast⟩
  · refine .inl ⟨?_, (hsettled.resolve_left hfailed).bound⟩
    rcases List.eq_nil_or_concat log with rfl | ⟨before, last, rfl⟩
    · cases hlast
    · cases last with
      | none => simp at hfailed
      | some u =>
        simpa [List.reduceOption_append, List.reduceOption] using hlast

/-! ## A write to a mounted paragraph -/

namespace Sample

/-- Some steps of a write to the slot. -/
def written (k : Nat) : Machine (Stage Unit) :=
  Machine.step^[k]
    { mounted with stack := [.body (.write ⟨0⟩ "a" (.bool true) .done)], fault := none }

theorem session_mounted : Session ⟨0⟩ ⟨0⟩ mounted [some first.tree] := by
  have hmake : make ⟨0⟩ ⟨0⟩ blank = .ok ⟨0⟩ made := by rw [make_eq]; cbv
  have hready : Ready ⟨0⟩ made :=
    ready_make (Heap.wellformed_empty.build (.object [("a", .value .null)]) ⟨trivial, trivial⟩) rfl
      (show 0 < blank.state.heap.objects.size by decide) (Heap.clean_of_no_arrays rfl _)
      (show 0 < 1 by decide) linked_page hmake
  exact .mounted made _ (.node ⟨1⟩) _ first.tree hready mount_made.1 mount_made.2 rfl rfl

/-- The slot is written, the watcher is run, and it renders. -/
theorem tame_written (k : Nat) (hk : k < 8) : Tame ⟨0⟩ ⟨0⟩ (written k) := by
  intro p hp
  have hnone (h : (written k).next? = none) : Tolerates ⟨0⟩ ⟨0⟩ (written k) p := by
    rw [h] at hp
    cases hp
  have hsome {q : Program (Stage Unit)} (h : (written k).next? = some q)
      (hq : Tolerates ⟨0⟩ ⟨0⟩ (written k) q) : Tolerates ⟨0⟩ ⟨0⟩ (written k) p := by
    rw [h] at hp
    exact Option.some.inj hp ▸ hq
  match k, hk with
  | 0, _ =>
    exact hsome (q := .write ⟨0⟩ "a" (.bool true) .done) rfl ⟨trivial, Heap.clean_of_no_arrays rfl _⟩
  | 1, _ => exact hnone rfl
  | 2, _ => exact hsome (q := getter ⟨0⟩ ⟨0⟩ template) rfl trivial
  | 3, _ => exact hsome rfl (.inl rfl)
  | 4, _ => exact hsome (q := .done) rfl trivial
  | 5, _ => exact hnone rfl
  | 6, _ => exact hnone rfl
  | 7, _ => exact hsome (q := .done) rfl trivial

theorem session_written (k : Nat) (hk : k ≤ 8) :
    ∃ log, Session ⟨0⟩ ⟨0⟩ (written k) ([some first.tree] ++ log) := by
  induction k with
  | zero => exact ⟨[], session_mounted.perform mounted _ _ rfl⟩
  | succ k ih =>
    rw [written, Function.iterate_succ_apply']
    exact Session.exists_step (ih (by omega)) (tame_written k (by omega))

end Sample

/-- A slot of a mounted instance is written. -/
theorem shows_data_after_write :
    ∃ log, Session ⟨0⟩ ⟨0⟩ (Sample.written 8) log ∧ (Sample.written 8).stack = [] ∧
      ∃ app template t el, (Sample.written 8).state.host.app? ⟨0⟩ = some app ∧
        app.template = some template ∧ app.tree? = some t ∧ app.handle = some el ∧
        ((log.getLast? = some (some t) ∧
            (template.bind (Sample.written 8).state.heap app.data).result = .ok t.detached) ∨
          (log.getLast? = some none ∧ log.reduceOption.getLast? = some t)) ∧
        ((Sample.written 8).state.host.surface app.surface).Shows Surface.exact el t := by
  obtain ⟨log, hlog⟩ := Sample.session_written 8 (Nat.le_refl 8)
  have hrest : (Sample.written 8).stack = [] := rfl
  exact ⟨_, hlog, hrest, shows_data hlog hrest⟩

end LiveMarkup.App

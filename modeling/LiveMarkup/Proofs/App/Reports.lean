import LiveMarkup.Proofs.App.Cycle

/-!
# The error of an instance

An instance has one error at a time: that of its last render cycle, until it is handed out. A log of its
render cycles and of the errors handed out tells which one that is.

* `App.Report`: a render cycle that failed or succeeded, or an error handed out.
* `App.kept`, `App.Attributed`: the error a log comes to, and logs where each error is handed out once.
* `Stage.Minds`, `Stage.Acts`: changes of the stage that leave the error alone, or hand it out, or render.
* `Stage.reports`: what a change of the stage adds to the log.
* **`App.Ledger.acts`**: the log goes on telling the error.
-/

namespace LiveMarkup

open Template (BindError)

variable {ε : Type} {s s' : Stage ε} {id : AppId} {app : App}

namespace App

/-! ## Logs -/

/-- What is reported of the error of an instance. -/
inductive Report where
  /-- A render cycle failed. -/
  | failed (error : AppError)
  /-- A render cycle succeeded. -/
  | rendered
  /-- The error was handed out. -/
  | handedOut (error : AppError)

/-- Whether a render cycle is reported. -/
def Report.isCycle : Report → Bool
  | failed _ => true
  | rendered => true
  | handedOut _ => false

/-- The error of the last render cycle, if that one failed and its error was not handed out since. -/
def kept (log : List Report) : Option AppError :=
  match log.getLast? with
  | some (.failed e) => some e
  | _ => none

/-- An error is handed out only right after the render cycle that has failed with it, and so once for
each such cycle. -/
def Attributed (log : List Report) : Prop :=
  ∀ before e after, log = before ++ .handedOut e :: after → before.getLast? = some (.failed e)

variable {log new : List Report} {r : Report} {e : AppError}

theorem kept_eq_some_iff : kept log = some e ↔ log.getLast? = some (.failed e) := by
  unfold kept
  split
  · next e' he' => rw [he', Option.some.injEq, Option.some.injEq, Report.failed.injEq]
  · next hno =>
    refine ⟨fun h => ?_, fun h => absurd h (hno e)⟩
    cases h

theorem kept_concat : kept (log ++ [r]) = kept [r] := by
  rw [kept, kept, List.getLast?_concat]
  rfl

/-- The latest reports decide, if there are any. -/
theorem kept_append (h : new ≠ []) : kept (log ++ new) = kept new := by
  rw [kept, kept, List.getLast?_append_of_ne_nil _ h]

/-- Where no render cycle is reported no error is left. -/
theorem kept_of_no_cycles (h : new.countP Report.isCycle = 0) : kept new = none := by
  rw [Option.eq_none_iff_forall_ne_some]
  intro e he
  have hmem : Report.failed e ∈ new := List.mem_of_getLast? (kept_eq_some_iff.1 he)
  exact List.countP_eq_zero.1 h _ hmem rfl

theorem Attributed.nil : Attributed [] := by
  intro before e after h
  simp at h

theorem Attributed.concat (h : Attributed log) (hr : ∀ e, r = .handedOut e → kept log = some e) :
    Attributed (log ++ [r]) := by
  intro before e after heq
  rcases List.eq_nil_or_concat after with rfl | ⟨after, last, rfl⟩
  · obtain ⟨rfl, he⟩ := List.append_inj' heq rfl
    exact kept_eq_some_iff.1 (hr e (List.singleton_inj.1 he))
  · refine h before e after ?_
    rw [List.concat_eq_append, ← List.cons_append, ← List.append_assoc] at heq
    exact (List.append_inj' heq rfl).1

end App

/-! ## Changes of the stage -/

namespace Stage

/-- Whatever else has changed, an instance has its data, its keys and its count of render cycles, and
its error is as it was or was handed out. -/
def Minds (id : AppId) (s s' : Stage ε) : Prop :=
  ∀ app, s.app? id = some app →
    ∃ app', s'.app? id = some app' ∧ app'.data = app.data ∧ app'.keys = app.keys ∧
      app'.cycles = app.cycles ∧ (app'.lastError = app.lastError ∨ app'.lastError = none)

/-- The instance went through a render cycle, or was minded. -/
def Acts (id : AppId) (s s' : Stage ε) : Prop :=
  (∃ bound, s' = s.cycle id bound) ∨ s.Minds id s'

/-- What a change of the stage reports of an instance. -/
def reports (id : AppId) (s s' : Stage ε) : List App.Report :=
  match s.app? id, s'.app? id with
  | some app, some app' =>
    if app'.cycles = app.cycles then
      match app.lastError, app'.lastError with
      | some e, none => [.handedOut e]
      | _, _ => []
    else
      match app'.lastError with
      | some e => [.failed e]
      | none => [.rendered]
  | _, _ => []

theorem Minds.of_eq (h : s'.app? id = s.app? id) : s.Minds id s' :=
  fun app happ => ⟨app, h.trans happ, rfl, rfl, rfl, .inl rfl⟩

theorem reports_of_eq (h : s'.app? id = s.app? id) : s.reports id s' = [] := by
  unfold reports
  rw [h]
  cases s.app? id with
  | none => rfl
  | some app =>
    simp only [if_true]
    cases app.lastError <;> rfl

/-- An instance is changed, but not in its data, keys and render cycles. -/
theorem minds_setApp {app' : App} (h : s.app? id = some app) (data : app'.data = app.data)
    (keys : app'.keys = app.keys) (cycles : app'.cycles = app.cycles)
    (lastError : app'.lastError = app.lastError ∨ app'.lastError = none) : s.Minds id (s.setApp id app') := by
  intro x hx
  obtain rfl : app = x := Option.some.inj (h.symm.trans hx)
  exact ⟨app', by rw [app?_setApp, h]; rfl, data, keys, cycles, lastError⟩

/-- What is reported where the error of an instance is as it was, or was handed out. -/
theorem reports_setApp {app' : App} (h : s.app? id = some app) (cycles : app'.cycles = app.cycles) :
    s.reports id (s.setApp id app') =
      match app.lastError, app'.lastError with
      | some e, none => [.handedOut e]
      | _, _ => [] := by
  have happ' : (s.setApp id app').app? id = some app' := by rw [app?_setApp, h]; rfl
  unfold reports
  rw [h, happ']
  exact if_pos cycles

end Stage

namespace App

variable {data : ObjectId} {keys : List String} {log : List Report}

/-- A render cycle is counted, and touches neither the data nor the keys. -/
theorem cycle_keeps (app : App) (surface : Surface) (bound : Except BindError Tree) :
    (app.cycle surface bound).1.data = app.data ∧ (app.cycle surface bound).1.keys = app.keys ∧
      (app.cycle surface bound).1.cycles = app.cycles + 1 := by
  unfold cycle
  split
  · exact ⟨rfl, rfl, rfl⟩
  · split
    · exact ⟨rfl, rfl, rfl⟩
    · simp only
      split <;> exact ⟨rfl, rfl, rfl⟩

/-- The log of an instance tells its error, and how often it was rendered. -/
structure Ledger (id : AppId) (data : ObjectId) (keys : List String) (s : Stage ε) (log : List Report) :
    Prop where
  app : ∃ app, s.app? id = some app ∧ app.data = data ∧ app.keys = keys ∧ app.lastError = kept log ∧
    app.cycles = log.countP Report.isCycle
  attributed : Attributed log

theorem Ledger.fresh {surface : SurfaceId} (h : s.app? id = some (fresh surface data keys)) :
    Ledger id data keys s [] :=
  ⟨⟨_, h, rfl, rfl, rfl, rfl⟩, .nil⟩

/-- The instance is minded. -/
theorem Ledger.minds (h : Ledger id data keys s log) (hs : s.Minds id s') :
    Ledger id data keys s' (log ++ s.reports id s') := by
  obtain ⟨app, happ, rfl, rfl, herror, hcycles⟩ := h.app
  obtain ⟨app', happ', hdata, hkeys, hcycles', herror'⟩ := hs app happ
  have hreports : s.reports id s' =
      match app.lastError, app'.lastError with
      | some e, none => [.handedOut e]
      | _, _ => [] := by
    unfold Stage.reports
    rw [happ, happ']
    exact if_pos hcycles'
  rw [hreports]
  split
  · next e he hnone =>
    have hkept : kept log = some e := herror ▸ he
    refine ⟨⟨app', happ', hdata, hkeys, ?_, ?_⟩, h.attributed.concat ?_⟩
    · rw [hnone, kept_concat]
      rfl
    · rw [List.countP_append, hcycles', hcycles]
      rfl
    · rintro e' ⟨⟩
      exact hkept
  · next hno =>
    rw [List.append_nil]
    refine ⟨⟨app', happ', hdata, hkeys, ?_, hcycles'.trans hcycles⟩, h.attributed⟩
    rcases herror' with hsame | hnone
    · rw [hsame, herror]
    · cases he : app.lastError with
      | none => rw [hnone, ← herror, he]
      | some e => exact absurd hnone (hno e he)

/-- The instance goes through a render cycle. -/
theorem Ledger.cycle (h : Ledger id data keys s log) (bound : Except BindError Tree) :
    Ledger id data keys (s.cycle id bound) (log ++ s.reports id (s.cycle id bound)) := by
  obtain ⟨app, happ, rfl, rfl, -, hcycles⟩ := h.app
  let app' := (app.cycle (s.surface app.surface) bound).1
  obtain ⟨hdata, hkeys, hcycles'⟩ := app.cycle_keeps (s.surface app.surface) bound
  have happ' : (s.cycle id bound).app? id = some app' := by
    rw [Stage.cycle_eq happ, Stage.app?_setApp,
      show (s.setSurface app.surface _).app? id = some app from happ]
    rfl
  have hreports : s.reports id (s.cycle id bound) =
      match app'.lastError with
      | some e => [.failed e]
      | none => [.rendered] := by
    unfold Stage.reports
    rw [happ, happ']
    exact if_neg (by rw [hcycles']; exact Nat.succ_ne_self _)
  rw [hreports]
  split
  · next e he =>
    refine ⟨⟨app', happ', hdata, hkeys, ?_, ?_⟩, h.attributed.concat (by rintro _ ⟨⟩)⟩
    · rw [he, kept_concat]
      rfl
    · rw [List.countP_append, hcycles', hcycles]
      rfl
  · next hnone =>
    refine ⟨⟨app', happ', hdata, hkeys, ?_, ?_⟩, h.attributed.concat (by rintro _ ⟨⟩)⟩
    · rw [hnone, kept_concat]
      rfl
    · rw [List.countP_append, hcycles', hcycles]
      rfl

/-- **The log goes on telling the error of the instance**, whether it is rendered or minded. -/
theorem Ledger.acts (h : Ledger id data keys s log) (hs : s.Acts id s') :
    Ledger id data keys s' (log ++ s.reports id s') := by
  obtain ⟨bound, rfl⟩ | hminds := hs
  · exact h.cycle bound
  · exact h.minds hminds

end App

end LiveMarkup

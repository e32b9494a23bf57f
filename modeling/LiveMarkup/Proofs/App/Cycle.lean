import Mathlib.Data.List.ReduceOption
import LiveMarkup.App.Basic
import LiveMarkup.Proofs.Template.Reading

/-!
# Render cycles

A render cycle of an instance whose surface shows its tree either fails, and nothing is lost, or
leaves the surface showing the new tree.

* `Stage.Spares`: a change of the stage that does not touch an instance and its surface.
* `Stage.outcome`: the outcome of the render cycle that took place between two stages.
* `App.Displayed`: an instance whose surface shows its tree.
* `Displayed.cycle_error`, **`Displayed.cycle_ok`**: a render cycle of such an instance.
-/

namespace LiveMarkup

open Template (BindError)

variable {ε : Type} {s s' : Stage ε} {id : AppId} {app : App} {template t : Tree}

namespace Stage

/-- An instance and its surface are as they were, except that its error may have been handed out. -/
def Spares (id : AppId) (s s' : Stage ε) : Prop :=
  ∀ app, s.app? id = some app →
    (∃ error, s'.app? id = some { app with lastError := error }) ∧
      s'.surfaces[app.surface.index]? = s.surfaces[app.surface.index]?

/-- The outcome of the render cycle of an instance between two stages, if there was one: the tree
rendered, or none where the cycle failed. -/
def outcome (id : AppId) (s s' : Stage ε) : List (Option Tree) :=
  match s.app? id, s'.app? id with
  | some app, some app' =>
    if app'.cycles = app.cycles then []
    else if app'.renders = app.renders then [none]
    else [app'.tree?]
  | _, _ => []

theorem Spares.refl (id : AppId) (s : Stage ε) : s.Spares id s :=
  fun app happ => ⟨⟨app.lastError, happ⟩, rfl⟩

theorem Spares.outcome (h : s.Spares id s') : s.outcome id s' = [] := by
  unfold Stage.outcome
  cases happ : s.app? id with
  | none => rfl
  | some app =>
    obtain ⟨⟨error, h'⟩, -⟩ := h app happ
    simp [h']

theorem isSome_surfaces_iff {i : Nat} : (s.surfaces[i]?).isSome ↔ i < s.surfaces.size := by simp

theorem app?_setApp (s : Stage ε) (id : AppId) (app' : App) :
    (s.setApp id app').app? id = (s.app? id).map fun _ => app' := by
  simp [app?, setApp, Array.getElem?_modify]

theorem setApp_self (h : s.app? id = some app) : s.setApp id app = s := by
  obtain ⟨surfaces, apps, extra⟩ := s
  refine congrArg (fun apps => Stage.mk surfaces apps extra) (Array.ext_getElem? fun i => ?_)
  rw [Array.getElem?_modify]
  split
  · next hi =>
    subst hi
    rw [show apps[id.index]? = some app from h]
    rfl
  · rfl

theorem surface_setSurface (s : Stage ε) {id : SurfaceId} (surface : Surface)
    (h : id.index < s.surfaces.size) : (s.setSurface id surface).surface id = surface := by
  have hget : s.surfaces[id.index]? = some s.surfaces[id.index] := Array.getElem?_eq_getElem h
  simp only [Stage.surface, setSurface, Array.getElem?_modify, if_true, hget]
  rfl

theorem cycle_eq (h : s.app? id = some app) (bound : Except BindError Tree) :
    s.cycle id bound =
      (s.setSurface app.surface (app.cycle (s.surface app.surface) bound).2).setApp id
        (app.cycle (s.surface app.surface) bound).1 := by
  rw [cycle, h]

/-- The instance and its surface after a render cycle. -/
theorem app?_cycle (h : s.app? id = some app) (hlt : app.surface.index < s.surfaces.size)
    (bound : Except BindError Tree) :
    (s.cycle id bound).app? id = some (app.cycle (s.surface app.surface) bound).1 ∧
      (s.cycle id bound).surfaces.size = s.surfaces.size ∧
      (s.cycle id bound).surface app.surface = (app.cycle (s.surface app.surface) bound).2 := by
  rw [cycle_eq h]
  refine ⟨?_, by simp [setApp, setSurface], surface_setSurface s _ hlt⟩
  rw [app?_setApp, show (s.setSurface app.surface _).app? id = some app from h]
  rfl

end Stage

namespace App

/-- An instance whose surface shows its tree, which has the shape of the template, with distinct
nodes. -/
structure Displayed (s : Stage ε) (id : AppId) (app : App) (template t : Tree) : Prop where
  app? : s.app? id = some app
  surface_lt : app.surface.index < s.surfaces.size
  shown : app.shown = some (.tree t)
  shows_exact : ∃ el, (s.surface app.surface).Shows Surface.exact el t
  nodup : t.handles.Nodup
  skeleton : t.skeleton = template.skeleton

namespace Displayed

/-- A change that spares the instance leaves it displayed. -/
theorem spared (h : Displayed s id app template t) (hs : s.Spares id s') :
    ∃ error, Displayed s' id { app with lastError := error } template t := by
  obtain ⟨⟨error, happ⟩, hsurface⟩ := hs app h.app?
  refine ⟨error, happ, ?_, h.shown, ?_, h.nodup, h.skeleton⟩
  · have hlt := h.surface_lt
    rw [← Stage.isSome_surfaces_iff] at hlt ⊢
    rwa [hsurface]
  · rw [Stage.surface, hsurface]
    exact h.shows_exact

/-- A render cycle that fails loses nothing. -/
theorem cycle_error (h : Displayed s id app template t) (e : BindError) :
    Displayed (s.cycle id (.error e)) id (app.failed (.bind e)) template t ∧
      s.outcome id (s.cycle id (.error e)) = [none] := by
  obtain ⟨happ, hsize, hsurface⟩ := Stage.app?_cycle h.app? h.surface_lt (.error e)
  refine ⟨⟨happ, hsize ▸ h.surface_lt, h.shown, ?_, h.nodup, h.skeleton⟩, ?_⟩
  · exact hsurface ▸ h.shows_exact
  · unfold Stage.outcome
    rw [h.app?, happ]
    simp [App.cycle, failed]

/-- **A render cycle over the template's own shape succeeds**: texts are written on the nodes that are
there, and the surface shows the new tree. -/
theorem cycle_ok (h : Displayed s id app template t) {b : Tree}
    (hb : b.skeleton = template.skeleton) :
    ∃ t' report, t'.detached = b.detached ∧ t'.handles = t.handles ∧
      Displayed (s.cycle id (.ok b)) id (app.rendered t' report) template t' ∧
      Patch.Retexted (s.surface app.surface) t.handles
        ((s.cycle id (.ok b)).surface app.surface) ∧
      s.outcome id (s.cycle id (.ok b)) = [some t'] := by
  obtain ⟨el, hshows⟩ := h.shows_exact
  obtain ⟨hnone, hretexted, hdetached, hhandles, hshows'⟩ := Patch.retexted_update
    (Patch.start (s.surface app.surface)) t b hshows h.nodup (h.skeleton.trans hb.symm)
  obtain ⟨happ, hsize, hsurface⟩ := Stage.app?_cycle h.app? h.surface_lt (.ok b)
  generalize hr : (Patch.start (s.surface app.surface)).update t b = r
    at hnone hretexted hdetached hhandles hshows'
  have hcycle : app.cycle (s.surface app.surface) (.ok b) =
      (app.rendered r.tree r.patch.report, r.patch.surface) := by
    simp only [App.cycle, h.shown, Patch.run, hr, hnone]
  rw [hcycle] at happ hsurface
  refine ⟨r.tree, r.patch.report, hdetached, hhandles,
    ⟨happ, hsize ▸ h.surface_lt, rfl, ⟨el, ?_⟩, ?_, ?_⟩, ?_, ?_⟩
  · exact hsurface ▸ hshows'
  · rw [hhandles]
    exact h.nodup
  · rw [Tree.skeleton_eq_of_detached_eq hdetached, hb]
  · exact hsurface ▸ hretexted
  · unfold Stage.outcome
    rw [h.app?, happ]
    simp [rendered, tree?]

end Displayed

end App

end LiveMarkup

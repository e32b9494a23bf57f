import LiveMarkup.Proofs.App.Mount
import LiveMarkup.Proofs.Reactive.Padded

/-!
# Instances beside a dead watcher

A stage whose instances go by other numbers of watchers, and of which one has counted a render cycle more,
serves as well. So a mount on it comes to the same.

* `Stage.pad`: the stage.
* `App.getter_padded`: what the watcher of an instance runs.
* **`App.agrees_mount`**: a mount comes to the same.
-/

namespace LiveMarkup

open Template (BindError)
open Live (Agrees)

variable {ε : Type} {n c : Nat} {id i : AppId} {m k : Machine (Stage ε)}

/-- An instance that goes by another number of its watcher and has counted some more render cycles. -/
def App.pad (n c : Nat) (app : App) : App :=
  { app with cycles := app.cycles + c, watcher := app.watcher.map (WatcherId.skip n) }

/-- How many render cycles an instance has counted more. -/
def AppId.extra (id i : AppId) : Nat := if i = id then 1 else 0

namespace Stage

/-- The stage where there is one more watcher, and where one instance has counted one more render cycle. -/
def pad (n : Nat) (id : AppId) (s : Stage ε) : Stage ε :=
  { s with apps := s.apps.mapIdx fun i app => app.pad n (id.extra ⟨i⟩) }

/-- The second stage is the first where there is one more watcher. -/
def Beside (n : Nat) (id : AppId) (s s' : Stage ε) : Prop := s' = s.pad n id

theorem app?_pad (s : Stage ε) (i : AppId) :
    (s.pad n id).app? i = (s.app? i).map (App.pad n (id.extra i)) := by
  rw [app?, pad, Array.getElem?_mapIdx]
  rfl

theorem setApp_pad (s : Stage ε) (i : AppId) (app : App) :
    (s.pad n id).setApp i (app.pad n (id.extra i)) = (s.setApp i app).pad n id := by
  refine congrArg (fun apps => Stage.mk s.surfaces apps s.extra) (Array.ext_getElem? fun j => ?_)
  simp only [pad, setApp, Array.getElem?_modify, Array.getElem?_mapIdx]
  split
  · next hij =>
    obtain rfl := hij
    cases s.apps[i.index]? <;> rfl
  · rfl

end Stage

/-- The stage where nothing but a render cycle has been counted. -/
theorem Stage.setApp_eq_pad {s : Stage ε} {app : App} (happ : s.app? id = some app)
    (made : ∀ i app w, s.app? i = some app → app.watcher = some w → w.index < n) :
    s.setApp id { app with cycles := app.cycles + 1 } = s.pad n id := by
  have hpad : ∀ i a, s.app? i = some a → ∀ c, a.pad n c = { a with cycles := a.cycles + c } := by
    intro i a ha c
    have hsame : a.watcher.map (WatcherId.skip n) = a.watcher := by
      cases hw : a.watcher with
      | none => rfl
      | some w => exact congrArg some (WatcherId.skip_of_lt (made i a w ha hw))
    rw [App.pad, hsame]
  refine congrArg (fun apps => Stage.mk s.surfaces apps s.extra) (Array.ext_getElem? fun j => ?_)
  have hat : s.apps[j]? = s.app? ⟨j⟩ := rfl
  rw [Array.getElem?_modify, Array.getElem?_mapIdx, hat]
  split
  · next hj =>
    obtain rfl := hj
    rw [happ, Option.map_some, Option.map_some, hpad id app happ, AppId.extra, if_pos rfl]
  · next hj =>
    cases ha : s.app? ⟨j⟩ with
    | none => rfl
    | some a =>
      rw [Option.map_some, hpad ⟨j⟩ a ha, AppId.extra, if_neg fun he => hj (congrArg AppId.index he).symm]
      rfl

namespace App

theorem cycle_pad (app : App) (surface : Surface) (bound : Except BindError Tree) :
    (app.pad n c).cycle surface bound =
      ((app.cycle surface bound).1.pad n c, (app.cycle surface bound).2) := by
  have hfailed : ∀ e, (app.pad n c).failed e = (app.failed e).pad n c := by
    intro e
    simp only [failed, pad, Nat.add_right_comm]
  have hrendered : ∀ t report, (app.pad n c).rendered t report = (app.rendered t report).pad n c := by
    intro t report
    simp only [rendered, pad, Nat.add_right_comm]
  cases bound with
  | error e => simp only [cycle, hfailed]
  | ok tree =>
    have hshown : (app.pad n c).shown = app.shown := rfl
    simp only [cycle, hshown]
    cases app.shown with
    | none => simp only [hfailed]
    | some shown =>
      dsimp only
      split
      · simp only [hfailed]
      · simp only [hrendered]

end App

theorem Stage.cycle_pad (s : Stage ε) (i : AppId) (bound : Except BindError Tree) :
    (s.pad n id).cycle i bound = (s.cycle i bound).pad n id := by
  rw [Stage.cycle, Stage.cycle, Stage.app?_pad]
  cases s.app? i with
  | none => rfl
  | some app =>
    simp only [Option.map_some, App.cycle_pad]
    exact Stage.setApp_pad (s.setSurface app.surface _) i _

namespace App

/-- The watcher of an instance treats all others alike. -/
theorem getter_padded (i : AppId) (data : ObjectId) (template : Tree) :
    (getter i data template : Program (Stage ε)).Padded n (Stage.Beside n id) (getter i data template) := by
  have hbind : ∀ h h' : Heap, h.Padded n h' → template.bind h' data = template.bind h data :=
    fun _ _ p => Tree.bind_of_data p.objects p.arrays template
  refine .read (fun h h' p => congrArg Traced.reads (hbind h h' p)) fun h h' p => ?_
  dsimp only
  rw [hbind h h' p]
  refine .tell (fun s s' hs => ?_) .done
  rw [hs]
  exact Stage.cycle_pad s i _

/-! ## Operations -/

variable (p : m.Padded n (Stage.Beside n id) k)

include p

theorem agrees_look (i : AppId) :
    Agrees n (Stage.Beside n id) (fun app app' => app' = app.pad n (id.extra i)) (look i m) (look i k) := by
  refine (Live.agrees_host p).bind fun s s' m k hs p => ?_
  rw [hs, Stage.app?_pad]
  cases s.app? i with
  | none => exact .error _ p
  | some app => exact .ok rfl p

theorem agrees_modify (i : AppId) {change change' : App → App}
    (agree : ∀ app, change' (app.pad n (id.extra i)) = (change app).pad n (id.extra i)) :
    Agrees n (Stage.Beside n id) (fun _ _ => True) (modify i change m) (modify i change' k) := by
  refine (agrees_look p i).bind fun app app' m k happ p => Live.agrees_tell p fun s s' hs => ?_
  rw [happ, hs, agree]
  exact Stage.setApp_pad s i _

/-- **A mount comes to the same.** -/
theorem agrees_mount (i : AppId) (target : Target) :
    Agrees n (Stage.Beside n id) (fun a b => b = a) (mount i target m) (mount i target k) := by
  refine (agrees_look p i).bind fun app app' m k happ p => ?_
  subst happ
  have hmounted : (app.pad n (id.extra i)).isMounted = app.isMounted := Option.isSome_map
  rw [hmounted]
  split
  · exact .ok rfl p
  · refine (Live.agrees_host p).bind fun s s' m k hs p => ?_
    subst hs
    have hsurface : (s.pad n id).surface (app.pad n (id.extra i)).surface = s.surface app.surface := rfl
    rw [hsurface]
    cases prepare (s.surface app.surface) target with
    | error e => exact .ok rfl p
    | ok prepared =>
      obtain ⟨node, template⟩ := prepared
      dsimp only
      refine (agrees_modify p i ?_).bind fun _ _ m k _ p => ?_
      · exact fun _ => rfl
      refine (Live.agrees_watch p (getter_padded i app.data template)).bind fun w w' m k hw p => ?_
      subst hw
      refine (agrees_look p i).bind fun shown shown' m k hshown p => ?_
      subst hshown
      have herror : (shown.pad n (id.extra i)).lastError = shown.lastError := rfl
      rw [herror]
      cases shown.lastError with
      | some e =>
        refine (agrees_modify p i ?_).bind fun _ _ m k _ p => ?_
        · exact fun _ => rfl
        exact (Live.agrees_release p w).bind fun _ _ m k _ p => .ok rfl p
      | none =>
        refine (agrees_modify p i ?_).bind fun _ _ m k _ p => .ok rfl p
        exact fun _ => rfl

end App

end LiveMarkup

import LiveMarkup.CommandLine.Assignment
import LiveMarkup.Proofs.App.Career

/-!
# Whose failure an assignment reports

An assignment whose path is refused changes nothing. One to a property of the instance reports the last
render cycle of its own write, as any write through the instance does. One to an object further down takes
the error that the instance has afterwards, which is that of its own last render cycle if there was one,
and otherwise whatever an earlier write has left.

* `Assignment.place`: the slot that an assignment writes, unless its path is refused.
* `Assignment.perform_property`, `Assignment.perform_below`: what it is made of in either case.
* `Assignment.perform_refused`, `Assignment.parent_of_place`: a path that is refused, and one that is not.
* `App.Career.refused`, `App.Career.assigns_written`: an assignment that is refused, or whose write ends.
* **`App.Career.assigns`**: the result, for every career.
-/

namespace LiveMarkup

open Template (segments)
open Live (bind_ok)

variable {ε : Type} {id : AppId} {app : App} {m m' : Machine (Stage ε)} {data : ObjectId}
  {keys : List String} {a : Assignment}

namespace Assignment

/-- The last part of the path. -/
def key (a : Assignment) : String := (segments a.path).getLastD ""

/-- Whether a property of the instance itself is written. -/
def isProperty (a : Assignment) : Bool := (segments a.path).dropLast.isEmpty

/-- The slot that an assignment writes, unless its path is refused: that of a property that the instance
has, or of an object that the path leads to. -/
def place (a : Assignment) (h : Heap) (data : ObjectId) (keys : List String) : Except AssignError Place :=
  match (segments a.path).dropLast with
  | [] => if a.key ∈ keys then .ok ⟨data, a.key⟩ else .error (.app (.unknownProperty a.key))
  | above => (parent h data [] above).map fun o => ⟨o, a.key⟩

/-- The value that is assigned. -/
def assigned (a : Assignment) (m : Machine (Stage ε)) : Value := (m.state.heap.build a.value).1

/-- The machine where this value was laid out. -/
def laidOut (a : Assignment) (m : Machine (Stage ε)) : Machine (Stage ε) :=
  m.withHeap (m.state.heap.build a.value).2

theorem build_value (a : Assignment) (m : Machine (Stage ε)) :
    (Live.build a.value : Live (Stage ε) Value) m = .ok (a.assigned m) (a.laidOut m) := rfl

theorem dropLast_property (h : a.isProperty) : (segments a.path).dropLast = [] := List.isEmpty_iff.1 h

theorem exists_above (h : ¬ a.isProperty) :
    ∃ segment above, (segments a.path).dropLast = segment :: above :=
  List.exists_cons_of_ne_nil fun hnil => h (List.isEmpty_iff.2 hnil)

theorem place_property (h : a.isProperty) (heap : Heap) :
    a.place heap data keys =
      if a.key ∈ keys then .ok ⟨data, a.key⟩ else .error (.app (.unknownProperty a.key)) := by
  rw [place, dropLast_property h]

theorem place_below (h : ¬ a.isProperty) (heap : Heap) :
    a.place heap data keys =
      (parent heap data [] (segments a.path).dropLast).map fun o => ⟨o, a.key⟩ := by
  obtain ⟨segment, above, hp⟩ := exists_above h
  rw [place, hp]

/-- An assignment to a property is a write through the instance. -/
theorem perform_property (h : a.isProperty) (m : Machine (Stage ε)) :
    a.perform id m = (App.set id a.key (a.assigned m) >>= fun result =>
      pure (result.mapError AssignError.app)) (a.laidOut m) := by
  rw [perform, bind_ok (build_value a m), dropLast_property h]
  rfl

/-- What an assignment further down does when it has found its object: it writes a slot, and takes the
error that the instance has then. -/
def writeBelow (id : AppId) (o : ObjectId) (key : String) (v : Value) :
    Live (Stage ε) (Except AssignError Unit) := do
  Live.write o key v
  match ← App.takeError id with
  | some e => return .error (.app e)
  | none => return .ok ()

theorem perform_below (h : ¬ a.isProperty) (happ : m.state.host.app? id = some app) :
    a.perform id m =
      match a.place (a.laidOut m).state.heap app.data keys with
      | .error e => .ok (.error e) (a.laidOut m)
      | .ok p => writeBelow id p.object p.key (a.assigned m) (a.laidOut m) := by
  obtain ⟨segment, above, hp⟩ := exists_above h
  have hheap : (Live.heap : Live (Stage ε) Heap) (a.laidOut m) =
      .ok (a.laidOut m).state.heap (a.laidOut m) := rfl
  have happ' : (a.laidOut m).state.host.app? id = some app := happ
  rw [place_below h, perform, bind_ok (build_value a m), hp]
  dsimp only
  rw [bind_ok hheap, bind_ok (App.look_eq happ')]
  cases parent (a.laidOut m).state.heap app.data [] (segment :: above) <;> rfl

/-- An assignment whose path is refused does nothing but lay its value out. -/
theorem perform_refused (happ : m.state.host.app? id = some app) {e : AssignError}
    (hplace : a.place (a.laidOut m).state.heap app.data app.keys = .error e) :
    a.perform id m = .ok (.error e) (a.laidOut m) := by
  by_cases hproperty : a.isProperty
  · rw [place_property hproperty] at hplace
    split at hplace
    · cases hplace
    · next hkey =>
      obtain rfl := Except.error.inj hplace
      have happ' : (a.laidOut m).state.host.app? id = some app := happ
      rw [perform_property hproperty, bind_ok (App.set_unknown_eq happ' hkey _)]
      rfl
  · rw [perform_below hproperty happ, hplace]

/-- The place is a slot of the object that all of the path but its last part leads to. -/
theorem parent_of_place {heap : Heap} {p : Place} (hplace : a.place heap data keys = .ok p) :
    parent heap data [] (segments a.path).dropLast = .ok p.object ∧ p.key = a.key := by
  by_cases hproperty : a.isProperty
  · rw [place_property hproperty] at hplace
    split at hplace
    · obtain rfl := Except.ok.inj hplace
      rw [dropLast_property hproperty]
      exact ⟨rfl, rfl⟩
    · cases hplace
  · rw [place_below hproperty] at hplace
    cases hp : parent heap data [] (segments a.path).dropLast with
    | error e =>
      rw [hp] at hplace
      cases hplace
    | ok o =>
      rw [hp] at hplace
      obtain rfl := Except.ok.inj hplace
      exact ⟨rfl, rfl⟩

end Assignment

namespace App.Career

variable {log new : List Report} {p : Place}

/-- To lay the value out is a part of a career. -/
theorem laidOut (h : Career id data keys m log) (rest : m.stack = []) (a : Assignment) :
    Career id data keys (a.laidOut m) log := by
  have hout := h.outside m log (m.state.heap.build a.value).2 m.state.host rest (.of_eq rfl)
  rwa [Stage.reports_of_eq rfl, List.append_nil] at hout

/-- An assignment further down, which is refused or writes below. -/
theorem perform_below (h : Career id data keys m log) (hbelow : ¬ a.isProperty) :
    a.perform id m =
      match a.place (a.laidOut m).state.heap data keys with
      | .error e => .ok (.error e) (a.laidOut m)
      | .ok p => Assignment.writeBelow id p.object p.key (a.assigned m) (a.laidOut m) := by
  obtain ⟨app, happ, rfl, -⟩ := h.ledger.app
  exact Assignment.perform_below hbelow happ

/-- **An assignment that is refused** has done nothing but lay its value out. -/
theorem refused (h : Career id data keys m log) {e : AssignError}
    (hplace : a.place (a.laidOut m).state.heap data keys = .error e) :
    a.perform id m = .ok (.error e) (a.laidOut m) := by
  obtain ⟨app, happ, rfl, rfl, -⟩ := h.ledger.app
  exact Assignment.perform_refused happ hplace

/-- The place of an assignment to a property. -/
theorem place_inv (hproperty : a.isProperty) {heap : Heap} (hplace : a.place heap data keys = .ok p) :
    a.key ∈ keys ∧ p = ⟨data, a.key⟩ := by
  rw [Assignment.place_property hproperty] at hplace
  split at hplace
  · next hkey => exact ⟨hkey, (Except.ok.inj hplace).symm⟩
  · cases hplace

/-- An assignment whose write goes on forever. -/
theorem assigns_unfinished (h : Career id data keys m log) (rest : m.stack = [])
    (hplace : a.place (a.laidOut m).state.heap data keys = .ok p)
    (hwrite : Live.write p.object p.key (a.assigned m) (a.laidOut m) = .error .unfinished (a.laidOut m)) :
    a.perform id m = .error .unfinished (a.laidOut m) := by
  by_cases hproperty : a.isProperty
  · obtain ⟨hkey, rfl⟩ := place_inv hproperty hplace
    rw [Assignment.perform_property hproperty]
    exact Live.bind_error ((h.laidOut rest a).set_unfinished hkey hwrite) _
  · rw [h.perform_below hproperty, hplace]
    exact Live.bind_error hwrite _

/-- The error that an assignment reports, whose write has added to the log. -/
def reported (a : Assignment) (log new : List Report) : Option AppError :=
  if a.isProperty then kept new else kept (log ++ new)

/-- **An assignment whose write comes to its end.** -/
theorem assigns_written (h : Career id data keys m log) (rest : m.stack = [])
    (hplace : a.place (a.laidOut m).state.heap data keys = .ok p)
    (hwrite : Live.write p.object p.key (a.assigned m) (a.laidOut m) = .ok () m') (rest' : m'.stack = [])
    (h' : Career id data keys m' (log ++ new)) :
    (reported a log new = none → a.perform id m = .ok (.ok ()) m') ∧
      ∀ e, reported a log new = some e → ∃ k, a.perform id m = .ok (.error (.app e)) k ∧ k.stack = [] ∧
        Career id data keys k (log ++ new ++ [.handedOut e]) := by
  by_cases hproperty : a.isProperty
  · obtain ⟨hkey, rfl⟩ := place_inv hproperty hplace
    obtain ⟨hquiet, hfails⟩ := (h.laidOut rest a).set_written hkey hwrite rest' h'
    rw [reported, if_pos hproperty, Assignment.perform_property hproperty]
    refine ⟨fun hnone => by rw [bind_ok (hquiet hnone)]; rfl, fun e he => ?_⟩
    obtain ⟨k, hset, hrest, hk⟩ := hfails e he
    exact ⟨k, by rw [bind_ok hset]; rfl, hrest, hk⟩
  · obtain ⟨k, htake, hrest, hsame, hk⟩ := h'.takeError rest'
    rw [reported, if_neg hproperty, h.perform_below hproperty, hplace]
    simp only [Assignment.writeBelow]
    rw [bind_ok hwrite, bind_ok htake]
    refine ⟨fun hnone => ?_, fun e he => ⟨k, ?_, hrest, ?_⟩⟩
    · rw [hnone, hsame hnone]
      rfl
    · rw [he]
      rfl
    · rwa [he] at hk

theorem reported_of_own (h : a.isProperty ∨ new ≠ [] ∨ kept log = none) :
    reported a log new = kept new := by
  rw [reported]
  split
  · rfl
  · next hbelow =>
    rcases h with hproperty | hne | hnone
    · exact absurd hproperty hbelow
    · exact kept_append hne
    · cases new with
      | nil => rw [List.append_nil, hnone]; rfl
      | cons r later => exact kept_append (List.cons_ne_nil r later)

theorem reported_of_leftover (h : ¬ a.isProperty) : reported a log [] = kept log := by
  rw [reported, if_neg h, List.append_nil]

/-- **What an assignment reports.** At any point of a career when nothing is under way, let a value be
assigned to a path.

* If the path is refused the assignment fails for this reason. It has laid the value out, which changes no
  data and no subscriptions that there were, and no surface.
* Otherwise its write goes on forever, or comes to its end, which is certain where getters make no watchers.
* Where the path is a property of the instance, or the write has caused a render cycle, or no error was
  left from before, the assignment fails if and only if the last render cycle caused by its own write has
  failed, and with the error of that one.
* Where the path leads further down, the write has caused no render cycle, and an error was left from
  before, the assignment fails with this error. -/
theorem assigns (h : Career id data keys m log) (rest : m.stack = []) (a : Assignment) :
    (∀ e, a.place (a.laidOut m).state.heap data keys = .error e →
      a.perform id m = .ok (.error e) (a.laidOut m) ∧ (a.laidOut m).state.host = m.state.host ∧
        m.state.heap.Grows (a.laidOut m).state.heap) ∧
    ∀ p, a.place (a.laidOut m).state.heap data keys = .ok p →
      let asked := (a.laidOut m).asked (.write p.object p.key (a.assigned m) .done)
      (m.Modest → ∃ n, (Machine.step^[n] asked).stack = []) ∧
      ((a.perform id m = .error .unfinished (a.laidOut m) ∧
          ∀ n, (Machine.step^[n] asked).stack ≠ []) ∨
        ∃ n m' new, Machine.step^[n] asked = m' ∧ m'.stack = [] ∧ reportsIn id n asked = new ∧
          Career id data keys m' (log ++ new) ∧
          (a.isProperty ∨ new ≠ [] ∨ kept log = none →
            (kept new = none → a.perform id m = .ok (.ok ()) m') ∧
            ∀ e, kept new = some e → ∃ k, a.perform id m = .ok (.error (.app e)) k ∧ k.stack = [] ∧
              Career id data keys k (log ++ new ++ [.handedOut e])) ∧
          (¬ a.isProperty → new = [] → ∀ e, kept log = some e →
            ∃ k, a.perform id m = .ok (.error (.app e)) k ∧ k.stack = [] ∧
              Career id data keys k (log ++ [.handedOut e]))) := by
  refine ⟨fun e he => ⟨h.refused he, rfl, Heap.grows_build _ _⟩, fun p hp => ⟨fun hmodest => ?_, ?_⟩⟩
  · have hlaid : (a.laidOut m).Modest := ⟨hmodest.getter, hmodest.paired⟩
    exact hlaid.ends (p := .write p.object p.key (a.assigned m) .done) trivial
  · rcases (h.laidOut rest a).performs rest (p := .write p.object p.key (a.assigned m) .done) trivial with
      ⟨hcut, hlong⟩ | ⟨n, m', hwrite, hsteps, hrest, hcareer⟩
    · exact .inl ⟨h.assigns_unfinished rest hp hcut, hlong⟩
    · obtain ⟨hquiet, hfails⟩ := h.assigns_written rest hp hwrite hrest hcareer
      refine .inr ⟨n, m', _, hsteps, hrest, rfl, hcareer, fun hown => ?_, fun hbelow hnew e he => ?_⟩
      · rw [reported_of_own hown] at hquiet hfails
        exact ⟨hquiet, hfails⟩
      · rw [hnew] at hfails
        obtain ⟨k, hk, hkrest, hkcareer⟩ := hfails e (by rw [reported_of_leftover hbelow, he])
        exact ⟨k, hk, hkrest, by rwa [List.append_nil] at hkcareer⟩

end App.Career

/-! ## Assignments to a paragraph whose data are cut off -/

namespace App

namespace Sample

/-- A new slot of the object in the middle. -/
def beside : Assignment := ⟨"a.z", .value (.bool true)⟩

/-- A slot of the innermost object, which is there no more. -/
def beyond : Assignment := ⟨"a.b.c", .value (.bool true)⟩

theorem isProperty_beside : ¬ beside.isProperty := by
  have hsegments : segments "a.z" = ["a", "z"] := by cbv
  rw [Assignment.isProperty, show beside.path = "a.z" from rfl, hsegments]
  decide

theorem place_beside (inner : Value) (subscribers : List WatcherId) :
    beside.place (nestedHeap inner subscribers) ⟨2⟩ ["a"] = .ok ⟨⟨1⟩, "z"⟩ := by
  have hsegments : segments "a.z" = ["a", "z"] := by cbv
  have hparent : Assignment.parent (nestedHeap inner subscribers) ⟨2⟩ [] ["a"] = .ok ⟨1⟩ := by cbv
  rw [Assignment.place_below isProperty_beside, Assignment.key, show beside.path = "a.z" from rfl, hsegments]
  show (Assignment.parent (nestedHeap inner subscribers) ⟨2⟩ [] ["a"]).map _ = _
  rw [hparent]
  rfl

/-- The new slot has nobody subscribed to it. -/
theorem store_beside (inner : Value) (subscribers : List WatcherId) :
    ((nestedHeap inner subscribers).store ⟨1⟩ "z" (.bool true)).2 = none := by cbv

/-- Null has no members. -/
theorem place_beyond (subscribers : List WatcherId) :
    beyond.place (nestedHeap .null subscribers) ⟨2⟩ ["a"] =
      .error (.notObject "a.b" ((nestedHeap .null subscribers).unfold .null)) := by
  have hsegments : segments "a.b.c" = ["a", "b", "c"] := by cbv
  rw [Assignment.place, show beyond.path = "a.b.c" from rfl, hsegments]
  rfl

end Sample

/-- A path that leads beyond the data is refused, and a value that nothing on the surface shows is assigned
without a failure where none was left. -/
theorem Career.assigns_nested : ∃ log log' m,
    Career ⟨0⟩ ⟨2⟩ ["a"] Sample.nestedFailing log ∧ Sample.nestedFailing.stack = [] ∧
      (∃ found, Sample.beyond.perform ⟨0⟩ Sample.nestedFailing =
        .ok (.error (.notObject "a.b" found)) (Sample.beyond.laidOut Sample.nestedFailing)) ∧
      Career ⟨0⟩ ⟨2⟩ ["a"] Sample.nestedMounted log' ∧ Sample.nestedMounted.stack = [] ∧
      Sample.beside.perform ⟨0⟩ Sample.nestedMounted = .ok (.ok ()) m := by
  obtain ⟨log, hfailing, hrest, hheap, -⟩ := Sample.career_nestedFailing
  obtain ⟨log', hmounted, hrest', hnone⟩ := Sample.career_nestedMounted
  have hbeyond := hheap ▸ Sample.place_beyond [⟨0⟩]
  have hbeside := Sample.heap_nestedMounted ▸ Sample.place_beside (.object ⟨0⟩) [⟨0⟩]
  have hstore := Sample.heap_nestedMounted ▸ Sample.store_beside (.object ⟨0⟩) [⟨0⟩]
  have hrefused := ((hfailing.assigns hrest Sample.beyond).1 _ hbeyond).1
  rcases ((hmounted.assigns hrest' Sample.beside).2 _ hbeside).2 with
    ⟨-, hlong⟩ | ⟨n, m, new, -, -, hnew, -, hown, -⟩
  · exact absurd (write_unnoticed hstore) (hlong 2)
  · have hquiet : new = [] := hnew.symm.trans (reportsIn_write hstore n)
    exact ⟨log, log', m, hfailing, hrest, ⟨_, hrefused⟩, hmounted, hrest',
      (hown (.inr (.inr hnone))).1 (by rw [hquiet]; rfl)⟩

/-- **A failure that was left over is reported by an assignment that renders nothing.** The write of the
new slot notifies nobody, and so causes no render cycle. -/
theorem Career.leftover_reported : ∃ log m,
    Career ⟨0⟩ ⟨2⟩ ["a"] Sample.nestedFailing log ∧ Sample.nestedFailing.stack = [] ∧
      (Sample.nestedFailing.state.host.app? ⟨0⟩).any App.isMounted ∧
      Sample.beside.place (Sample.beside.laidOut Sample.nestedFailing).state.heap ⟨2⟩ ["a"] =
        .ok ⟨⟨1⟩, "z"⟩ ∧
      (∀ n, reportsIn ⟨0⟩ n
        ((Sample.beside.laidOut Sample.nestedFailing).asked (.write ⟨1⟩ "z" (.bool true) .done)) = []) ∧
      Sample.beside.perform ⟨0⟩ Sample.nestedFailing =
        .ok (.error (.app (.bind (.unresolved "a.b.c" "c")))) m := by
  obtain ⟨log, hcareer, hrest, hheap, hmounted, hkept⟩ := Sample.career_nestedFailing
  have hplace := hheap ▸ Sample.place_beside .null [⟨0⟩]
  have hstore := hheap ▸ Sample.store_beside .null [⟨0⟩]
  have hquiet : ∀ n, reportsIn ⟨0⟩ n
      ((Sample.beside.laidOut Sample.nestedFailing).asked (.write ⟨1⟩ "z" (.bool true) .done)) = [] :=
    reportsIn_write hstore
  rcases (hcareer.laidOut hrest Sample.beside).performs hrest
      (p := .write ⟨1⟩ "z" (.bool true) .done) trivial with
    ⟨-, hlong⟩ | ⟨n, m', hwrite, -, hrest', hcareer'⟩
  · exact absurd (write_unnoticed hstore) (hlong 2)
  · obtain ⟨-, hfails⟩ := hcareer.assigns_written hrest hplace hwrite hrest' hcareer'
    obtain ⟨m, hm, -⟩ := hfails _ (by
      rw [hquiet n, reported_of_leftover Sample.isProperty_beside, hkept])
    exact ⟨log, m, hcareer, hrest, hmounted, hplace, hquiet, hm⟩

end App

end LiveMarkup

import LiveMarkup.Reactive.Machine

/-!
# Operations from outside

An operation acts on a machine at rest. Where it may set off watchers it runs a program to its end.

* `Live`: operations, which may end in a fault.
* `Live.perform`: the operation that runs a program.
* `Live.write`, `Live.watch`, `Live.build`, …: the operations that programs are made of.
-/

namespace LiveMarkup

/-- How an operation fails. -/
inductive Fault where
  /-- A program gave up. -/
  | panicked (message : String)
  /-- The watchers keep running, and the machine never comes to rest. -/
  | unfinished
  /-- Nothing goes by this name. -/
  | unknownName (name : String)
  deriving DecidableEq, Repr

/-- An operation on a machine with a host. -/
abbrev Live (σ α : Type) := EStateM Fault (Machine σ) α

namespace Live

variable {σ : Type}

/-- Runs a program until everything it set off has come to an end. -/
def perform (p : Program σ) : Live σ Unit := fun m =>
  match Machine.exec { m with stack := [.body p], fault := none } with
  | none => .error .unfinished m
  | some m' =>
    match m'.fault with
    | none => .ok () m'
    | some message => .error (.panicked message) { m' with fault := none }

def state : Live σ (State σ) := do return (← get).state

def heap : Live σ Heap := do return (← state).heap

def host : Live σ σ := do return (← state).host

/-- Changes the host. -/
def tell (change : σ → σ) : Live σ Unit :=
  modify fun m => { m with state := { m.state with host := change m.state.host } }

/-- Changes the heap silently. -/
def edit (change : Heap.Edit) : Live σ Unit :=
  modify fun m => m.withHeap (m.state.heap.edit change)

/-- Lays data out on the heap. -/
def build (draft : Draft) : Live σ Value := do
  let (v, h) := (← heap).build draft
  modify fun m => m.withHeap h
  return v

/-- Reads a slot. -/
def read (o : ObjectId) (key : String) : Live σ (Option Value) := do
  perform (.read (fun _ => [⟨o, key⟩]) fun _ => .done)
  return (← heap).peek o key

/-- Writes a slot; the watchers that read it have run when this returns. -/
def write (o : ObjectId) (key : String) (v : Value) : Live σ Unit :=
  perform (.write o key v .done)

/-- Makes a watcher and runs it for the first time. -/
def watch (getter : Program σ) : Live σ WatcherId := do
  let w : WatcherId := ⟨(← state).watchers.size⟩
  perform (.watch getter fun _ => .done)
  return w

def run (w : WatcherId) : Live σ Unit := perform (.run w .done)

def notify (d : DepId) : Live σ Unit := perform (.notify d .done)

/-- Keeps a watcher no longer. -/
def release (w : WatcherId) : Live σ Unit := perform (.release w .done)

/-- The live subscribers of a dep. -/
def subscribers (d : DepId) : Live σ (List WatcherId) := do
  return (← get).sight.subscribers d

end Live

end LiveMarkup

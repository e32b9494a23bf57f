import LiveMarkup.Reactive.Program

/-!
# The machine

Programs run on a stack of frames. A watcher's run is a frame that, when its getter returns,
restores the active watcher and serves a run that was asked for in the meantime, for at most
`maxReruns` times in a row. A notification is a frame that holds the watchers still to be run.

* `Machine.step`: one step.
* `Machine.exec`: the steps until the stack is empty, for as long as that takes.
-/

namespace LiveMarkup

/-- How often in a row a watcher runs again because a run was asked for while it was running. -/
def maxReruns : Nat := 100

/-- A part of the work under way. -/
inductive Frame (σ : Type) where
  /-- A program being executed. -/
  | body (program : Program σ)
  /-- The end of a getter's run: the watcher, the one active before, and the reruns so far. -/
  | leave (watcher : WatcherId) (previous : Option WatcherId) (reruns : Nat)
  /-- The watchers that a notification has still to run. -/
  | pending (watchers : List WatcherId)
  /-- The end of a watcher's first run, from where on it is kept. -/
  | adopt (watcher : WatcherId) (next : WatcherId → Program σ)

/-- The watchers that a frame holds. -/
def Frame.held {σ : Type} : Frame σ → List WatcherId
  | body _ => []
  | leave w _ _ => [w]
  | pending ws => ws
  | adopt w _ => [w]

/-- A state, the getters of its watchers, and the frames under way, innermost first. A fault is
what a program gave up with. -/
structure Machine (σ : Type) where
  state : State σ
  getters : Array (Program σ)
  stack : List (Frame σ)
  fault : Option String

namespace Machine

variable {σ : Type}

/-- A machine at rest: an empty heap and no watchers. -/
def start (host : σ) : Machine σ := ⟨⟨.empty, #[], none, host⟩, #[], [], none⟩

/-- What the program on top of the stack may look at. -/
def sight (m : Machine σ) : Sight σ := ⟨m.state, m.stack.flatMap Frame.held⟩

def getter (m : Machine σ) (w : WatcherId) : Program σ := m.getters[w.index]?.getD .done

def push (m : Machine σ) (f : Frame σ) : Machine σ := { m with stack := f :: m.stack }

def withHeap (m : Machine σ) (h : Heap) : Machine σ :=
  { m with state := { m.state with heap := h } }

/-! ## Runs -/

/-- The getter of a watcher is entered: it counts one more run and becomes the active watcher. -/
def enter (m : Machine σ) (w : WatcherId) (reruns : Nat) : Machine σ :=
  let s := m.state.modifyWatcher w fun x => { x with runs := x.runs + 1, running := true }
  { m with
    state := { s with active := some w }
    stack := .body (m.getter w) :: .leave w m.state.active reruns :: m.stack }

/-- A run of a watcher is asked for: a running one is only marked. -/
def request (m : Machine σ) (w : WatcherId) : Machine σ :=
  if m.state.isRunning w then
    { m with state := m.state.modifyWatcher w fun x => { x with dirty := true } }
  else m.enter w 0

/-- The getter of a watcher has returned: the active watcher is the previous one again, and a run
asked for in the meantime follows, unless there were too many in a row. -/
def leave (m : Machine σ) (w : WatcherId) (previous : Option WatcherId) (reruns : Nat) :
    Machine σ :=
  let dirty := (m.state.watcher? w).any (·.dirty)
  let s := m.state.modifyWatcher w fun x => { x with running := false, dirty := false }
  let m := { m with state := { s with active := previous } }
  if dirty && reruns < maxReruns then m.enter w (reruns + 1) else m

/-- The live subscribers of a dep are to be run, in order; dead ones are forgotten. -/
def notify (m : Machine σ) (d : DepId) : Machine σ :=
  let live := m.sight.subscribers d
  (m.withHeap (m.state.heap.setSubscribers d live)).push (.pending live)

/-- A watcher is made, and its first run asked for. -/
def watch (m : Machine σ) (getter : Program σ) (next : WatcherId → Program σ) : Machine σ :=
  let w : WatcherId := ⟨m.state.watchers.size⟩
  request
    { m with
      state := { m.state with watchers := m.state.watchers.push ⟨0, false, false, false⟩ }
      getters := m.getters.push getter
      stack := .adopt w next :: m.stack } w

/-- The state after every run under way was given up: the active watcher and the marks of running
ones are as before those runs. Requests for further runs stay recorded. -/
def unwind (s : State σ) : List (Frame σ) → State σ
  | [] => s
  | .leave w previous _ :: rest =>
    unwind { s.modifyWatcher w fun x => { x with running := false } with active := previous } rest
  | _ :: rest => unwind s rest

/-! ## Steps -/

/-- The first request of a program, whose frame has been taken from the stack. -/
def perform (m : Machine σ) : Program σ → Machine σ
  | .done => m
  | .panic message =>
    { m with state := unwind m.state m.stack, stack := [], fault := some message }
  | .look next => m.push (.body (next m.sight))
  | .read reads next =>
    let body := next m.state.heap
    match m.state.active with
    | some w => (m.withHeap (m.state.heap.track w (reads m.state.heap))).push (.body body)
    | none => m.push (.body body)
  | .make draft next =>
    let (v, h) := m.state.heap.build draft
    (m.withHeap h).push (.body (next v))
  | .edit change next => (m.withHeap (m.state.heap.edit change)).push (.body next)
  | .tell change next =>
    { m with state := { m.state with host := change m.state.host } }.push (.body next)
  | .write o key v next =>
    let (h, d) := m.state.heap.store o key v
    let m := (m.withHeap h).push (.body next)
    match d with
    | some d => m.notify d
    | none => m
  | .notify d next => (m.push (.body next)).notify d
  | .run w next => (m.push (.body next)).request w
  | .watch getter next => m.watch getter next
  | .release w next =>
    { m with state := m.state.modifyWatcher w fun x => { x with kept := false } }.push (.body next)

/-- One step: the topmost frame moves on. A machine with an empty stack is at rest. -/
def step (m : Machine σ) : Machine σ :=
  match m.stack with
  | [] => m
  | .body p :: rest => { m with stack := rest }.perform p
  | .leave w previous reruns :: rest => { m with stack := rest }.leave w previous reruns
  | .pending [] :: rest => { m with stack := rest }
  | .pending (w :: ws) :: rest => { m with stack := .pending ws :: rest }.request w
  | .adopt w next :: rest =>
    { m with
      state := m.state.modifyWatcher w fun x => { x with kept := true }
      stack := .body (next w) :: rest }

/-- The machine at rest that a machine comes to, if it ever does. -/
def exec (m : Machine σ) : Option (Machine σ) :=
  -- a recursive call that is a term carries its place in the file, one that `apply` makes does not
  if m.stack.isEmpty then some m else by apply exec; exact m.step
partial_fixpoint

end Machine

end LiveMarkup

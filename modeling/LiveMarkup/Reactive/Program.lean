import LiveMarkup.Data.Edit
import LiveMarkup.Data.Traced

/-!
# Programs

What a watcher runs is a program: a finite tree of requests, each with the program that goes on
from its answer. The host is whatever else a program works on besides the heap.

* `State`: the heap, the watchers, the active one among them, and the host.
* `Sight`: what a program may look at.
* `Program`: the requests.
-/

namespace LiveMarkup

/-- The condition of a watcher. -/
structure Watcher where
  /-- How often its getter was entered. -/
  runs : Nat
  /-- Whether its getter is being executed. -/
  running : Bool
  /-- Whether a run was asked for while it was running. -/
  dirty : Bool
  /-- Whether it is held from outside of all runs. -/
  kept : Bool
  deriving DecidableEq, Repr

/-- What changes as programs run. -/
structure State (σ : Type) where
  heap : Heap
  watchers : Array Watcher
  /-- The watcher that tracked reads subscribe. -/
  active : Option WatcherId
  host : σ

/-- What a program may look at: the state, and the watchers that the runs and notifications under
way hold. -/
structure Sight (σ : Type) where
  state : State σ
  held : List WatcherId

namespace State

variable {σ : Type}

def watcher? (s : State σ) (w : WatcherId) : Option Watcher := s.watchers[w.index]?

def runs (s : State σ) (w : WatcherId) : Nat :=
  match s.watcher? w with
  | some x => x.runs
  | none => 0

def isRunning (s : State σ) (w : WatcherId) : Bool := (s.watcher? w).any (·.running)

def isKept (s : State σ) (w : WatcherId) : Bool := (s.watcher? w).any (·.kept)

/-- The state with one watcher changed. -/
def modifyWatcher (s : State σ) (w : WatcherId) (change : Watcher → Watcher) : State σ :=
  { s with watchers := s.watchers.modify w.index change }

end State

/-- A watcher lives as long as something holds it. -/
def Sight.alive {σ : Type} (s : Sight σ) (w : WatcherId) : Bool :=
  s.state.isKept w || s.held.contains w

/-- The subscribers of a dep that live. -/
def Sight.subscribers {σ : Type} (s : Sight σ) (d : DepId) : List WatcherId :=
  (s.state.heap.subscribers d).filter s.alive

/-- A finite tree of requests. -/
inductive Program (σ : Type) where
  /-- Nothing more. -/
  | done
  /-- Give up, and unwind every run and notification under way. -/
  | panic (message : String)
  /-- Look at anything without being subscribed to it. -/
  | look (next : Sight σ → Program σ)
  /-- Read places of the heap; the active watcher is subscribed to each. -/
  | read (reads : Heap → List Place) (next : Heap → Program σ)
  /-- Lay data out on the heap. -/
  | make (draft : Draft) (next : Value → Program σ)
  /-- Change the heap silently. -/
  | edit (change : Heap.Edit) (next : Program σ)
  /-- Change the host. -/
  | tell (change : σ → σ) (next : Program σ)
  /-- Write a slot; a change notifies its subscribers before the program goes on. -/
  | write (object : ObjectId) (key : String) (value : Value) (next : Program σ)
  /-- Run every live subscriber of a dep. -/
  | notify (dep : DepId) (next : Program σ)
  /-- Run a watcher, or if it is running ask for one more run. -/
  | run (watcher : WatcherId) (next : Program σ)
  /-- Make a watcher and run it for the first time; it is kept from then on. -/
  | watch (getter : Program σ) (next : WatcherId → Program σ)
  /-- Keep a watcher no longer. -/
  | release (watcher : WatcherId) (next : Program σ)

namespace Program

variable {σ : Type}

/-- A tracked reading, and what is done with its result. -/
def readTraced {α : Type} (reading : Heap → Traced α) (next : α → Program σ) : Program σ :=
  .read (fun h => (reading h).reads) fun h => next (reading h).result

/-- A tracked read of one slot. -/
def get (object : ObjectId) (key : String) (next : Option Value → Program σ) : Program σ :=
  .read (fun _ => [⟨object, key⟩]) fun h => next (h.peek object key)

end Program

end LiveMarkup

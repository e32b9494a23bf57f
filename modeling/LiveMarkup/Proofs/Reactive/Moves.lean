import LiveMarkup.Proofs.Reactive.Watching

/-!
# The moves of a machine

A step moves the topmost frame on. This module lists once what that can make of the watchers, the getters
and the stack, so that what steps keep up is shown by going through the list. What becomes of the heap is
said apart, by `Machine.Turns`.

* `Program.Follows`: a program that another can go on with.
* **`Machine.Moves`**, **`Machine.moves_step`**: the moves, and that there are no others.
-/

namespace LiveMarkup

variable {σ : Type}

namespace Program

/-- A program that another can go on with after its first request. -/
inductive Follows : Program σ → Program σ → Prop where
  | look (next : Sight σ → Program σ) (s : Sight σ) : Follows (next s) (.look next)
  | read (reads : Heap → List Place) (next : Heap → Program σ) (h : Heap) :
      Follows (next h) (.read reads next)
  | make (draft : Draft) (next : Value → Program σ) (v : Value) : Follows (next v) (.make draft next)
  | edit (change : Heap.Edit) (next : Program σ) : Follows next (.edit change next)
  | tell (change : σ → σ) (next : Program σ) : Follows next (.tell change next)
  | write (o : ObjectId) (key : String) (v : Value) (next : Program σ) :
      Follows next (.write o key v next)
  | notify (d : DepId) (next : Program σ) : Follows next (.notify d next)
  | run (w : WatcherId) (next : Program σ) : Follows next (.run w next)
  | release (w : WatcherId) (next : Program σ) : Follows next (.release w next)

/-- Programs are finite. -/
theorem wellFounded_follows : WellFounded (@Follows σ) := by
  refine ⟨fun p => ?_⟩
  induction p with
  | look next ih | read reads next ih | make draft next ih =>
    refine ⟨_, fun q hq => ?_⟩
    cases hq
    exact ih _
  | edit change next ih | tell change next ih | write o key v next ih | notify d next ih
  | run w next ih | release w next ih =>
    refine ⟨_, fun q hq => ?_⟩
    cases hq
    exact ih
  | done | panic message | watch getter next => exact ⟨_, fun q hq => nomatch hq⟩

end Program

namespace Machine

/-- What a step can make of a machine. -/
inductive Moves (m : Machine σ) : Machine σ → Prop where
  | rests (stack : m.stack = []) : Moves m m
  | ends (rest : List (Frame σ)) (stack : m.stack = .body .done :: rest) : Moves m { m with stack := rest }
  | panics (message : String) (rest : List (Frame σ)) (stack : m.stack = .body (.panic message) :: rest) :
      Moves m ⟨unwind m.state rest, m.getters, [], some message⟩
  /-- A program goes on, and nobody but the heap has noticed. -/
  | goes (p q : Program σ) (rest : List (Frame σ)) (heap : Heap) (stack : m.stack = .body p :: rest)
      (follows : q.Follows p) :
      Moves m { m with state := { m.state with heap := heap }, stack := .body q :: rest }
  | tells (change : σ → σ) (next : Program σ) (rest : List (Frame σ))
      (stack : m.stack = .body (.tell change next) :: rest) :
      Moves m
        { m with state := { m.state with host := change m.state.host }, stack := .body next :: rest }
  | notifies (p q : Program σ) (rest : List (Frame σ)) (heap : Heap) (ws : List WatcherId)
      (stack : m.stack = .body p :: rest) (follows : q.Follows p) :
      Moves m
        { m with state := { m.state with heap := heap }, stack := .pending ws :: .body q :: rest }
  | runs (w : WatcherId) (next : Program σ) (rest : List (Frame σ))
      (stack : m.stack = .body (.run w next) :: rest) :
      Moves m ({ m with stack := .body next :: rest }.request w)
  | watches (getter : Program σ) (next : WatcherId → Program σ) (rest : List (Frame σ))
      (stack : m.stack = .body (.watch getter next) :: rest) :
      Moves m ({ m with stack := rest }.watch getter next)
  | releases (w : WatcherId) (next : Program σ) (rest : List (Frame σ))
      (stack : m.stack = .body (.release w next) :: rest) :
      Moves m
        { m with
          state := m.state.modifyWatcher w fun x => { x with kept := false }
          stack := .body next :: rest }
  | leaves (w : WatcherId) (previous : Option WatcherId) (n : Nat) (rest : List (Frame σ))
      (stack : m.stack = .leave w previous n :: rest) :
      Moves m ({ m with stack := rest }.leave w previous n)
  /-- A notification has run all its watchers. -/
  | settles (rest : List (Frame σ)) (stack : m.stack = .pending [] :: rest) :
      Moves m { m with stack := rest }
  | serves (w : WatcherId) (ws : List WatcherId) (rest : List (Frame σ))
      (stack : m.stack = .pending (w :: ws) :: rest) :
      Moves m ({ m with stack := .pending ws :: rest }.request w)
  | adopts (w : WatcherId) (next : WatcherId → Program σ) (rest : List (Frame σ))
      (stack : m.stack = .adopt w next :: rest) :
      Moves m
        { m with
          state := m.state.modifyWatcher w fun x => { x with kept := true }
          stack := .body (next w) :: rest }

variable {m : Machine σ} {p : Program σ} {rest : List (Frame σ)}

/-- The moves of a program. -/
theorem moves_body (hm : m.stack = .body p :: rest) : m.Moves ({ m with stack := rest }.perform p) := by
  cases p with
  | done => exact .ends rest hm
  | panic message => exact .panics message rest hm
  | look next => exact .goes _ _ rest m.state.heap hm (.look next _)
  | read reads next =>
    rw [perform]
    split
    · exact .goes _ _ rest _ hm (.read reads next _)
    · exact .goes _ _ rest m.state.heap hm (.read reads next _)
  | make draft next => exact .goes _ _ rest _ hm (.make draft next _)
  | edit change next => exact .goes _ _ rest _ hm (.edit change next)
  | tell change next => exact .tells change next rest hm
  | write o key v next =>
    simp only [perform]
    split
    · exact .notifies _ _ rest _ _ hm (.write o key v next)
    · exact .goes _ _ rest _ hm (.write o key v next)
  | notify d next => exact .notifies _ _ rest _ _ hm (.notify d next)
  | run w next => exact .runs w next rest hm
  | watch getter next => exact .watches getter next rest hm
  | release w next => exact .releases w next rest hm

/-- **Every step is one of these moves.** -/
theorem moves_step (m : Machine σ) : m.Moves m.step := by
  rw [step]
  cases hm : m.stack with
  | nil => exact .rests hm
  | cons f rest =>
    cases f with
    | body p => exact moves_body hm
    | leave w previous n => exact .leaves w previous n rest hm
    | pending ws =>
      cases ws with
      | nil => exact .settles rest hm
      | cons w ws => exact .serves w ws rest hm
    | adopt w next => exact .adopts w next rest hm

end Machine

end LiveMarkup

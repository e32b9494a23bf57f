import LiveMarkup.Proofs.Reactive.ReadOnly

/-!
# What the host is told

The host changes when a program tells it something. Where all programs tell it nothing but certain
changes, and nobody gives up, a step makes such a change or none, and what is asked from outside either
ends without a fault or goes on forever.

* `Program.Confined`, `Machine.Confined`: programs that tell the host nothing but what is allowed.
* **`Machine.Confined.step`**: a step keeps a machine confined.
* **`Machine.Confined.host_step`**: a step makes an allowed change of the host, or none.
* **`Machine.Confined.performs`**, `Machine.Modest.ends`: an operation on such a machine.
-/

namespace LiveMarkup

variable {σ : Type} {allowed : (σ → σ) → Prop}

namespace Program

/-- A program that does not give up, and tells the host nothing but what is allowed. The same holds of
the getters of the watchers that it makes. -/
def Confined (allowed : (σ → σ) → Prop) : Program σ → Prop
  | done => True
  | panic _ => False
  | look next => ∀ s, (next s).Confined allowed
  | read _ next => ∀ h, (next h).Confined allowed
  | make _ next => ∀ v, (next v).Confined allowed
  | edit _ next => next.Confined allowed
  | tell change next => allowed change ∧ next.Confined allowed
  | write _ _ _ next => next.Confined allowed
  | notify _ next => next.Confined allowed
  | run _ next => next.Confined allowed
  | watch getter next => getter.Confined allowed ∧ ∀ w, (next w).Confined allowed
  | release _ next => next.Confined allowed

theorem Confined.of_follows {p q : Program σ} (hp : p.Confined allowed) (hq : q.Follows p) :
    q.Confined allowed := by
  cases hq with
  | look next s => exact hp s
  | read reads next h => exact hp h
  | make draft next v => exact hp v
  | tell change next => exact hp.2
  | _ => exact hp

end Program

/-- Only confined programs are to be executed in a frame. -/
def Frame.Confined (allowed : (σ → σ) → Prop) : Frame σ → Prop
  | body p => p.Confined allowed
  | adopt _ next => ∀ w, (next w).Confined allowed
  | _ => True

namespace Machine

variable {m m' k : Machine σ} {p : Program σ}

/-- All getters and all programs under way are confined. -/
structure Confined (allowed : (σ → σ) → Prop) (m : Machine σ) : Prop where
  getter : ∀ w, (m.getter w).Confined allowed
  frames : ∀ f ∈ m.stack, f.Confined allowed

namespace Confined

/-- No watcher is made. -/
theorem of_eq (h : m.Confined allowed) (getters : m'.getters = m.getters)
    (frames : ∀ f ∈ m'.stack, f.Confined allowed) : m'.Confined allowed where
  getter w := by
    rw [Machine.getter, getters]
    exact h.getter w
  frames := frames

theorem enter (h : m.Confined allowed) (w : WatcherId) (n : Nat) : (m.enter w n).Confined allowed :=
  h.of_eq rfl (List.forall_mem_cons.2 ⟨h.getter w, List.forall_mem_cons.2 ⟨trivial, h.frames⟩⟩)

theorem request (h : m.Confined allowed) (w : WatcherId) : (m.request w).Confined allowed := by
  rw [request_eq]
  split
  · exact h.of_eq rfl h.frames
  · exact h.enter w 0

theorem watch (h : m.Confined allowed) {getter : Program σ} {next : WatcherId → Program σ}
    (hgetter : getter.Confined allowed) (hnext : ∀ w, (next w).Confined allowed) :
    (m.watch getter next).Confined allowed := by
  have hmade : (m.withWatcher getter next).Confined allowed :=
    ⟨forall_getter_withWatcher hgetter h.getter, List.forall_mem_cons.2 ⟨hnext, h.frames⟩⟩
  exact hmade.request _

/-- A move keeps a machine confined. -/
theorem moves (h : m.Confined allowed) (hk : m.Moves k) : k.Confined allowed := by
  have hframes : ∀ {f : Frame σ} {rest}, m.stack = f :: rest →
      f.Confined allowed ∧ ∀ g ∈ rest, g.Confined allowed := fun stack =>
    List.forall_mem_cons.1 (stack ▸ h.frames)
  cases hk with
  | rests stack => exact h
  | ends rest stack | settles rest stack => exact h.of_eq rfl (hframes stack).2
  | panics message rest stack => exact (hframes stack).1.elim
  | goes p q rest heap stack follows =>
    obtain ⟨hp, hrest⟩ := hframes stack
    exact h.of_eq rfl (List.forall_mem_cons.2 ⟨hp.of_follows follows, hrest⟩)
  | tells change next rest stack =>
    obtain ⟨⟨-, hnext⟩, hrest⟩ := hframes stack
    exact h.of_eq rfl (List.forall_mem_cons.2 ⟨hnext, hrest⟩)
  | notifies p q rest heap ws stack follows =>
    obtain ⟨hp, hrest⟩ := hframes stack
    have hgoes : ∀ f ∈ .body q :: rest, f.Confined allowed :=
      List.forall_mem_cons.2 ⟨hp.of_follows follows, hrest⟩
    exact h.of_eq rfl (List.forall_mem_cons.2 ⟨trivial, hgoes⟩)
  | runs w next rest stack =>
    obtain ⟨hnext, hrest⟩ := hframes stack
    have hgoes : Confined allowed { m with stack := .body next :: rest } :=
      h.of_eq rfl (List.forall_mem_cons.2 ⟨hnext, hrest⟩)
    exact hgoes.request w
  | watches getter next rest stack =>
    obtain ⟨⟨hgetter, hnext⟩, hrest⟩ := hframes stack
    have hpopped : Confined allowed { m with stack := rest } := h.of_eq rfl hrest
    exact hpopped.watch hgetter hnext
  | releases w next rest stack =>
    obtain ⟨hnext, hrest⟩ := hframes stack
    exact h.of_eq rfl (List.forall_mem_cons.2 ⟨hnext, hrest⟩)
  | leaves w previous n rest stack =>
    have hquit : (({ m with stack := rest } : Machine σ).quit w previous).Confined allowed :=
      h.of_eq rfl (hframes stack).2
    rw [leave_eq]
    split
    · exact hquit.enter w (n + 1)
    · exact hquit
  | serves w ws rest stack =>
    have hpending : Confined allowed { m with stack := .pending ws :: rest } :=
      h.of_eq rfl (List.forall_mem_cons.2 ⟨trivial, (hframes stack).2⟩)
    exact hpending.request w
  | adopts w next rest stack =>
    obtain ⟨hnext, hrest⟩ := hframes stack
    exact h.of_eq rfl (List.forall_mem_cons.2 ⟨hnext w, hrest⟩)

/-- **A step keeps a machine confined.** -/
theorem step (h : m.Confined allowed) : m.step.Confined allowed := h.moves m.moves_step

/-- A confined program is given to a machine. -/
theorem asked (h : m.Confined allowed) (hp : p.Confined allowed) : (m.asked p).Confined allowed :=
  h.of_eq rfl (List.forall_mem_singleton.2 hp)

/-- What is asked for next is confined. -/
theorem next? (h : m.Confined allowed) (top : m.next? = some p) : p.Confined allowed := by
  obtain ⟨rest, hm⟩ := stack_of_next? top
  exact h.frames (.body p) (hm ▸ List.mem_cons_self)

/-- **A step makes an allowed change of the host, or none.** -/
theorem host_step (h : m.Confined allowed) : m.step.state.host = m.state.host ∨
    ∃ change, allowed change ∧ m.step.state.host = change m.state.host := by
  by_cases htell : ∃ change next, m.next? = some (.tell change next)
  · obtain ⟨change, next, htop⟩ := htell
    obtain ⟨rest, hm⟩ := stack_of_next? htop
    exact .inr ⟨change, (h.next? htop).1, by rw [step_tell hm]⟩
  · exact .inl (Machine.host_step fun change next he => htell ⟨change, next, he⟩)

theorem fault_iterate (h : m.Confined allowed) (n : Nat) : (Machine.step^[n] m).fault = m.fault := by
  induction n generalizing m with
  | zero => rfl
  | succ n ih =>
    rw [Function.iterate_succ_apply, ih h.step]
    exact fault_step fun message htop => h.next? htop

/-- **An operation on a confined machine** goes on forever, or it comes to its end without a fault. -/
theorem performs (h : m.Confined allowed) (hp : p.Confined allowed) :
    (Live.perform p m = .error .unfinished m ∧
        ∀ n, (Machine.step^[n] (m.asked p)).stack ≠ []) ∨
      ∃ n m', Live.perform p m = .ok () m' ∧ Machine.step^[n] (m.asked p) = m' ∧ m'.stack = [] := by
  obtain hcut | ⟨n, m', rfl, hrest, ⟨-, hk⟩ | ⟨message, hfault, -⟩⟩ := Live.perform_cases p m
  · exact .inl hcut
  · exact .inr ⟨n, _, hk, rfl, hrest⟩
  · have hnone : (Machine.step^[n] (m.asked p)).fault = none := (h.asked hp).fault_iterate n
    cases hnone.symm.trans hfault

end Confined

/-- Where getters make no watchers, every modest program comes to its end. -/
theorem Modest.ends (hm : m.Modest) (hp : p.Modest) : ∃ n, (Machine.step^[n] (m.asked p)).stack = [] := by
  obtain ⟨m', ⟨n, rfl⟩, hstack, -⟩ :=
    returns_of_nested hp (nestedReturn _) (hm.orderly_asked hp).modest rfl
  exact ⟨n, hstack⟩

end Machine

end LiveMarkup

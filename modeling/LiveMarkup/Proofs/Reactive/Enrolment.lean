import LiveMarkup.Proofs.Reactive.Subscribers

/-!
# The order of subscribers

Watchers subscribe to a dep, are dropped, and are notified, within one another's getters and in the middle
of notifications of the same dep. The live subscribers are at all times those who ever asked for it, in the
order in which they first did, and a notification goes through those that it found at its start.

* `Machine.updatesIn`: whom a notification under way runs in so many steps.
* **`Machine.updatesIn_append`**: it runs the watchers of its list, one after another.
* `Enrolled`: a machine with all requests for a subscription to a dep that there have been.
* **`Enrolled.snapshot`**: the order of the live subscribers, and of a notification.
-/

namespace LiveMarkup

variable {σ : Type}

namespace Machine

variable {m : Machine σ} {d : DepId} {w : WatcherId} {base : List (Frame σ)}

/-! ## Notifications -/

/-- Whether the program gives up in the next step. -/
def givesUp (m : Machine σ) : Bool :=
  match m.next? with
  | some (.panic _) => true
  | _ => false

theorem next?_ne_panic (h : m.givesUp = false) (message : String) : m.next? ≠ some (.panic message) := by
  intro htop
  rw [givesUp, htop] at h
  cases h

/-- The watcher that the notification with so many frames below it runs in the next step. -/
def updates? (m : Machine σ) (depth : Nat) : Option WatcherId :=
  match m.stack with
  | .pending (w :: _) :: rest => if rest.length = depth then some w else none
  | _ => none

/-- The watchers that it runs in so many steps, until it has come to its end. -/
def updatesIn (depth : Nat) : Nat → Machine σ → List WatcherId
  | 0, _ => []
  | n + 1, m =>
    if m.stack.length ≤ depth then [] else (m.updates? depth).toList ++ updatesIn depth n m.step

theorem updatesIn_of_le {depth : Nat} (h : m.stack.length ≤ depth) (n : Nat) : updatesIn depth n m = [] := by
  cases n with
  | zero => rfl
  | succ n => rw [updatesIn, if_pos h]

/-- To be run is one turn of a watcher, and of no other. -/
theorem turns_of_updates? {depth : Nat} (h : m.updates? depth = some w) :
    m.turns w = (if m.state.isRunning w then [.asked] else [.entered]) ∧ ∀ x, x ≠ w → m.turns x = [] := by
  unfold updates? at h
  split at h
  · next x ws rest hm =>
    split at h
    · obtain rfl := Option.some.inj h
      refine ⟨?_, fun y hy => ?_⟩
      · rw [turns, hm]
        exact if_pos rfl
      · rw [turns, hm]
        exact if_neg (Ne.symm hy)
    · cases h
  · cases h

/-- **A notification runs the watchers of its list, one after another**, whatever these do. -/
theorem updatesIn_append (top : List (Frame σ)) {ws : List WatcherId}
    (hm : m.stack = top ++ .pending ws :: base) (n : Nat)
    (calm : ∀ i < n, ∀ message, (step^[i] m).next? ≠ some (.panic message)) :
    (∃ top' ws', (step^[n] m).stack = top' ++ .pending ws' :: base ∧
      updatesIn base.length n m ++ ws' = ws) ∨ updatesIn base.length n m = ws := by
  induction n generalizing m top ws with
  | zero => exact .inl ⟨top, ws, hm, rfl⟩
  | succ n ih =>
    have hlater : ∀ i < n, ∀ message, (step^[i] m.step).next? ≠ some (.panic message) := fun i hi =>
      calm (i + 1) (Nat.succ_lt_succ hi)
    have hbusy : ¬ m.stack.length ≤ base.length := by rw [hm]; simp; omega
    rw [Function.iterate_succ_apply, updatesIn, if_neg hbusy]
    cases top with
    | nil =>
      cases ws with
      | nil =>
        have hover : m.step.stack = base := by rw [step, hm]; rfl
        have hnone : m.updates? base.length = none := by rw [updates?, hm]; rfl
        rw [hnone, updatesIn_of_le (Nat.le_of_eq (congrArg List.length hover))]
        exact .inr rfl
      | cons w ws =>
        have hsome : m.updates? base.length = some w := by rw [updates?, hm]; exact if_pos rfl
        obtain ⟨new, hnew, -⟩ := exists_stack_request { m with stack := .pending ws :: base } w w
        have hstep : m.step.stack = new ++ .pending ws :: base := by
          rw [step, hm]
          exact hnew
        rw [hsome]
        rcases ih new hstep hlater with ⟨top', ws', hstack, happend⟩ | hall
        · exact .inl ⟨top', ws', hstack, congrArg (w :: ·) happend⟩
        · exact .inr (congrArg (w :: ·) hall)
    | cons f top =>
      have hnone : m.updates? base.length = none := by
        rw [updates?, hm]
        cases f with
        | pending vs =>
          cases vs with
          | nil => rfl
          | cons v vs => exact if_neg (by simp; omega)
        | _ => rfl
      obtain ⟨new, hnew, -⟩ := exists_stack_step hm (calm 0 (Nat.succ_pos n)) ⟨0⟩
      rw [hnone]
      exact ih (new ++ top) (by rw [hnew, List.append_assoc]; rfl) hlater

/-- What happens after its end is no part of a notification. -/
theorem updatesIn_eq_of_ended {depth i n : Nat} (hi : i ≤ n) (ended : (step^[i] m).stack.length ≤ depth) :
    updatesIn depth n m = updatesIn depth i m := by
  induction i generalizing m n with
  | zero => exact (updatesIn_of_le ended n).trans (updatesIn_of_le ended 0).symm
  | succ i ih =>
    obtain ⟨n, rfl⟩ := Nat.exists_eq_succ_of_ne_zero (Nat.ne_zero_of_lt hi)
    rw [updatesIn, updatesIn, ih (Nat.le_of_succ_le_succ hi) ended]

/-- **A notification comes to its end when all the watchers of its list were run**, and not before. -/
theorem updatesIn_eq {ws : List WatcherId} (hm : m.stack = .pending ws :: base) {n i : Nat} (hi : i ≤ n)
    (calm : ∀ i < n, ∀ message, (step^[i] m).next? ≠ some (.panic message))
    (ended : (step^[i] m).stack.length ≤ base.length) : updatesIn base.length n m = ws := by
  have hcalm : ∀ j < i, ∀ message, (step^[j] m).next? ≠ some (.panic message) := fun j hj =>
    calm j (Nat.lt_of_lt_of_le hj hi)
  rw [updatesIn_eq_of_ended hi ended]
  rcases updatesIn_append [] hm i hcalm with ⟨top, left, hstack, -⟩ | hall
  · rw [hstack, List.length_append, List.length_cons] at ended
    omega
  · exact hall

/-- A machine that has given up has nothing left to do. -/
theorem stack_iterate_of_panic {message : String} {i n : Nat} (hi : i < n)
    (hpanic : (step^[i] m).next? = some (.panic message)) : (step^[n] m).stack = [] := by
  obtain ⟨rest, hm⟩ := stack_of_next? hpanic
  have hempty : (step^[i + 1] m).stack = [] := by
    rw [Function.iterate_succ_apply', step, hm]
    rfl
  obtain ⟨j, rfl⟩ := Nat.exists_eq_add_of_le' (Nat.succ_le_of_lt hi)
  rw [Function.iterate_add_apply, Function.iterate_fixed (step_of_rest hempty)]
  exact hempty

/-- **Where getters make no watchers, a notification comes to its end**, and has then run all the watchers of
its list. -/
theorem Modest.ends_notification {ws : List WatcherId} {f : Frame σ} (modest : m.Modest)
    (hm : m.stack = .pending ws :: f :: base) :
    ∃ n, (step^[n] m).stack = f :: base ∧ updatesIn (f :: base).length n m = ws := by
  obtain ⟨m', ⟨n, rfl⟩, hstack, -⟩ := returns_pending (nestedReturn _) modest hm
  have hcalm : ∀ i < n, ∀ message, (step^[i] m).next? ≠ some (.panic message) := fun i hi message hpanic => by
    cases hstack.symm.trans (stack_iterate_of_panic hi hpanic)
  exact ⟨n, hstack, updatesIn_eq hm (Nat.le_refl n) hcalm (Nat.le_of_eq (congrArg List.length hstack))⟩

end Machine

/-! ## Histories of one dep -/

/-- A machine with the watchers that were ever to be subscribed to a dep, one after another. Programs are
given to it while it is at rest, and watchers are used by those who hold them. -/
inductive Enrolled (host : σ) (d : DepId) : Machine σ → List WatcherId → Prop where
  | start : Enrolled host d (Machine.start host) []
  | perform (m : Machine σ) (asked : List WatcherId) (p : Program σ) (before : Enrolled host d m asked)
      (rest : m.stack = []) : Enrolled host d (m.asked p) asked
  | step (m : Machine σ) (asked : List WatcherId) (before : Enrolled host d m asked)
      (careful : m.careful) : Enrolled host d m.step (asked ++ (m.subscribes? d).toList)

/-- The live subscribers of a dep are those who ever asked, in the order in which they first did. -/
structure Machine.Lists (m : Machine σ) (d : DepId) (asked : List WatcherId) : Prop where
  live : m.sight.subscribers d = asked.eraseDups.filter m.sight.alive
  /-- No subscriber has not asked. -/
  listed : ∀ w ∈ m.state.heap.subscribers d, w ∈ asked
  made : ∀ w ∈ asked, w.index < m.state.watchers.size

/-- To be given a program lets nobody die. -/
theorem Machine.alive_asked {m : Machine σ} (rest : m.stack = []) (p : Program σ) :
    (m.asked p).sight.alive = m.sight.alive := funext fun w => by
  rw [Sight.alive, Sight.alive, sight, sight, rest]
  rfl

theorem Machine.Lists.ask {m : Machine σ} {d : DepId} {asked : List WatcherId} (h : m.Lists d asked)
    (rest : m.stack = []) (p : Program σ) : (m.asked p).Lists d asked := by
  refine ⟨?_, h.listed, h.made⟩
  rw [Sight.subscribers, alive_asked rest p]
  exact h.live

namespace Enrolled

open Machine

variable {host : σ} {d : DepId} {m : Machine σ} {asked : List WatcherId}

theorem history (h : Enrolled host d m asked) : ∃ es, History host m es := by
  induction h with
  | start => exact ⟨[], .start⟩
  | perform m asked p before rest ih =>
    obtain ⟨es, hm⟩ := ih
    exact ⟨es, hm.perform m es p rest⟩
  | step m asked before careful ih =>
    obtain ⟨es, hm⟩ := ih
    exact ⟨_, hm.step m es⟩

/-- A list of watchers that exist, after a careful step, contains the fewer ones that live. -/
theorem filter_alive_step {es : List Event} {ws : List WatcherId} (hm : History host m es)
    (careful : m.careful) (made : ∀ w ∈ ws, w.index < m.state.watchers.size) :
    (ws.filter m.sight.alive).filter m.step.sight.alive = ws.filter m.step.sight.alive := by
  rw [List.filter_filter]
  refine List.filter_congr fun w hw => Bool.eq_iff_iff.2 ?_
  rw [Bool.and_eq_true]
  exact and_iff_left_of_imp fun h => alive_of_step hm.sound careful (made w hw) h

theorem lists_step {es : List Event} (h : m.Lists d asked) (hm : History host m es)
    (careful : m.careful) : m.step.Lists d (asked ++ (m.subscribes? d).toList) := by
  have hsize : m.state.watchers.size ≤ m.step.state.watchers.size := size_step hm.paired
  have hmade : ∀ w ∈ asked ++ (m.subscribes? d).toList, w.index < m.state.watchers.size := by
    intro w hw
    rcases List.mem_append.1 hw with hw | hw
    · exact h.made w hw
    · exact (alive_of_subscribes? hm.disciplined careful (Option.mem_toList.1 hw)).2
  have hsubscribers : ∀ w ∈ enlist (m.state.heap.subscribers d) (m.subscribes? d),
      w ∈ asked ++ (m.subscribes? d).toList := fun w hw =>
    (List.mem_append.1 (mem_enlist hw)).elim (fun hw => List.mem_append_left _ (h.listed w hw))
      (List.mem_append_right _)
  -- Those who live were alive before, and of these the two lists hold the same.
  have hsame : (m.state.heap.subscribers d).filter m.step.sight.alive =
      asked.eraseDups.filter m.step.sight.alive := by
    have hasked : ∀ w ∈ asked.eraseDups, w.index < m.state.watchers.size := fun w hw =>
      h.made w (List.mem_eraseDups.1 hw)
    have hlive := congrArg (List.filter m.step.sight.alive) h.live
    rwa [filter_alive_step hm careful hasked, Sight.subscribers, show m.sight.state = m.state from rfl,
      filter_alive_step hm careful fun w hw => h.made w (h.listed w hw)] at hlive
  have hmem : ∀ w, m.subscribes? d = some w →
      (w ∈ m.state.heap.subscribers d ↔ w ∈ asked.eraseDups) := by
    intro w hw
    refine ⟨fun hs => List.mem_eraseDups.2 (h.listed w hs), fun ha => ?_⟩
    have halive := (alive_of_subscribes? hm.disciplined careful hw).1
    have hlisted : w ∈ m.sight.subscribers d := h.live ▸ List.mem_filter.2 ⟨ha, halive⟩
    exact (mem_subscribers_iff.1 hlisted).1
  refine ⟨?_, fun w hw => ?_, fun w hw => Nat.lt_of_lt_of_le (hmade w hw) hsize⟩
  · show (m.step.state.heap.subscribers d).filter m.step.sight.alive = _
    rw [subscribers_step, eraseDups_append_toList]
    split
    · next hnotified =>
      rw [subscribes?_of_notified? hnotified d]
      exact (filter_alive_step hm careful fun w hw => h.made w (h.listed w hw)).trans hsame
    · exact filter_enlist hsame hmem
  · rw [subscribers_step] at hw
    split at hw
    · exact List.mem_append_left _ (h.listed w (mem_subscribers_iff.1 hw).1)
    · exact hsubscribers w hw

theorem iterate (h : Enrolled host d m asked) (n : Nat) (careful : ∀ i < n, (Machine.step^[i] m).careful) :
    Enrolled host d (Machine.step^[n] m) (asked ++ m.subscribedIn d n) := by
  induction n generalizing m asked with
  | zero =>
    rw [subscribedIn, List.append_nil]
    exact h
  | succ n ih =>
    rw [subscribedIn, ← List.append_assoc]
    exact ih (h.step m asked (careful 0 (Nat.succ_pos n))) fun i hi => careful (i + 1) (Nat.succ_lt_succ hi)

theorem lists (h : Enrolled host d m asked) : m.Lists d asked := by
  induction h with
  | start =>
    refine ⟨rfl, fun w hw => ?_, fun w hw => absurd hw List.not_mem_nil⟩
    have hnone : (Machine.start host).state.heap.subscribers d = [] :=
      Heap.subscribers_of_le (Nat.zero_le d.index)
    rwa [hnone] at hw
  | perform m asked p before rest ih => exact ih.ask rest p
  | step m asked before careful ih =>
    obtain ⟨es, hm⟩ := before.history
    exact lists_step ih hm careful

/-- **The order of subscribers and of a notification.** However watchers are subscribed, dropped and
notified, within getters and notifications of the same dep: the live subscribers of a dep are those who
ever asked for it, each one once, in the order in which they first did. A notification forgets the dead,
and keeps the others in that order. Of the watchers that lived and were subscribed at its start it runs one
after another, in that order, and when it is over it has run each of them once, and no other watcher. That it
comes to its end is certain where getters make no watchers and do not give up. Each of these runs is one turn
of the watcher: its getter is entered, or it is running and is asked to run again. -/
theorem snapshot (h : Enrolled host d m asked) :
    m.sight.subscribers d = asked.eraseDups.filter m.sight.alive ∧ (m.sight.subscribers d).Nodup ∧
    (m.notified? = some d →
      m.step.state.heap.subscribers d = m.sight.subscribers d ∧
      ((∀ w, (m.getter w).Modest) → ∃ n, (Machine.step^[n] m.step).stack.length ≤ m.stack.length ∧
        updatesIn m.stack.length n m.step = m.sight.subscribers d) ∧
      ∀ n, (∀ i < n, ∀ message, (Machine.step^[i] m.step).next? ≠ some (.panic message)) →
        updatesIn m.stack.length n m.step <+: m.sight.subscribers d ∧
        ((∃ i ≤ n, (Machine.step^[i] m.step).stack.length ≤ m.stack.length) →
          updatesIn m.stack.length n m.step = m.sight.subscribers d) ∧
        ∀ i < n, ∀ w, (Machine.step^[i] m.step).updates? m.stack.length = some w →
          (Machine.step^[i] m.step).turns w =
            if (Machine.step^[i] m.step).state.isRunning w then [.asked] else [.entered]) := by
  have hlive := h.lists.live
  refine ⟨hlive, ?_, fun hnotified => ?_⟩
  · rw [hlive]
    exact (nodup_eraseDups asked).filter _
  · obtain ⟨hpruned, -, p, next, rest, hm, -, hstack⟩ := step_of_notified? hnotified
    have hdepth : m.stack.length = (Frame.body next :: rest).length := by rw [hm]; rfl
    rw [hdepth]
    refine ⟨hpruned, fun modest => ?_, fun n calm => ⟨?_, ?_, fun i _ w hw => (turns_of_updates? hw).1⟩⟩
    · obtain ⟨es, hhistory⟩ := h.history
      have hmodest : m.step.Modest := by
        refine ⟨fun w => ?_, (hhistory.step m es).paired⟩
        rw [Machine.getter, getters_of_notified? hnotified]
        exact modest w
      obtain ⟨n, hover, hall⟩ := hmodest.ends_notification hstack
      exact ⟨n, Nat.le_of_eq (congrArg List.length hover), hall⟩
    · rcases updatesIn_append [] hstack n calm with ⟨-, left, -, happend⟩ | hall
      · exact ⟨left, happend⟩
      · rw [hall]
    · rintro ⟨i, hi, hover⟩
      exact updatesIn_eq hstack hi calm hover

end Enrolled

/-- If there is a second watcher, drops it and subscribes it again. -/
def Program.droppingOther : Program Unit :=
  .look fun s =>
    if s.state.watchers.size = 2 then .release ⟨1⟩ (.edit (.subscribe ⟨0⟩ ⟨1⟩) .done) else .done

/-- Two watchers are subscribed to a dep, the first one twice, and the dep is notified. -/
def Program.notifyingDropped : Program Unit :=
  .edit .newDep <| .watch .droppingOther fun a => .watch .done fun b =>
    .edit (.subscribe ⟨0⟩ a) <| .edit (.subscribe ⟨0⟩ b) <| .edit (.subscribe ⟨0⟩ a) <| .notify ⟨0⟩ .done

/-- The machine where the dep is about to be notified. -/
def Machine.notifyingDropped : Machine Unit := Machine.step^[13] ((start ()).asked .notifyingDropped)

theorem Enrolled.notifyingDropped : Enrolled () ⟨0⟩ Machine.notifyingDropped [⟨0⟩, ⟨1⟩, ⟨0⟩] := by
  have hasked : Enrolled () ⟨0⟩ ((Machine.start ()).asked .notifyingDropped) [] :=
    Enrolled.start.perform (Machine.start ()) [] .notifyingDropped rfl
  exact hasked.iterate 13 (by decide)

/-- The second watcher is dropped while the dep is notified, and is run nevertheless. Only the first one is
then left. -/
theorem Enrolled.snapshot_notifyingDropped :
    Enrolled () ⟨0⟩ Machine.notifyingDropped [⟨0⟩, ⟨1⟩, ⟨0⟩] ∧
      Machine.updatesIn 1 11 Machine.notifyingDropped.step = [⟨0⟩, ⟨1⟩] ∧
      (Machine.step^[11] Machine.notifyingDropped.step).sight.subscribers ⟨0⟩ = [⟨0⟩] := by
  have henrolled := Enrolled.notifyingDropped
  have hlive : Machine.notifyingDropped.sight.subscribers ⟨0⟩ = [⟨0⟩, ⟨1⟩] := by decide
  have hdepth : Machine.notifyingDropped.stack.length = 1 := by decide
  have hcalm : ∀ i < 11, (Machine.step^[i] Machine.notifyingDropped.step).givesUp = false := by decide
  obtain ⟨-, -, hnotify⟩ := henrolled.snapshot
  obtain ⟨-, -, hruns⟩ := hnotify (by decide)
  obtain ⟨-, hall, -⟩ := hruns 11 fun i hi => Machine.next?_ne_panic (hcalm i hi)
  rw [hdepth, hlive] at hall
  exact ⟨henrolled, hall ⟨11, Nat.le_refl 11, by decide⟩, by decide⟩

end LiveMarkup

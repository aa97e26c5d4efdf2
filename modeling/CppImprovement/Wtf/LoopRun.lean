import CppImprovement.Core.OrderedMap
import CppImprovement.Wtf.MessageLoopWin
import Mathlib.Data.Int.Order.Basic
import Mathlib.Data.List.Perm.Basic

/-!
# What the message loop runs

`DoRun` starts the tasks of its queue one after the other, and after each of them it calls the
task observers. Tasks are posted by any thread, and the tasks themselves may post, add observers
and terminate the loop. Every call of `PostTask` gets a number, so that the trace of a run tells
the tasks apart; what the loop owes to them is stated on the trace.
-/

namespace CppImprovement.Wtf

variable {α : Type}

/-- The observers of a queue by their `intptr_t` key, as a `std::map`. -/
abbrev TaskObservers (α : Type) := OrderedMap (id : Int → Int) α

/-- A task as it was given to `PostTask`, with the number of the call. -/
structure Posted (α : Type) where
  number : Nat
  task : α
  targetTime : Int

/-- A message loop with its task observers. `notifying` has the observers that are still to be
called after the current task, once that task has returned. -/
structure LoopRun (α : Type) where
  loop : MessageLoopWin (Posted α)
  taskObservers : TaskObservers α
  notifying : Option (List α)
  posted : Nat

/-- An atomic step of some thread. -/
inductive RunStep (α : Type)
  | postTask (task : Option α) (targetTime : Int)
  | addTaskObserver (key : Int) (callback : Option α)
  | loop (i : LoopStep (Posted α))

/-- What happens in a run: a task is accepted by `RegisterTask`, an observer is added, a flush
reads the clock, a task starts at a time, it returns, an observer is called, `GetNextTaskToRun`
gives null to a flush, and `DoRun` returns. -/
inductive LoopEvent (α : Type)
  | registered (p : Posted α)
  | added (key : Int) (callback : α)
  | flush (now : Int) (last : Bool)
  | started (p : Posted α) (clock : Int)
  | finished
  | observed (callback : α)
  | nothing (now : Int) (last : Bool)
  | returned

namespace LoopRun

/-- `MessageLoopTaskQueues::GetObserversToNotify`. -/
def getObserversToNotify (observers : TaskObservers α) : List α :=
  observers.entries.map Prod.snd

/-- What a step of the loop thread shows, when it starts the given tasks. -/
def shownAt (clock : Int) (started : List (Posted α)) : Place → List (LoopEvent α)
  | .woken last => [.flush clock last]
  | .flushing now last =>
    match started with
    | [] => [.nothing now last]
    | p :: _ => [.started p clock]
  | .disposing => [.returned]
  | _ => []

/-- The next step of the loop thread: in `FlushTasks` a task is followed by the observers that
were there when it returned. -/
def advance (P : Platform (Posted α)) (s : LoopRun α) :
    Option (List (LoopEvent α) × LoopRun α) :=
  match s.loop.place, s.notifying with
  | .running _ _, none =>
    some ([.finished], { s with notifying := some (getObserversToNotify s.taskObservers) })
  | .running _ _, some (callback :: rest) =>
    some ([.observed callback], { s with notifying := some rest })
  | place, _ =>
    (s.loop.advance P).map fun r =>
      (shownAt s.loop.clock r.1 place, { s with loop := r.2, notifying := none })

/-- What the call of `PostTask` with the given index shows when it registers its task. -/
def shownRegistered (l : MessageLoopWin (Posted α)) (i : Nat) : List (LoopEvent α) :=
  match l.posting[i]? with
  | some (some p, _) => [.registered p]
  | _ => []

/-- One step. `PostTask` and `AddTaskObserver` check that they are not given null: the process
does not get past a check that fails. -/
def step (P : Platform (Posted α)) :
    RunStep α → LoopRun α → Option (List (LoopEvent α) × LoopRun α)
  | .postTask none _, _ => none
  | .postTask (some task) targetTime, s =>
    (MessageLoopWin.step P (.postTask (some ⟨s.posted, task, targetTime⟩) targetTime) s.loop).map
      fun r => ([], { s with loop := r.2, posted := s.posted + 1 })
  | .addTaskObserver _ none, _ => none
  | .addTaskObserver key (some callback), s =>
    some ([.added key callback],
      { s with taskObservers := s.taskObservers.insertOrAssign key callback })
  | .loop (.postTask _ _), _ => none
  | .loop (.registerTask i), s =>
    (MessageLoopWin.step P (.registerTask i) s.loop).map fun r =>
      (shownRegistered s.loop i, { s with loop := r.2 })
  | .loop .advance, s => s.advance P
  | .loop i, s => (MessageLoopWin.step P i s.loop).map fun r => ([], { s with loop := r.2 })

/-- A loop that has just been constructed: nothing is posted and there are no observers. -/
structure Constructed (P : Platform (Posted α)) (s : LoopRun α) : Prop where
  loop : s.loop.Constructed P
  posting : s.loop.posting = []
  taskObservers : s.taskObservers = OrderedMap.empty
  notifying : s.notifying = none

end LoopRun

/-! ## The contract -/

/-- The task that is registered. -/
def LoopEvent.registered? : LoopEvent α → Option (Posted α)
  | .registered p => some p
  | _ => none

/-- The task that is started. -/
def LoopEvent.started? : LoopEvent α → Option (Posted α)
  | .started p _ => some p
  | _ => none

/-- The observer that is called. -/
def LoopEvent.observed? : LoopEvent α → Option α
  | .observed callback => some callback
  | _ => none

/-- The event is the start of a flush. -/
def LoopEvent.isFlush : LoopEvent α → Bool
  | .flush _ _ => true
  | _ => false

/-- The event is the result of a call of `GetNextTaskToRun`. -/
def LoopEvent.isNext : LoopEvent α → Bool
  | .started _ _ => true
  | .nothing _ _ => true
  | _ => false

/-- The event is the return of a task. -/
def LoopEvent.isFinish : LoopEvent α → Bool
  | .finished => true
  | _ => false

/-- The tasks that `RegisterTask` has accepted, in this order. -/
def registeredTasks (tr : List (LoopEvent α)) : List (Posted α) :=
  tr.filterMap LoopEvent.registered?

/-- The tasks that were started, in this order. -/
def startedTasks (tr : List (LoopEvent α)) : List (Posted α) :=
  tr.filterMap LoopEvent.started?

/-- The observers that were called, in this order. -/
def observedCalls (tr : List (LoopEvent α)) : List α :=
  tr.filterMap LoopEvent.observed?

/-- An observer that is added replaces the one with the same key. -/
def LoopEvent.addTo (observers : TaskObservers α) :
    LoopEvent α → TaskObservers α
  | .added key callback => observers.insertOrAssign key callback
  | _ => observers

/-- The observers that are registered after a trace, in increasing order of their keys. -/
def observersAfter (tr : List (LoopEvent α)) : TaskObservers α :=
  tr.foldl LoopEvent.addTo OrderedMap.empty

/-- When the trace has got behind the start of a task and `GetNextTaskToRun` has not been called
since, the task has returned, and the observers that were registered at that moment have been
called once each and in the order of their keys, and no others. -/
def Notified (tr : List (LoopEvent α)) : Prop :=
  ∀ before p clock since, tr = before ++ .started p clock :: since →
    (∀ e ∈ since, e.isNext = false) →
    ∃ task calls, since = task ++ .finished :: calls ∧ (∀ e ∈ task, e.isFinish = false) ∧
      observedCalls task = [] ∧
      observedCalls calls =
        (observersAfter (before ++ .started p clock :: task)).entries.map Prod.snd

/-- The trace ends in a final flush that has read `now` and whose last call of `GetNextTaskToRun`
has been answered; every task that was registered before this call and is due at `now` has been
started exactly once. -/
def Flushed (tr : List (LoopEvent α)) : Prop :=
  ∃ before now during after,
    tr = (before ++ .flush now true :: during) ++ .nothing now true :: after ∧
    (∀ e ∈ during, e.isFlush = false) ∧ (∀ e ∈ after, e.isFlush = false ∧ e.isNext = false) ∧
    ∀ p ∈ registeredTasks (before ++ .flush now true :: during), p.targetTime ≤ now →
      ((startedTasks tr).map Posted.number).count p.number = 1

/-- What the loop owes to its tasks and observers. Tasks are told apart by their numbers; a task
is started at most once, and only when it was registered; when `DoRun` returns, the final flush
has started what it had to; no task starts before its time; and before `GetNextTaskToRun` is
called again, the observers of the last task have been called. -/
structure Contract (tr : List (LoopEvent α)) : Prop where
  numbers : ((registeredTasks tr).map Posted.number).Nodup
  once : ((startedTasks tr).map Posted.number).Nodup
  registered : startedTasks tr ⊆ registeredTasks tr
  final : Justified (fun past e => e = .returned → Flushed past) tr
  punctual : ∀ p clock, .started p clock ∈ tr → p.targetTime ≤ clock
  notifies : Justified (fun past e => e.isNext = true → Notified past) tr

/-! ## Growing traces -/

section traces

variable {tr o : List (LoopEvent α)} {e : LoopEvent α}

private theorem registeredTasks_append :
    registeredTasks (tr ++ o) = registeredTasks tr ++ registeredTasks o := List.filterMap_append

private theorem startedTasks_append : startedTasks (tr ++ o) = startedTasks tr ++ startedTasks o :=
  List.filterMap_append

private theorem observedCalls_append :
    observedCalls (tr ++ o) = observedCalls tr ++ observedCalls o :=
  List.filterMap_append

private theorem startedTasks_of_not_next (h : e.isNext = false) : startedTasks [e] = [] := by
  cases e with
  | started p clock => cases h
  | _ => rfl

private theorem startedTasks_of_nothing {now : Int} {last : Bool} :
    startedTasks [(.nothing now last : LoopEvent α)] = [] := rfl

private theorem observedCalls_of_none (h : e.observed? = none) : observedCalls [e] = [] := by
  rw [observedCalls, List.filterMap_cons_none h, List.filterMap_nil]

private theorem forall_mem_concat {Q : LoopEvent α → Prop} (h : ∀ x ∈ o, Q x) (he : Q e) :
    ∀ x ∈ o ++ [e], Q x := by
  intro x hx
  rcases List.mem_append.mp hx with hx | hx
  · exact h x hx
  · exact List.mem_singleton.mp hx ▸ he

private theorem notified_nil : Notified ([] : List (LoopEvent α)) := by
  intro before p clock since h
  cases before with
  | nil => cases h
  | cons x before => cases h

/-- The observers stay called, whatever happens until `GetNextTaskToRun` is called. -/
theorem Notified.concat (h : Notified tr) (hnext : e.isNext = false) (hcall : e.observed? = none) :
    Notified (tr ++ [e]) := by
  intro before p clock since heq hsince
  rcases concat_eq_append_cons.mp heq with ⟨-, -, rfl⟩ | ⟨mid, rfl, rfl⟩
  · cases hnext
  · obtain ⟨task, calls, rfl, hfinish, hnone, hcalls⟩ :=
      h before p clock mid rfl fun x hx => hsince x (List.mem_append_left _ hx)
    refine ⟨task, calls ++ [e], ?_, hfinish, hnone, ?_⟩
    · rw [List.append_assoc, List.cons_append]
    · rw [observedCalls_append, observedCalls_of_none hcall, List.append_nil]
      exact hcalls

/-- When `GetNextTaskToRun` gives null, no task is in progress. -/
theorem notified_nothing {now : Int} {last : Bool} : Notified (tr ++ [.nothing now last]) := by
  intro before p clock since heq hsince
  rcases concat_eq_append_cons.mp heq with ⟨-, -, h⟩ | ⟨mid, rfl, -⟩
  · cases h
  · have := hsince _ (List.mem_append_right mid (List.mem_singleton_self _))
    cases this

/-- The trace is in a flush that has read `now`. -/
def InFlush (now : Int) (last : Bool) (tr : List (LoopEvent α)) : Prop :=
  ∃ before during, tr = before ++ .flush now last :: during ∧ ∀ e ∈ during, e.isFlush = false

theorem InFlush.concat {now : Int} {last : Bool} (h : InFlush now last tr)
    (he : e.isFlush = false) : InFlush now last (tr ++ [e]) := by
  obtain ⟨before, during, rfl, hduring⟩ := h
  refine ⟨before, during ++ [e], ?_, forall_mem_concat hduring he⟩
  rw [List.append_assoc, List.cons_append]

theorem Flushed.concat (h : Flushed tr) (hflush : e.isFlush = false) (hnext : e.isNext = false) :
    Flushed (tr ++ [e]) := by
  obtain ⟨before, now, during, after, rfl, hduring, hafter, hstarted⟩ := h
  refine ⟨before, now, during, after ++ [e], ?_, hduring,
    forall_mem_concat hafter ⟨hflush, hnext⟩, fun p hp hdue => ?_⟩
  · rw [List.append_assoc, List.cons_append]
  · rw [startedTasks_append, startedTasks_of_not_next hnext, List.append_nil]
    exact hstarted p hp hdue

/-- What has happened since a task was started, when `notifying` has the observers that are still
to be called: the task still runs, or it has returned and the others have been called. -/
def Notifying (before : List (LoopEvent α)) (start : LoopEvent α) (since : List (LoopEvent α)) :
    Option (List α) → Prop
  | none => (∀ e ∈ since, e.isFinish = false) ∧ observedCalls since = []
  | some rest => ∃ task calls, since = task ++ .finished :: calls ∧
      (∀ e ∈ task, e.isFinish = false) ∧ observedCalls task = [] ∧
      observedCalls calls ++ rest = (observersAfter (before ++ start :: task)).entries.map Prod.snd

/-- The trace has got behind the start of a task, and some observers may still be to be called. -/
def InTask (notifying : Option (List α)) (tr : List (LoopEvent α)) : Prop :=
  ∃ before p clock since, tr = before ++ .started p clock :: since ∧
    (∀ e ∈ since, e.isNext = false) ∧ Notifying before (.started p clock) since notifying

private theorem inTask_started {p : Posted α} {clock : Int} :
    InTask none (tr ++ [.started p clock]) :=
  ⟨tr, p, clock, [], rfl, nofun, nofun, rfl⟩

/-- Other threads may do something while the task runs. -/
theorem InTask.concat {notifying : Option (List α)} (h : InTask notifying tr)
    (hnext : e.isNext = false) (hfinish : e.isFinish = false) (hcall : e.observed? = none) :
    InTask notifying (tr ++ [e]) := by
  obtain ⟨before, p, clock, since, rfl, hsince, hrest⟩ := h
  refine ⟨before, p, clock, since ++ [e], ?_, forall_mem_concat hsince hnext, ?_⟩
  · rw [List.append_assoc, List.cons_append]
  · cases notifying with
    | none =>
      refine ⟨forall_mem_concat hrest.1 hfinish, ?_⟩
      rw [observedCalls_append, observedCalls_of_none hcall, hrest.2, List.append_nil]
    | some rest =>
      obtain ⟨task, calls, rfl, htask, hnone, hcalls⟩ := hrest
      refine ⟨task, calls ++ [e], ?_, htask, hnone, ?_⟩
      · rw [List.append_assoc, List.cons_append]
      · rw [observedCalls_append, observedCalls_of_none hcall, List.append_nil]
        exact hcalls

/-- The task returns, and the observers are collected. -/
theorem InTask.finish (h : InTask none tr) :
    InTask (some ((observersAfter tr).entries.map Prod.snd)) (tr ++ [.finished]) := by
  obtain ⟨before, p, clock, since, rfl, hsince, hfinish, hnone⟩ := h
  refine ⟨before, p, clock, since ++ [.finished], ?_, forall_mem_concat hsince rfl, since, [], rfl,
    hfinish, hnone, rfl⟩
  rw [List.append_assoc, List.cons_append]

/-- The next observer is called. -/
theorem InTask.observe {callback : α} {rest : List α} (h : InTask (some (callback :: rest)) tr) :
    InTask (some rest) (tr ++ [.observed callback]) := by
  obtain ⟨before, p, clock, since, rfl, hsince, task, calls, rfl, htask, hnone, hcalls⟩ := h
  refine ⟨before, p, clock, (task ++ .finished :: calls) ++ [.observed callback], ?_,
    forall_mem_concat hsince rfl, task, calls ++ [.observed callback], ?_, htask, hnone, ?_⟩
  · rw [List.append_assoc, List.cons_append]
  · rw [List.append_assoc, List.cons_append]
  · rw [observedCalls_append, List.append_assoc]
    exact hcalls

/-- When no observer is left, they have all been called. -/
theorem InTask.notified (h : InTask (some []) tr) : Notified tr := by
  obtain ⟨before, p, clock, since, rfl, hsince, task, calls, rfl, htask, hnone, hcalls⟩ := h
  intro before' p' clock' since' heq hsince'
  obtain ⟨rfl, hstart, rfl⟩ := append_cons_unique heq rfl rfl hsince hsince'
  cases hstart
  rw [List.append_nil] at hcalls
  exact ⟨task, calls, rfl, htask, hnone, hcalls⟩

end traces

/-! ## Where the tasks are -/

namespace LoopRun

/-- The tasks of the calls of `PostTask` that are on their way to `RegisterTask`. -/
def postingTasks (s : LoopRun α) : List (Posted α) := s.loop.posting.filterMap Prod.fst

/-- The tasks in the queue. -/
def pendingTasks (s : LoopRun α) : List (Posted α) := s.loop.pending.filterMap DelayedTask.task

/-- `DoRun` has returned for good. -/
def Ended (s : LoopRun α) : Prop := s.loop.place = .outside ∧ s.loop.terminated = true

/-- Every task stands in one place: it is on its way, or it was registered and is in the queue or
was started; only when `DoRun` has ended, tasks may have been dropped. -/
structure Accounts (tr : List (LoopEvent α)) (s : LoopRun α) : Prop where
  posting : ∀ e ∈ s.loop.posting, ∃ p : Posted α, e = (some p, p.targetTime)
  pending : ∀ d ∈ s.loop.pending, ∃ p, d.task = some p ∧ d.targetTime = p.targetTime
  fresh : ((registeredTasks tr ++ s.postingTasks).map Posted.number).Nodup
  numbers : ∀ p ∈ registeredTasks tr ++ s.postingTasks, p.number < s.posted
  conserved : ∃ dropped, (registeredTasks tr).Perm (startedTasks tr ++ s.pendingTasks ++ dropped) ∧
    (dropped = [] ∨ s.Ended)

section accounts

variable {tr o : List (LoopEvent α)} {s s' : LoopRun α}

private theorem Accounts.of_constructed {P : Platform (Posted α)} (h : s.Constructed P) :
    Accounts [] s where
  posting e he := by
    rw [h.posting] at he
    cases he
  pending d hd := by
    rw [MessageLoopWin.pending, pending_of_entry h.loop.entry] at hd
    cases hd
  fresh := by
    rw [postingTasks, h.posting]
    exact List.nodup_nil
  numbers p hp := by
    rw [postingTasks, h.posting] at hp
    cases hp
  conserved := by
    rw [pendingTasks, MessageLoopWin.pending, pending_of_entry h.loop.entry]
    exact ⟨[], List.Perm.refl _, Or.inl rfl⟩

private theorem Accounts.nodup_registered (h : Accounts tr s) :
    ((registeredTasks tr).map Posted.number).Nodup := by
  have hfresh := h.fresh
  rw [List.map_append] at hfresh
  exact hfresh.of_append_left

/-- The tasks that were started are some of those that were registered. -/
theorem Accounts.started (h : Accounts tr s) :
    ((startedTasks tr).map Posted.number).Nodup ∧ startedTasks tr ⊆ registeredTasks tr := by
  obtain ⟨dropped, hperm, -⟩ := h.conserved
  have hnodup := (hperm.map Posted.number).nodup_iff.mp h.nodup_registered
  rw [List.append_assoc, List.map_append] at hnodup
  refine ⟨hnodup.of_append_left, fun p hp => hperm.symm.subset ?_⟩
  rw [List.append_assoc]
  exact List.mem_append_left _ hp

/-- Nothing is registered, started or taken out of the queue. -/
theorem Accounts.of_eq (h : Accounts tr s) (hreg : registeredTasks o = [])
    (hstart : startedTasks o = []) (hposting : s'.loop.posting = s.loop.posting)
    (hpending : s'.loop.pending = s.loop.pending) (hposted : s.posted ≤ s'.posted)
    (hended : s.Ended → s'.Ended) : Accounts (tr ++ o) s' where
  posting := by
    rw [hposting]
    exact h.posting
  pending := by
    rw [hpending]
    exact h.pending
  fresh := by
    rw [registeredTasks_append, hreg, List.append_nil, postingTasks, hposting]
    exact h.fresh
  numbers p hp := by
    rw [registeredTasks_append, hreg, List.append_nil, postingTasks, hposting] at hp
    exact Nat.lt_of_lt_of_le (h.numbers p hp) hposted
  conserved := by
    obtain ⟨dropped, hperm, hdropped⟩ := h.conserved
    refine ⟨dropped, ?_, hdropped.imp_right hended⟩
    rw [registeredTasks_append, startedTasks_append, hreg, hstart, List.append_nil,
      List.append_nil, pendingTasks, hpending]
    exact hperm

/-- A call of `PostTask` passes the test of `terminated_` and takes the next number. -/
theorem Accounts.post (h : Accounts tr s) {task : α} {t : Int} :
    Accounts tr { s with
      loop := { s.loop with
        posting := s.loop.posting ++ [(some ⟨s.posted, task, t⟩, t)] }
      posted := s.posted + 1 } := by
  have htasks : ({ s with
      loop := { s.loop with posting := s.loop.posting ++ [(some ⟨s.posted, task, t⟩, t)] }
      posted := s.posted + 1 } : LoopRun α).postingTasks =
      s.postingTasks ++ [⟨s.posted, task, t⟩] := by
    rw [postingTasks, List.filterMap_append]
    rfl
  refine ⟨?_, h.pending, ?_, ?_, h.conserved⟩
  · intro e he
    rcases List.mem_append.mp he with he | he
    · exact h.posting e he
    · exact ⟨_, List.mem_singleton.mp he⟩
  · rw [htasks, ← List.append_assoc, List.map_append, List.nodup_append]
    refine ⟨h.fresh, List.nodup_singleton _, ?_⟩
    intro n hn m hm
    obtain ⟨p, hp, rfl⟩ := List.mem_map.mp hn
    rw [List.mem_singleton.mp hm]
    exact Nat.ne_of_lt (h.numbers p hp)
  · intro p hp
    rw [htasks, ← List.append_assoc] at hp
    rcases List.mem_append.mp hp with hp | hp
    · exact Nat.lt_succ_of_lt (h.numbers p hp)
    · rw [List.mem_singleton.mp hp]
      exact Nat.lt_succ_self _

/-- `RegisterTask` accepts a task that was on its way. -/
theorem Accounts.register (h : Accounts tr s) {i : Nat} {p : Posted α} {order : BitVec 64}
    {l : MessageLoopWin (Posted α)} (hi : s.loop.posting[i]? = some (some p, p.targetTime))
    (hposting : l.posting = s.loop.posting.eraseIdx i)
    (hpending : l.pending = s.loop.pending ++ [⟨order, some p, p.targetTime⟩])
    (hended : s.Ended → { s with loop := l }.Ended) :
    Accounts (tr ++ [.registered p]) { s with loop := l } := by
  obtain ⟨hlt, hget⟩ := List.getElem?_eq_some_iff.mp hi
  have hmoved : (p :: { s with loop := l }.postingTasks).Perm s.postingTasks := by
    have hperm := (List.getElem_cons_eraseIdx_perm hlt).filterMap Prod.fst
    rw [hget] at hperm
    rw [postingTasks, hposting]
    exact hperm
  have hregistered : registeredTasks (tr ++ [.registered p]) = registeredTasks tr ++ [p] :=
    registeredTasks_append
  have hall : (registeredTasks (tr ++ [.registered p]) ++ { s with loop := l }.postingTasks).Perm
      (registeredTasks tr ++ s.postingTasks) := by
    rw [hregistered, List.append_assoc]
    exact hmoved.append_left _
  refine ⟨?_, ?_, ?_, ?_, ?_⟩
  · intro e he
    rw [hposting] at he
    exact h.posting e (List.mem_of_mem_eraseIdx he)
  · intro d hd
    rw [hpending] at hd
    rcases List.mem_append.mp hd with hd | hd
    · exact h.pending d hd
    · rw [List.mem_singleton.mp hd]
      exact ⟨p, rfl, rfl⟩
  · exact (hall.map Posted.number).nodup_iff.mpr h.fresh
  · exact fun q hq => h.numbers q (hall.subset hq)
  · obtain ⟨dropped, hperm, hdropped⟩ := h.conserved
    refine ⟨dropped, ?_, hdropped.imp_right hended⟩
    have hstarted : startedTasks (tr ++ [.registered p]) = startedTasks tr := by
      rw [startedTasks_append]
      exact List.append_nil _
    have htasks : { s with loop := l }.pendingTasks = s.pendingTasks ++ [p] := by
      rw [pendingTasks, hpending, List.filterMap_append]
      rfl
    rw [hregistered, hstarted, htasks, ← List.append_assoc (startedTasks tr), List.append_assoc]
    refine (hperm.append_right [p]).trans ?_
    rw [List.append_assoc]
    exact List.perm_append_comm.append_left _

/-- A task that is due is taken out of the queue and started. -/
theorem Accounts.start (h : Accounts tr s) {p : Posted α} {clock : Int} {d : DelayedTask (Posted α)}
    {l : MessageLoopWin (Posted α)} {notifying : Option (List α)} (hplace : s.loop.place ≠ .outside)
    (hd : d.task = some p) (hposting : l.posting = s.loop.posting)
    (htook : (d :: l.pending).Perm s.loop.pending) :
    Accounts (tr ++ [.started p clock]) { s with loop := l, notifying := notifying } := by
  have hregistered : registeredTasks (tr ++ [.started p clock]) = registeredTasks tr := by
    rw [registeredTasks_append]
    exact List.append_nil _
  refine ⟨?_, ?_, ?_, ?_, ?_⟩
  · rw [hposting]
    exact h.posting
  · exact fun x hx => h.pending x (htook.subset (List.mem_cons_of_mem d hx))
  · rw [hregistered, postingTasks, hposting]
    exact h.fresh
  · rw [hregistered, postingTasks, hposting]
    exact h.numbers
  · obtain ⟨dropped, hperm, hdropped⟩ := h.conserved
    have hnone : dropped = [] := hdropped.resolve_right fun hended => hplace hended.1
    refine ⟨[], ?_, Or.inl rfl⟩
    have htasks : (p :: l.pending.filterMap DelayedTask.task).Perm s.pendingTasks := by
      have := htook.filterMap DelayedTask.task
      rwa [List.filterMap_cons_some hd] at this
    rw [hnone, List.append_nil] at hperm
    rw [hregistered, startedTasks_append, List.append_nil, List.append_assoc]
    exact hperm.trans (htasks.symm.append_left _)

/-- `DoRun` ends with the tasks in the queue dropped. -/
theorem Accounts.drop (h : Accounts tr s) {l : MessageLoopWin (Posted α)}
    {notifying : Option (List α)} (hplace : s.loop.place ≠ .outside)
    (hposting : l.posting = s.loop.posting) (hpending : l.pending = [])
    (hended : { s with loop := l }.Ended) :
    Accounts (tr ++ [.returned]) { s with loop := l, notifying := notifying } := by
  have hregistered : registeredTasks (tr ++ [.returned]) = registeredTasks tr := by
    rw [registeredTasks_append]
    exact List.append_nil _
  refine ⟨?_, ?_, ?_, ?_, ?_⟩
  · rw [hposting]
    exact h.posting
  · rw [hpending]
    exact nofun
  · rw [hregistered, postingTasks, hposting]
    exact h.fresh
  · rw [hregistered, postingTasks, hposting]
    exact h.numbers
  · obtain ⟨dropped, hperm, hdropped⟩ := h.conserved
    have hnone : dropped = [] := hdropped.resolve_right fun hended => hplace hended.1
    refine ⟨s.pendingTasks, ?_, Or.inr hended⟩
    have htasks : { s with loop := l, notifying := notifying }.pendingTasks = [] := by
      rw [pendingTasks, hpending]
      rfl
    have hstarted : startedTasks (tr ++ [.returned]) = startedTasks tr := by
      rw [startedTasks_append]
      exact List.append_nil _
    rw [hnone, List.append_nil] at hperm
    rw [hregistered, hstarted, htasks, List.append_nil]
    exact hperm

/-- When nothing in the queue is due, every registered task that is due was started once. -/
theorem Accounts.started_of_due (h : Accounts tr s) {now : Int} (hplace : s.loop.place ≠ .outside)
    (hlater : ∀ d ∈ s.loop.pending, now < d.targetTime) {p : Posted α}
    (hp : p ∈ registeredTasks tr) (hdue : p.targetTime ≤ now) :
    ((startedTasks tr).map Posted.number).count p.number = 1 := by
  obtain ⟨dropped, hperm, hdropped⟩ := h.conserved
  have hnone : dropped = [] := hdropped.resolve_right fun hended => hplace hended.1
  rw [hnone, List.append_nil] at hperm
  refine List.count_eq_one_of_mem h.started.1 (List.mem_map_of_mem ?_)
  refine (List.mem_append.mp (hperm.subset hp)).resolve_right fun hpending => ?_
  obtain ⟨d, hd, hdp⟩ := List.mem_filterMap.mp hpending
  obtain ⟨q, hq, ht⟩ := h.pending d hd
  have hlt := hlater d hd
  rw [hq] at hdp
  cases hdp
  omega

end accounts

/-! ## All interleavings -/

end LoopRun

/-- The loop thread is in what `DoRun` does after `Run`. -/
def Place.isLast : Place → Bool
  | .woken last => last
  | .flushing _ last => last
  | .running _ last => last
  | .disposing => true
  | _ => false

/-- The tasks are watched, and the last flush comes after the store to `terminated_`. -/
structure MessageLoopWin.Regular {τ : Type} (P : Platform τ) (l : MessageLoopWin τ) : Prop where
  watched : l.Watched P
  terminated : l.place.isLast = true → l.terminated = true

namespace MessageLoopWin

variable {τ : Type} {P : Platform τ} {l l' : MessageLoopWin τ} {o : List τ}

theorem Regular.advance (h : l.Regular P) (hstep : l.advance P = some (o, l')) :
    l'.Regular P := by
  refine ⟨h.watched.advance hstep, ?_⟩
  have hterminated := h.terminated
  rw [MessageLoopWin.advance] at hstep
  cases hplace : l.place with
  | flushing now last =>
    simp only [hplace] at hstep hterminated
    split at hstep
    · cases hstep
      exact hterminated
    · cases hstep
      cases last with
      | false => rintro ⟨⟩
      | true => exact hterminated
    · cases hstep
  | _ =>
    simp only [hplace] at hstep hterminated
    repeat' split at hstep
    all_goals cases hstep
    all_goals simp_all [Place.isLast]

theorem Regular.step (h : l.Regular P) {i : LoopStep τ}
    (hstep : MessageLoopWin.step P i l = some (o, l')) : l'.Regular P := by
  refine ⟨h.watched.step hstep, ?_⟩
  cases i with
  | advance => exact (h.advance hstep).terminated
  | setTerminated =>
    cases hstep
    exact fun _ => rfl
  | clearRunning =>
    cases hstep
    exact h.terminated
  | _ =>
    rw [MessageLoopWin.step] at hstep
    repeat' split at hstep
    all_goals cases hstep
    all_goals exact h.terminated

end MessageLoopWin

namespace LoopRun

/-- What the trace shows of the place the loop thread is at. -/
def Stage (tr : List (LoopEvent α)) (clock : Int) (notifying : Option (List α)) : Place → Prop
  | .flushing now last => now ≤ clock ∧ InFlush now last tr ∧ Notified tr
  | .running now last => now ≤ clock ∧ InFlush now last tr ∧ InTask notifying tr
  | .disposing => Flushed tr ∧ Notified tr
  | _ => Notified tr

/-- The state agrees with the trace, and the trace keeps the contract. -/
structure Sound (P : Platform (Posted α)) (tr : List (LoopEvent α)) (s : LoopRun α) : Prop where
  regular : s.loop.Regular P
  observers : observersAfter tr = s.taskObservers
  accounts : Accounts tr s
  stage : Stage tr s.loop.clock s.notifying s.loop.place
  final : Justified (fun past e => e = .returned → Flushed past) tr
  punctual : ∀ p clock, .started p clock ∈ tr → p.targetTime ≤ clock
  notifies : Justified (fun past e => e.isNext = true → Notified past) tr

section run

variable {P : Platform (Posted α)} {tr : List (LoopEvent α)} {s : LoopRun α}

theorem Constructed.sound (h : s.Constructed P) : Sound P [] s where
  regular := ⟨h.loop.watched, by rw [h.loop.place]; rintro ⟨⟩⟩
  observers := h.taskObservers.symm
  accounts := Accounts.of_constructed h
  stage := by
    rw [h.loop.place]
    exact notified_nil
  final := justified_nil
  punctual := by simp
  notifies := justified_nil

/-- The place keeps its meaning while other threads move. -/
theorem Stage.concat {clock clock' : Int} {notifying : Option (List α)} {place : Place}
    {e : LoopEvent α} (h : Stage tr clock notifying place) (hclock : clock ≤ clock')
    (hnext : e.isNext = false) (hflush : e.isFlush = false) (hfinish : e.isFinish = false)
    (hcall : e.observed? = none) : Stage (tr ++ [e]) clock' notifying place := by
  cases place with
  | flushing now last =>
    exact ⟨Int.le_trans h.1 hclock, h.2.1.concat hflush, h.2.2.concat hnext hcall⟩
  | running now last =>
    exact ⟨Int.le_trans h.1 hclock, h.2.1.concat hflush, h.2.2.concat hnext hfinish hcall⟩
  | disposing => exact ⟨h.1.concat hflush hnext, h.2.concat hnext hcall⟩
  | _ => exact Notified.concat h hnext hcall

theorem Stage.later {clock clock' : Int} {notifying : Option (List α)} {place : Place}
    (h : Stage tr clock notifying place) (hclock : clock ≤ clock') :
    Stage tr clock' notifying place := by
  cases place with
  | flushing now last => exact ⟨Int.le_trans h.1 hclock, h.2⟩
  | running now last => exact ⟨Int.le_trans h.1 hclock, h.2⟩
  | disposing => exact h
  | _ => exact h

/-- A step that shows nothing and leaves the tasks where they are. -/
theorem Sound.silent (h : Sound P tr s) {l : MessageLoopWin (Posted α)}
    {notifying : Option (List α)} {posted : Nat} (hregular : l.Regular P)
    (hposting : l.posting = s.loop.posting) (hpending : l.pending = s.loop.pending)
    (hposted : s.posted ≤ posted)
    (hended : s.Ended → l.place = .outside ∧ l.terminated = true)
    (hstage : Stage tr l.clock notifying l.place) :
    Sound P tr { s with loop := l, notifying := notifying, posted := posted } where
  regular := hregular
  observers := h.observers
  accounts := by
    have hsame : Accounts (tr ++ [])
        { s with loop := l, notifying := notifying, posted := posted } :=
      h.accounts.of_eq rfl rfl hposting hpending hposted hended
    rwa [List.append_nil] at hsame
  stage := hstage
  final := h.final
  punctual := h.punctual
  notifies := h.notifies

/-- A step that shows one event. -/
theorem Sound.shows (h : Sound P tr s) {s' : LoopRun α} {e : LoopEvent α}
    (hregular : s'.loop.Regular P) (hobservers : e.addTo s.taskObservers = s'.taskObservers)
    (haccounts : Accounts (tr ++ [e]) s')
    (hstage : Stage (tr ++ [e]) s'.loop.clock s'.notifying s'.loop.place)
    (hstart : ∀ p clock, e = .started p clock → p.targetTime ≤ clock)
    (hfinal : e = .returned → Flushed tr)
    (hnotified : e.isNext = true → Notified tr) : Sound P (tr ++ [e]) s' where
  regular := hregular
  observers := by
    rw [← hobservers, ← h.observers, observersAfter, List.foldl_append]
    rfl
  accounts := haccounts
  stage := hstage
  final := h.final.concat hfinal
  punctual p clock hp := by
    rcases List.mem_append.mp hp with hp | hp
    · exact h.punctual p clock hp
    · exact hstart p clock (List.mem_singleton.mp hp).symm
  notifies := h.notifies.concat hnotified

/-- A step that shows nothing and leaves the place alone. -/
theorem Sound.stays (h : Sound P tr s) {l : MessageLoopWin (Posted α)} (hregular : l.Regular P)
    (hposting : l.posting = s.loop.posting) (hpending : l.pending = s.loop.pending)
    (hclock : s.loop.clock ≤ l.clock) (hplace : l.place = s.loop.place)
    (hterminated : s.loop.terminated = true → l.terminated = true) :
    Sound P (tr ++ []) { s with loop := l } := by
  rw [List.append_nil]
  refine h.silent hregular hposting hpending (Nat.le_refl _) (fun hended => ?_) ?_
  · exact ⟨hplace.trans hended.1, hterminated hended.2⟩
  · rw [hplace]
    exact h.stage.later hclock

/-- A step of the clock, the timer or another queue. -/
theorem Sound.beside (h : Sound P tr s) {i : LoopStep (Posted α)}
    (hi : MessageLoopWin.isBeside i = true) {o : List (LoopEvent α)} {s' : LoopRun α}
    (hstep : (MessageLoopWin.step P i s.loop).map (fun r => ([], { s with loop := r.2 })) =
      some (o, s')) :
    Sound P (tr ++ o) s' := by
  obtain ⟨⟨started, l⟩, hl, heq⟩ := Option.map_eq_some_iff.mp hstep
  cases heq
  have hb := h.regular.watched.wired.beside hi hl
  exact h.stays (h.regular.step hl) hb.posting hb.pending hb.clock hb.place fun ht =>
    hb.terminated.trans ht

/-- `DoTerminate` signals the timer. -/
theorem Sound.wakeUpNow (h : Sound P tr s) {t : Int} {o : List (Posted α)}
    {l : MessageLoopWin (Posted α)}
    (hstep : MessageLoopWin.step P (.wakeUpNow t) s.loop = some (o, l)) :
    Sound P (tr ++ []) { s with loop := l } := by
  have hregular := h.regular.step hstep
  rw [MessageLoopWin.step] at hstep
  split at hstep
  · cases hstep
    exact h.stays hregular rfl rfl (Int.le_refl _) rfl id
  · cases hstep

/-- A call of `PostTask` tests `terminated_`. -/
theorem Sound.postTask (h : Sound P tr s) {task : α} {t : Int} {o : List (Posted α)}
    {l : MessageLoopWin (Posted α)}
    (hstep : MessageLoopWin.step P (.postTask (some ⟨s.posted, task, t⟩) t) s.loop = some (o, l)) :
    Sound P tr { s with loop := l, posted := s.posted + 1 } := by
  have hregular := h.regular.step hstep
  rw [MessageLoopWin.step] at hstep
  split at hstep
  · cases hstep
    exact h.silent hregular rfl rfl (Nat.le_succ _) id h.stage
  · cases hstep
    exact { h with regular := hregular, accounts := h.accounts.post }

theorem Sound.addTaskObserver (h : Sound P tr s) {key : Int} {callback : α} :
    Sound P (tr ++ [.added key callback])
      { s with taskObservers := s.taskObservers.insertOrAssign key callback } := by
  refine h.shows h.regular rfl ?_ ?_ nofun nofun nofun
  · exact h.accounts.of_eq rfl rfl rfl rfl (Nat.le_refl _) id
  · exact h.stage.concat (Int.le_refl _) rfl rfl rfl rfl

/-- `RegisterTask` accepts a task. -/
theorem Sound.registerTask (h : Sound P tr s) {i : Nat} {o : List (Posted α)}
    {l : MessageLoopWin (Posted α)}
    (hstep : MessageLoopWin.step P (.registerTask i) s.loop = some (o, l)) :
    Sound P (tr ++ shownRegistered s.loop i) { s with loop := l } := by
  have hregular := h.regular.step hstep
  rw [MessageLoopWin.step] at hstep
  split at hstep
  · rename_i task t hi
    cases hstep
    obtain ⟨p, hp⟩ := h.accounts.posting _ (List.mem_of_getElem? hi)
    cases hp
    rw [shownRegistered, hi]
    refine h.shows hregular rfl ?_ ?_ (by simp) (by simp) (by rintro ⟨⟩)
    · exact h.accounts.register hi rfl h.regular.watched.wired.register.2.2 id
    · exact h.stage.concat (Int.le_refl _) rfl rfl rfl rfl
  · cases hstep

/-- `GetNextTaskToRun` is called in a flush. -/
theorem Sound.next (h : Sound P tr s) {now : Int} {last : Bool}
    (hplace : s.loop.place = .flushing now last) {o : List (Posted α)}
    {l : MessageLoopWin (Posted α)} (hstep : s.loop.advance P = some (o, l)) :
    Sound P (tr ++ shownAt s.loop.clock o (.flushing now last))
      { s with loop := l, notifying := none } := by
  have hregular := h.regular.advance hstep
  have hstage := h.stage
  rw [hplace] at hstage
  obtain ⟨hclock, hflush, hnotified⟩ := hstage
  have hne : s.loop.place ≠ .outside := by
    rw [hplace]
    rintro ⟨⟩
  obtain ⟨r, u, hr, -, -, htook⟩ := h.regular.watched.wired.take (t := now)
  simp only [MessageLoopWin.advance, hplace, hr] at hstep
  rcases htook with ⟨rfl, hpending, hlater⟩ | ⟨d, rfl, hdue, hperm⟩
  · cases hstep
    have haccounts : Accounts (tr ++ [.nothing now last])
        { s with
          loop := { s.loop.answered u with place := if last then .disposing else .testing }
          notifying := none } :=
      h.accounts.of_eq rfl rfl rfl hpending (Nat.le_refl _) fun hended => absurd hended.1 hne
    refine h.shows hregular rfl haccounts ?_ (by simp) (by simp) fun _ => hnotified
    cases last with
    | false => exact notified_nothing
    | true =>
      obtain ⟨before, during, rfl, hduring⟩ := hflush
      refine ⟨⟨before, now, during, [], rfl, hduring, by simp, fun p hp hdue => ?_⟩,
        notified_nothing⟩
      rw [startedTasks_append, startedTasks_of_nothing, List.append_nil]
      exact h.accounts.started_of_due hne hlater hp hdue
  · obtain ⟨p, hp, htime⟩ := h.accounts.pending d (hperm.subset (List.mem_cons_self ..))
    rw [hp] at hstep
    cases hstep
    refine h.shows hregular rfl ?_ ?_ ?_ (by simp) fun _ => hnotified
    · exact h.accounts.start hne hp rfl hperm
    · exact ⟨hclock, hflush.concat rfl, inTask_started⟩
    · intro q clock heq
      cases heq
      omega

/-- `DoRun` drops what is left in the queue and returns. -/
theorem Sound.dispose (h : Sound P tr s) (hplace : s.loop.place = .disposing)
    {o : List (Posted α)} {l : MessageLoopWin (Posted α)}
    (hstep : s.loop.advance P = some (o, l)) :
    Sound P (tr ++ shownAt s.loop.clock o .disposing) { s with loop := l, notifying := none } := by
  have hregular := h.regular.advance hstep
  have hterminated := h.regular.terminated
  have hstage := h.stage
  rw [hplace] at hterminated hstage
  obtain ⟨e, he, -⟩ := h.regular.watched.wired.entry
  have hpending : (s.loop.queues.setEntry s.loop.queueId
      { e with delayedTaskQueue := [] }).pending s.loop.queueId = [] := by
    rw [pending_setEntry, if_pos rfl]
  simp only [MessageLoopWin.advance, hplace, disposeTasks_known he, finalState] at hstep
  cases hstep
  refine h.shows hregular rfl ?_ ?_ (by simp) (fun _ => hstage.1) (by rintro ⟨⟩)
  · refine h.accounts.drop ?_ rfl hpending ⟨rfl, hterminated rfl⟩
    rw [hplace]
    rintro ⟨⟩
  · exact hstage.2.concat rfl rfl

/-- A step of the loop thread between the flushes. -/
theorem Sound.between (h : Sound P tr s) {l : MessageLoopWin (Posted α)}
    (hregular : l.Regular P) (hposting : l.posting = s.loop.posting)
    (hpending : l.pending = s.loop.pending)
    (hended : s.Ended → l.place = .outside ∧ l.terminated = true)
    (hstage : Stage tr l.clock none l.place) :
    Sound P (tr ++ []) { s with loop := l, notifying := none } := by
  rw [List.append_nil]
  exact h.silent hregular hposting hpending (Nat.le_refl _) hended hstage

/-- The task returns. -/
theorem Sound.finish (h : Sound P tr s) {now : Int} {last : Bool}
    (hplace : s.loop.place = .running now last) (hnotifying : s.notifying = none) :
    Sound P (tr ++ [.finished])
      { s with notifying := some (getObserversToNotify s.taskObservers) } := by
  have hstage := h.stage
  rw [hplace, hnotifying] at hstage
  refine h.shows h.regular rfl ?_ ?_ nofun nofun nofun
  · exact h.accounts.of_eq rfl rfl rfl rfl (Nat.le_refl _) id
  · rw [hplace, getObserversToNotify, ← h.observers]
    exact ⟨hstage.1, hstage.2.1.concat rfl, hstage.2.2.finish⟩

/-- An observer is called. -/
theorem Sound.observe (h : Sound P tr s) {now : Int} {last : Bool} {callback : α} {rest : List α}
    (hplace : s.loop.place = .running now last)
    (hnotifying : s.notifying = some (callback :: rest)) :
    Sound P (tr ++ [.observed callback]) { s with notifying := some rest } := by
  have hstage := h.stage
  rw [hplace, hnotifying] at hstage
  refine h.shows h.regular rfl ?_ ?_ nofun nofun nofun
  · exact h.accounts.of_eq rfl rfl rfl rfl (Nat.le_refl _) id
  · rw [hplace]
    exact ⟨hstage.1, hstage.2.1.concat rfl, hstage.2.2.observe⟩

/-- A step of the loop thread while no task is in progress. -/
theorem Sound.advance_loop (h : Sound P tr s)
    (hidle : ∀ now last, s.loop.place = .running now last → s.notifying = some [])
    {o : List (Posted α)} {l : MessageLoopWin (Posted α)}
    (hstep : s.loop.advance P = some (o, l)) :
    Sound P (tr ++ shownAt s.loop.clock o s.loop.place)
      { s with loop := l, notifying := none } := by
  have hregular := h.regular.advance hstep
  have hstage := h.stage
  have hended : s.loop.place ≠ .outside →
      s.Ended → l.place = .outside ∧ l.terminated = true :=
    fun hne hended => absurd hended.1 hne
  cases hplace : s.loop.place with
  | flushing now last => exact h.next hplace hstep
  | disposing => exact h.dispose hplace hstep
  | outside =>
    simp only [MessageLoopWin.advance, hplace] at hstep hstage
    split at hstep
    · cases hstep
      refine h.between hregular rfl rfl id ?_
      rw [hplace]
      exact hstage
    · rename_i hterminated
      cases hstep
      exact h.between hregular rfl rfl (fun hended => absurd hended.2 hterminated) hstage
  | entering =>
    simp only [MessageLoopWin.advance, hplace] at hstep hstage hended
    cases hstep
    exact h.between hregular rfl rfl (hended (by simp)) hstage
  | testing =>
    simp only [MessageLoopWin.advance, hplace] at hstep hstage hended
    split at hstep
    · cases hstep
      exact h.between hregular rfl rfl (hended (by simp)) hstage
    · cases hstep
      exact h.between hregular rfl rfl (hended (by simp)) hstage
  | leaving =>
    simp only [MessageLoopWin.advance, hplace] at hstep hstage hended
    cases hstep
    exact h.between hregular rfl rfl (hended (by simp)) hstage
  | waiting =>
    simp only [MessageLoopWin.advance, hplace] at hstep hstage hended
    split at hstep
    · cases hstep
      exact h.between hregular rfl rfl (hended (by simp)) hstage
    · cases hstep
  | woken last =>
    simp only [MessageLoopWin.advance, hplace] at hstep hstage hended
    cases hstep
    refine h.shows hregular rfl ?_ ?_ (by simp) (by simp) (by rintro ⟨⟩)
    · exact h.accounts.of_eq rfl rfl rfl rfl (Nat.le_refl _) (hended (by simp))
    · exact ⟨Int.le_refl _, ⟨tr, [], rfl, by simp⟩, Notified.concat hstage rfl rfl⟩
  | running now last =>
    rw [hplace, hidle now last hplace] at hstage
    simp only [MessageLoopWin.advance, hplace] at hstep hended
    cases hstep
    exact h.between hregular rfl rfl (hended (by simp))
      ⟨hstage.1, hstage.2.1, hstage.2.2.notified⟩

/-- The next step of the loop thread. -/
theorem Sound.advance (h : Sound P tr s) {o : List (LoopEvent α)} {s' : LoopRun α}
    (hstep : s.advance P = some (o, s')) : Sound P (tr ++ o) s' := by
  rw [LoopRun.advance] at hstep
  split at hstep
  · rename_i hplace hnotifying
    cases hstep
    exact h.finish hplace hnotifying
  · rename_i hplace hnotifying
    cases hstep
    exact h.observe hplace hnotifying
  · rename_i hnone hcons
    obtain ⟨⟨started, l⟩, hl, heq⟩ := Option.map_eq_some_iff.mp hstep
    cases heq
    refine h.advance_loop (fun now last hplace => ?_) hl
    cases hnotifying : s.notifying with
    | none => exact (hnone now last hplace hnotifying).elim
    | some calls =>
      cases calls with
      | nil => rfl
      | cons callback rest => exact (hcons now last callback rest hplace hnotifying).elim

/-- Every step of any thread keeps the loop sound. -/
theorem Sound.step (h : Sound P tr s) {i : RunStep α} {o : List (LoopEvent α)} {s' : LoopRun α}
    (hstep : LoopRun.step P i s = some (o, s')) : Sound P (tr ++ o) s' := by
  cases i with
  | postTask task t =>
    cases task with
    | none => cases hstep
    | some f =>
      obtain ⟨⟨started, l⟩, hl, heq⟩ := Option.map_eq_some_iff.mp hstep
      cases heq
      rw [List.append_nil]
      exact h.postTask hl
  | addTaskObserver key callback =>
    cases callback with
    | none => cases hstep
    | some f =>
      cases hstep
      exact h.addTaskObserver
  | loop i =>
    cases i with
    | postTask task t => cases hstep
    | registerTask j =>
      obtain ⟨⟨started, l⟩, hl, heq⟩ := Option.map_eq_some_iff.mp hstep
      cases heq
      exact h.registerTask hl
    | advance => exact h.advance hstep
    | setTerminated =>
      cases hstep
      exact h.stays (h.regular.step (i := .setTerminated) rfl) rfl rfl (Int.le_refl _) rfl
        fun _ => rfl
    | clearRunning =>
      cases hstep
      exact h.stays (h.regular.step (i := .clearRunning) rfl) rfl rfl (Int.le_refl _) rfl id
    | wakeUpNow t =>
      obtain ⟨⟨started, l⟩, hl, heq⟩ := Option.map_eq_some_iff.mp hstep
      cases heq
      exact h.wakeUpNow hl
    | _ => exact h.beside rfl hstep

end run

/-- In every interleaving of the calls of `PostTask` from any threads with the loop thread, whose
tasks and observers may post tasks, add observers and terminate the loop, what happens keeps the
contract. -/
theorem loop_keeps_contract (P : Platform (Posted α)) {s s' : LoopRun α} (h : s.Constructed P)
    {steps : List (RunStep α)} {tr : List (LoopEvent α)}
    (hrun : exec (step P) steps s = some (tr, s')) : Contract tr := by
  have hsound : Sound P tr s' :=
    exec_invariant (I := Sound P) (fun tr i s o t hs hstep => Sound.step hs hstep) h.sound hrun
  exact {
    numbers := hsound.accounts.nodup_registered
    once := hsound.accounts.started.1
    registered := hsound.accounts.started.2
    final := hsound.final
    punctual := hsound.punctual
    notifies := hsound.notifies }

/-- The first loop of a process. -/
def firstLoop : LoopRun Nat where
  loop := MessageLoopWin.first (Posted Nat)
  taskObservers := OrderedMap.empty
  notifying := none
  posted := 0

theorem firstLoop_constructed : firstLoop.Constructed (windows64 (Posted Nat)) where
  loop := MessageLoopWin.first_constructed (Posted Nat)
  posting := rfl
  taskObservers := rfl
  notifying := rfl

/-- Two observers are added and a task is posted; the loop runs the task, which posts another one
and terminates the loop, and `DoRun` goes on until it returns. -/
def postTwice : List (RunStep Nat) :=
  [.addTaskObserver 2 (some 20), .addTaskObserver 1 (some 10), .postTask (some 5) 0,
    .loop (.registerTask 0), .loop .advance, .loop .advance, .loop .advance, .loop .advance,
    .loop .advance, .loop .advance, .postTask (some 6) 0, .loop (.registerTask 0),
    .loop .setTerminated, .loop .clearRunning] ++ List.replicate 15 (.loop .advance)

/-- Both tasks are run, and after each of them both observers are called. -/
theorem loop_keeps_contract_sample :
    ∃ tr s', exec (step (windows64 (Posted Nat))) postTwice firstLoop = some (tr, s') ∧
      startedTasks tr = [⟨0, 5, 0⟩, ⟨1, 6, 0⟩] ∧ observedCalls tr = [10, 20, 10, 20] ∧
      tr.getLast? = some .returned ∧ Contract tr := by
  refine ⟨_, _, rfl, rfl, rfl, rfl, ?_⟩
  exact @loop_keeps_contract Nat (windows64 (Posted Nat)) firstLoop _ firstLoop_constructed
    postTwice _ rfl

end LoopRun

end CppImprovement.Wtf

import CppImprovement.Core.Transition
import Mathlib.Logic.Function.Basic

/-!
# The waitable event

`OneOffWaitableEvent` hands a signal to one waiter. Its critical sections are atomic; a wait on
the condition variable gives the mutex back and may end at any moment, spuriously or by its
timeout, and the thread goes on once it has the mutex again. A scope guard clears `signaled_`
on every way out of a wait.
-/

namespace CppImprovement.Wtf

/-- Where a thread is: outside, in `cv_.wait` of `Wait`, in `cv_.wait_for` of `WaitWithTimeout`,
or behind a `cv_.wait_for` that has timed out and has still to get the mutex back. -/
inductive Waiter
  | outside
  | waiting
  | waitingFor (timeout start : Int)
  | expired (timeout start : Int)
deriving DecidableEq

/-- The event, its threads and the clock. -/
structure OneOffWaitableEvent where
  signaled : Bool
  threads : Nat → Waiter
  clock : Int

/-- An atomic step; the numbers name threads. -/
inductive EventStep
  | tick (now : Int)
  | signal
  | isSignaled
  | wait (i : Nat)
  | waitWithTimeout (i : Nat) (timeout : Int)
  | wake (i : Nat)
  | expire (i : Nat)
  | resume (i : Nat)

/-- What a call returns. -/
inductive Returned
  | isSignaled (result : Bool)
  | wait (i : Nat)
  | waitWithTimeout (i : Nat) (timedOut : Bool)
deriving DecidableEq

namespace OneOffWaitableEvent

/-- `OneOffWaitableEvent()` at the time `now`. -/
def create (now : Int) : OneOffWaitableEvent where
  signaled := false
  threads := fun _ => .outside
  clock := now

/-- A thread moves. -/
def setThread (s : OneOffWaitableEvent) (i : Nat) (w : Waiter) : OneOffWaitableEvent :=
  { s with threads := Function.update s.threads i w }

/-- A wait returns: the scope guard clears the flag. -/
def leave (s : OneOffWaitableEvent) (i : Nat) : OneOffWaitableEvent :=
  { s with signaled := false }.setThread i .outside

/-- `Wait` up to its first `cv_.wait`. -/
def wait (s : OneOffWaitableEvent) (i : Nat) : Option (List Returned × OneOffWaitableEvent) :=
  match s.threads i with
  | .outside =>
    if s.signaled then some ([.wait i], s.leave i) else some ([], s.setThread i .waiting)
  | _ => none

/-- `WaitWithTimeout` up to its first `cv_.wait_for`. -/
def waitWithTimeout (s : OneOffWaitableEvent) (i : Nat) (timeout : Int) :
    Option (List Returned × OneOffWaitableEvent) :=
  match s.threads i with
  | .outside =>
    if s.signaled then some ([.waitWithTimeout i false], s.leave i)
    else some ([], s.setThread i (.waitingFor timeout s.clock))
  | _ => none

/-- A wait ends by a notification or spuriously, and the thread has the mutex. -/
def wake (s : OneOffWaitableEvent) (i : Nat) : Option (List Returned × OneOffWaitableEvent) :=
  match s.threads i with
  | .waiting => if s.signaled then some ([.wait i], s.leave i) else some ([], s)
  | .waitingFor timeout start =>
    if s.signaled then some ([.waitWithTimeout i false], s.leave i)
    else if timeout ≤ s.clock - start then some ([.waitWithTimeout i true], s.leave i)
    else some ([], s)
  | _ => none

/-- `cv_.wait_for` times out. -/
def expire (s : OneOffWaitableEvent) (i : Nat) : Option (List Returned × OneOffWaitableEvent) :=
  match s.threads i with
  | .waitingFor timeout start => some ([], s.setThread i (.expired timeout start))
  | _ => none

/-- A thread whose wait has timed out gets the mutex back and returns. -/
def resume (s : OneOffWaitableEvent) (i : Nat) : Option (List Returned × OneOffWaitableEvent) :=
  match s.threads i with
  | .expired _ _ => some ([.waitWithTimeout i true], s.leave i)
  | _ => none

/-- One step. -/
def step : EventStep → OneOffWaitableEvent → Option (List Returned × OneOffWaitableEvent)
  | .tick now, s => if s.clock ≤ now then some ([], { s with clock := now }) else none
  | .signal, s => some ([], { s with signaled := true })
  | .isSignaled, s => some ([.isSignaled s.signaled], s)
  | .wait i, s => s.wait i
  | .waitWithTimeout i timeout, s => s.waitWithTimeout i timeout
  | .wake i, s => s.wake i
  | .expire i, s => s.expire i
  | .resume i, s => s.resume i

end OneOffWaitableEvent

/-! ## Signals are kept -/

/-- The call that returns has received a signal: `Wait`, or `WaitWithTimeout` with false. -/
def Returned.receives : Returned → Bool
  | .isSignaled _ => false
  | .wait _ => true
  | .waitWithTimeout _ timedOut => !timedOut

namespace OneOffWaitableEvent

/-- A wait that has timed out gets the mutex back only while the event is not signaled. -/
def ResumesUnsignaled : EventStep → OneOffWaitableEvent → Prop
  | .resume _, s => s.signaled = false
  | _, _ => True

instance : ∀ i s, Decidable (ResumesUnsignaled i s)
  | .resume _, s => inferInstanceAs (Decidable (s.signaled = false))
  | .tick _, _ => isTrue trivial
  | .signal, _ => isTrue trivial
  | .isSignaled, _ => isTrue trivial
  | .wait _, _ => isTrue trivial
  | .waitWithTimeout _ _, _ => isTrue trivial
  | .wake _, _ => isTrue trivial
  | .expire _, _ => isTrue trivial

section signals

variable {s t : OneOffWaitableEvent} {i : EventStep} {o : List Returned}

/-- What a step does to a signaled event: it stays signaled, or a waiter receives the signal, or
a wait that has timed out comes back. -/
theorem step_signaled (hs : s.signaled = true) (h : step i s = some (o, t)) :
    t.signaled = true ∨ (∃ e ∈ o, e.receives = true) ∨ ∃ j, i = .resume j := by
  cases i with
  | tick now =>
    rw [step] at h
    split at h
    · cases h
      exact Or.inl hs
    · cases h
  | signal =>
    cases h
    exact Or.inl rfl
  | isSignaled =>
    cases h
    exact Or.inl hs
  | wait j =>
    rw [step, wait] at h
    split at h
    · rw [if_pos hs] at h
      cases h
      exact Or.inr (Or.inl ⟨_, List.mem_cons_self, rfl⟩)
    · cases h
  | waitWithTimeout j timeout =>
    rw [step, waitWithTimeout] at h
    split at h
    · rw [if_pos hs] at h
      cases h
      exact Or.inr (Or.inl ⟨_, List.mem_cons_self, rfl⟩)
    · cases h
  | wake j =>
    rw [step, wake] at h
    split at h
    · rw [if_pos hs] at h
      cases h
      exact Or.inr (Or.inl ⟨_, List.mem_cons_self, rfl⟩)
    · rw [if_pos hs] at h
      cases h
      exact Or.inr (Or.inl ⟨_, List.mem_cons_self, rfl⟩)
    · cases h
  | expire j =>
    rw [step, expire] at h
    split at h
    · cases h
      exact Or.inl hs
    · cases h
  | resume j => exact Or.inr (Or.inr ⟨j, rfl⟩)

/-- Under the condition a step keeps the signal or hands it to a waiter. -/
theorem guarded_step_signaled (hs : s.signaled = true)
    (h : guarded ResumesUnsignaled step i s = some (o, t)) :
    t.signaled = true ∨ ∃ e ∈ o, e.receives = true := by
  obtain ⟨hC, hstep⟩ := guarded_eq_some.mp h
  rcases step_signaled hs hstep with ht | he | ⟨j, rfl⟩
  · exact Or.inl ht
  · exact Or.inr he
  · rw [ResumesUnsignaled, hs] at hC
    cases hC

end signals

/-- From every state, and in every run in which no wait that has timed out gets the mutex back
while the event is signaled, a signal stays until a wait receives it; and a step that breaks the
condition loses the signal. -/
theorem signal_kept {s : OneOffWaitableEvent} (hs : s.signaled = true) :
    (∀ after tr' t, exec (guarded ResumesUnsignaled step) after s = some (tr', t) →
      (∀ e ∈ tr', e.receives = false) → t.signaled = true) ∧
    ∀ i o t, ¬ ResumesUnsignaled i s → step i s = some (o, t) →
      t.signaled = false ∧ ∀ e ∈ o, e.receives = false := by
  constructor
  · intro after tr' t hafter hquiet
    have hinv := exec_invariant
      (I := fun tr t => (∀ e ∈ tr, Returned.receives e = false) →
        OneOffWaitableEvent.signaled t = true)
      (fun tr i s o t ih hstep hq => by
        have hs := ih fun e he => hq e (List.mem_append_left o he)
        rcases guarded_step_signaled hs hstep with ht | ⟨e, he, hr⟩
        · exact ht
        · rw [hq e (List.mem_append_right tr he)] at hr
          cases hr)
      (fun _ => hs) hafter
    exact hinv hquiet
  · intro i o t hC hstep
    cases i with
    | resume j =>
      rw [step, resume] at hstep
      split at hstep
      · cases hstep
        exact ⟨rfl, by simp [Returned.receives]⟩
      · cases hstep
    | _ => exact absurd trivial hC

/-- A thread waits with a timeout, the event is signaled, and time passes. -/
theorem signal_kept_sample :
    ∃ tr s tr' t, exec (guarded ResumesUnsignaled step) [.waitWithTimeout 0 10, .signal]
        (create 0) = some (tr, s) ∧
      exec (guarded ResumesUnsignaled step) [.tick 20, .expire 0, .isSignaled] s =
        some (tr', t) ∧ tr' = [.isSignaled true] ∧ t.signaled = true := by
  refine ⟨_, _, _, _, rfl, rfl, rfl, ?_⟩
  exact (@signal_kept { (create 0).setThread 0 (.waitingFor 10 0) with signaled := true } rfl).1
    [.tick 20, .expire 0, .isSignaled] [.isSignaled true] _ rfl (by decide)

/-- Thread 0 waits with a timeout and times out; before it has the mutex again, the event is
signaled; then the thread returns true, and the signal is gone. -/
theorem signal_lost_after_timeout :
    ¬ ∀ (before after : List EventStep) (now : Int) (tr tr' : List Returned)
      (s t : OneOffWaitableEvent),
      exec step before (create now) = some (tr, s) → s.signaled = true →
      exec step after s = some (tr', t) → (∀ e ∈ tr', e.receives = false) →
      t.signaled = true := by
  intro h
  have := h [.waitWithTimeout 0 10, .expire 0, .signal] [.resume 0] 0 _
    [.waitWithTimeout 0 true] _ _ rfl rfl rfl (by decide)
  cases this

end OneOffWaitableEvent

/-! ## Signals are counted -/

/-- A step of a thread that may also reset the event. -/
inductive EventCall
  | step (i : EventStep)
  | reset

/-- The call is `Signal`. -/
def EventCall.isSignal : EventCall → Bool
  | .step .signal => true
  | _ => false

namespace OneOffWaitableEvent

/-- One step, or `Reset`. -/
def call : EventCall → OneOffWaitableEvent → Option (List Returned × OneOffWaitableEvent)
  | .step i, s => step i s
  | .reset, s => some ([], { s with signaled := false })

/-- The signals that are waiting for a waiter. -/
def pending (s : OneOffWaitableEvent) : Nat := if s.signaled then 1 else 0

/-- What a wait that has the mutex does to the signal: a call that receives one clears it. -/
def Takes (s : OneOffWaitableEvent) (o : List Returned) (t : OneOffWaitableEvent) : Prop :=
  o.countP Returned.receives + t.pending ≤ s.pending

private theorem takes_leave {s : OneOffWaitableEvent} (e : Returned) (i : Nat)
    (h : e.receives = true → s.signaled = true) : s.Takes [e] (s.leave i) := by
  have h0 : (s.leave i).pending = 0 := rfl
  rw [Takes, h0, pending, List.countP_singleton]
  split
  · exact Nat.le_of_eq (if_pos (h ‹_›)).symm
  · exact Nat.zero_le _

private theorem takes_nothing (s : OneOffWaitableEvent) :
    s.Takes [] s := Nat.le_of_eq (Nat.zero_add _)

private theorem takes_of_wait {s t : OneOffWaitableEvent} {i : Nat} {o : List Returned}
    (h : s.wait i = some (o, t)) : s.Takes o t := by
  rw [wait] at h
  split at h
  · split at h
    · cases h
      exact takes_leave _ _ fun _ => ‹_›
    · cases h
      exact takes_nothing s
  · cases h

private theorem takes_of_waitWithTimeout {s t : OneOffWaitableEvent} {i : Nat} {timeout : Int}
    {o : List Returned} (h : s.waitWithTimeout i timeout = some (o, t)) : s.Takes o t := by
  rw [waitWithTimeout] at h
  split at h
  · split at h
    · cases h
      exact takes_leave _ _ fun _ => ‹_›
    · cases h
      exact takes_nothing s
  · cases h

private theorem takes_of_wake {s t : OneOffWaitableEvent} {i : Nat} {o : List Returned}
    (h : s.wake i = some (o, t)) : s.Takes o t := by
  rw [wake] at h
  split at h
  · split at h
    · cases h
      exact takes_leave _ _ fun _ => ‹_›
    · cases h
      exact takes_nothing s
  · split at h
    · cases h
      exact takes_leave _ _ fun _ => ‹_›
    · split at h
      · cases h
        exact takes_leave _ _ nofun
      · cases h
        exact takes_nothing s
  · cases h

private theorem takes_of_resume {s t : OneOffWaitableEvent} {i : Nat} {o : List Returned}
    (h : s.resume i = some (o, t)) : s.Takes o t := by
  rw [resume] at h
  split at h
  · cases h
    exact takes_leave _ _ nofun
  · cases h

/-- A step raises the balance of signals only by a `Signal` call, and by one. -/
theorem call_receives {c : EventCall} {s t : OneOffWaitableEvent} {o : List Returned}
    (h : call c s = some (o, t)) :
    o.countP Returned.receives + t.pending ≤ [c].countP EventCall.isSignal + s.pending := by
  have htakes : s.Takes o t → o.countP Returned.receives + t.pending ≤
      [c].countP EventCall.isSignal + s.pending := fun h' => Nat.le_trans h' (Nat.le_add_left _ _)
  cases c with
  | reset =>
    cases h
    exact Nat.zero_le _
  | step i =>
    cases i with
    | tick now =>
      rw [call, step] at h
      split at h
      · cases h
        exact htakes (takes_nothing s)
      · cases h
    | signal =>
      cases h
      exact Nat.le_add_right 1 _
    | isSignaled =>
      cases h
      exact htakes (takes_nothing s)
    | wait j => exact htakes (takes_of_wait h)
    | waitWithTimeout j timeout => exact htakes (takes_of_waitWithTimeout h)
    | wake j => exact htakes (takes_of_wake h)
    | expire j =>
      rw [call, step, expire] at h
      split at h
      · cases h
        exact htakes (takes_nothing s)
      · cases h
    | resume j => exact htakes (takes_of_resume h)

/-- In every run, the waits that have received a signal are no more than the signals made,
whatever the order of the steps. -/
theorem received_le_signals {calls : List EventCall} {now : Int} {tr : List Returned}
    {t : OneOffWaitableEvent} (h : exec call calls (create now) = some (tr, t)) :
    tr.countP Returned.receives ≤ calls.countP EventCall.isSignal := by
  have hle : tr.countP Returned.receives + t.pending ≤
      calls.countP EventCall.isSignal + (create now).pending :=
    exec_countP_le (fun _ _ _ _ => call_receives) h
  have h0 : (create now).pending = 0 := rfl
  omega

/-- Two threads wait, the event is signaled once, and both wake: one of them returns. -/
theorem received_le_signals_sample :
    ∃ tr t, exec call [.step (.wait 0), .step (.wait 1), .step .signal, .step (.wake 0),
        .step (.wake 1)] (create 0) = some (tr, t) ∧ tr = [.wait 0] ∧
      tr.countP Returned.receives ≤ 1 := by
  refine ⟨_, _, rfl, rfl, ?_⟩
  exact @received_le_signals [.step (.wait 0), .step (.wait 1), .step .signal, .step (.wake 0),
    .step (.wake 1)] 0 _ _ rfl

end OneOffWaitableEvent

end CppImprovement.Wtf

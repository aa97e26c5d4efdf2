import CppImprovement.Wtf.TaskOrder

/-!
# Delayed tasks

`TaskRunner::PostDelayedTask` adds the delay to the current time and registers the task for the
sum. Both are nanoseconds in an `int64_t` and the addition is not checked: a sum past
`TimePoint::Max()` comes out negative, and the task is due at once. Below that the queues never
return the task before its delay has passed.
-/

namespace CppImprovement.Wtf

variable {τ W : Type}

/-! ## Time points -/

/-- `wtf::TimePoint`. -/
structure TimePoint where
  ticks : BitVec 64

/-- `wtf::TimeDelta`. -/
structure TimeDelta where
  delta : BitVec 64

/-- `TimeDelta::Max`. -/
def TimeDelta.max : TimeDelta := ⟨BitVec.intMax 64⟩

/-- The nanoseconds of a time point. -/
def TimePoint.nanoseconds (t : TimePoint) : Int := t.ticks.toInt

/-- `TimeDelta::ToNanoseconds`. -/
def TimeDelta.toNanoseconds (d : TimeDelta) : Int := d.delta.toInt

/-- `TimePoint::operator+`: signed 64-bit addition in two's complement. -/
def TimePoint.add (t : TimePoint) (duration : TimeDelta) : TimePoint :=
  ⟨t.ticks + duration.delta⟩

/-- A sum that fits is the sum of the nanoseconds. -/
theorem TimePoint.nanoseconds_add {t : TimePoint} {d : TimeDelta} (ht : 0 ≤ t.nanoseconds)
    (hd : 0 ≤ d.toNanoseconds) (h : t.nanoseconds + d.toNanoseconds < 2 ^ 63) :
    (t.add d).nanoseconds = t.nanoseconds + d.toNanoseconds := by
  simp only [TimePoint.nanoseconds, TimeDelta.toNanoseconds] at ht hd h ⊢
  rw [TimePoint.add, BitVec.toInt_add]
  exact Int.bmod_eq_of_le (by omega) (by omega)

/-- A sum that does not fit is before the time point. -/
theorem TimePoint.nanoseconds_add_overflow {t : TimePoint} {d : TimeDelta}
    (ht : 0 ≤ t.nanoseconds) (hd : 0 ≤ d.toNanoseconds)
    (h : 2 ^ 63 ≤ t.nanoseconds + d.toNanoseconds) :
    (t.add d).nanoseconds < t.nanoseconds := by
  have hlt : d.toNanoseconds < 2 ^ 63 := BitVec.toInt_lt
  have htop : t.nanoseconds < 2 ^ 63 := BitVec.toInt_lt
  simp only [TimePoint.nanoseconds, TimeDelta.toNanoseconds] at ht hd h hlt htop ⊢
  rw [TimePoint.add, BitVec.toInt_add, Int.bmod_def]
  have hmod : (t.ticks.toInt + d.delta.toInt) % ((2 ^ 64 : Nat) : Int) =
      t.ticks.toInt + d.delta.toInt :=
    Int.emod_eq_of_lt (by omega) (by omega)
  rw [hmod, if_neg (by omega)]
  omega

/-! ## Posting with a delay -/

/-- `TaskRunner::PostDelayedTask` at the time `now`, with the `MessageLoopImpl::PostTask` it
calls on the loop of the queue `q`. -/
def postDelayedTask (P : Platform τ) (terminated : Bool) (q : TaskQueueId) (task : τ)
    (now : TimePoint) (delay : TimeDelta) : QueuesM τ W PUnit :=
  let targetTime := now.add delay
  if terminated then
    pure ⟨⟩
  else
    registerTask P q (some task) targetTime.nanoseconds

/-- Whatever the state of the queues, a task is returned at its target time or later. -/
theorem targetTime_le_of_taken {P : Platform τ} {s u : TaskQueues τ W} {q : TaskQueueId}
    {t : Int} {d : DelayedTask τ} (h : takeNextTask P q t s = .ok (some d) u) :
    d.targetTime ≤ t := by
  cases he : s.queueEntries q with
  | none =>
    rw [takeNextTask_unknown he] at h
    cases h
  | some e =>
    by_cases hn : e.ownerOf = P.unmerged ∨ e.delayedTaskQueue = []
    · rw [takeNextTask_none he hn] at h
      cases h
    · obtain ⟨ho, hq⟩ := not_or.mp hn
      obtain ⟨x, rest, hx⟩ := P.delayedTaskQueue.exists_extract hq
      by_cases ht : t < x.targetTime
      · rw [takeNextTask_later he ho hx ht] at h
        cases h
      · have hle : x.targetTime ≤ t := Int.not_lt.mp ht
        rw [takeNextTask_due he ho hx hle] at h
        cases h
        exact hle

/-- A task posted with the delay is not early: its target time is not in the past, and however
the queues are used afterwards, it is not returned before the delay has passed. -/
def NeverEarly (P : Platform τ) (W : Type) (now : TimePoint) (delay : TimeDelta) : Prop :=
  now.nanoseconds ≤ (now.add delay).nanoseconds ∧
  ∀ (q : TaskQueueId) (task : τ) (s s' : TaskQueues τ W),
    postDelayedTask P false q task now delay s = .ok ⟨⟩ s' →
    ∀ (calls : List (Call τ)) (tr : List (Event τ)) (u : TaskQueues τ W),
      exec (perform P) calls s' = some (tr, u) →
      ∀ t, t < now.nanoseconds + delay.toNanoseconds → ∀ v,
        takeNextTask P q t u ≠
          .ok (some ⟨sizeOfOrder s.order, some task, (now.add delay).nanoseconds⟩) v

end CppImprovement.Wtf

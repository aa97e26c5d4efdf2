import CppImprovement.Wtf.TaskQueues

/-!
# Order and conservation of tasks

Whatever the interleaving of the operations, a queue holds exactly the tasks registered on
it that have not been returned, and the task it returns is the earliest one, with equal
target times in the order of registration. The order is read off the history of the run; the
code keeps it in an `int` counter that wraps and is widened to `size_t`.
-/

namespace CppImprovement.Wtf

variable {τ W : Type}

/-! ## The registration counter -/

private theorem toNat_sizeOfOrder {n : Nat} (h : n < 2 ^ 32) :
    (sizeOfOrder (BitVec.ofNat 32 n)).toNat =
      if n < 2 ^ 31 then n else n + (2 ^ 64 - 2 ^ 32) := by
  rw [sizeOfOrder, BitVec.toNat_signExtend, BitVec.msb_eq_decide, BitVec.toNat_setWidth,
    BitVec.toNat_ofNat, Nat.mod_eq_of_lt h]
  by_cases hn : n < 2 ^ 31
  · have hm : ¬ 2 ^ (32 - 1) ≤ n := by omega
    simp only [hn, hm, decide_false, Bool.false_eq_true, if_false, if_true]
    omega
  · have hm : 2 ^ (32 - 1) ≤ n := by omega
    simp only [hn, hm, decide_true, if_false, if_true]
    omega

/-- Over fewer than `2 ^ 32` registrations the widened counter keeps their order. -/
theorem sizeOfOrder_lt {m n : Nat} (hmn : m < n) (h : n < 2 ^ 32) :
    sizeOfOrder (BitVec.ofNat 32 m) < sizeOfOrder (BitVec.ofNat 32 n) := by
  rw [BitVec.lt_def, toNat_sizeOfOrder (Nat.lt_trans hmn h), toNat_sizeOfOrder h]
  split <;> split <;> omega

/-! ## Runs and their history -/

/-- A call of one of the operations, from any thread. -/
inductive Call (τ : Type)
  | createTaskQueue
  | registerTask (q : TaskQueueId) (task : Option τ) (targetTime : Int)
  | getNextTaskToRun (q : TaskQueueId) (fromTime : Int)

/-- Whether a call registers a task. -/
def Call.isRegister : Call τ → Bool
  | .registerTask .. => true
  | _ => false

/-- The call registers no null task. -/
def Call.NonNull : Call τ → Prop
  | .registerTask _ task _ => task ≠ none
  | _ => True

/-- What a call did. -/
inductive Event (τ : Type)
  | created (q : TaskQueueId)
  | registered (q : TaskQueueId) (d : DelayedTask τ)
  | rejected (q : TaskQueueId) (e : Fault)
  | returned (q : TaskQueueId) (d : DelayedTask τ)
  | idle (q : TaskQueueId)
  | threw (q : TaskQueueId) (e : Fault)

/-- Perform a call; an exception reaches its caller, and the run goes on. -/
def perform (P : Platform τ) : Call τ → TaskQueues τ W → Option (List (Event τ) × TaskQueues τ W)
  | .createTaskQueue, s =>
    match createTaskQueue s with
    | .ok q s' => some ([.created q], s')
    | .error _ s' => some ([], s')
  | .registerTask q task targetTime, s =>
    match registerTask P q task targetTime s with
    | .ok _ s' => some ([.registered q ⟨sizeOfOrder s.order, task, targetTime⟩], s')
    | .error e s' => some ([.rejected q e], s')
  | .getNextTaskToRun q fromTime, s =>
    match takeNextTask P q fromTime s with
    | .ok (some d) s' => some ([.returned q d], s')
    | .ok none s' => some ([.idle q], s')
    | .error e s' => some ([.threw q e], s')

/-- The task an event registers on `q`. -/
def Event.registeredOn (q : TaskQueueId) : Event τ → Option (DelayedTask τ)
  | .registered q' d => if q' = q then some d else none
  | _ => none

/-- The task an event returns from `q`. -/
def Event.returnedOn (q : TaskQueueId) : Event τ → Option (DelayedTask τ)
  | .returned q' d => if q' = q then some d else none
  | _ => none

/-- Whether the event is that of a call of `RegisterTask`. -/
def Event.isRegister : Event τ → Bool
  | .registered .. => true
  | .rejected .. => true
  | _ => false

/-- The tasks registered on `q`, in the order of registration. -/
def registeredOn (q : TaskQueueId) (tr : List (Event τ)) : List (DelayedTask τ) :=
  tr.filterMap (Event.registeredOn q)

/-- The tasks returned from `q`, in the order in which they were returned. -/
def returnedOn (q : TaskQueueId) (tr : List (Event τ)) : List (DelayedTask τ) :=
  tr.filterMap (Event.returnedOn q)

/-- The order in which a queue has to return its tasks: by target time, and at the same time
by registration. -/
def RunsBefore (registered : List (DelayedTask τ)) (a b : DelayedTask τ) : Prop :=
  a.targetTime < b.targetTime ∨ a.targetTime = b.targetTime ∧ [a, b].Sublist registered

/-! ## The invariant -/

/-- The run so far stays within the counter, and no queue got the reserved number. -/
structure Counted (P : Platform τ) (tr : List (Event τ)) : Prop where
  count : tr.countP Event.isRegister < 2 ^ 32
  ids : ∀ q, Event.created q ∈ tr → q ≠ P.unmerged

/-- The state agrees with the history. -/
structure Ledger (P : Platform τ) (tr : List (Event τ)) (s : TaskQueues τ W) : Prop where
  order : s.order = BitVec.ofNat 32 (tr.countP Event.isRegister)
  counter : s.taskQueueIdCounter ≤ P.unmerged
  known : ∀ q e, s.queueEntries q = some e → q < s.taskQueueIdCounter ∧ e.ownerOf = q
  created : ∀ q, Event.created q ∈ tr → ∃ e, s.queueEntries q = some e
  conserved : ∀ q, (registeredOn q tr).Perm (returnedOn q tr ++ s.pending q)
  numbered : ∀ q, (registeredOn q tr).Pairwise fun a b => a.order < b.order
  numbers : ∀ q, ∀ d ∈ registeredOn q tr,
    ∃ m < tr.countP Event.isRegister, d.order = sizeOfOrder (BitVec.ofNat 32 m)

theorem Counted.init {P : Platform τ} {tr o : List (Event τ)} (h : Counted P (tr ++ o)) :
    Counted P tr where
  count := by
    have := h.count
    rw [List.countP_append] at this
    omega
  ids q hq := h.ids q (List.mem_append_left o hq)

theorem Ledger.initial (P : Platform τ) : Ledger P [] (TaskQueues.initial : TaskQueues τ W) where
  order := rfl
  counter := Nat.zero_le _
  known q e h := by cases h
  created q h := by cases h
  conserved q := List.Perm.refl _
  numbered q := List.Pairwise.nil
  numbers q d h := by cases h

private theorem registeredOn_append (q : TaskQueueId) (tr o : List (Event τ)) :
    registeredOn q (tr ++ o) = registeredOn q tr ++ registeredOn q o := List.filterMap_append

private theorem returnedOn_append (q : TaskQueueId) (tr o : List (Event τ)) :
    returnedOn q (tr ++ o) = returnedOn q tr ++ returnedOn q o := List.filterMap_append

/-- An entry that is in the map is replaced: the other facts about the map are kept. -/
theorem known_setEntry {s : TaskQueues τ W} {q : TaskQueueId} {e e' : TaskQueueEntry τ W}
    (hknown : ∀ q e, s.queueEntries q = some e → q < s.taskQueueIdCounter ∧ e.ownerOf = q)
    (h : s.queueEntries q = some e) (ho : e'.ownerOf = e.ownerOf) :
    ∀ p x, (s.setEntry q e').queueEntries p = some x →
      p < s.taskQueueIdCounter ∧ x.ownerOf = p := by
  intro p x hx
  by_cases hp : p = q
  · subst hp
    rw [queueEntries_setEntry_self] at hx
    cases hx
    rw [ho]
    exact hknown p e h
  · rw [queueEntries_setEntry_of_ne _ _ hp] at hx
    exact hknown p x hx

private theorem exists_setEntry {s : TaskQueues τ W} {q p : TaskQueueId} {e' : TaskQueueEntry τ W}
    (h : ∃ e, s.queueEntries p = some e) : ∃ e, (s.setEntry q e').queueEntries p = some e := by
  by_cases hp : p = q
  · subst hp
    exact ⟨e', queueEntries_setEntry_self ..⟩
  · obtain ⟨e, he⟩ := h
    exact ⟨e, (queueEntries_setEntry_of_ne s e' hp).trans he⟩

section steps

variable {P : Platform τ} {tr : List (Event τ)} {s : TaskQueues τ W}

/-- A call that moves no task between history and queue. -/
theorem Ledger.quiet (h : Ledger P tr s) {u : TaskQueues τ W} {o : List (Event τ)}
    (hentries : u.queueEntries = s.queueEntries)
    (hcounter : u.taskQueueIdCounter = s.taskQueueIdCounter)
    (horder : u.order = BitVec.ofNat 32 ((tr ++ o).countP Event.isRegister))
    (hcreated : ∀ q, Event.created q ∉ o) (hreg : ∀ q, registeredOn q o = [])
    (hret : ∀ q, returnedOn q o = []) : Ledger P (tr ++ o) u where
  order := horder
  counter := by
    rw [hcounter]
    exact h.counter
  known q e he := by
    rw [hcounter]
    rw [hentries] at he
    exact h.known q e he
  created q hq := by
    rw [hentries]
    exact h.created q ((List.mem_append.mp hq).resolve_right (hcreated q))
  conserved q := by
    rw [registeredOn_append, returnedOn_append, hreg, hret, List.append_nil, List.append_nil,
      TaskQueues.pending, hentries]
    exact h.conserved q
  numbered q := by
    rw [registeredOn_append, hreg, List.append_nil]
    exact h.numbered q
  numbers q d hd := by
    rw [registeredOn_append, hreg, List.append_nil] at hd
    obtain ⟨m, hm, hd⟩ := h.numbers q d hd
    rw [List.countP_append]
    exact ⟨m, by omega, hd⟩

/-- `CreateTaskQueue` gives a new number to an empty queue. -/
theorem Ledger.create (h : Ledger P tr s)
    (hid : s.taskQueueIdCounter ≠ P.unmerged) :
    Ledger P (tr ++ [.created s.taskQueueIdCounter])
      ({ s with taskQueueIdCounter := (s.taskQueueIdCounter + 1) % 2 ^ 64 }.setEntry
        s.taskQueueIdCounter
        { wakeable := none, delayedTaskQueue := [], ownerOf := s.taskQueueIdCounter }) := by
  have hle := h.counter
  have hlt := P.unmerged_lt
  have hmod : (s.taskQueueIdCounter + 1) % 2 ^ 64 = s.taskQueueIdCounter + 1 :=
    Nat.mod_eq_of_lt (by omega)
  have hfree : s.queueEntries s.taskQueueIdCounter = none := by
    cases he : s.queueEntries s.taskQueueIdCounter with
    | none => rfl
    | some e => exact absurd (h.known _ e he).1 (Nat.lt_irrefl _)
  rw [hmod]
  have hcount : (tr ++ [Event.created s.taskQueueIdCounter]).countP Event.isRegister =
      tr.countP Event.isRegister := by
    rw [List.countP_append]
    rfl
  refine { order := ?_, counter := ?_, known := ?_, created := ?_, conserved := ?_,
           numbered := ?_, numbers := ?_ }
  · rw [hcount]
    exact h.order
  · change s.taskQueueIdCounter + 1 ≤ P.unmerged
    omega
  · intro q e he
    change q < s.taskQueueIdCounter + 1 ∧ e.ownerOf = q
    by_cases hq : q = s.taskQueueIdCounter
    · subst hq
      rw [queueEntries_setEntry_self] at he
      cases he
      exact ⟨Nat.lt_succ_self _, rfl⟩
    · rw [queueEntries_setEntry_of_ne _ _ hq] at he
      obtain ⟨hlt, ho⟩ := h.known q e he
      exact ⟨Nat.lt_succ_of_lt hlt, ho⟩
  · intro q hq
    rcases List.mem_append.mp hq with hq | hq
    · exact exists_setEntry (h.created q hq)
    · have : q = s.taskQueueIdCounter := by simpa using hq
      subst this
      exact ⟨_, queueEntries_setEntry_self ..⟩
  · intro q
    rw [registeredOn_append, returnedOn_append, pending_setEntry]
    have hreg : registeredOn q [Event.created s.taskQueueIdCounter] = ([] : List (DelayedTask τ)) :=
      rfl
    have hret : returnedOn q [Event.created s.taskQueueIdCounter] = ([] : List (DelayedTask τ)) :=
      rfl
    rw [hreg, hret, List.append_nil, List.append_nil]
    have := h.conserved q
    by_cases hq : q = s.taskQueueIdCounter
    · rw [if_pos hq]
      rw [TaskQueues.pending, hq, hfree] at this
      rw [hq]
      exact this
    · rw [if_neg hq]
      exact this
  · intro q
    rw [registeredOn_append]
    exact (List.append_nil _).symm ▸ h.numbered q
  · intro q d hd
    rw [registeredOn_append] at hd
    rw [hcount]
    exact h.numbers q d (by simpa [registeredOn, Event.registeredOn] using hd)

/-- `RegisterTask` puts the task behind all tasks registered before it. -/
theorem Ledger.register (h : Ledger P tr s) {q : TaskQueueId} {e : TaskQueueEntry τ W}
    {f : Option τ} {t : Int} (he : s.queueEntries q = some e)
    (hcount : tr.countP Event.isRegister + 1 < 2 ^ 32) :
    Ledger P (tr ++ [.registered q ⟨sizeOfOrder s.order, f, t⟩])
      (s.registered q e ⟨sizeOfOrder s.order, f, t⟩) := by
  set d : DelayedTask τ := ⟨sizeOfOrder s.order, f, t⟩ with hd
  have hnumber : d.order = sizeOfOrder (BitVec.ofNat 32 (tr.countP Event.isRegister)) := by
    rw [hd, h.order]
  have hcounted : (tr ++ [Event.registered q d]).countP Event.isRegister =
      tr.countP Event.isRegister + 1 := by
    rw [List.countP_append]
    rfl
  have hreg : ∀ p, registeredOn p (tr ++ [Event.registered q d]) =
      registeredOn p tr ++ if q = p then [d] else [] := by
    intro p
    rw [registeredOn_append]
    by_cases hp : q = p
    · simp [registeredOn, Event.registeredOn, hp]
    · simp [registeredOn, Event.registeredOn, hp]
  have hret : ∀ p, returnedOn p (tr ++ [Event.registered q d]) = returnedOn p tr := by
    intro p
    rw [returnedOn_append]
    exact List.append_nil _
  refine { order := ?_, counter := h.counter, known := ?_, created := ?_, conserved := ?_,
           numbered := ?_, numbers := ?_ }
  · rw [hcounted]
    change s.order + 1 = _
    rw [h.order, BitVec.ofNat_add]
    rfl
  · exact known_setEntry (s := { s with order := s.order + 1 }) h.known he rfl
  · intro p hp
    have hp' : Event.created p ∈ tr := by simpa using hp
    exact exists_setEntry (s := { s with order := s.order + 1 }) (h.created p hp')
  · intro p
    rw [hreg, hret, TaskQueues.registered, pending_setEntry]
    by_cases hp : q = p
    · subst hp
      rw [if_pos rfl, if_pos rfl, TaskQueueEntry.pushed, ← List.append_assoc,
        ← pending_of_entry he]
      exact (h.conserved q).append_right [d]
    · rw [if_neg hp, if_neg (Ne.symm hp), List.append_nil]
      exact h.conserved p
  · intro p
    rw [hreg]
    by_cases hp : q = p
    · rw [if_pos hp, List.pairwise_append]
      refine ⟨h.numbered p, List.pairwise_singleton _ _, ?_⟩
      intro a ha b hb
      obtain ⟨m, hm, hm'⟩ := h.numbers p a ha
      rw [List.mem_singleton.mp hb, hm', hnumber]
      exact sizeOfOrder_lt hm (by omega)
    · rw [if_neg hp, List.append_nil]
      exact h.numbered p
  · intro p x hx
    rw [hreg] at hx
    rw [hcounted]
    rcases List.mem_append.mp hx with hx | hx
    · obtain ⟨m, hm, hm'⟩ := h.numbers p x hx
      exact ⟨m, Nat.lt_succ_of_lt hm, hm'⟩
    · by_cases hp : q = p
      · rw [if_pos hp] at hx
        rw [List.mem_singleton.mp hx]
        exact ⟨_, Nat.lt_succ_self _, hnumber⟩
      · rw [if_neg hp] at hx
        cases hx

/-- `GetNextTaskToRun` moves one task from the queue to the history. -/
theorem Ledger.take (h : Ledger P tr s) {q : TaskQueueId} {e : TaskQueueEntry τ W}
    {d : DelayedTask τ} {rest : List (DelayedTask τ)} (he : s.queueEntries q = some e)
    (hperm : (d :: rest).Perm e.delayedTaskQueue) :
    Ledger P (tr ++ [.returned q d]) (s.setEntry q { e with delayedTaskQueue := rest }) := by
  have hcounted : (tr ++ [Event.returned q d]).countP Event.isRegister =
      tr.countP Event.isRegister := by
    rw [List.countP_append]
    rfl
  have hreg : ∀ p, registeredOn p (tr ++ [Event.returned q d]) = registeredOn p tr := by
    intro p
    rw [registeredOn_append]
    exact List.append_nil _
  refine { order := ?_, counter := h.counter, known := ?_, created := ?_, conserved := ?_,
           numbered := ?_, numbers := ?_ }
  · rw [hcounted]
    exact h.order
  · exact known_setEntry h.known he rfl
  · intro p hp
    have hp' : Event.created p ∈ tr := by simpa using hp
    exact exists_setEntry (h.created p hp')
  · intro p
    have hp := h.conserved p
    rw [hreg, returnedOn_append, pending_setEntry]
    by_cases hpq : p = q
    · subst hpq
      have hret : returnedOn p [Event.returned p d] = [d] := by
        simp [returnedOn, Event.returnedOn]
      rw [if_pos rfl, hret, List.append_assoc]
      rw [pending_of_entry he] at hp
      exact hp.trans (hperm.symm.append_left _)
    · have hret : returnedOn p [Event.returned q d] = [] := by
        simp [returnedOn, Event.returnedOn, Ne.symm hpq]
      rw [if_neg hpq, hret, List.append_nil]
      exact hp
  · intro p
    rw [hreg]
    exact h.numbered p
  · intro p x hx
    rw [hreg] at hx
    rw [hcounted]
    exact h.numbers p x hx

theorem Ledger.woken (h : Ledger P tr s) (e : TaskQueueEntry τ W) (time : Int) :
    Ledger P tr (s.woken e time) := by
  have := h.quiet (u := s.woken e time) (o := []) (queueEntries_woken ..)
    (taskQueueIdCounter_woken ..) (by rw [List.append_nil, order_woken, h.order])
    (fun _ hq => by cases hq) (fun _ => rfl) (fun _ => rfl)
  rwa [List.append_nil] at this

theorem createTaskQueue_eq (s : TaskQueues τ W) :
    createTaskQueue s = .ok s.taskQueueIdCounter
      ({ s with taskQueueIdCounter := (s.taskQueueIdCounter + 1) % 2 ^ 64 }.setEntry
        s.taskQueueIdCounter
        { wakeable := none, delayedTaskQueue := [], ownerOf := s.taskQueueIdCounter }) := by
  apply eq_ok_of_wp
  rw [createTaskQueue, wp_bind, wp_get, wp_bind, wp_modify, wp_bind, wp_modify, wp_pure]
  exact ⟨rfl, rfl⟩

private theorem Ledger.ownerOf_ne (h : Ledger P tr s) {q : TaskQueueId} {e : TaskQueueEntry τ W}
    (he : s.queueEntries q = some e) : e.ownerOf ≠ P.unmerged := by
  obtain ⟨hlt, ho⟩ := h.known q e he
  rw [ho]
  exact Nat.ne_of_lt (Nat.lt_of_lt_of_le hlt h.counter)

/-- The entry of a queue and what its priority queue gives out next decide every call of
`GetNextTaskToRun`. -/
theorem Ledger.takeNextTask_cases (h : Ledger P tr s) (q : TaskQueueId) (t : Int) :
    (s.queueEntries q = none ∧ takeNextTask P q t s = .error .outOfRange s) ∨
    (∃ e, s.queueEntries q = some e ∧ e.delayedTaskQueue = [] ∧
      takeNextTask P q t s = .ok none s) ∨
    ∃ e d rest, s.queueEntries q = some e ∧
      P.delayedTaskQueue.extract e.delayedTaskQueue = some (d, rest) ∧
      (t < d.targetTime ∧ takeNextTask P q t s = .ok none (s.woken e d.targetTime) ∨
        d.targetTime ≤ t ∧ takeNextTask P q t s = .ok (some d)
          ((s.woken e d.targetTime).setEntry q { e with delayedTaskQueue := rest })) := by
  cases he : s.queueEntries q with
  | none => exact Or.inl ⟨rfl, takeNextTask_unknown he⟩
  | some e =>
    have ho := h.ownerOf_ne he
    by_cases hn : e.delayedTaskQueue = []
    · exact Or.inr (Or.inl ⟨e, rfl, hn, takeNextTask_none he (Or.inr hn)⟩)
    · obtain ⟨d, rest, hx⟩ := P.delayedTaskQueue.exists_extract hn
      refine Or.inr (Or.inr ⟨e, d, rest, rfl, hx, ?_⟩)
      by_cases ht : t < d.targetTime
      · exact Or.inl ⟨ht, takeNextTask_later he ho hx ht⟩
      · have hle : d.targetTime ≤ t := Int.not_lt.mp ht
        exact Or.inr ⟨hle, takeNextTask_due he ho hx hle⟩

/-- Every call keeps the state in agreement with the history. -/
theorem Ledger.step (h : Ledger P tr s) {c : Call τ} {o : List (Event τ)} {u : TaskQueues τ W}
    (hc : perform P c s = some (o, u)) (hcount : Counted P (tr ++ o)) : Ledger P (tr ++ o) u := by
  cases c with
  | createTaskQueue =>
    rw [perform, createTaskQueue_eq] at hc
    cases hc
    exact h.create (hcount.ids _ (by simp))
  | registerTask q f t =>
    cases he : s.queueEntries q with
    | none =>
      rw [perform, registerTask_unknown he] at hc
      cases hc
      refine h.quiet rfl rfl ?_ (by simp) (fun _ => rfl) (fun _ => rfl)
      change s.order + 1 = _
      rw [h.order, List.countP_append, BitVec.ofNat_add]
      rfl
    | some e =>
      have hn : (e.pushed ⟨sizeOfOrder s.order, f, t⟩).delayedTaskQueue ≠ [] := by
        simp [TaskQueueEntry.pushed]
      obtain ⟨x, rest, hx⟩ := P.delayedTaskQueue.exists_extract hn
      rw [perform, registerTask_known he (h.ownerOf_ne he) hx] at hc
      cases hc
      have hlt := hcount.count
      rw [List.countP_append] at hlt
      exact (h.register he hlt).woken e x.targetTime
  | getNextTaskToRun q t =>
    have hidle : ∀ u : TaskQueues τ W, Ledger P tr u → Ledger P (tr ++ [.idle q]) u :=
      fun u hu => hu.quiet rfl rfl (by rw [List.countP_append]; exact hu.order) (by simp)
        (fun _ => rfl) (fun _ => rfl)
    rcases h.takeNextTask_cases q t with ⟨-, heq⟩ | ⟨e, -, -, heq⟩ |
      ⟨e, d, rest, he, hx, ⟨-, heq⟩ | ⟨-, heq⟩⟩
    · rw [perform, heq] at hc
      cases hc
      exact h.quiet rfl rfl (by rw [List.countP_append]; exact h.order) (by simp)
        (fun _ => rfl) (fun _ => rfl)
    · rw [perform, heq] at hc
      cases hc
      exact hidle s h
    · rw [perform, heq] at hc
      cases hc
      exact hidle _ (h.woken e d.targetTime)
    · rw [perform, heq] at hc
      cases hc
      have he' : (s.woken e d.targetTime).queueEntries q = some e := by
        rw [queueEntries_woken, he]
      exact (h.woken e d.targetTime).take he' (P.delayedTaskQueue.perm hx)

/-- The state agrees with the history after every run. -/
theorem ledger_of_run {calls : List (Call τ)}
    (hrun : exec (perform P) calls (TaskQueues.initial : TaskQueues τ W) = some (tr, s))
    (hcount : Counted P tr) : Ledger P tr s := by
  have hstep : ∀ (tr : List (Event τ)) (c : Call τ) (s : TaskQueues τ W) (o : List (Event τ))
      (u : TaskQueues τ W), (Counted P tr → Ledger P tr s) → perform P c s = some (o, u) →
      Counted P (tr ++ o) → Ledger P (tr ++ o) u :=
    fun tr c s o u h hc hcount => (h hcount.init).step hc hcount
  exact exec_invariant (I := fun tr s => Counted P tr → Ledger P tr s) hstep
    (fun _ => Ledger.initial P) hrun hcount

/-- The history of a call tells whether it registered, and with which task. -/
theorem perform_shows {c : Call τ} {o : List (Event τ)} {u : TaskQueues τ W}
    (hc : perform P c s = some (o, u)) :
    o.countP Event.isRegister = [c].countP Call.isRegister ∧
      (c.NonNull → ∀ q d, Event.registered q d ∈ o → d.task ≠ none) := by
  cases c with
  | createTaskQueue =>
    rw [perform] at hc
    split at hc <;> cases hc <;> exact ⟨rfl, by simp⟩
  | registerTask q f t =>
    rw [perform] at hc
    split at hc
    · cases hc
      refine ⟨rfl, fun hf p d hd => ?_⟩
      cases List.mem_singleton.mp hd
      exact hf
    · cases hc
      exact ⟨rfl, by simp⟩
  | getNextTaskToRun q t =>
    rw [perform] at hc
    split at hc <;> cases hc <;> exact ⟨rfl, by simp⟩

private theorem exec_perform_shows {calls : List (Call τ)} {u : TaskQueues τ W}
    (hrun : exec (perform P) calls s = some (tr, u)) :
    tr.countP Event.isRegister = calls.countP Call.isRegister ∧
      ((∀ c ∈ calls, c.NonNull) → ∀ q d, Event.registered q d ∈ tr → d.task ≠ none) := by
  induction calls generalizing s tr with
  | nil =>
    cases hrun
    exact ⟨rfl, by simp⟩
  | cons c calls ih =>
    obtain ⟨o, t, tr', hc, hr, rfl⟩ := exec_cons_eq_some.mp hrun
    obtain ⟨hn, hnull⟩ := perform_shows hc
    obtain ⟨ihn, ihnull⟩ := ih hr
    refine ⟨?_, fun hall q d hd => ?_⟩
    · rw [List.countP_append, hn, ihn, ← List.countP_append]
      rfl
    · rcases List.mem_append.mp hd with hd | hd
      · exact hnull (hall c List.mem_cons_self) q d hd
      · exact ihnull (fun x hx => hall x (List.mem_cons_of_mem c hx)) q d hd

private theorem registered_mem_of_registeredOn {q : TaskQueueId} {d : DelayedTask τ}
    (h : d ∈ registeredOn q tr) : Event.registered q d ∈ tr := by
  obtain ⟨e, he, hd⟩ := List.mem_filterMap.mp h
  cases e with
  | registered p x =>
    rw [Event.registeredOn] at hd
    by_cases hp : p = q
    · rw [if_pos hp] at hd
      cases hd
      rw [← hp]
      exact he
    · rw [if_neg hp] at hd
      cases hd
  | created p => cases hd
  | rejected p f => cases hd
  | returned p x => cases hd
  | idle p => cases hd
  | threw p f => cases hd

end steps

/-! ## The order in which tasks are returned -/

/-- Of two elements of a list one stands before the other. -/
theorem pair_sublist_or {α : Type} {l : List α} {a b : α} (ha : a ∈ l) (hb : b ∈ l)
    (hne : a ≠ b) : [a, b].Sublist l ∨ [b, a].Sublist l := by
  induction l with
  | nil => cases ha
  | cons x l ih =>
    rcases List.mem_cons.mp ha with hax | hal
    · subst hax
      have hbl : b ∈ l := (List.mem_cons.mp hb).resolve_left (Ne.symm hne)
      exact Or.inl ((List.singleton_sublist.mpr hbl).cons_cons a)
    · rcases List.mem_cons.mp hb with hbx | hbl
      · subst hbx
        exact Or.inr ((List.singleton_sublist.mpr hal).cons_cons b)
      · rcases ih hal hbl with h | h
        · exact Or.inl (h.cons x)
        · exact Or.inr (h.cons x)

/-- What `operator>` leaves as the earliest task. -/
theorem runsBefore_of_not_gt {registered : List (DelayedTask τ)}
    (hreg : registered.Pairwise fun a b => a.order < b.order) {a b : DelayedTask τ}
    (ha : a ∈ registered) (hb : b ∈ registered) (hne : a ≠ b) (h : a.gt b = false) :
    RunsBefore registered a b := by
  rw [DelayedTask.gt] at h
  by_cases ht : a.targetTime = b.targetTime
  · rw [if_pos ht, decide_eq_false_iff_not] at h
    refine Or.inr ⟨ht, ?_⟩
    refine (pair_sublist_or ha hb hne).resolve_right fun hba => h ?_
    have hpair : [b, a].Pairwise fun a b => a.order < b.order := hreg.sublist hba
    exact (List.pairwise_cons.mp hpair).1 a List.mem_cons_self
  · rw [if_neg ht, decide_eq_false_iff_not] at h
    exact Or.inl (Int.lt_iff_le_and_ne.mpr ⟨Int.not_lt.mp h, ht⟩)

section returns

variable {P : Platform τ} {tr : List (Event τ)} {s : TaskQueues τ W} {q : TaskQueueId}
  {e : TaskQueueEntry τ W} {d : DelayedTask τ} {rest : List (DelayedTask τ)}

private theorem Ledger.nodup (h : Ledger P tr s) (q : TaskQueueId) : (registeredOn q tr).Nodup := by
  refine (h.numbered q).imp ?_
  intro a b hab heq
  rw [heq] at hab
  exact BitVec.lt_irrefl _ hab

private theorem Ledger.mem_registeredOn (h : Ledger P tr s) (hd : d ∈ s.pending q) :
    d ∈ registeredOn q tr :=
  (h.conserved q).symm.subset (List.mem_append_right _ hd)

/-- The task given out next runs before all tasks that stay. -/
theorem Ledger.runsBefore_rest (h : Ledger P tr s) (he : s.queueEntries q = some e)
    (hx : P.delayedTaskQueue.extract e.delayedTaskQueue = some (d, rest)) :
    ∀ d' ∈ rest, RunsBefore (registeredOn q tr) d d' := by
  intro d' hd'
  have hperm := P.delayedTaskQueue.perm hx
  have hpending : ∀ x ∈ d :: rest, x ∈ s.pending q := by
    intro x hx
    rw [pending_of_entry he]
    exact hperm.subset hx
  have hnodup : (d :: rest).Nodup := by
    have hconserved := (h.conserved q).nodup (h.nodup q)
    have hp := (List.nodup_append.mp hconserved).2.1
    rw [pending_of_entry he] at hp
    exact hperm.symm.nodup hp
  have hne : d ≠ d' := by
    rintro rfl
    exact (List.nodup_cons.mp hnodup).1 hd'
  have hmem := List.mem_cons_of_mem d hd'
  exact runsBefore_of_not_gt (h.numbered q)
    (h.mem_registeredOn (hpending d List.mem_cons_self)) (h.mem_registeredOn (hpending d' hmem))
    hne (P.delayedTaskQueue.maximal hx d' (hperm.subset hmem))

end returns

/-- For every run of `CreateTaskQueue`, `RegisterTask` and `GetNextTaskToRun` with fewer than
`2 ^ 32` registrations, none of a null task, and no queue under the reserved number: the tasks
registered on a queue are those returned and those pending, each once; a task that is returned
is due and runs before all that stay; and null is returned exactly when no task is due. -/
theorem tasks_conserved_in_order (P : Platform τ) {calls : List (Call τ)} {tr : List (Event τ)}
    {s : TaskQueues τ W}
    (hrun : exec (perform P) calls (TaskQueues.initial : TaskQueues τ W) = some (tr, s))
    (hcount : calls.countP Call.isRegister < 2 ^ 32) (hnull : ∀ c ∈ calls, c.NonNull)
    (hids : ∀ q, Event.created q ∈ tr → q ≠ P.unmerged) (q : TaskQueueId) :
    (registeredOn q tr).Nodup ∧ (registeredOn q tr).Perm (returnedOn q tr ++ s.pending q) ∧
    (∀ t f u, getNextTaskToRun P q t s = .ok (some f) u →
      ∃ d, perform P (.getNextTaskToRun q t) s = some ([.returned q d], u) ∧
        d.task = some f ∧ d.targetTime ≤ t ∧ (d :: u.pending q).Perm (s.pending q) ∧
        ∀ d' ∈ u.pending q, RunsBefore (registeredOn q tr) d d') ∧
    (∀ t, Event.created q ∈ tr →
      ((∃ u, getNextTaskToRun P q t s = .ok none u) ↔ ∀ d ∈ s.pending q, t < d.targetTime)) := by
  obtain ⟨hshown, hnonnull⟩ := exec_perform_shows hrun
  have h : Ledger P tr s := ledger_of_run hrun ⟨by rw [hshown]; exact hcount, hids⟩
  have htask : ∀ d ∈ s.pending q, d.task ≠ none := fun d hd =>
    hnonnull hnull q d (registered_mem_of_registeredOn (h.mem_registeredOn hd))
  refine ⟨h.nodup q, h.conserved q, ?_, ?_⟩
  · intro t f u hf
    rcases h.takeNextTask_cases q t with ⟨-, heq⟩ | ⟨e, -, -, heq⟩ |
      ⟨e, d, rest, he, hx, ⟨-, heq⟩ | ⟨hle, heq⟩⟩
    · rw [getNextTaskToRun_of_error heq] at hf
      cases hf
    · rw [getNextTaskToRun_of_ok heq] at hf
      cases hf
    · rw [getNextTaskToRun_of_ok heq] at hf
      cases hf
    · rw [getNextTaskToRun_of_ok heq] at hf
      have hpending : ((s.woken e d.targetTime).setEntry q
          { e with delayedTaskQueue := rest }).pending q = rest := by
        rw [pending_setEntry, if_pos rfl]
      injection hf with hf hu
      subst hu
      refine ⟨d, by rw [perform, heq], hf, hle, ?_, ?_⟩
      · rw [hpending, pending_of_entry he]
        exact P.delayedTaskQueue.perm hx
      · rw [hpending]
        exact h.runsBefore_rest he hx
  · intro t hcreated
    constructor
    · rintro ⟨u, hu⟩ x hxp
      rcases h.takeNextTask_cases q t with ⟨-, heq⟩ | ⟨e, he, hn, -⟩ |
        ⟨e, d, rest, he, hx, ⟨hlt, -⟩ | ⟨hle, heq⟩⟩
      · rw [getNextTaskToRun_of_error heq] at hu
        cases hu
      · rw [pending_of_entry he, hn] at hxp
        cases hxp
      · rw [pending_of_entry he] at hxp
        exact Int.lt_of_lt_of_le hlt (targetTime_le_of_extract hx hxp)
      · rw [getNextTaskToRun_of_ok heq] at hu
        injection hu with hu
        have hd : d ∈ s.pending q := by
          rw [pending_of_entry he]
          exact (P.delayedTaskQueue.perm hx).subset List.mem_cons_self
        exact absurd hu (htask d hd)
    · intro hall
      obtain ⟨e, he⟩ := h.created q hcreated
      rcases h.takeNextTask_cases q t with ⟨hnone, -⟩ | ⟨e, -, -, heq⟩ |
        ⟨e, d, rest, he, hx, ⟨-, heq⟩ | ⟨hle, -⟩⟩
      · rw [he] at hnone
        cases hnone
      · exact ⟨_, getNextTaskToRun_of_ok heq⟩
      · exact ⟨_, getNextTaskToRun_of_ok heq⟩
      · have hd : d ∈ s.pending q := by
          rw [pending_of_entry he]
          exact (P.delayedTaskQueue.perm hx).subset List.mem_cons_self
        exact absurd (hall d hd) (Int.not_lt.mpr hle)

/-- Two tasks for the same time and one that is returned. -/
def equalTimes : List (Call Nat) :=
  [.createTaskQueue, .registerTask 0 (some 1) 5, .registerTask 0 (some 2) 5,
    .getNextTaskToRun 0 5]

theorem tasks_conserved_in_order_sample :
    ∃ tr s, exec (perform (windows64 Nat)) equalTimes (TaskQueues.initial : TaskQueues Nat PUnit)
      = some (tr, s) ∧ returnedOn 0 tr = [⟨0, some 1, 5⟩] ∧ s.pending 0 = [⟨1, some 2, 5⟩] ∧
      (registeredOn 0 tr).Nodup := by
  refine ⟨_, _, rfl, rfl, rfl, ?_⟩
  refine (@tasks_conserved_in_order Nat PUnit (windows64 Nat) equalTimes _ _ rfl ?_ ?_ ?_ 0).1
  · decide
  · intro c hc
    simp only [equalTimes, List.mem_cons, List.not_mem_nil, or_false] at hc
    rcases hc with rfl | rfl | rfl | rfl <;> simp [Call.NonNull]
  · intro q hq
    simp at hq
    subst hq
    decide

end CppImprovement.Wtf

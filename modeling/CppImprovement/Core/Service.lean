import Mathlib.Algebra.BigOperators.Group.List.Basic
import Mathlib.Algebra.GroupWithZero.Nat

/-!
# Jobs served in slots

Work arrives in slots of a certain capacity, and jobs are served one after another. A job may be
started by the slot with which the capacity so far reaches its release, and a slot serves one
job only: what is left of its capacity when the job is done is lost. Serving the first job
whenever it may be served finishes all jobs if any division of the slots among them does.
-/

namespace CppImprovement

/-- A job: the capacity that releases it, and the work that is left to do. -/
structure Job where
  release : Nat
  work : Nat
deriving DecidableEq

/-- Serve the first job with every slot that may serve it; the jobs that are left. -/
def serve (received : Nat) : List Nat → List Job → List Job
  | [], jobs => jobs
  | _ :: _, [] => []
  | z :: zs, job :: jobs =>
    if job.release ≤ received + z then
      if job.work ≤ z then serve (received + z) zs jobs
      else serve (received + z) zs (⟨job.release, job.work - z⟩ :: jobs)
    else serve (received + z) zs (job :: jobs)

/-- The slots can be divided into blocks, in order and one for each job, perhaps with idle slots
between them: the first slot of a block releases its job, and the block has the capacity for
its work. -/
def InTime (received : Nat) (slots : List Nat) : List Job → Prop
  | [] => True
  | job :: jobs =>
    ∃ idle first block later,
      slots = idle ++ first :: (block ++ later) ∧
      job.release ≤ received + idle.sum + first ∧ job.work ≤ first + block.sum ∧
      InTime (received + idle.sum + first + block.sum) later jobs

namespace InTime

/-- Slots before a division stay idle. -/
theorem append {received : Nat} {slots : List Nat} {jobs : List Job} (pre : List Nat)
    (h : InTime (received + pre.sum) slots jobs) : InTime received (pre ++ slots) jobs := by
  cases jobs with
  | nil => trivial
  | cons job jobs =>
    obtain ⟨idle, first, block, later, rfl, hrelease, hwork, hrest⟩ := h
    refine ⟨pre ++ idle, first, block, later, (List.append_assoc _ _ _).symm, ?_, hwork, ?_⟩
    · rw [List.sum_append]
      omega
    · rw [List.sum_append, ← Nat.add_assoc]
      exact hrest

/-- Less work needs no other division. -/
theorem of_le_work {received work : Nat} {slots : List Nat} {job : Job} {jobs : List Job}
    (hle : work ≤ job.work) (h : InTime received slots (job :: jobs)) :
    InTime received slots (⟨job.release, work⟩ :: jobs) := by
  obtain ⟨idle, first, block, later, hslots, hrelease, hwork, hrest⟩ := h
  exact ⟨idle, first, block, later, hslots, hrelease, Nat.le_trans hle hwork, hrest⟩

/-- The other jobs are served in time without the first. -/
theorem tail {received : Nat} {slots : List Nat} {job : Job} {jobs : List Job}
    (h : InTime received slots (job :: jobs)) : InTime received slots jobs := by
  obtain ⟨idle, first, block, later, rfl, _, _, hrest⟩ := h
  rw [← List.cons_append, ← List.append_assoc]
  refine append (idle ++ first :: block) ?_
  rw [List.sum_append, List.sum_cons, ← Nat.add_assoc, ← Nat.add_assoc]
  exact hrest

/-- A division that starts with the first slot of its first job. -/
theorem cons {received z : Nat} {job : Job} {jobs : List Job} (block later : List Nat)
    (hrelease : job.release ≤ received + z) (hwork : job.work ≤ z + block.sum)
    (hrest : InTime (received + z + block.sum) later jobs) :
    InTime received (z :: (block ++ later)) (job :: jobs) :=
  ⟨[], z, block, later, rfl, hrelease, hwork, hrest⟩

end InTime

/-- If serving the first job whenever possible leaves nothing, the slots it has used are a
division. -/
theorem inTime_of_serve {received : Nat} {slots : List Nat} {jobs : List Job}
    (h : serve received slots jobs = []) : InTime received slots jobs := by
  induction slots generalizing received jobs with
  | nil =>
    rw [serve] at h
    rw [h]
    trivial
  | cons z zs ih =>
    cases jobs with
    | nil => trivial
    | cons job jobs =>
      rw [serve] at h
      by_cases hrelease : job.release ≤ received + z
      · rw [if_pos hrelease] at h
        by_cases hwork : job.work ≤ z
        · rw [if_pos hwork] at h
          exact InTime.cons [] zs hrelease hwork (ih h)
        · rw [if_neg hwork] at h
          obtain ⟨idle, first, block, later, rfl, _, hleft, hrest⟩ := ih h
          have hslots : idle ++ first :: (block ++ later) = (idle ++ first :: block) ++ later := by
            rw [List.append_assoc, List.cons_append]
          rw [hslots]
          refine InTime.cons (idle ++ first :: block) later hrelease ?_ ?_
          · rw [List.sum_append, List.sum_cons]
            simp only at hleft
            omega
          · rw [List.sum_append, List.sum_cons, ← Nat.add_assoc, ← Nat.add_assoc]
            exact hrest
      · rw [if_neg hrelease] at h
        exact InTime.append [z] (ih h)

/-- Serving the first job whenever possible is as good as any division. -/
theorem serve_of_inTime {received : Nat} {slots : List Nat} {jobs : List Job}
    (h : InTime received slots jobs) : serve received slots jobs = [] := by
  induction slots generalizing received jobs with
  | nil =>
    cases jobs with
    | nil => rfl
    | cons job jobs =>
      obtain ⟨idle, first, block, later, hslots, _⟩ := h
      cases (List.append_eq_nil_iff.mp hslots.symm).2
  | cons z zs ih =>
    cases jobs with
    | nil => rfl
    | cons job jobs =>
      rw [serve]
      obtain ⟨idle, first, block, later, hslots, hrel, hcap, hrest⟩ := h
      cases idle with
      | nil =>
        obtain ⟨rfl, rfl⟩ := List.cons.inj hslots
        have hrelease : job.release ≤ received + z := hrel
        rw [if_pos hrelease]
        by_cases hwork : job.work ≤ z
        · rw [if_pos hwork]
          exact ih (InTime.append block hrest)
        · rw [if_neg hwork]
          cases block with
          | nil => exact absurd hcap hwork
          | cons b block =>
            refine ih (InTime.cons block later (Nat.le_trans hrelease (Nat.le_add_right _ b)) ?_ ?_)
            · rw [List.sum_cons] at hcap
              simp only
              omega
            · rw [List.sum_cons, ← Nat.add_assoc] at hrest
              exact hrest
      | cons w idle =>
        obtain ⟨rfl, rfl⟩ := List.cons.inj hslots
        have hlater : InTime (received + z) (idle ++ first :: (block ++ later)) (job :: jobs) := by
          rw [List.sum_cons, ← Nat.add_assoc] at hrel hrest
          exact ⟨idle, first, block, later, rfl, hrel, hcap, hrest⟩
        by_cases hrelease : job.release ≤ received + z
        · rw [if_pos hrelease]
          by_cases hwork : job.work ≤ z
          · rw [if_pos hwork]
            exact ih hlater.tail
          · rw [if_neg hwork]
            exact ih (hlater.of_le_work (Nat.sub_le _ _))
        · rw [if_neg hrelease]
          exact ih hlater

/-- Serving the first job whenever possible finishes all jobs exactly when the slots can be
divided among them. -/
theorem serve_eq_nil_iff {received : Nat} {slots : List Nat} {jobs : List Job} :
    serve received slots jobs = [] ↔ InTime received slots jobs :=
  ⟨inTime_of_serve, serve_of_inTime⟩

end CppImprovement

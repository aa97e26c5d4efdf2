import CppImprovement.Pipeline.Pipeline
import Mathlib.Data.List.Nodup

/-!
# Delivery of the pipeline

The items the consumer pops are the items the producers push, in the order of the pushes, and
every continuation pushes at most once. A continuation is known by its trace id, which moves
with it from object to object and stays with it after `Complete`.
-/

namespace CppImprovement.Pipe

variable {ρ : Type}

/-- The item an event has pushed. -/
def Event.push : Event ρ → Option (Option ρ × Nat)
  | .pushed _ traceId resource _ => some (resource, traceId)
  | _ => none

/-- The item an event has popped. -/
def Event.pop : Event ρ → Option (Option ρ × Nat)
  | .popped resource traceId => some (resource, traceId)
  | _ => none

/-- The commits, in the order of their locked pushes. -/
def pushes (tr : List (Event ρ)) : List (Option ρ × Nat) := tr.filterMap Event.push

/-- What was popped for the consumer, in order. -/
def pops (tr : List (Event ρ)) : List (Option ρ × Nat) := tr.filterMap Event.pop

/-- The object whose `Complete` has shown the event. -/
def Event.completeAt : Event ρ → Option Nat
  | .pushed i _ _ true => some i
  | .completed i _ _ _ => some i
  | _ => none

/-- The history of the calls of `Complete` on an object: such a call returns true after it has
pushed its resource, and false without a push. The last argument is a call that has pushed and
not returned. -/
inductive Calls (i : Nat) : List (Event ρ) → Option (Nat × Option ρ) → Prop
  | start : Calls i [] none
  | push {tr traceId resource} (h : Calls i tr none) :
    Calls i (tr ++ [.pushed i traceId resource true]) (some (traceId, resource))
  | done {tr traceId resource} (h : Calls i tr (some (traceId, resource))) :
    Calls i (tr ++ [.completed i traceId resource true]) none
  | refused {tr traceId resource} (h : Calls i tr none) :
    Calls i (tr ++ [.completed i traceId resource false]) none
  | other {tr call e} (h : Calls i tr call) (he : e.completeAt ≠ some i) :
    Calls i (tr ++ [e]) call

/-- The trace id of the continuation an object holds. -/
def Object.traceId : Object ρ → Nat
  | .alive c => c.traceId
  | .completing traceId _ => traceId
  | .destroying traceId => traceId
  | .destroyed => 0

/-- The call of `Complete` that is under way on an object. -/
def Object.call : Object ρ → Option (Nat × Option ρ)
  | .completing traceId resource => some (traceId, resource)
  | _ => none

/-- The continuation whose push or `Complete` the event shows. -/
def Event.spends : Event ρ → Option Nat
  | .pushed _ traceId _ _ => some traceId
  | .completed _ traceId _ _ => some traceId
  | _ => none

/-- The continuation has pushed or been completed. -/
def Spent (tr : List (Event ρ)) (traceId : Nat) : Prop := ∃ e ∈ tr, e.spends = some traceId

namespace Pipeline

/-! ## Trace ids name continuations -/

/-- Objects with the same trace id are the same, and the continuations in `spent` are null. -/
structure Named (spent : Nat → Prop) (s : Pipeline ρ) : Prop where
  bound : ∀ (i : Nat) (a : Object ρ), s.objects[i]? = some a → a.traceId ≤ s.lastTraceId
  distinct : ∀ (i j : Nat) (a b : Object ρ), s.objects[i]? = some a → s.objects[j]? = some b →
    a.traceId = b.traceId → a.traceId ≠ 0 → i = j
  unheld : ∀ (i : Nat) (a : Object ρ), s.objects[i]? = some a → a.traceId = 0 → a.live = false
  spent_bound : ∀ t, spent t → t ≤ s.lastTraceId
  spent_null : ∀ t, spent t → ∀ (i : Nat) (a : Object ρ), s.objects[i]? = some a →
    a.traceId = t → a.live = false

section names

variable {spent : Nat → Prop} {s : Pipeline ρ}

private theorem objects_setObject {i j : Nat} {a b o : Object ρ} (ha : s.objects[i]? = some a)
    (hb : (s.setObject i o).objects[j]? = some b) :
    j = i ∧ b = o ∨ j ≠ i ∧ s.objects[j]? = some b := by
  change (s.objects.set i o)[j]? = some b at hb
  rw [List.getElem?_set] at hb
  by_cases hij : i = j
  · have hlt : i < s.objects.length := (List.getElem?_eq_some_iff.mp ha).1
    rw [if_pos hij, if_pos hlt] at hb
    cases hb
    exact Or.inl ⟨hij.symm, rfl⟩
  · rw [if_neg hij] at hb
    exact Or.inr ⟨Ne.symm hij, hb⟩

private theorem objects_construct {j : Nat} {b : Object ρ} {c : ProducerContinuation}
    (hb : (s.construct c).objects[j]? = some b) :
    j = s.objects.length ∧ b = .alive c ∨ s.objects[j]? = some b := by
  change (s.objects ++ [Object.alive c])[j]? = some b at hb
  rcases Nat.lt_or_ge j s.objects.length with hlt | hge
  · rw [List.getElem?_append_left hlt] at hb
    exact Or.inr hb
  · rw [List.getElem?_append_right hge] at hb
    have hj : j = s.objects.length := by
      have := (List.getElem?_eq_some_iff.mp hb).1
      rw [List.length_singleton] at this
      omega
    rw [hj, Nat.sub_self] at hb
    cases hb
    exact Or.inl ⟨hj, rfl⟩

theorem Named.imp {spent' : Nat → Prop} (h : s.Named spent) (himp : ∀ t, spent' t → spent t) :
    s.Named spent' :=
  { h with
    spent_bound := fun t ht => h.spent_bound t (himp t ht)
    spent_null := fun t ht => h.spent_null t (himp t ht) }

/-- Only the objects and the last id matter. -/
theorem Named.of_eq (h : s.Named spent) {t : Pipeline ρ} (hobjects : t.objects = s.objects)
    (hlast : t.lastTraceId = s.lastTraceId) : t.Named spent where
  bound := by rw [hobjects, hlast]; exact h.bound
  distinct := by rw [hobjects]; exact h.distinct
  unheld := by rw [hobjects]; exact h.unheld
  spent_bound := by rw [hlast]; exact h.spent_bound
  spent_null := by rw [hobjects]; exact h.spent_null

/-- An object that holds no slot from now on keeps or loses its id. -/
theorem Named.retire (h : s.Named spent) {i : Nat} {a o : Object ρ}
    (ha : s.objects[i]? = some a) (hid : o.traceId = a.traceId ∨ o.traceId = 0)
    (hlive : o.live = false) : (s.setObject i o).Named spent := by
  refine { h with bound := ?_, distinct := ?_, unheld := ?_, spent_null := ?_ }
  · intro j b hb
    rcases objects_setObject ha hb with ⟨-, rfl⟩ | ⟨-, hb⟩
    · change b.traceId ≤ s.lastTraceId
      have := h.bound i a ha
      omega
    · exact h.bound j b hb
  · intro j k b c hb hc heq hne
    rcases objects_setObject ha hb with ⟨rfl, rfl⟩ | ⟨-, hb'⟩
    · rcases objects_setObject ha hc with ⟨rfl, rfl⟩ | ⟨-, hc'⟩
      · rfl
      · have hba : b.traceId = a.traceId := hid.resolve_right hne
        exact h.distinct j k a c ha hc' (hba ▸ heq) (hba ▸ hne)
    · rcases objects_setObject ha hc with ⟨rfl, rfl⟩ | ⟨-, hc'⟩
      · have hca : c.traceId = a.traceId := hid.resolve_right (heq ▸ hne)
        exact h.distinct j k b a hb' ha (heq.trans hca) hne
      · exact h.distinct j k b c hb' hc' heq hne
  · intro j b hb hzero
    rcases objects_setObject ha hb with ⟨-, rfl⟩ | ⟨-, hb⟩
    · exact hlive
    · exact h.unheld j b hb hzero
  · intro t ht j b hb hbt
    rcases objects_setObject ha hb with ⟨-, rfl⟩ | ⟨-, hb⟩
    · exact hlive
    · exact h.spent_null t ht j b hb hbt

/-- The continuation of an object without a slot counts as spent. -/
theorem Named.spend (h : s.Named spent) {i : Nat} {a : Object ρ} (ha : s.objects[i]? = some a)
    (hlive : a.live = false) : s.Named fun t => spent t ∨ t = a.traceId := by
  refine { h with spent_bound := ?_, spent_null := ?_ }
  · rintro t (ht | rfl)
    · exact h.spent_bound t ht
    · exact h.bound i a ha
  · rintro t (ht | rfl) j b hb hbt
    · exact h.spent_null t ht j b hb hbt
    · by_cases hzero : b.traceId = 0
      · exact h.unheld j b hb hzero
      · have hji : j = i := h.distinct j i b a hb ha hbt hzero
        rw [hji, ha] at hb
        cases hb
        exact hlive

/-- A new object with an id that no other object has and that is not spent. -/
theorem Named.fresh (h : s.Named spent) {c : ProducerContinuation}
    (hbound : c.traceId ≤ s.lastTraceId)
    (hfree : ∀ (i : Nat) (a : Object ρ), s.objects[i]? = some a → a.traceId = c.traceId →
      c.traceId = 0)
    (hzero : c.traceId = 0 → c.continuation = none)
    (hspent : spent c.traceId → c.continuation = none) : (s.construct c).Named spent := by
  have hnull : c.continuation = none → (Object.alive c : Object ρ).live = false := by
    intro hc
    rw [Object.live, hc]
    rfl
  refine { h with bound := ?_, distinct := ?_, unheld := ?_, spent_null := ?_ }
  · intro j b hb
    rcases objects_construct hb with ⟨-, rfl⟩ | hb
    · exact hbound
    · exact h.bound j b hb
  · intro j k b d hb hd heq hne
    rcases objects_construct hb with ⟨rfl, rfl⟩ | hb
    · rcases objects_construct hd with ⟨rfl, rfl⟩ | hd
      · rfl
      · exact absurd (hfree k d hd heq.symm) hne
    · rcases objects_construct hd with ⟨rfl, rfl⟩ | hd
      · exact absurd (heq.trans (hfree j b hb heq)) hne
      · exact h.distinct j k b d hb hd heq hne
  · intro j b hb hb0
    rcases objects_construct hb with ⟨-, rfl⟩ | hb
    · exact hnull (hzero hb0)
    · exact h.unheld j b hb hb0
  · intro t ht j b hb hbt
    rcases objects_construct hb with ⟨-, rfl⟩ | hb
    · subst hbt
      exact hnull (hspent ht)
    · exact h.spent_null t ht j b hb hbt

theorem Named.construct (h : s.Named spent) : (s.construct emptyContinuation).Named spent :=
  h.fresh (Nat.zero_le _) (fun _ _ _ _ => rfl) (fun _ => rfl) (fun _ => rfl)

/-- `Produce` gives the new continuation the next id. -/
theorem Named.produce (h : s.Named spent) (commit : Commit) : (s.produce commit).Named spent := by
  rcases produce_cases commit s with heq | ⟨-, -, heq⟩
  · rw [heq]
    exact h.construct
  · rw [heq]
    have hnext : ({ s with
        empty := { s.empty with count := s.empty.count - 1 }
        lastTraceId := s.lastTraceId + 1 } : Pipeline ρ).Named spent :=
      { h with
        bound := fun i a ha => Nat.le_succ_of_le (h.bound i a ha)
        spent_bound := fun t ht => Nat.le_succ_of_le (h.spent_bound t ht) }
    refine hnext.fresh (Nat.le_refl _) ?_ ?_ ?_
    · intro i a ha heq
      have hle := h.bound i a ha
      have hid : a.traceId = s.lastTraceId + 1 := heq
      omega
    · intro hzero
      exact absurd hzero (Nat.succ_ne_zero _)
    · intro ht
      exact absurd (h.spent_bound _ ht) (Nat.not_succ_le_self _)

/-- The new object takes the id with the continuation. -/
theorem Named.moveConstruct (h : s.Named spent) {i : Nat} {c : ProducerContinuation}
    (hc : s.objects[i]? = some (.alive c)) :
    ((s.setObject i (.alive emptyContinuation)).construct c).Named spent := by
  have hlive : c.continuation.isSome = false → c.continuation = none := by
    intro hn
    exact Option.isNone_iff_eq_none.mp (by rw [← Option.not_isSome, hn]; rfl)
  refine (h.retire hc (Or.inr rfl) rfl).fresh (h.bound i _ hc) ?_ ?_ ?_
  · intro j a ha heq
    rcases objects_setObject hc ha with ⟨-, rfl⟩ | ⟨hji, ha⟩
    · exact heq.symm
    · by_contra hne
      exact hji (h.distinct j i a _ ha hc heq (heq ▸ hne))
  · intro hzero
    exact hlive (h.unheld i _ hc hzero)
  · intro ht
    exact hlive (h.spent_null _ ht i _ hc rfl)

/-- A swap leaves every id with its continuation. -/
theorem Named.swap (h : s.Named spent) {i j : Nat} {a b : Object ρ}
    (ha : s.objects[i]? = some a) (hb : s.objects[j]? = some b) :
    ((s.setObject i b).setObject j a).Named spent := by
  have hsource : ∀ k x, ((s.setObject i b).setObject j a).objects[k]? = some x →
      ∃ k', s.objects[k']? = some x ∧ (k' = if k = j then i else if k = i then j else k) := by
    intro k x hx
    rcases objects_setObject (objects_setObject_swap ha hb) hx with ⟨rfl, rfl⟩ | ⟨hkj, hx⟩
    · exact ⟨i, ha, by rw [if_pos rfl]⟩
    · rcases objects_setObject ha hx with ⟨rfl, rfl⟩ | ⟨hki, hx⟩
      · exact ⟨j, hb, by rw [if_neg hkj, if_pos rfl]⟩
      · exact ⟨k, hx, by rw [if_neg hkj, if_neg hki]⟩
  refine { h with bound := ?_, distinct := ?_, unheld := ?_, spent_null := ?_ }
  · intro k x hx
    obtain ⟨k', hx', -⟩ := hsource k x hx
    exact h.bound k' x hx'
  · intro k l x y hx hy heq hne
    obtain ⟨k', hx', hk⟩ := hsource k x hx
    obtain ⟨l', hy', hl⟩ := hsource l y hy
    have hkl := h.distinct k' l' x y hx' hy' heq hne
    rw [hk, hl] at hkl
    split at hkl <;> split at hkl <;> (try split at hkl) <;> (try split at hkl) <;> omega
  · intro k x hx hzero
    obtain ⟨k', hx', -⟩ := hsource k x hx
    exact h.unheld k' x hx' hzero
  · intro t ht k x hx hxt
    obtain ⟨k', hx', -⟩ := hsource k x hx
    exact h.spent_null t ht k' x hx' hxt

end names

/-! ## The history agrees with the state -/

/-- What was shown so far, against the queue and the objects. -/
structure Delivered (tr : List (Event ρ)) (s : Pipeline ρ) : Prop where
  order : pops tr ++ s.queue = pushes tr
  once : ((pushes tr).map Prod.snd).Nodup
  named : s.Named (Spent tr)
  calls : ∀ i, Calls i tr ((s.objects[i]?).bind Object.call)

theorem delivered_create (depth : Nat) : Delivered [] (create depth : Pipeline ρ) where
  order := rfl
  once := List.nodup_nil
  named :=
    { bound := fun i a h => by cases h
      distinct := fun i j a b h => by cases h
      unheld := fun i a h => by cases h
      spent_bound := fun t ⟨e, he, _⟩ => by cases he
      spent_null := fun t ⟨e, he, _⟩ => by cases he }
  calls i := Calls.start

theorem pushes_append (tr o : List (Event ρ)) : pushes (tr ++ o) = pushes tr ++ pushes o :=
  List.filterMap_append

private theorem pops_append (tr o : List (Event ρ)) : pops (tr ++ o) = pops tr ++ pops o :=
  List.filterMap_append

private theorem spent_append {tr o : List (Event ρ)} {t : Nat} :
    Spent (tr ++ o) t ↔ Spent tr t ∨ Spent o t := by
  constructor
  · rintro ⟨e, he, ht⟩
    rcases List.mem_append.mp he with he | he
    · exact Or.inl ⟨e, he, ht⟩
    · exact Or.inr ⟨e, he, ht⟩
  · rintro (⟨e, he, ht⟩ | ⟨e, he, ht⟩)
    · exact ⟨e, List.mem_append_left o he, ht⟩
    · exact ⟨e, List.mem_append_right tr he, ht⟩

private theorem spent_singleton {e : Event ρ} {t : Nat} : Spent [e] t ↔ e.spends = some t := by
  constructor
  · rintro ⟨x, hx, ht⟩
    rw [List.mem_singleton.mp hx] at ht
    exact ht
  · intro h
    exact ⟨e, List.mem_singleton_self e, h⟩

section history

variable {tr : List (Event ρ)} {s t : Pipeline ρ}

/-- A step that shows nothing and leaves the queue alone. -/
theorem Delivered.silent (h : Delivered tr s) (hqueue : t.queue = s.queue)
    (hnamed : t.Named (Spent tr))
    (hcalls : ∀ i : Nat, (t.objects[i]?).bind Object.call = (s.objects[i]?).bind Object.call) :
    Delivered (tr ++ []) t := by
  rw [List.append_nil]
  refine { h with order := ?_, named := hnamed, calls := ?_ }
  · rw [hqueue]
    exact h.order
  · intro i
    rw [hcalls]
    exact h.calls i

private theorem call_construct (s : Pipeline ρ) (c : ProducerContinuation) (i : Nat) :
    ((s.construct c).objects[i]?).bind Object.call = (s.objects[i]?).bind Object.call := by
  change ((s.objects ++ [Object.alive c])[i]?).bind Object.call = _
  rcases Nat.lt_or_ge i s.objects.length with hlt | hge
  · rw [List.getElem?_append_left hlt]
  · rw [List.getElem?_append_right hge, List.getElem?_eq_none hge]
    cases i - s.objects.length with
    | zero => rfl
    | succ k => rfl

private theorem call_setObject {i : Nat} {a o : Object ρ} (ha : s.objects[i]? = some a) (j : Nat) :
    ((s.setObject i o).objects[j]?).bind Object.call =
      if j = i then o.call else (s.objects[j]?).bind Object.call := by
  change ((s.objects.set i o)[j]?).bind Object.call = _
  have hlt : i < s.objects.length := (List.getElem?_eq_some_iff.mp ha).1
  rw [List.getElem?_set]
  by_cases hij : i = j
  · rw [if_pos hij, if_pos hlt, if_pos hij.symm]
    rfl
  · rw [if_neg hij, if_neg (Ne.symm hij)]

private theorem call_setObject_same {i : Nat} {a : Object ρ} (o : Object ρ)
    (ha : s.objects[i]? = some a) (hcall : o.call = a.call) (j : Nat) :
    ((s.setObject i o).objects[j]?).bind Object.call = (s.objects[j]?).bind Object.call := by
  rw [call_setObject ha]
  by_cases hj : j = i
  · rw [if_pos hj, hj, ha, hcall]
    rfl
  · rw [if_neg hj]

private theorem spent_of_mem_pushes {x : Option ρ × Nat} (h : x ∈ pushes tr) : Spent tr x.2 := by
  obtain ⟨e, he, hx⟩ := List.mem_filterMap.mp h
  cases e with
  | pushed i traceId resource complete =>
    cases hx
    exact ⟨_, he, rfl⟩
  | popped resource traceId => cases hx
  | completed i traceId resource result => cases hx
  | consumed result => cases hx

/-- The calls on the other objects go on as they were. -/
theorem Delivered.calls_other (h : Delivered tr s) {i : Nat} {e : Event ρ}
    (he : ∀ j, j ≠ i → e.completeAt ≠ some j)
    (hsame : ∀ j : Nat, j ≠ i → (t.objects[j]?).bind Object.call = (s.objects[j]?).bind Object.call)
    (hi : Calls i (tr ++ [e]) ((t.objects[i]?).bind Object.call)) :
    ∀ j, Calls j (tr ++ [e]) ((t.objects[j]?).bind Object.call) := by
  intro j
  by_cases hj : j = i
  · rw [hj]
    exact hi
  · rw [hsame j hj]
    exact (h.calls j).other (he j hj)

/-- The object holds a continuation that has neither pushed nor been completed. -/
theorem Delivered.unspent (h : Delivered tr s) {i : Nat} {a : Object ρ}
    (ha : s.objects[i]? = some a) (hlive : a.live = true) : ¬ Spent tr a.traceId := by
  intro hspent
  rw [h.named.spent_null _ hspent i a ha rfl] at hlive
  cases hlive

/-- A commit pushes: `o` is the object until the signal. -/
theorem Delivered.push (h : Delivered tr s) {i : Nat} {c : ProducerContinuation}
    {commit : Commit} {resource : Option ρ} {complete : Bool} {o : Object ρ}
    (hc : s.objects[i]? = some (.alive c)) (hk : c.continuation = some commit)
    (hid : o.traceId = c.traceId) (hlive : o.live = false)
    (hcall : Calls i (tr ++ [.pushed i c.traceId resource complete]) o.call) :
    Delivered (tr ++ [.pushed i c.traceId resource complete])
      ((s.push resource c.traceId).setObject i o) := by
  have hclive : (Object.alive c : Object ρ).live = true := by
    rw [Object.live, hk]
    rfl
  have hpush : pushes (tr ++ [.pushed i c.traceId resource complete]) =
      pushes tr ++ [(resource, c.traceId)] := pushes_append ..
  have hpop : pops (tr ++ [.pushed i c.traceId resource complete]) = pops tr :=
    (pops_append ..).trans (List.append_nil _)
  have hset : ((s.push resource c.traceId).setObject i o).objects[i]? = some o := by
    change (s.objects.set i o)[i]? = some o
    rw [List.getElem?_set_self (List.getElem?_eq_some_iff.mp hc).1]
  refine { order := ?_, once := ?_, named := ?_, calls := ?_ }
  · rw [hpush, hpop, ← h.order, List.append_assoc]
    rfl
  · rw [hpush, List.map_append, List.nodup_append]
    refine ⟨h.once, List.nodup_singleton _, ?_⟩
    intro a ha b hb hab
    obtain ⟨x, hx, rfl⟩ := List.mem_map.mp ha
    have hspent := spent_of_mem_pushes hx
    rw [hab, List.mem_singleton.mp hb] at hspent
    exact h.unspent hc hclive hspent
  · have hnamed : (s.push resource c.traceId).Named (Spent tr) := { h.named with }
    refine ((hnamed.retire hc (Or.inl hid) hlive).spend hset hlive).imp ?_
    intro x hx
    rcases spent_append.mp hx with hx | hx
    · exact Or.inl hx
    · have := spent_singleton.mp hx
      cases this
      exact Or.inr hid.symm
  · refine h.calls_other (i := i) ?_ ?_ ?_
    · intro j hj heq
      cases complete with
      | true =>
        cases heq
        exact hj rfl
      | false => cases heq
    · intro j hj
      exact (call_setObject (s := s.push resource c.traceId) hc j).trans (if_neg hj)
    · rw [hset]
      exact hcall

/-- `Complete` ends: `o` is the object it leaves behind. -/
theorem Delivered.completed (h : Delivered tr s) {i : Nat} {a o : Object ρ}
    {resource : Option ρ} {result : Bool} (ha : s.objects[i]? = some a)
    (hqueue : t.queue = s.queue) (hlast : t.lastTraceId = s.lastTraceId)
    (hobjects : t.objects = s.objects.set i o) (hid : o.traceId = a.traceId)
    (hlive : o.live = false)
    (hcall : Calls i (tr ++ [.completed i a.traceId resource result]) o.call) :
    Delivered (tr ++ [.completed i a.traceId resource result]) t := by
  have hset : t.objects[i]? = some o := by
    rw [hobjects, List.getElem?_set_self (List.getElem?_eq_some_iff.mp ha).1]
  have hnamed : (s.setObject i o).Named fun x => Spent tr x ∨ x = o.traceId :=
    (h.named.retire ha (Or.inl hid) hlive).spend (by rw [← hset, hobjects]; rfl) hlive
  have hpush : pushes (tr ++ [.completed i a.traceId resource result]) = pushes tr :=
    (pushes_append ..).trans (List.append_nil _)
  have hpop : pops (tr ++ [.completed i a.traceId resource result]) = pops tr :=
    (pops_append ..).trans (List.append_nil _)
  refine { order := ?_, once := ?_, named := ?_, calls := ?_ }
  · rw [hpush, hpop, hqueue]
    exact h.order
  · rw [hpush]
    exact h.once
  · refine (hnamed.of_eq hobjects hlast).imp fun x hx => ?_
    rcases spent_append.mp hx with hx | hx
    · exact Or.inl hx
    · have := spent_singleton.mp hx
      cases this
      exact Or.inr hid.symm
  · refine h.calls_other (i := i) ?_ ?_ ?_
    · intro j hj heq
      cases heq
      exact hj rfl
    · intro j hj
      rw [hobjects]
      exact (call_setObject ha j).trans (if_neg hj)
    · rw [hset]
      exact hcall

/-- The end of `Consume` touches neither the queue nor the objects. -/
theorem Delivered.consumed (h : Delivered tr s) {result : PipelineConsumeResult}
    (hqueue : t.queue = s.queue) (hobjects : t.objects = s.objects)
    (hlast : t.lastTraceId = s.lastTraceId) : Delivered (tr ++ [.consumed result]) t := by
  have hpush : pushes (tr ++ [.consumed result]) = pushes tr :=
    (pushes_append ..).trans (List.append_nil _)
  have hpop : pops (tr ++ [.consumed result]) = pops tr :=
    (pops_append ..).trans (List.append_nil _)
  refine { order := ?_, once := ?_, named := ?_, calls := ?_ }
  · rw [hpush, hpop, hqueue]
    exact h.order
  · rw [hpush]
    exact h.once
  · refine (h.named.of_eq hobjects hlast).imp fun x hx => ?_
    rcases spent_append.mp hx with hx | hx
    · exact hx
    · cases spent_singleton.mp hx
  · intro i
    rw [hobjects]
    exact (h.calls i).other (by simp [Event.completeAt])

/-- The pop moves the front of the queue to the consumer. -/
theorem Delivered.pop (h : Delivered tr s) {resource : Option ρ} {traceId : Nat}
    {queue : List (Option ρ × Nat)} {calls : List (Frame ρ)}
    (hqueue : s.queue = (resource, traceId) :: queue) :
    Delivered (tr ++ [.popped resource traceId]) { s with queue := queue, calls := calls } := by
  have hpush : pushes (tr ++ [.popped resource traceId]) = pushes tr :=
    (pushes_append ..).trans (List.append_nil _)
  have hpop : pops (tr ++ [.popped resource traceId]) = pops tr ++ [(resource, traceId)] :=
    pops_append ..
  refine { order := ?_, once := ?_, named := ?_, calls := ?_ }
  · rw [hpush, hpop, ← h.order, hqueue, List.append_assoc]
    rfl
  · rw [hpush]
    exact h.once
  · have hnamed : ({ s with queue := queue, calls := calls } : Pipeline ρ).Named (Spent tr) :=
      h.named.of_eq rfl rfl
    refine hnamed.imp fun x hx => ?_
    rcases spent_append.mp hx with hx | hx
    · exact hx
    · cases spent_singleton.mp hx
  · intro i
    exact (h.calls i).other (by simp [Event.completeAt])

/-- No call of `Complete` is under way on an object that can be used. -/
theorem Delivered.calls_none (h : Delivered tr s) {i : Nat} {c : ProducerContinuation}
    (hc : s.objects[i]? = some (.alive c)) : Calls i tr none := by
  have := h.calls i
  rw [hc] at this
  exact this

/-- Every step keeps history and state in agreement. -/
theorem Delivered.step (h : Delivered tr s) {i : Step ρ} {o : List (Event ρ)}
    (hstep : Pipeline.step i s = some (o, t)) : Delivered (tr ++ o) t := by
  cases i with
  | construct =>
    cases hstep
    exact h.silent rfl h.named.construct (call_construct s _)
  | produce commit =>
    cases hstep
    refine h.silent ?_ (h.named.produce commit) ?_
    · rcases produce_cases commit s with heq | ⟨-, -, heq⟩ <;> rw [heq] <;> rfl
    · intro j
      rcases produce_cases commit s with heq | ⟨-, -, heq⟩
      · rw [heq, call_construct]
      · rw [heq, call_construct]
  | moveConstruct source =>
    obtain ⟨c, hc, rfl, rfl⟩ := moveConstruct_cases hstep
    refine h.silent rfl (h.named.moveConstruct hc) fun j => ?_
    exact (call_construct _ c j).trans (call_setObject_same (.alive emptyContinuation) hc rfl j)
  | moveAssign target source =>
    obtain ⟨c, c', hc, hc', rfl, rfl⟩ := moveAssign_cases hstep
    refine h.silent rfl (h.named.swap hc hc') fun j => ?_
    exact (call_setObject_same (.alive c) (objects_setObject_swap hc hc') rfl j).trans
      (call_setObject_same (.alive c') hc rfl j)
  | complete i resource =>
    obtain ⟨c, hc, ⟨hn, rfl, hts⟩ | ⟨commit, hk, ⟨-, rfl, rfl⟩ | ⟨-, rfl, rfl⟩⟩⟩ :=
      complete_cases hstep
    · rw [hts]
      have hset : s.objects = s.objects.set i (.alive c) := by
        obtain ⟨hlt, hget⟩ := List.getElem?_eq_some_iff.mp hc
        rw [← hget, List.set_getElem_self]
      exact h.completed hc rfl rfl hset rfl (by simp [Object.live, hn]) (h.calls_none hc).refused
    · exact h.completed hc rfl rfl rfl rfl rfl (h.calls_none hc).refused
    · exact h.push hc hk rfl rfl (h.calls_none hc).push
  | destroy i =>
    obtain ⟨c, hc, ⟨hn, rfl, rfl⟩ | ⟨commit, hk, ⟨-, rfl, rfl⟩ | ⟨-, rfl, rfl⟩⟩⟩ :=
      destroy_cases hstep
    · exact h.silent rfl (h.named.retire hc (Or.inr rfl) rfl) (call_setObject_same _ hc rfl)
    · have hnamed : ({ s with empty := s.empty.signal } : Pipeline ρ).Named (Spent tr) :=
        { h.named with }
      exact h.silent rfl (hnamed.retire hc (Or.inr rfl) rfl) (call_setObject_same _ hc rfl)
    · exact h.push hc hk rfl rfl ((h.calls_none hc).other (by simp [Event.completeAt]))
  | signal i =>
    have hnamed : ({ s with available := s.available.signal } : Pipeline ρ).Named (Spent tr) :=
      { h.named with }
    obtain ⟨traceId, resource, hi, rfl, rfl⟩ | ⟨traceId, hi, rfl, rfl⟩ := signal_cases hstep
    · have hcall := h.calls i
      rw [hi] at hcall
      exact h.completed hi rfl rfl rfl rfl rfl hcall.done
    · exact h.silent rfl (hnamed.retire hi (Or.inr rfl) rfl) (call_setObject_same _ hi rfl)
  | consume nonNull =>
    obtain ⟨rfl, rfl⟩ | ⟨-, -, rfl, rfl⟩ := consume_cases hstep
    · exact h.consumed rfl rfl rfl
    · exact h.silent rfl { h.named with } fun _ => rfl
  | pop =>
    obtain ⟨calls, resource, traceId, queue, -, hqueue, rfl, rfl⟩ := pop_cases hstep
    exact h.pop hqueue
  | release =>
    obtain ⟨resource, itemsCount, calls, -, rfl, rfl⟩ := release_cases hstep
    exact h.consumed rfl rfl rfl

end history

/-- For every interleaving: what was popped followed by what is queued is what was pushed, in
order; no continuation pushes twice; `Complete` returns true exactly when it has pushed its
resource; and once a continuation was completed, `Complete` on the object that holds it returns
false and changes nothing. -/
theorem delivered_once_in_order {depth : Nat} {steps : List (Step ρ)} {tr : List (Event ρ)}
    {s : Pipeline ρ} (hrun : exec step steps (create depth) = some (tr, s)) :
    pops tr ++ s.queue = pushes tr ∧ ((pushes tr).map Prod.snd).Nodup ∧
      (∀ i, ∃ call, Calls i tr call) ∧
      ∀ i traceId resource result, .completed i traceId resource result ∈ tr →
        ∀ (j : Nat) c, s.objects[j]? = some (.alive c) → c.traceId = traceId →
          ∀ resource', step (.complete j resource') s =
            some ([.completed j traceId resource' false], s) := by
  have h : Delivered tr s :=
    exec_invariant (I := Delivered) (fun _ _ _ _ _ hd hs => hd.step hs) (delivered_create depth)
      hrun
  refine ⟨h.order, h.once, fun i => ⟨_, h.calls i⟩, ?_⟩
  intro i traceId resource result hmem j c hc hid resource'
  have hspent : Spent tr traceId := ⟨_, hmem, rfl⟩
  have hlive := h.named.spent_null traceId hspent j _ hc hid
  have hnull : c.continuation = none := by
    cases hk : c.continuation with
    | none => rfl
    | some commit =>
      rw [Object.live, hk] at hlive
      cases hlive
  change s.complete j resource' = _
  simp only [complete, hc, hnull, hid]

/-- A continuation is moved, completed, moved again and completed a second time. -/
def completedTwice : List (Step Nat) :=
  [.produce .always, .moveConstruct 0, .complete 1 (some 7), .signal 1, .moveConstruct 1,
    .complete 2 (some 8), .consume true, .pop]

theorem delivered_once_in_order_sample :
    ∃ tr s, exec step completedTwice (create 2) = some (tr, s) ∧ pushes tr = [(some 7, 1)] ∧
      pops tr = [(some 7, 1)] ∧ pops tr ++ s.queue = pushes tr := by
  refine ⟨_, _, rfl, rfl, rfl, ?_⟩
  exact (@delivered_once_in_order Nat 2 completedTwice _ _ rfl).1

/-! ## The promise of `MoreAvailable` -/

/-- Whether a step is one of the consumer. -/
def isConsumer : Step ρ → Bool
  | .consume _ => true
  | .pop => true
  | .release => true
  | _ => false

/-- `Consume` has returned `MoreAvailable` in some run, and since then only producers have moved:
the next call of `Consume` is made in the state `s`. -/
def PromisedMore (depth : Nat) (s : Pipeline ρ) : Prop :=
  ∃ before between tr₁ tr₂ s₁ s₂, exec step before (create depth) = some (tr₁, s₁) ∧
    step .release s₁ = some ([.consumed .moreAvailable], s₂) ∧
    exec step between s₂ = some (tr₂, s) ∧ ∀ i ∈ between, isConsumer i = false

/-- Only the innermost call can be between the semaphore and the pop. -/
def Nested (s : Pipeline ρ) : Prop := ∀ f ∈ s.calls.tail, f.isTaken = false

section promise

variable {s t : Pipeline ρ} {o : List (Event ρ)}

theorem Nested.mem (h : s.Nested) (hcallable : s.callable = true) :
    ∀ f ∈ s.calls, f.isTaken = false := by
  intro f hf
  rw [callable] at hcallable
  cases hcalls : s.calls with
  | nil =>
    rw [hcalls] at hf
    cases hf
  | cons g calls =>
    rw [hcalls] at hf hcallable
    rcases List.mem_cons.mp hf with rfl | hf
    · cases f with
      | taken => cases hcallable
      | popped resource itemsCount => rfl
    · exact h f (by rw [hcalls]; exact hf)

/-- The steps of producers leave the calls of `Consume` alone. -/
theorem calls_step {i : Step ρ} (hi : isConsumer i = false) (h : step i s = some (o, t)) :
    t.calls = s.calls := by
  cases i with
  | construct =>
    cases h
    rfl
  | produce commit =>
    cases h
    rcases produce_cases commit s with heq | ⟨-, -, heq⟩ <;> rw [heq] <;> rfl
  | moveConstruct source =>
    obtain ⟨c, -, -, rfl⟩ := moveConstruct_cases h
    rfl
  | moveAssign target source =>
    obtain ⟨c, c', -, -, -, rfl⟩ := moveAssign_cases h
    rfl
  | complete i resource =>
    obtain ⟨c, -, ⟨-, -, rfl⟩ | ⟨commit, -, ⟨-, -, rfl⟩ | ⟨-, -, rfl⟩⟩⟩ := complete_cases h <;> rfl
  | destroy i =>
    obtain ⟨c, -, ⟨-, -, rfl⟩ | ⟨commit, -, ⟨-, -, rfl⟩ | ⟨-, -, rfl⟩⟩⟩ := destroy_cases h <;> rfl
  | signal i =>
    obtain ⟨traceId, resource, -, -, rfl⟩ | ⟨traceId, -, -, rfl⟩ := signal_cases h <;> rfl
  | consume nonNull => cases hi
  | pop => cases hi
  | release => cases hi

theorem calls_exec {between : List (Step ρ)} {tr : List (Event ρ)}
    (hb : ∀ i ∈ between, isConsumer i = false) (h : exec step between s = some (tr, t)) :
    t.calls = s.calls := by
  induction between generalizing s tr with
  | nil =>
    cases h
    rfl
  | cons i is ih =>
    obtain ⟨o, u, tr', hi, hr, -⟩ := exec_cons_eq_some.mp h
    have hu := calls_step (hb i List.mem_cons_self) hi
    rw [ih (fun j hj => hb j (List.mem_cons_of_mem i hj)) hr, hu]

theorem Nested.step (h : s.Nested) {i : Step ρ} (hstep : Pipeline.step i s = some (o, t)) :
    t.Nested := by
  by_cases hi : isConsumer i = false
  · rw [Nested, calls_step hi hstep]
    exact h
  · cases i with
    | consume nonNull =>
      have hcallable : s.callable = true := by
        by_contra hc
        rw [Pipeline.step, consume, if_neg hc] at hstep
        cases hstep
      obtain ⟨-, rfl⟩ | ⟨-, -, -, rfl⟩ := consume_cases hstep
      · exact h
      · exact h.mem hcallable
    | pop =>
      obtain ⟨calls, resource, traceId, queue, hcalls, -, -, rfl⟩ := pop_cases hstep
      rw [Nested, hcalls] at h
      exact h
    | release =>
      obtain ⟨resource, itemsCount, calls, hcalls, -, rfl⟩ := release_cases hstep
      rw [Nested, hcalls] at h
      intro f hf
      exact h f (List.mem_of_mem_tail hf)
    | construct => exact absurd rfl hi
    | produce commit => exact absurd rfl hi
    | moveConstruct source => exact absurd rfl hi
    | moveAssign target source => exact absurd rfl hi
    | complete i resource => exact absurd rfl hi
    | destroy i => exact absurd rfl hi
    | signal i => exact absurd rfl hi

/-- When `Consume` can be called, the semaphore counts the queued items that are signalled. -/
theorem available_of_callable {depth : Nat} (h : s.Balanced depth) (hn : s.Nested)
    (hcallable : s.callable = true) : s.available.count + s.committing = s.queue.length := by
  have htaken : s.taken = 0 := by
    rw [taken, List.countP_eq_zero]
    intro f hf
    rw [hn.mem hcallable f hf]
    exact Bool.false_ne_true
  have := h.filled
  omega

private theorem consume_eq_none_iff {depth : Nat} (h : s.Balanced depth)
    (hcallable : s.callable = true) :
    step (.consume true) s = some ([.consumed .noneAvailable], s) ↔ s.available.count = 0 := by
  change s.consume true = _ ↔ _
  rw [consume, if_pos hcallable, if_pos rfl, Semaphore.tryWait]
  by_cases hc : s.available.count = 0
  · rw [if_neg (by omega)]
    exact ⟨fun _ => hc, fun _ => rfl⟩
  · rw [if_pos ⟨h.available_valid, by omega⟩]
    constructor
    · intro heq
      cases heq
    · exact fun hzero => absurd hzero hc

theorem PromisedMore.callable {depth : Nat} (h : PromisedMore depth s) :
    s.Balanced depth ∧ s.Nested ∧ s.callable = true := by
  obtain ⟨before, between, tr₁, tr₂, s₁, s₂, hbefore, hrelease, hbetween, hproducers⟩ := h
  have hs₁ : s₁.Nested :=
    exec_keeps (fun _ _ _ _ hn hs => Nested.step hn hs) (fun f hf => by cases hf) hbefore
  have hs₂ := (balanced_of_run hbefore).step hrelease
  have hn₂ := hs₁.step hrelease
  refine ⟨exec_keeps (fun _ _ _ _ hb hs => Balanced.step hb hs) hs₂ hbetween,
    exec_keeps (fun _ _ _ _ hn hs => Nested.step hn hs) hn₂ hbetween, ?_⟩
  obtain ⟨resource, itemsCount, calls, hcalls, -, rfl⟩ := release_cases hrelease
  rw [Nested, hcalls] at hs₁
  rw [Pipeline.callable, calls_exec hproducers hbetween]
  cases calls with
  | nil => rfl
  | cons f calls =>
    cases f with
    | taken => cases hs₁ _ List.mem_cons_self
    | popped resource itemsCount => rfl

end promise

/-- After `MoreAvailable` the next call of `Consume` finds an item exactly when fewer producers
stand between their push and their signal than items are queued. -/
theorem consume_after_moreAvailable_iff {depth : Nat} {s : Pipeline ρ}
    (h : PromisedMore depth s) :
    step (.consume true) s ≠ some ([.consumed .noneAvailable], s) ↔
      s.committing < s.queue.length := by
  obtain ⟨hbalanced, hnested, hcallable⟩ := h.callable
  have havailable := available_of_callable hbalanced hnested hcallable
  rw [Ne, consume_eq_none_iff hbalanced hcallable]
  omega

/-- Two items are pushed, one of them is signalled, and one is consumed. -/
def oneUnsignalled : List (Step Nat) :=
  [.produce .always, .produce .always, .complete 0 (some 7), .signal 0, .complete 1 (some 8),
    .consume true, .pop]

/-- The second item is signalled before `Consume` is called again. -/
theorem consume_after_moreAvailable_sample :
    ∃ tr s, exec step (oneUnsignalled ++ [.release, .signal 1]) (create 2) = some (tr, s) ∧
      s.queue = [(some 8, 2)] ∧
      step (.consume true) s ≠ some ([.consumed .noneAvailable], s) := by
  refine ⟨_, _, rfl, rfl, (@consume_after_moreAvailable_iff Nat 2 _ ?_).mpr ?_⟩
  · exact ⟨oneUnsignalled, [.signal 1], _, _, _, _, rfl, rfl, rfl, by simp [isConsumer]⟩
  · decide

/-- The second item is not signalled yet. -/
theorem moreAvailable_then_noneAvailable :
    ¬ ∀ (depth : Nat) (s : Pipeline Nat), PromisedMore depth s →
      step (.consume true) s ≠ some ([.consumed .noneAvailable], s) := by
  intro h
  refine h 2 _ ⟨oneUnsignalled, [], _, _, _, _, rfl, rfl, rfl, by simp⟩ rfl

end Pipeline

end CppImprovement.Pipe

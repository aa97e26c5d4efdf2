import CppImprovement.Reflect.Class
import CppImprovement.Core.Transition
import Mathlib.Logic.Function.Basic

/-!
# Instances of classes

A class makes objects with `newInstance` and keeps book of them: the address of a new object is
entered in the one map of all instances, together with the class, and in the set of instances that
belongs to the shared data of the class. An object that is owned by a `std::shared_ptr` is taken out
of both when the last owner lets it go. An object that was made with `LeakPtr` is not: who deletes
it leaves the books as they are, and its address may be given to an object of another class.
-/

namespace CppImprovement.Reflect

variable {τ β : Type}

/-! ## The books -/

/-- The objects that have been made and are alive: the class that made each, and whether it was made
with `LeakPtr`. -/
abbrev LiveObjects (τ : Type) := Nat → Option (τ × Bool)

/-- The static data of the classes with their books, and the objects. Addresses are numbers, and the
null pointer is zero. -/
structure Registry (τ β : Type) where
  classes : Classes τ β
  /-- `ClassUnknown::instances()` -/
  instances : Nat → Option τ
  /-- `m_instances` of the shared data with the given `m_typeid` -/
  members : Int → Nat → Bool
  objects : LiveObjects τ

/-- What the application does: it makes an object, which the allocator puts at some address, lets
the last `std::shared_ptr` to an object go, deletes an object it got from `LeakPtr`, or asks about
an address. -/
inductive RegistryStep (τ : Type)
  | newInstance (t : τ) (p : Nat) (leak : Bool)
  | deleteInstance (p : Nat)
  | delete (p : Nat)
  | getClassOf (p : Nat)
  | isInstance (t : τ) (p : Nat)

/-- The answers. -/
inductive RegistryAnswer (τ : Type)
  | classOf (p : Nat) (answer : Option τ)
  | isInstance (t : τ) (p : Nat) (answer : Bool)

/-- Where the allocator can put a new object. -/
def LiveObjects.isFree (objects : LiveObjects τ) (p : Nat) : Bool :=
  p != 0 && (objects p).isNone

namespace Registry

/-- Before the first call. -/
def initial : Registry τ β where
  classes := .initial
  instances _ := none
  members _ _ := false
  objects _ := none

/-- `ClassUnknown::getClass(void*)`. -/
def getClassOf (s : Registry τ β) (p : Nat) : Option τ :=
  if p = 0 ∨ s.instances p = none then none else s.instances p

variable [DecidableEq τ] [DecidableEq β] (traits : TypeTraits τ β)

/-- `getClass<T>().newInstance(LeakPtr)`, with the object at the address `p`. -/
def newInstance (t : τ) (p : Nat) (leak : Bool) (s : Registry τ β) : Option (Registry τ β) :=
  let classes := getClass traits s.classes t
  (getTypeid traits classes t).map fun typeid =>
    { classes := classes
      instances := Function.update s.instances p (some t)
      members := Function.update s.members typeid (Function.update (s.members typeid) p true)
      objects := Function.update s.objects p (some (t, leak)) }

/-- `deleteInstance` of the class that made the object. -/
def deleteInstance (t : τ) (p : Nat) (s : Registry τ β) : Option (Registry τ β) :=
  (getTypeid traits s.classes t).map fun typeid =>
    { s with
      instances := Function.update s.instances p none
      members := Function.update s.members typeid (Function.update (s.members typeid) p false)
      objects := Function.update s.objects p none }

/-- `getClass<T>().isInstance(p)`. -/
def isInstance (t : τ) (p : Nat) (s : Registry τ β) : Option (Bool × Registry τ β) :=
  let classes := getClass traits s.classes t
  (getTypeid traits classes t).map fun typeid => (s.members typeid p, { s with classes := classes })

/-- One step. It is not possible where the source would follow a null `m_sharedData`. -/
def step : RegistryStep τ → Registry τ β → Option (List (RegistryAnswer τ) × Registry τ β)
  | .newInstance t p leak, s =>
    if s.objects.isFree p then (s.newInstance traits t p leak).map fun s' => ([], s') else none
  | .deleteInstance p, s =>
    match s.objects p with
    | some (t, false) => (s.deleteInstance traits t p).map fun s' => ([], s')
    | _ => none
  | .delete p, s =>
    match s.objects p with
    | some (_, true) => some ([], { s with objects := Function.update s.objects p none })
    | _ => none
  | .getClassOf p, s => some ([.classOf p (s.getClassOf p)], s)
  | .isInstance t p, s =>
    (s.isInstance traits t p).map fun r => ([.isInstance t p r.1], r.2)

end Registry

/-! ## What the books are for -/

namespace LiveObjects

variable [DecidableEq τ] (traits : TypeTraits τ β)

/-- An address is that of an instance of a class when the object there was made by a class whose
base type has the same descriptor. -/
def isInstance (objects : LiveObjects τ) (t : τ) (p : Nat) : Bool :=
  match objects p with
  | some (u, _) =>
    decide (traits.descriptor (traits.basetype u) = traits.descriptor (traits.basetype t))
  | none => false

/-- The answers as the objects themselves would give them. -/
def step : RegistryStep τ → LiveObjects τ → Option (List (RegistryAnswer τ) × LiveObjects τ)
  | .newInstance t p leak, objects =>
    if objects.isFree p then some ([], Function.update objects p (some (t, leak))) else none
  | .deleteInstance p, objects =>
    match objects p with
    | some (_, false) => some ([], Function.update objects p none)
    | _ => none
  | .delete p, objects =>
    match objects p with
    | some (_, true) => some ([], Function.update objects p none)
    | _ => none
  | .getClassOf p, objects => some ([.classOf p ((objects p).map Prod.fst)], objects)
  | .isInstance t p, objects => some ([.isInstance t p (objects.isInstance traits t p)], objects)

end LiveObjects

/-! ## Identifiers stay -/

private theorem sharedData_classSharedData (key : Bytes) (s : Classes τ β) :
    (classSharedData key s).2.sharedData = s.sharedData := by
  unfold classSharedData
  split <;> rfl

/-- Equal identifiers are equal descriptors. -/
theorem Classes.Ready.typeid_eq_iff {traits : TypeTraits τ β} {s : Classes τ β}
    (h : s.Ready traits) {t u : τ} {i j : Int} (ht : getTypeid traits s t = some i)
    (hu : getTypeid traits s u = some j) :
    i = j ↔ traits.descriptor (traits.basetype t) = traits.descriptor (traits.basetype u) :=
  (h.consistent.keyed _ (h.consistent.shared _ _ ht) _ (h.consistent.shared _ _ hu)).symm

section typeids

variable [DecidableEq β] {descriptor : β → Bytes}

private theorem sharedData_classBase_of_some {s : Classes τ β} {u : β} {typeid : Int} (t : β)
    (hu : s.sharedData u = some typeid) :
    (classBase descriptor t s).sharedData u = some typeid := by
  unfold classBase
  cases ht : s.sharedData t with
  | some _ => exact hu
  | none =>
    have hut : u ≠ t := by
      rintro rfl
      rw [hu] at ht
      cases ht
    change (if u = t then _ else _) = some typeid
    rw [if_neg hut, sharedData_classSharedData, hu]

variable [DecidableEq τ] {traits : TypeTraits τ β} {s : Classes τ β}

private theorem getTypeid_getClass_of_some {u : τ} {typeid : Int} (t : τ)
    (hu : getTypeid traits s u = some typeid) :
    getTypeid traits (getClass traits s t) u = some typeid := by
  unfold getClass
  split
  · exact hu
  · exact sharedData_classBase_of_some _ hu

private theorem Classes.Ready.exists_typeid (h : s.Ready traits) (t : τ) :
    ∃ typeid, getTypeid traits (Reflect.getClass traits s t) t = some typeid := by
  obtain ⟨hready, hmem, -⟩ := h.getClass t
  exact Option.isSome_iff_exists.mp (hready.initialized t hmem)

end typeids

/-! ## The books agree with the objects -/

namespace Registry

variable {traits : TypeTraits τ β} {D : Nat → Prop} {s s' : Registry τ β} {p : Nat}

/-- The books are right about an address. -/
structure BookedAt (traits : TypeTraits τ β) (s : Registry τ β) (p : Nat) : Prop where
  instances : s.instances p = (s.objects p).map Prod.fst
  members : ∀ i, s.members i p = true ↔
    ∃ t leak, s.objects p = some (t, leak) ∧ getTypeid traits s.classes t = some i

/-- The books are right but for the addresses `D`, those of objects that are deleted behind their
back. -/
structure Booked (traits : TypeTraits τ β) (D : Nat → Prop) (s : Registry τ β) : Prop where
  ready : s.classes.Ready traits
  null : s.objects 0 = none
  made : ∀ p t leak, s.objects p = some (t, leak) → ∃ i, getTypeid traits s.classes t = some i
  books : ∀ p, ¬ D p → BookedAt traits s p

/-- What happens at one address leaves the books right about the others. -/
theorem Booked.of_address (h : Booked traits D s) (p : Nat) (hclasses : s'.classes = s.classes)
    (hinstances : ∀ q, q ≠ p → s'.instances q = s.instances q)
    (hmembers : ∀ q, q ≠ p → ∀ i, s'.members i q = s.members i q)
    (hobjects : ∀ q, q ≠ p → s'.objects q = s.objects q) (hnull : p = 0 → s'.objects p = none)
    (hmade : ∀ t leak, s'.objects p = some (t, leak) → ∃ i, getTypeid traits s.classes t = some i)
    (hbooks : ¬ D p → BookedAt traits s' p) : Booked traits D s' := by
  refine { ready := ?_, null := ?_, made := ?_, books := ?_ }
  · rw [hclasses]
    exact h.ready
  · by_cases hp : p = 0
    · rw [← hp]
      exact hnull hp
    · rw [hobjects 0 (Ne.symm hp), h.null]
  · intro q t leak hq
    rw [hclasses]
    by_cases hqp : q = p
    · rw [hqp] at hq
      exact hmade t leak hq
    · rw [hobjects q hqp] at hq
      exact h.made q t leak hq
  · intro q hq
    by_cases hqp : q = p
    · rw [hqp] at hq ⊢
      exact hbooks hq
    · constructor
      · rw [hinstances q hqp, hobjects q hqp]
        exact (h.books q hq).instances
      · intro i
        rw [hmembers q hqp, hobjects q hqp, hclasses]
        exact (h.books q hq).members i

private theorem members_update_of_ne {members : Int → Nat → Bool} {typeid : Int} {p q : Nat}
    {b : Bool}
    (hq : q ≠ p) (i : Int) :
    Function.update members typeid (Function.update (members typeid) p b) i q = members i q := by
  by_cases hi : i = typeid
  · rw [hi, Function.update_self, Function.update_of_ne hq]
  · rw [Function.update_of_ne hi]

private theorem members_update_self {members : Int → Nat → Bool} {typeid i : Int} {p : Nat}
    {b : Bool} :
    Function.update members typeid (Function.update (members typeid) p b) i p =
      if i = typeid then b else members i p := by
  by_cases hi : i = typeid
  · rw [hi, Function.update_self, Function.update_self, if_pos rfl]
  · rw [Function.update_of_ne hi, if_neg hi]

/-- A new object at a free address. -/
theorem Booked.insert (h : Booked traits D s) {t : τ} {typeid : Int} (leak : Bool)
    (hfree : s.objects.isFree p = true) (ht : getTypeid traits s.classes t = some typeid) :
    Booked traits D
      { s with
        instances := Function.update s.instances p (some t)
        members := Function.update s.members typeid (Function.update (s.members typeid) p true)
        objects := Function.update s.objects p (some (t, leak)) } := by
  rw [LiveObjects.isFree, Bool.and_eq_true, bne_iff_ne, Option.isNone_iff_eq_none] at hfree
  refine h.of_address p rfl ?_ ?_ ?_ ?_ ?_ ?_
  · intro q hq
    exact Function.update_of_ne hq ..
  · intro q hq
    exact members_update_of_ne hq
  · intro q hq
    exact Function.update_of_ne hq ..
  · intro hp
    exact absurd hp hfree.1
  · intro u l hu
    simp only [Function.update_self] at hu
    cases hu
    exact ⟨typeid, ht⟩
  · intro hp
    constructor
    · simp only [Function.update_self, Option.map_some]
    · intro i
      have hold : s.members i p ≠ true := by
        rw [ne_eq, (h.books p hp).members i, hfree.2]
        rintro ⟨u, l, hu, -⟩
        cases hu
      simp only [members_update_self, Function.update_self, Option.some.injEq, Prod.mk.injEq]
      constructor
      · intro hm
        split at hm
        case isTrue hi => exact ⟨t, leak, ⟨rfl, rfl⟩, hi ▸ ht⟩
        case isFalse => exact absurd hm hold
      · rintro ⟨u, l, ⟨rfl, rfl⟩, hi⟩
        rw [if_pos (Option.some.inj (hi.symm.trans ht))]

/-- An object goes, and the books with it. -/
theorem Booked.erase (h : Booked traits D s) {t : τ} {typeid : Int} {leak : Bool}
    (hobject : s.objects p = some (t, leak)) (ht : getTypeid traits s.classes t = some typeid) :
    Booked traits D
      { s with
        instances := Function.update s.instances p none
        members := Function.update s.members typeid (Function.update (s.members typeid) p false)
        objects := Function.update s.objects p none } := by
  refine h.of_address p rfl ?_ ?_ ?_ ?_ ?_ ?_
  · intro q hq
    exact Function.update_of_ne hq ..
  · intro q hq
    exact members_update_of_ne hq
  · intro q hq
    exact Function.update_of_ne hq ..
  · intro _
    exact Function.update_self ..
  · intro u l hu
    simp only [Function.update_self] at hu
    cases hu
  · intro hp
    constructor
    · simp only [Function.update_self, Option.map_none]
    · intro i
      simp only [members_update_self, Function.update_self, reduceCtorEq, false_and, exists_false,
        iff_false]
      by_cases hi : i = typeid
      · rw [if_pos hi]
        exact Bool.false_ne_true
      · rw [if_neg hi, (h.books p hp).members i, hobject]
        rintro ⟨u, l, hu, hu'⟩
        cases hu
        exact hi (Option.some.inj (hu'.symm.trans ht))

/-- An object is deleted behind the back of the books. -/
theorem Booked.delete (h : Booked traits D s) (hp : D p) :
    Booked traits D { s with objects := Function.update s.objects p none } := by
  refine h.of_address p rfl (fun _ _ => rfl) (fun _ _ _ => rfl) ?_ ?_ ?_ ?_
  · intro q hq
    exact Function.update_of_ne hq ..
  · intro _
    exact Function.update_self ..
  · intro u l hu
    simp only [Function.update_self] at hu
    cases hu
  · intro hnot
    exact absurd hp hnot

/-- The books answer `getClass` as the objects would. -/
theorem Booked.getClassOf_eq (h : Booked traits D s) (hp : ¬ D p) :
    s.getClassOf p = (s.objects p).map Prod.fst := by
  rw [getClassOf, (h.books p hp).instances]
  by_cases hp0 : p = 0 ∨ (s.objects p).map Prod.fst = none
  · rw [if_pos hp0]
    rcases hp0 with rfl | hnone
    · rw [h.null]
      rfl
    · exact hnone.symm
  · rw [if_neg hp0]

/-- The books answer `isInstance` as the objects would. -/
theorem Booked.members_eq (h : Booked traits D s) (hp : ¬ D p) {t : τ} {typeid : Int}
    (ht : getTypeid traits s.classes t = some typeid) :
    s.members typeid p = s.objects.isInstance traits t p := by
  rw [Bool.eq_iff_iff, (h.books p hp).members, LiveObjects.isInstance]
  constructor
  · rintro ⟨u, leak, hu, hi⟩
    rw [hu]
    exact decide_eq_true ((h.ready.typeid_eq_iff hi ht).mp rfl)
  · intro hinstance
    split at hinstance
    case h_1 u leak hu =>
      obtain ⟨i, hi⟩ := h.made p u leak hu
      rw [(h.ready.typeid_eq_iff hi ht).mpr (of_decide_eq_true hinstance)] at hi
      exact ⟨u, leak, hu, hi⟩
    case h_2 => cases hinstance

section steps

variable [DecidableEq τ] [DecidableEq β]

private theorem booked_initial : Booked traits D (initial : Registry τ β) where
  ready := ready_of_calls traits []
  null := rfl
  made p t leak h := by cases h
  books p _ := ⟨rfl, fun i => by simp [initial]⟩

/-- A class more does not matter. -/
theorem Booked.getClass (h : Booked traits D s) (t : τ) :
    Booked traits D { s with classes := Reflect.getClass traits s.classes t } where
  ready := (h.ready.getClass t).1
  null := h.null
  made p u leak hp := by
    obtain ⟨i, hi⟩ := h.made p u leak hp
    exact ⟨i, getTypeid_getClass_of_some t hi⟩
  books p hp := by
    refine ⟨(h.books p hp).instances, ?_⟩
    intro i
    rw [(h.books p hp).members i]
    constructor
    · rintro ⟨u, leak, hu, hi⟩
      exact ⟨u, leak, hu, getTypeid_getClass_of_some t hi⟩
    · rintro ⟨u, leak, hu, hi⟩
      obtain ⟨j, hj⟩ := h.made p u leak hu
      cases hi.symm.trans (getTypeid_getClass_of_some t hj)
      exact ⟨u, leak, hu, hj⟩

/-- The application deletes objects at the addresses `D` only, and asks about others only. -/
def Respects (D : Nat → Prop) : RegistryStep τ → Prop
  | .delete p => D p
  | .getClassOf p => ¬ D p
  | .isInstance _ p => ¬ D p
  | _ => True

/-- A step with the books and one with the objects alone are both possible or both not, and show the
same. -/
theorem Booked.step (h : Booked traits D s) {i : RegistryStep τ} (hi : Respects D i) :
    (Registry.step traits i s = none ∧ LiveObjects.step traits i s.objects = none) ∨
      ∃ o s', Registry.step traits i s = some (o, s') ∧
        LiveObjects.step traits i s.objects = some (o, s'.objects) ∧ Booked traits D s' := by
  cases i with
  | newInstance t p leak =>
    rw [Registry.step, LiveObjects.step]
    by_cases hfree : s.objects.isFree p = true
    · obtain ⟨typeid, ht⟩ := h.ready.exists_typeid t
      rw [if_pos hfree, if_pos hfree, newInstance, ht]
      exact Or.inr ⟨_, _, rfl, rfl, (h.getClass t).insert leak hfree ht⟩
    · rw [if_neg hfree, if_neg hfree]
      exact Or.inl ⟨rfl, rfl⟩
  | deleteInstance p =>
    rw [Registry.step, LiveObjects.step]
    split
    case h_1 t hobject =>
      obtain ⟨typeid, ht⟩ := h.made p t false hobject
      rw [deleteInstance, ht]
      exact Or.inr ⟨_, _, rfl, rfl, h.erase hobject ht⟩
    case h_2 => exact Or.inl ⟨rfl, rfl⟩
  | delete p =>
    rw [Registry.step, LiveObjects.step]
    split
    case h_1 t hobject => exact Or.inr ⟨_, _, rfl, rfl, h.delete hi⟩
    case h_2 => exact Or.inl ⟨rfl, rfl⟩
  | getClassOf p =>
    refine Or.inr ⟨_, s, rfl, ?_, h⟩
    rw [LiveObjects.step, h.getClassOf_eq hi]
  | isInstance t p =>
    obtain ⟨typeid, ht⟩ := h.ready.exists_typeid t
    have hbooked := h.getClass t
    have hmembers := hbooked.members_eq hi ht
    rw [Registry.step, isInstance, ht, LiveObjects.step]
    refine Or.inr ⟨_, _, rfl, ?_, hbooked⟩
    exact congrArg (fun b => some ([RegistryAnswer.isInstance t p b], s.objects)) hmembers.symm

theorem Booked.run (h : Booked traits D s) {steps : List (RegistryStep τ)}
    (hsteps : ∀ i ∈ steps, Respects D i) :
    (exec (Registry.step traits) steps s).map (fun r => (r.1, r.2.objects)) =
      exec (LiveObjects.step traits) steps s.objects := by
  induction steps generalizing s with
  | nil => rfl
  | cons i steps ih =>
    rcases h.step (hsteps i List.mem_cons_self) with ⟨hnone, hnone'⟩ | ⟨o, t, hsome, hsome', ht⟩
    · rw [exec, exec, hnone, hnone']
      rfl
    · rw [exec_cons_of_eq hsome, exec_cons_of_eq hsome',
        ← ih ht (fun j hj => hsteps j (List.mem_cons_of_mem i hj)), Option.map_map, Option.map_map]
      rfl

/-- Types that are their own base types, with descriptors of one letter. -/
def letterTraits : TypeTraits Nat Nat where
  basetype := id
  descriptor t := [UInt8.ofNat t]

/-- An address that is given out twice. -/
def reuseSteps : List (RegistryStep Nat) :=
  [.newInstance 1 8 false, .deleteInstance 8, .newInstance 2 8 true, .isInstance 1 8,
    .isInstance 2 8, .getClassOf 8]

/-- The class of a type has an instance at an address. -/
def HasMember (traits : TypeTraits τ β) (t : τ) (p : Nat) (s : Registry τ β) : Prop :=
  ∃ typeid, getTypeid traits s.classes t = some typeid ∧ s.members typeid p = true

theorem HasMember.getClass {t : τ} (h : HasMember traits t p s) (u : τ) :
    HasMember traits t p { s with classes := Reflect.getClass traits s.classes u } := by
  obtain ⟨typeid, ht, hp⟩ := h
  exact ⟨typeid, getTypeid_getClass_of_some u ht, hp⟩

private theorem newInstance_eq_some {t : τ} {leak : Bool} {o : List (RegistryAnswer τ)}
    (h : Registry.step traits (.newInstance t p leak) s = some (o, s')) :
    ∃ typeid, getTypeid traits (Reflect.getClass traits s.classes t) t = some typeid ∧
      s'.classes = Reflect.getClass traits s.classes t ∧
      s'.members =
        Function.update s.members typeid (Function.update (s.members typeid) p true) := by
  rw [Registry.step] at h
  split at h
  case isTrue =>
    obtain ⟨_, hnew, heq⟩ := Option.map_eq_some_iff.mp h
    obtain ⟨typeid, ht, rfl⟩ := Option.map_eq_some_iff.mp hnew
    cases heq
    exact ⟨typeid, ht, rfl, rfl⟩
  case isFalse => cases h

theorem HasMember.step {t : τ} (h : HasMember traits t p s) {i : RegistryStep τ}
    (hi : i ≠ .deleteInstance p) {o : List (RegistryAnswer τ)}
    (hstep : Registry.step traits i s = some (o, s')) : HasMember traits t p s' := by
  cases i with
  | newInstance u q leak =>
    obtain ⟨_, -, hclasses, hmembers⟩ := newInstance_eq_some hstep
    obtain ⟨typeid, ht, hp⟩ := h
    refine ⟨typeid, ?_, ?_⟩
    · rw [hclasses]
      exact getTypeid_getClass_of_some u ht
    · rw [hmembers]
      by_cases hpq : p = q
      · rw [hpq] at hp ⊢
        rw [members_update_self, hp, ite_self]
      · rw [members_update_of_ne hpq, hp]
  | deleteInstance q =>
    have hpq : p ≠ q := by
      rintro rfl
      exact hi rfl
    rw [Registry.step] at hstep
    split at hstep
    case h_1 u _ =>
      obtain ⟨_, hdelete, heq⟩ := Option.map_eq_some_iff.mp hstep
      obtain ⟨_, -, rfl⟩ := Option.map_eq_some_iff.mp hdelete
      cases heq
      obtain ⟨typeid, ht, hp⟩ := h
      exact ⟨typeid, ht, (members_update_of_ne hpq _).trans hp⟩
    case h_2 => cases hstep
  | delete q =>
    rw [Registry.step] at hstep
    split at hstep
    case h_1 =>
      cases hstep
      exact h
    case h_2 => cases hstep
  | getClassOf q =>
    cases hstep
    exact h
  | isInstance u q =>
    obtain ⟨_, hinstance, heq⟩ := Option.map_eq_some_iff.mp hstep
    obtain ⟨_, -, rfl⟩ := Option.map_eq_some_iff.mp hinstance
    cases heq
    exact h.getClass u

/-- Once a class has made an object at an address, the address is that of an instance of the class
until `deleteInstance` is called for it: also after the object has been deleted in another way, and
after an object of another class has been put there. -/
theorem isInstance_until_deleteInstance {t : τ} {leak : Bool} {before after : List (RegistryStep τ)}
    {tr : List (RegistryAnswer τ)} (hafter : .deleteInstance p ∉ after)
    (hrun : exec (Registry.step traits) (before ++ .newInstance t p leak :: after) initial =
      some (tr, s)) : (s.isInstance traits t p).map Prod.fst = some true := by
  obtain ⟨s₁, _, _, -, hrest, -⟩ := exec_append_eq_some.mp hrun
  obtain ⟨_, s₂, _, hnew, hafterRun, -⟩ := exec_cons_eq_some.mp hrest
  have hmade : HasMember traits t p s₂ := by
    obtain ⟨typeid, ht, hclasses, hmembers⟩ := newInstance_eq_some hnew
    refine ⟨typeid, ?_, ?_⟩
    · rw [hclasses]
      exact ht
    · rw [hmembers, members_update_self, if_pos rfl]
  have hkept : ∀ i ∈ after, i ≠ .deleteInstance p := by
    rintro i hi rfl
    exact hafter hi
  obtain ⟨typeid, ht, hp⟩ :=
    exec_keeps_on (fun _ _ _ _ hi hmember => hmember.step hi) hkept hmade hafterRun
  rw [isInstance, getTypeid_getClass_of_some t ht]
  exact congrArg some hp

theorem isInstance_until_deleteInstance_reuse :
    ∃ tr s, exec (Registry.step letterTraits) ([] ++ .newInstance 1 8 true ::
        [.delete 8, .newInstance 2 8 false, .getClassOf 8]) initial = some (tr, s) ∧
      tr = [.classOf 8 (some 2)] ∧ (s.isInstance letterTraits 1 8).map Prod.fst = some true := by
  have hrun : exec (Registry.step letterTraits) ([] ++ .newInstance 1 8 true ::
      [.delete 8, .newInstance 2 8 false, .getClassOf 8]) initial = some (_, _) := rfl
  exact ⟨_, _, hrun, rfl, isInstance_until_deleteInstance (by simp) hrun⟩

end steps

end Registry

end CppImprovement.Reflect

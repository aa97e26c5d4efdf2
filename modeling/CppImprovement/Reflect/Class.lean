import CppImprovement.Core.Bytes

/-!
# Classes

`getClass<T>()` gives the class object of a type, one object for each `T`. What two classes
compare is not the type but an identifier kept with the shared data of their base types, and the
shared data are found under the text of a descriptor. So after any calls of `getClass` two
classes are assignable exactly when the descriptors of their base types are the same text.

The model is generic in the types: `τ` are the arguments of `getClass`, and `β` their base types.
-/

namespace CppImprovement.Reflect

variable {τ β : Type}

/-- What the templates compute from a type. -/
structure TypeTraits (τ β : Type) where
  /-- `TypeValueTraits<T>::basetype` -/
  basetype : τ → β
  /-- `TypeDescriptor<T>::descriptor()` -/
  descriptor : β → Bytes

/-- The static data of the classes. Shared data are named by their `m_typeid`. -/
structure Classes (τ β : Type) where
  /-- `ClassSharedData::nextTypeid` -/
  nextTypeid : Int
  /-- the map in `ClassUnknown::classSharedData` -/
  map : List (Bytes × Int)
  /-- `ClassBase<T>::m_sharedData` -/
  sharedData : β → Option Int
  /-- the types whose `sharedClass` in `getClass` is initialized -/
  initialized : List τ

/-- Before the first call. -/
def Classes.initial : Classes τ β where
  nextTypeid := 1
  map := []
  sharedData _ := none
  initialized := []

/-- `ClassUnknown::classSharedData`: the shared data of the key, made when there are none. -/
def classSharedData (key : Bytes) (s : Classes τ β) : Int × Classes τ β :=
  match s.map.lookup key with
  | some typeid => (typeid, s)
  | none => (s.nextTypeid,
      { s with nextTypeid := s.nextTypeid + 1, map := (key, s.nextTypeid) :: s.map })

section calls

variable [DecidableEq β]

/-- The constructor of `ClassBase<T>`. -/
def classBase (descriptor : β → Bytes) (t : β) (s : Classes τ β) : Classes τ β :=
  match s.sharedData t with
  | some _ => s
  | none =>
    let (typeid, s') := classSharedData (descriptor t) s
    { s' with sharedData := fun u => if u = t then some typeid else s'.sharedData u }

variable [DecidableEq τ]

/-- `getClass<T>()`: what the first call for a type does. The constructor of `Class<T>` calls
`getClass<T>()` once more, which finds the type initialized. -/
def getClass (traits : TypeTraits τ β) (s : Classes τ β) (t : τ) : Classes τ β :=
  if t ∈ s.initialized then s
  else classBase traits.descriptor (traits.basetype t) { s with initialized := t :: s.initialized }

/-- `getTypeid` of the class of a type; without shared data there is none. -/
def getTypeid (traits : TypeTraits τ β) (s : Classes τ β) (t : τ) : Option Int :=
  s.sharedData (traits.basetype t)

/-- `getClass<A>().isAssignableFrom(getClass<B>())`. -/
def isAssignableFrom (traits : TypeTraits τ β) (s : Classes τ β) (a b : τ) : Bool :=
  let s' := getClass traits (getClass traits s a) b
  getTypeid traits s' a == getTypeid traits s' b

end calls

/-! ## What the static data say -/

/-- Every key has one identifier of its own, and the shared data of a base type are those of its
descriptor. -/
structure Classes.Consistent (descriptor : β → Bytes) (s : Classes τ β) : Prop where
  fresh : ∀ e ∈ s.map, e.2 < s.nextTypeid
  keyed : ∀ e ∈ s.map, ∀ e' ∈ s.map, e.1 = e'.1 ↔ e.2 = e'.2
  shared : ∀ t typeid, s.sharedData t = some typeid → (descriptor t, typeid) ∈ s.map

section classes

variable {descriptor : β → Bytes} {s : Classes τ β}

private theorem consistent_initial : (Classes.initial : Classes τ β).Consistent descriptor where
  fresh e he := absurd he List.not_mem_nil
  keyed e he := absurd he List.not_mem_nil
  shared t typeid h := by cases h

/-- New shared data get a new identifier. -/
theorem Classes.Consistent.allocate (h : s.Consistent descriptor) {key : Bytes}
    (hkey : s.map.lookup key = none) :
    Classes.Consistent descriptor
      { s with nextTypeid := s.nextTypeid + 1, map := (key, s.nextTypeid) :: s.map } := by
  have hnew : ∀ e ∈ s.map, e.1 ≠ key := by
    intro e he heq
    have hne := List.lookup_eq_none_iff.mp hkey e he
    rw [heq] at hne
    simp at hne
  refine ⟨?_, ?_, ?_⟩
  · intro e he
    rcases List.mem_cons.mp he with rfl | he
    · exact Int.lt_add_one_of_le (Int.le_refl _)
    · exact Int.lt_trans (h.fresh e he) (Int.lt_add_one_of_le (Int.le_refl _))
  · intro e he e' he'
    rcases List.mem_cons.mp he with rfl | he
    · rcases List.mem_cons.mp he' with rfl | he'
      · exact iff_of_true rfl rfl
      · exact iff_of_false (hnew e' he').symm (h.fresh e' he').ne'
    · rcases List.mem_cons.mp he' with rfl | he'
      · exact iff_of_false (hnew e he) (h.fresh e he).ne
      · exact h.keyed e he e' he'
  · intro t typeid ht
    exact List.mem_cons_of_mem _ (h.shared t typeid ht)

/-- What `classSharedData` returns stands under its key, and nothing else has changed. -/
theorem classSharedData_spec (h : s.Consistent descriptor) (key : Bytes) :
    (classSharedData key s).2.Consistent descriptor ∧
      (key, (classSharedData key s).1) ∈ (classSharedData key s).2.map ∧
      (classSharedData key s).2.sharedData = s.sharedData ∧
      (classSharedData key s).2.initialized = s.initialized := by
  unfold classSharedData
  cases hl : s.map.lookup key with
  | some typeid =>
    obtain ⟨before, after, heq, -⟩ := List.lookup_eq_some_iff.mp hl
    exact ⟨h, by simp [heq], rfl, rfl⟩
  | none => exact ⟨h.allocate hl, List.mem_cons_self, rfl, rfl⟩

variable [DecidableEq β]

/-- The constructor of `ClassBase<T>` leaves shared data for `T` and keeps those of other
types. -/
theorem classBase_spec (h : s.Consistent descriptor) (t : β) :
    (classBase descriptor t s).Consistent descriptor ∧
      ((classBase descriptor t s).sharedData t).isSome = true ∧
      (∀ u, (s.sharedData u).isSome = true →
        ((classBase descriptor t s).sharedData u).isSome = true) ∧
      (classBase descriptor t s).initialized = s.initialized := by
  obtain ⟨hconsistent, hmem, hshared, hinit⟩ := classSharedData_spec h (descriptor t)
  unfold classBase
  cases ht : s.sharedData t with
  | some typeid => exact ⟨h, by simp [ht], fun u hu => hu, rfl⟩
  | none =>
    refine ⟨⟨hconsistent.fresh, hconsistent.keyed, ?_⟩, by simp, ?_, hinit⟩
    · intro u typeid hu
      change (if u = t then _ else _) = some typeid at hu
      split at hu
      · rename_i heq
        cases hu
        rw [heq]
        exact hmem
      · exact hconsistent.shared u typeid hu
    · intro u hu
      change Option.isSome (if u = t then _ else _) = true
      split
      · rfl
      · rw [hshared]
        exact hu

end classes

/-- Between calls of `getClass` the classes that exist have their shared data. -/
structure Classes.Ready (traits : TypeTraits τ β) (s : Classes τ β) : Prop where
  consistent : s.Consistent traits.descriptor
  initialized : ∀ t ∈ s.initialized, (getTypeid traits s t).isSome = true

section getClass

variable [DecidableEq τ] [DecidableEq β] {traits : TypeTraits τ β} {s : Classes τ β}

/-- A call of `getClass` keeps the classes that exist and adds that of its type. -/
theorem Classes.Ready.getClass (h : s.Ready traits) (t : τ) :
    (getClass traits s t).Ready traits ∧ t ∈ (Reflect.getClass traits s t).initialized ∧
      ∀ u ∈ s.initialized, u ∈ (Reflect.getClass traits s t).initialized := by
  unfold Reflect.getClass
  by_cases ht : t ∈ s.initialized
  · rw [if_pos ht]
    exact ⟨h, ht, fun u hu => hu⟩
  · rw [if_neg ht]
    have hmarked : Classes.Consistent traits.descriptor
        { s with initialized := t :: s.initialized } :=
      ⟨h.consistent.fresh, h.consistent.keyed, h.consistent.shared⟩
    obtain ⟨hconsistent, hsome, hkept, hinit⟩ := classBase_spec hmarked (traits.basetype t)
    rw [hinit]
    refine ⟨⟨hconsistent, ?_⟩, List.mem_cons_self, fun u hu => List.mem_cons_of_mem _ hu⟩
    intro u hu
    rw [hinit] at hu
    rcases List.mem_cons.mp hu with rfl | hu
    · exact hsome
    · exact hkept _ (h.initialized u hu)

/-- After any calls of `getClass` the static data are ready. -/
theorem ready_of_calls (traits : TypeTraits τ β) (calls : List τ) :
    (calls.foldl (getClass traits) Classes.initial).Ready traits := by
  have hfold : ∀ s : Classes τ β, s.Ready traits →
      (calls.foldl (getClass traits) s).Ready traits := by
    induction calls with
    | nil => exact fun s h => h
    | cons t calls ih => exact fun s h => ih _ (h.getClass t).1
  exact hfold _ ⟨consistent_initial, fun t ht => absurd ht List.not_mem_nil⟩

/-- Two classes are assignable exactly when their base types have the same descriptor. -/
theorem Classes.Ready.isAssignableFrom_iff (h : s.Ready traits) (a b : τ) :
    isAssignableFrom traits s a b = true ↔
      traits.descriptor (traits.basetype a) = traits.descriptor (traits.basetype b) := by
  obtain ⟨ha, hmema, -⟩ := h.getClass a
  obtain ⟨hb, hmemb, hkept⟩ := ha.getClass b
  obtain ⟨i, hi⟩ := Option.isSome_iff_exists.mp (hb.initialized a (hkept a hmema))
  obtain ⟨j, hj⟩ := Option.isSome_iff_exists.mp (hb.initialized b hmemb)
  have hkeyed := hb.consistent.keyed _ (hb.consistent.shared _ _ hi) _
    (hb.consistent.shared _ _ hj)
  unfold isAssignableFrom
  simp only [hi, hj, beq_iff_eq, Option.some.injEq]
  exact hkeyed.symm

end getClass

end CppImprovement.Reflect

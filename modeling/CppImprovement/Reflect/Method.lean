import CppImprovement.Core.MapHistory
import CppImprovement.Core.Text
import CppImprovement.Reflect.TypeDescriptor
import Mathlib.Data.List.Lex
import Mathlib.Data.List.OfFn

/-!
# Declared members and parameter types

A class keeps its methods and fields in maps under printed keys: the name of the class and of the
member, and for a method the descriptors of its parameters. The keys tell members apart, so a
lookup finds exactly the member last set under its name and parameters. But a lookup reads the map
with `operator[]`: one that finds nothing leaves a null member behind, which the lists of all
members then return until the member is set.

`getParameterTypes` of a method is meant to list the classes of its parameters; it repeats the
class of the first one.
-/

namespace CppImprovement.Reflect

/-! ## Keys -/

/-- The separators of `methodDescriptor`. -/
def parameterText : List Bytes → Bytes
  | [] => []
  | [p] => p ++ ascii ")"
  | p :: ps => p ++ ascii "," ++ parameterText ps

/-- The name of a member, with its class if there is one. -/
def memberText (classDescriptor name : Bytes) : Bytes :=
  (if classDescriptor.isEmpty then [] else classDescriptor ++ ascii "::") ++ name

/-- `fieldDescriptor`. -/
def fieldDescriptor (classDescriptor name : Bytes) : Bytes := memberText classDescriptor name

/-- `methodDescriptor`; the closing parenthesis comes with the last parameter. -/
def methodDescriptor (classDescriptor name : Bytes) (parameterTypeDescriptors : List Bytes) :
    Bytes :=
  memberText classDescriptor name ++ ascii "(" ++ parameterText parameterTypeDescriptors

/-- A method as it is set and looked up: its name, and the descriptors of its parameters. -/
structure MethodKey where
  name : Bytes
  parameters : List Bytes
deriving DecidableEq

/-- The descriptor of a method of a class. -/
def MethodKey.descriptor (classDescriptor : Bytes) (k : MethodKey) : Bytes :=
  methodDescriptor classDescriptor k.name k.parameters

/-- No separator of `methodDescriptor` stands in the name or in a parameter's descriptor. -/
structure MethodKey.Plain (k : MethodKey) : Prop where
  name : (40 : UInt8) ∉ k.name
  parameters : ∀ p ∈ k.parameters, (44 : UInt8) ∉ p ∧ (41 : UInt8) ∉ p

/-- An octet other than the separators behind a parameter. -/
def parameterOctet (c : UInt8) : Bool := c != 44 && c != 41

private theorem parameterOctet_of_plain {p : Bytes} (h : (44 : UInt8) ∉ p ∧ (41 : UInt8) ∉ p) :
    ∀ c ∈ p, parameterOctet c = true := by
  intro c hc
  have hcomma : c ≠ 44 := fun heq => h.1 (heq ▸ hc)
  have hparen : c ≠ 41 := fun heq => h.2 (heq ▸ hc)
  simp [parameterOctet, hcomma, hparen]

private theorem memberText_inj {classDescriptor name name' x y : Bytes}
    (h : memberText classDescriptor name ++ x = memberText classDescriptor name' ++ y) :
    name ++ x = name' ++ y := by
  rw [memberText, memberText, List.append_assoc, List.append_assoc] at h
  exact List.append_cancel_left h

/-- The text of a parameter list begins with its first parameter and a separator. -/
theorem parameterText_cons (p : Bytes) (ps : List Bytes) :
    ∃ c rest, parameterOctet c = false ∧ parameterText (p :: ps) = p ++ c :: rest ∧
      (ps = [] ∧ c = 41 ∨ ps ≠ [] ∧ c = 44 ∧ rest = parameterText ps) := by
  cases ps with
  | nil => exact ⟨41, [], rfl, rfl, Or.inl ⟨rfl, rfl⟩⟩
  | cons q qs =>
    refine ⟨44, parameterText (q :: qs), rfl, ?_, Or.inr ⟨List.cons_ne_nil q qs, rfl, rfl⟩⟩
    rw [parameterText, List.append_assoc]
    · rfl
    · exact List.cons_ne_nil q qs

/-- The text determines the parameters. -/
theorem parameterText_inj {ps qs : List Bytes}
    (hps : ∀ p ∈ ps, (44 : UInt8) ∉ p ∧ (41 : UInt8) ∉ p)
    (hqs : ∀ q ∈ qs, (44 : UInt8) ∉ q ∧ (41 : UInt8) ∉ q)
    (h : parameterText ps = parameterText qs) : ps = qs := by
  induction ps generalizing qs with
  | nil =>
    cases qs with
    | nil => rfl
    | cons q qs =>
      obtain ⟨c, rest, -, heq, -⟩ := parameterText_cons q qs
      rw [heq] at h
      simp [parameterText] at h
  | cons p ps ih =>
    obtain ⟨c, rest, hc, heq, hcases⟩ := parameterText_cons p ps
    cases qs with
    | nil =>
      rw [heq] at h
      simp [parameterText] at h
    | cons q qs =>
      obtain ⟨d, rest', hd, heq', hcases'⟩ := parameterText_cons q qs
      obtain ⟨hp, hps'⟩ := List.forall_mem_cons.mp hps
      obtain ⟨hq, hqs'⟩ := List.forall_mem_cons.mp hqs
      rw [heq, heq'] at h
      obtain ⟨rfl, htail⟩ := piece_append_inj (parameterOctet_of_plain hp)
        (parameterOctet_of_plain hq) (delimited_cons hc rest) (delimited_cons hd rest') h
      obtain ⟨rfl, rfl⟩ := List.cons.inj htail
      -- the separator says whether more parameters follow
      rcases hcases with ⟨rfl, rfl⟩ | ⟨-, rfl, hrest⟩
      · rcases hcases' with ⟨rfl, -⟩ | ⟨-, hcomma, -⟩
        · rfl
        · exact absurd hcomma (by decide)
      · rcases hcases' with ⟨-, hparen⟩ | ⟨-, -, hrest'⟩
        · exact absurd hparen (by decide)
        · rw [ih hps' hqs' (hrest.symm.trans hrest')]

/-- The descriptors of a class tell its methods apart. -/
theorem MethodKey.descriptor_inj {classDescriptor : Bytes} {k k' : MethodKey} (hk : k.Plain)
    (hk' : k'.Plain) (h : k.descriptor classDescriptor = k'.descriptor classDescriptor) :
    k = k' := by
  rw [MethodKey.descriptor, MethodKey.descriptor, methodDescriptor, methodDescriptor,
    List.append_assoc, List.append_assoc] at h
  have hopen : ∀ name : Bytes, (40 : UInt8) ∉ name → ∀ c ∈ name, (c != 40) = true := by
    intro name hname c hc
    exact bne_iff_ne.mpr fun heq => hname (heq ▸ hc)
  obtain ⟨hname, hrest⟩ := piece_append_inj (hopen _ hk.name) (hopen _ hk'.name)
    (delimited_cons rfl _) (delimited_cons rfl _) (memberText_inj h)
  have hparameters := parameterText_inj hk.parameters hk'.parameters (List.cons.inj hrest).2
  cases k
  cases k'
  cases hname
  cases hparameters
  rfl

private theorem fieldDescriptor_inj {classDescriptor name name' : Bytes}
    (h : fieldDescriptor classDescriptor name = fieldDescriptor classDescriptor name') :
    name = name' := by
  have hnames := @memberText_inj classDescriptor name name' [] []
    (by rw [List.append_nil, List.append_nil]; exact h)
  rw [List.append_nil, List.append_nil] at hnames
  exact hnames

/-! ## The members of a class -/

section members

variable {μ φ : Type}

/-- The order of `std::map<std::string, ...>`: octets are compared as unsigned numbers. -/
def octetOrder (key : Bytes) : List Nat := key.map UInt8.toNat

private theorem octetOrder_injective : Function.Injective octetOrder :=
  List.map_injective_iff.mpr fun _ _ h => UInt8.toNat_inj.mp h

/-- The members in `ClassSharedData`; a null pointer is `none`. -/
structure ClassMembers (μ φ : Type) where
  methods : OrderedMap octetOrder (Option μ)
  fields : OrderedMap octetOrder (Option φ)

/-- A class without members. -/
def ClassMembers.initial : ClassMembers μ φ where
  methods := .empty
  fields := .empty

/-- A call on the class; `method` and `field` are the objects made for the member that is set. -/
inductive ClassCall (μ φ : Type)
  | setDeclaredMethod (k : MethodKey) (method : μ)
  | setDeclaredField (name : Bytes) (field : φ)
  | getDeclaredMethod (k : MethodKey)
  | getDeclaredField (name : Bytes)

namespace ClassMembers

variable (classDescriptor : Bytes)

/-- `ClassBase::setDeclaredMethod`. -/
def setDeclaredMethod (k : MethodKey) (method : μ) (s : ClassMembers μ φ) : ClassMembers μ φ :=
  { s with methods := s.methods.insertOrAssign (k.descriptor classDescriptor) (some method) }

/-- `ClassBase::setDeclaredField`. -/
def setDeclaredField (name : Bytes) (field : φ) (s : ClassMembers μ φ) : ClassMembers μ φ :=
  { s with fields := s.fields.insertOrAssign (fieldDescriptor classDescriptor name) (some field) }

/-- `ClassUnknown::getDeclaredMethod`, with `getDeclaredMethodFromDescription`. -/
def getDeclaredMethod (k : MethodKey) (s : ClassMembers μ φ) : Option μ × ClassMembers μ φ :=
  let r := s.methods.subscript (k.descriptor classDescriptor) none
  (r.1, { s with methods := r.2 })

/-- `ClassUnknown::getDeclaredField`, with `getDeclaredFieldFromDescription`. -/
def getDeclaredField (name : Bytes) (s : ClassMembers μ φ) : Option φ × ClassMembers μ φ :=
  let r := s.fields.subscript (fieldDescriptor classDescriptor name) none
  (r.1, { s with fields := r.2 })

/-- `ClassBase::getDeclaredMethods`. -/
def getDeclaredMethods (s : ClassMembers μ φ) : List (Option μ) := s.methods.values

/-- `ClassBase::getDeclaredFields`. -/
def getDeclaredFields (s : ClassMembers μ φ) : List (Option φ) := s.fields.values

/-- What a call leaves. -/
def perform (s : ClassMembers μ φ) : ClassCall μ φ → ClassMembers μ φ
  | .setDeclaredMethod k method => s.setDeclaredMethod classDescriptor k method
  | .setDeclaredField name field => s.setDeclaredField classDescriptor name field
  | .getDeclaredMethod k => (s.getDeclaredMethod classDescriptor k).2
  | .getDeclaredField name => (s.getDeclaredField classDescriptor name).2

end ClassMembers

/-! ## Histories of calls -/

/-- The access to the methods that a call makes. -/
def ClassCall.methodAccess : ClassCall μ φ → Option (Access MethodKey μ)
  | .setDeclaredMethod k method => some (.assign k method)
  | .getDeclaredMethod k => some (.read k)
  | _ => none

/-- The access to the fields that a call makes. -/
def ClassCall.fieldAccess : ClassCall μ φ → Option (Access Bytes φ)
  | .setDeclaredField name field => some (.assign name field)
  | .getDeclaredField name => some (.read name)
  | _ => none

/-- The accesses to the methods of a class. -/
def methodAccesses (calls : List (ClassCall μ φ)) : List (Access MethodKey μ) :=
  calls.filterMap ClassCall.methodAccess

/-- The accesses to the fields of a class. -/
def fieldAccesses (calls : List (ClassCall μ φ)) : List (Access Bytes φ) :=
  calls.filterMap ClassCall.fieldAccess

/-- The class after a history of calls. -/
def membersAfter (classDescriptor : Bytes) (calls : List (ClassCall μ φ)) : ClassMembers μ φ :=
  calls.foldl (ClassMembers.perform classDescriptor) .initial

/-- The methods after a history are those of its accesses. -/
theorem methods_membersAfter (classDescriptor : Bytes) (calls : List (ClassCall μ φ)) :
    (membersAfter classDescriptor calls).methods =
      printedMap octetOrder (MethodKey.descriptor classDescriptor) (methodAccesses calls) := by
  refine foldl_accesses (fun s c => ?_) calls ClassMembers.initial
  cases c <;> rfl

/-- The fields after a history are those of its accesses. -/
theorem fields_membersAfter (classDescriptor : Bytes) (calls : List (ClassCall μ φ)) :
    (membersAfter classDescriptor calls).fields =
      printedMap octetOrder (fieldDescriptor classDescriptor) (fieldAccesses calls) := by
  refine foldl_accesses (fun s c => ?_) calls ClassMembers.initial
  cases c <;> rfl

private theorem printable_methods (classDescriptor : Bytes) :
    Printable octetOrder (MethodKey.descriptor classDescriptor) MethodKey.Plain where
  rank_injective := octetOrder_injective
  apart _ _ := MethodKey.descriptor_inj

private theorem printable_fields (classDescriptor : Bytes) :
    Printable octetOrder (fieldDescriptor classDescriptor) fun _ => True where
  rank_injective := octetOrder_injective
  apart _ _ _ _ := fieldDescriptor_inj

/-- The names and descriptors of a call hold no separators. -/
def ClassCall.Plain : ClassCall μ φ → Prop
  | .setDeclaredMethod k _ => k.Plain
  | .getDeclaredMethod k => k.Plain
  | _ => True

private theorem plain_methodAccesses {calls : List (ClassCall μ φ)} (h : ∀ c ∈ calls, c.Plain) :
    ∀ a ∈ methodAccesses calls, a.key.Plain := by
  intro a ha
  obtain ⟨c, hc, hca⟩ := List.mem_filterMap.mp ha
  have hplain := h c hc
  cases c <;> cases hca <;> exact hplain

private theorem methodAccess_eq_assign {c : ClassCall μ φ} {k : MethodKey} {method : μ} :
    c.methodAccess = some (.assign k method) ↔ c = .setDeclaredMethod k method := by
  cases c <;> simp [ClassCall.methodAccess]

private theorem methodAccess_eq_read {c : ClassCall μ φ} {k : MethodKey} :
    c.methodAccess = some (.read k) ↔ c = .getDeclaredMethod k := by
  cases c <;> simp [ClassCall.methodAccess]

private theorem fieldAccess_eq_assign {c : ClassCall μ φ} {name : Bytes} {field : φ} :
    c.fieldAccess = some (.assign name field) ↔ c = .setDeclaredField name field := by
  cases c <;> simp [ClassCall.fieldAccess]

private theorem fieldAccess_eq_read {c : ClassCall μ φ} {name : Bytes} :
    c.fieldAccess = some (.read name) ↔ c = .getDeclaredField name := by
  cases c <;> simp [ClassCall.fieldAccess]

/-- After the calls a lookup finds the member last set under its name and parameters, and the
lists hold the members last set, each once and without nulls. -/
structure LookupsPure (classDescriptor : Bytes) (calls : List (ClassCall μ φ)) : Prop where
  method : ∀ k : MethodKey, k.Plain →
    ((membersAfter classDescriptor calls).getDeclaredMethod classDescriptor k).1 =
      lastAssigned k (methodAccesses calls)
  field : ∀ name : Bytes,
    ((membersAfter classDescriptor calls).getDeclaredField classDescriptor name).1 =
      lastAssigned name (fieldAccesses calls)
  methods : Lists (membersAfter classDescriptor calls).getDeclaredMethods (methodAccesses calls)
  fields : Lists (membersAfter classDescriptor calls).getDeclaredFields (fieldAccesses calls)

/-- The lookups are pure exactly when every method and every field that is looked up is also set
at some time of the history. -/
theorem lookupsPure_iff (classDescriptor : Bytes) (calls : List (ClassCall μ φ))
    (hcalls : ∀ c ∈ calls, c.Plain) :
    LookupsPure classDescriptor calls ↔
      (∀ k, .getDeclaredMethod k ∈ calls → ∃ method, .setDeclaredMethod k method ∈ calls) ∧
      ∀ name, .getDeclaredField name ∈ calls → ∃ field, .setDeclaredField name field ∈ calls := by
  have hplain := plain_methodAccesses hcalls
  have htrue : ∀ a ∈ fieldAccesses calls, (fun _ : Bytes => True) a.key := fun _ _ => trivial
  have hmethods := lists_printedMap_iff (printable_methods classDescriptor) hplain
  have hfields := lists_printedMap_iff (printable_fields classDescriptor) htrue
  rw [← methods_membersAfter] at hmethods
  rw [← fields_membersAfter] at hfields
  simp only [methodAccesses, List.mem_filterMap, methodAccess_eq_assign, methodAccess_eq_read,
    exists_eq_right] at hmethods
  simp only [fieldAccesses, List.mem_filterMap, fieldAccess_eq_assign, fieldAccess_eq_read,
    exists_eq_right] at hfields
  constructor
  · intro h
    exact ⟨hmethods.mp h.methods, hfields.mp h.fields⟩
  · rintro ⟨hm, hf⟩
    refine ⟨fun k hk => ?_, fun name => ?_, hmethods.mpr hm, hfields.mpr hf⟩
    · rw [ClassMembers.getDeclaredMethod, methods_membersAfter]
      exact subscript_printedMap (printable_methods classDescriptor) hplain hk
    · rw [ClassMembers.getDeclaredField, fields_membersAfter]
      exact subscript_printedMap (printable_fields classDescriptor) htrue trivial

/-- A class with one method, `f(int)`, that is looked up. -/
def foundCalls : List (ClassCall Nat Nat) :=
  [.setDeclaredMethod ⟨ascii "f", [ascii "int"]⟩ 1, .getDeclaredMethod ⟨ascii "f", [ascii "int"]⟩]

theorem lookupsPure_found : LookupsPure (ascii "C") foundCalls := by
  refine (lookupsPure_iff (ascii "C") foundCalls ?_).mpr ⟨?_, ?_⟩
  · have hplain : MethodKey.Plain ⟨ascii "f", [ascii "int"]⟩ := by
      refine ⟨by decide, ?_⟩
      intro p hp
      rw [List.mem_singleton.mp hp]
      decide
    intro c hc
    rcases List.mem_cons.mp hc with rfl | hc
    · exact hplain
    · rw [List.mem_singleton.mp hc]
      exact hplain
  · intro k hk
    simp only [foundCalls, List.mem_cons, List.not_mem_nil, or_false, reduceCtorEq, false_or,
      ClassCall.getDeclaredMethod.injEq] at hk
    exact ⟨1, by rw [hk]; exact List.mem_cons_self⟩
  · intro name hname
    simp [foundCalls] at hname

/-- A lookup of a method that was never set leaves a null among the methods of the class. -/
theorem failed_lookup_listed :
    ¬ (∀ calls : List (ClassCall Nat Nat), (∀ c ∈ calls, c.Plain) →
      LookupsPure (ascii "C") calls) ∧
    (membersAfter (ascii "C") [.getDeclaredMethod ⟨ascii "f", []⟩] :
      ClassMembers Nat Nat).getDeclaredMethods = [none] := by
  refine ⟨fun h => ?_, rfl⟩
  have hplain : MethodKey.Plain ⟨ascii "f", []⟩ := ⟨by decide, by simp⟩
  have hpure := h [.getDeclaredMethod ⟨ascii "f", []⟩]
    (fun c hc => by rw [List.mem_singleton.mp hc]; exact hplain)
  obtain ⟨ks, -, hkeys, hperm⟩ := hpure.methods
  have hnull : none ∈ ks.map fun k => lastAssigned k
      (methodAccesses ([.getDeclaredMethod ⟨ascii "f", []⟩] : List (ClassCall Nat Nat))) :=
    hperm.subset List.mem_cons_self
  obtain ⟨k, hk, heq⟩ := List.mem_map.mp hnull
  have hsome := (hkeys k).mp hk
  rw [heq] at hsome
  cases hsome

end members

/-! ## Parameter types -/

section parameters

variable {τ : Type}

/-- The class object `getClass<T>()`: there is one for each type. -/
structure ClassObject (τ : Type) where
  type : τ
deriving DecidableEq

/-- The type of a method: a free function or a member function. -/
inductive MethodType (τ : Type)
  | free (result : τ) (parameters : List τ)
  | member (result receiver : τ) (parameters : List τ)

/-- The parameter types of the signature. -/
def MethodType.parameters : MethodType τ → List τ
  | .free _ parameters => parameters
  | .member _ _ parameters => parameters

/-- `to_array`: a tuple is copied into an array, index by index. -/
def toArray {α : Type} (t : List α) : List α := List.ofFn fun i : Fin t.length => t.get i

/-- The body that both `getParameterTypes` have: a vector of as many elements as there are
parameters, all of them the first class. -/
def parameterClasses (parameters : List τ) : List (ClassObject τ) :=
  if parameters.length = 0 then []
  else
    let typeClasses := parameters.map ClassObject.mk
    match toArray typeClasses with
    | [] => []
    | front :: _ => List.replicate parameters.length front

/-- `DeducedMethod::getParameterTypes`. -/
def MethodType.getParameterTypes : MethodType τ → List (ClassObject τ)
  | .free _ parameters => parameterClasses parameters
  | .member _ _ parameters => parameterClasses parameters

/-- The list has the length of the signature, and its elements are the classes of the
parameters. -/
structure MethodType.Reflected (m : MethodType τ) : Prop where
  length : m.getParameterTypes.length = m.parameters.length
  classes : ∀ (i : Nat) (t : τ), m.parameters[i]? = some t →
    m.getParameterTypes[i]? = some (.mk t)

private theorem parameterClasses_cons (t : τ) (ts : List τ) :
    parameterClasses (t :: ts) = List.replicate (ts.length + 1) ⟨t⟩ := by
  have harray : toArray ((t :: ts).map ClassObject.mk) = (t :: ts).map ClassObject.mk :=
    List.ofFn_get _
  rw [parameterClasses, if_neg (by simp)]
  simp only [harray]
  rfl

private theorem MethodType.getParameterTypes_eq (m : MethodType τ) :
    m.getParameterTypes = parameterClasses m.parameters := by
  cases m <;> rfl

/-- Every element of the list is the class of the first parameter. -/
theorem getElem?_parameterClasses {t : τ} {ts : List τ} {i : Nat} {u : τ}
    (h : (t :: ts)[i]? = some u) : (parameterClasses (t :: ts))[i]? = some (.mk t) := by
  have hlt : i < ts.length + 1 := (List.getElem?_eq_some_iff.mp h).1
  rw [parameterClasses_cons, List.getElem?_replicate, if_pos hlt]

/-- The parameter types are reflected exactly when they are all the same type. -/
theorem reflected_iff (m : MethodType τ) :
    m.Reflected ↔ ∀ t ∈ m.parameters, ∀ u ∈ m.parameters, t = u := by
  have heq := m.getParameterTypes_eq
  cases hps : m.parameters with
  | nil =>
    rw [hps] at heq
    refine iff_of_true ⟨by rw [heq, hps]; rfl, fun i t ht => ?_⟩ (by simp)
    rw [hps] at ht
    cases ht
  | cons t ts =>
    rw [hps] at heq
    constructor
    · intro h
      have hfirst : ∀ u ∈ t :: ts, t = u := by
        intro u hu
        obtain ⟨i, hi⟩ := List.mem_iff_getElem?.mp hu
        have hclass := h.classes i u (by rw [hps]; exact hi)
        rw [heq, getElem?_parameterClasses hi] at hclass
        exact congrArg ClassObject.type (Option.some.inj hclass)
      exact fun u hu v hv => (hfirst u hu).symm.trans (hfirst v hv)
    · intro h
      refine ⟨by rw [heq, hps, parameterClasses_cons, List.length_replicate]; rfl, ?_⟩
      intro i u hu
      rw [hps] at hu
      rw [heq, getElem?_parameterClasses hu,
        h t List.mem_cons_self u (List.mem_of_getElem? hu)]

/-- The type of `void f(int, bool)`. -/
def intBoolMethod : MethodType TypeArgument :=
  .free (.value false false .void)
    [.value false false (.object (.base .int)), .value false false (.object (.base .bool))]

/-- The second parameter is reflected as `int`. -/
theorem secondParameter_not_reflected :
    ¬ (∀ m : MethodType TypeArgument, m.Reflected) ∧
    intBoolMethod.getParameterTypes =
      [.mk (.value false false (.object (.base .int))),
        .mk (.value false false (.object (.base .int)))] := by
  refine ⟨fun h => ?_, rfl⟩
  have hclass := (h intBoolMethod).classes 1 (.value false false (.object (.base .bool))) rfl
  exact absurd hclass (by decide)

end parameters

end CppImprovement.Reflect

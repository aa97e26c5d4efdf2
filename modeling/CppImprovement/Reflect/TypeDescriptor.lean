import CppImprovement.Core.Text
import CppImprovement.Reflect.Class
import Mathlib.Data.List.Nodup

/-!
# Type descriptors

`TypeDescriptor<T>` prints a type: base types and pointers to them by name, templates by name and
arguments, each argument followed by a blank and without a closing bracket. The text determines
the type except for one thing: function types are not registered, so that every signature inside
`std::function` prints as `<unknown>`. Two types are therefore taken for the same class exactly
when they agree up to the signatures of their functions.
-/

namespace CppImprovement.Reflect

/-! ## Types -/

/-- The registered base types other than `void`. -/
inductive Base
  | int
  | int64
  | char
  | int8
  | short
  | float
  | double
  | bool
  | string
deriving DecidableEq

/-- What a registered pointer points to. -/
inductive Pointee
  | void
  | base (b : Base)
deriving DecidableEq

mutual

/-- A type built from the registered ones. -/
inductive CppType
  | void
  | object (t : ObjectType)

/-- A type other than `void`. -/
inductive ObjectType
  | base (b : Base)
  | pointer (p : Pointee)
  | constPointer (p : Pointee)
  | pair (first second : CppType)
  | vector (element : CppType)
  | uniquePtr (element : CppType)
  | sharedPtr (element : CppType)
  | function (signature : Signature)

/-- A function type: its parameters, and its result. -/
inductive Signature
  | returns (result : CppType)
  | takes (parameter : ObjectType) (rest : Signature)

end

deriving instance DecidableEq for CppType, ObjectType, Signature

/-- An argument of `getClass`: a type with its cv-qualifiers, or a reference to one. -/
inductive TypeArgument
  | value (isConst isVolatile : Bool) (t : CppType)
  | reference (isRvalue isConst isVolatile : Bool) (t : ObjectType)
deriving DecidableEq

/-- `TypeValueTraits<T>::basetype`. -/
def TypeArgument.basetype : TypeArgument → CppType
  | .value _ _ t => t
  | .reference _ _ _ t => .object t

/-! ## Descriptors -/

/-- The name under which `TYPE_DESCRIPTOR` registers a base type. -/
def Base.name : Base → Bytes
  | .int => ascii "int"
  | .int64 => ascii "int64_t"
  | .char => ascii "char"
  | .int8 => ascii "int8_t"
  | .short => ascii "short"
  | .float => ascii "float"
  | .double => ascii "double"
  | .bool => ascii "bool"
  | .string => ascii "std::string"

/-- The same, with `void`. -/
def Pointee.name : Pointee → Bytes
  | .void => ascii "void"
  | .base b => b.name

/-- `concat`. -/
def concat (strings : List Bytes) : Bytes :=
  ascii "<" ++ strings.flatMap fun string => string ++ ascii " "

/-- The descriptor of a type that is not registered, as function types are. -/
def unknownDescriptor : Bytes := ascii "<unknown>"

mutual

/-- `TypeDescriptor<T>::descriptor()`. -/
def CppType.descriptor : CppType → Bytes
  | .void => Pointee.name .void
  | .object t => t.descriptor

/-- The same for a type other than `void`. -/
def ObjectType.descriptor : ObjectType → Bytes
  | .base b => b.name
  | .pointer p => p.name ++ ascii "*"
  | .constPointer p => ascii "const " ++ p.name ++ ascii "*"
  | .pair first second => ascii "std::pair" ++ concat [first.descriptor, second.descriptor]
  | .vector element => ascii "std::vector" ++ concat [element.descriptor]
  | .uniquePtr element => ascii "std::unique_ptr" ++ concat [element.descriptor]
  | .sharedPtr element => ascii "std::shared_ptr" ++ concat [element.descriptor]
  | .function _ => ascii "std::function" ++ concat [unknownDescriptor]

end

mutual

/-- The type with the signatures of its functions dropped. -/
def CppType.erased : CppType → CppType
  | .void => .void
  | .object t => .object t.erased

/-- The same for a type other than `void`. -/
def ObjectType.erased : ObjectType → ObjectType
  | .pair first second => .pair first.erased second.erased
  | .vector element => .vector element.erased
  | .uniquePtr element => .uniquePtr element.erased
  | .sharedPtr element => .sharedPtr element.erased
  | .function _ => .function (.returns .void)
  | t => t

end

/-! ## Words -/

/-- An octet of a word: a word ends before a blank and before an opening bracket. -/
def wordOctet (c : UInt8) : Bool := c != 32 && c != 60

/-- What the first word of a descriptor says. -/
inductive Head
  | name (p : Pointee)
  | pointer (p : Pointee)
  | const
  | pair
  | vector
  | uniquePtr
  | sharedPtr
  | function
deriving DecidableEq

/-- The first word. -/
def Head.word : Head → Bytes
  | .name p => p.name
  | .pointer p => p.name ++ ascii "*"
  | .const => ascii "const"
  | .pair => ascii "std::pair"
  | .vector => ascii "std::vector"
  | .uniquePtr => ascii "std::unique_ptr"
  | .sharedPtr => ascii "std::shared_ptr"
  | .function => ascii "std::function"

/-- All base types, and `void`. -/
def Pointee.all : List Pointee :=
  [.void, .base .int, .base .int64, .base .char, .base .int8, .base .short, .base .float,
    .base .double, .base .bool, .base .string]

/-- All first words. -/
def Head.all : List Head :=
  Pointee.all.map .name ++ Pointee.all.map .pointer ++
    [.const, .pair, .vector, .uniquePtr, .sharedPtr, .function]

private theorem Pointee.mem_all (p : Pointee) : p ∈ Pointee.all := by
  cases p with
  | void => decide
  | base b => cases b <;> decide

private theorem Head.mem_all (h : Head) : h ∈ Head.all := by
  cases h with
  | name p => simp [Head.all, Pointee.mem_all]
  | pointer p => simp [Head.all, Pointee.mem_all]
  | _ => simp [Head.all]

private theorem Head.nodup_words : (Head.all.map Head.word).Nodup := by
  decide

private theorem Head.all_wordOctet (h : Head) : ∀ c ∈ h.word, wordOctet c = true := by
  have hall : ∀ h ∈ Head.all, h.word.all wordOctet = true := by decide
  exact List.all_eq_true.mp (hall h h.mem_all)

private theorem Head.word_append_inj {g h : Head} {x y : Bytes} (hx : Delimited wordOctet x)
    (hy : Delimited wordOctet y) (heq : g.word ++ x = h.word ++ y) : g = h ∧ x = y := by
  obtain ⟨hword, hrest⟩ := piece_append_inj g.all_wordOctet h.all_wordOctet hx hy heq
  exact ⟨List.inj_on_of_nodup_map nodup_words g.mem_all h.mem_all hword, hrest⟩

/-! ## A descriptor determines its type up to signatures -/

/-- The first word of the descriptor. -/
def ObjectType.head : ObjectType → Head
  | .base b => .name (.base b)
  | .pointer p => .pointer p
  | .constPointer _ => .const
  | .pair _ _ => .pair
  | .vector _ => .vector
  | .uniquePtr _ => .uniquePtr
  | .sharedPtr _ => .sharedPtr
  | .function _ => .function

/-- What follows the first word. -/
def ObjectType.tail : ObjectType → Bytes
  | .base _ => []
  | .pointer _ => []
  | .constPointer p => ascii " " ++ (Head.pointer p).word
  | .pair first second => concat [first.descriptor, second.descriptor]
  | .vector element => concat [element.descriptor]
  | .uniquePtr element => concat [element.descriptor]
  | .sharedPtr element => concat [element.descriptor]
  | .function _ => concat [unknownDescriptor]

private theorem ObjectType.descriptor_eq (t : ObjectType) :
    t.descriptor = t.head.word ++ t.tail := by
  cases t with
  | base b => exact (List.append_nil _).symm
  | pointer p => exact (List.append_nil _).symm
  | constPointer p =>
    rw [descriptor, List.append_assoc]
    rfl
  | _ => rfl

private theorem delimited_blank (x : Bytes) : Delimited wordOctet (ascii " " ++ x) :=
  delimited_cons rfl x

private theorem delimited_concat (strings : List Bytes) (x : Bytes) :
    Delimited wordOctet (concat strings ++ x) :=
  delimited_cons rfl _

private theorem ObjectType.delimited_tail (t : ObjectType) {x : Bytes}
    (hx : Delimited wordOctet x) :
    Delimited wordOctet (t.tail ++ x) := by
  cases t with
  | base b => exact hx
  | pointer p => exact hx
  | constPointer p => exact delimited_blank _
  | pair first second => exact delimited_concat _ x
  | vector element => exact delimited_concat _ x
  | uniquePtr element => exact delimited_concat _ x
  | sharedPtr element => exact delimited_concat _ x
  | function signature => exact delimited_concat _ x

private theorem concat_single_cancel {d e x y : Bytes} (h : concat [d] ++ x = concat [e] ++ y) :
    d ++ (ascii " " ++ x) = e ++ (ascii " " ++ y) := by
  simp only [concat, List.flatMap_cons, List.flatMap_nil, List.append_nil,
    List.append_assoc] at h
  exact List.append_cancel_left h

private theorem concat_pair_cancel {d d' e e' x y : Bytes}
    (h : concat [d, d'] ++ x = concat [e, e'] ++ y) :
    d ++ (ascii " " ++ (d' ++ (ascii " " ++ x))) =
      e ++ (ascii " " ++ (e' ++ (ascii " " ++ y))) := by
  simp only [concat, List.flatMap_cons, List.flatMap_nil, List.append_nil,
    List.append_assoc] at h
  exact List.append_cancel_left h

/-- No object type prints as `void`. -/
theorem ObjectType.descriptor_ne_void (t : ObjectType) {x y : Bytes} (hx : Delimited wordOctet x)
    (hy : Delimited wordOctet y) : Pointee.void.name ++ x ≠ t.descriptor ++ y := by
  intro h
  rw [t.descriptor_eq, List.append_assoc] at h
  have hhead := (@Head.word_append_inj (.name .void) t.head _ _ hx (t.delimited_tail hy) h).1
  cases t <;> cases hhead

mutual

/-- A descriptor and what follows it can be told apart, and the descriptor gives the type up to
signatures. -/
theorem CppType.descriptor_append_inj (a b : CppType) {x y : Bytes} (hx : Delimited wordOctet x)
    (hy : Delimited wordOctet y) (h : a.descriptor ++ x = b.descriptor ++ y) :
    a.erased = b.erased ∧ x = y := by
  cases a with
  | void =>
    cases b with
    | void => exact ⟨rfl, List.append_cancel_left h⟩
    | object u => exact absurd h (u.descriptor_ne_void hx hy)
  | object t =>
    cases b with
    | void => exact absurd h.symm (t.descriptor_ne_void hy hx)
    | object u =>
      obtain ⟨herased, hxy⟩ := t.descriptor_append_inj u hx hy h
      exact ⟨congrArg CppType.object herased, hxy⟩

private theorem ObjectType.descriptor_append_inj (a b : ObjectType) {x y : Bytes}
    (hx : Delimited wordOctet x) (hy : Delimited wordOctet y)
    (h : a.descriptor ++ x = b.descriptor ++ y) :
    a.erased = b.erased ∧ x = y := by
  -- the first words agree, so both types have the same constructor
  rw [a.descriptor_eq, b.descriptor_eq, List.append_assoc, List.append_assoc] at h
  obtain ⟨hhead, htail⟩ := Head.word_append_inj (a.delimited_tail hx) (b.delimited_tail hy) h
  cases a with
  | base c =>
    cases b with
    | base c' =>
      cases hhead
      exact ⟨rfl, htail⟩
    | _ => cases hhead
  | pointer p =>
    cases b with
    | pointer p' =>
      cases hhead
      exact ⟨rfl, htail⟩
    | _ => cases hhead
  | constPointer p =>
    cases b with
    | constPointer p' =>
      rw [ObjectType.tail, ObjectType.tail, List.append_assoc, List.append_assoc] at htail
      obtain ⟨hpointer, hxy⟩ := Head.word_append_inj hx hy (List.append_cancel_left htail)
      cases hpointer
      exact ⟨rfl, hxy⟩
    | _ => cases hhead
  | pair first second =>
    cases b with
    | pair first' second' =>
      obtain ⟨hfirst, hrest⟩ := first.descriptor_append_inj first' (delimited_blank _)
        (delimited_blank _) (concat_pair_cancel htail)
      obtain ⟨hsecond, hxy⟩ := second.descriptor_append_inj second' (delimited_blank _)
        (delimited_blank _) (List.append_cancel_left hrest)
      exact ⟨congrArg₂ ObjectType.pair hfirst hsecond, List.append_cancel_left hxy⟩
    | _ => cases hhead
  | vector element =>
    cases b with
    | vector element' =>
      obtain ⟨helement, hxy⟩ := element.descriptor_append_inj element' (delimited_blank _)
        (delimited_blank _) (concat_single_cancel htail)
      exact ⟨congrArg ObjectType.vector helement, List.append_cancel_left hxy⟩
    | _ => cases hhead
  | uniquePtr element =>
    cases b with
    | uniquePtr element' =>
      obtain ⟨helement, hxy⟩ := element.descriptor_append_inj element' (delimited_blank _)
        (delimited_blank _) (concat_single_cancel htail)
      exact ⟨congrArg ObjectType.uniquePtr helement, List.append_cancel_left hxy⟩
    | _ => cases hhead
  | sharedPtr element =>
    cases b with
    | sharedPtr element' =>
      obtain ⟨helement, hxy⟩ := element.descriptor_append_inj element' (delimited_blank _)
        (delimited_blank _) (concat_single_cancel htail)
      exact ⟨congrArg ObjectType.sharedPtr helement, List.append_cancel_left hxy⟩
    | _ => cases hhead
  | function signature =>
    cases b with
    | function signature' => exact ⟨rfl, List.append_cancel_left htail⟩
    | _ => cases hhead

end

mutual

/-- The descriptor does not see signatures. -/
theorem CppType.descriptor_erased (t : CppType) : t.erased.descriptor = t.descriptor := by
  cases t with
  | void => rfl
  | object t => exact t.descriptor_erased

private theorem ObjectType.descriptor_erased (t : ObjectType) :
    t.erased.descriptor = t.descriptor := by
  cases t with
  | pair first second =>
    rw [ObjectType.erased, ObjectType.descriptor, ObjectType.descriptor,
      first.descriptor_erased, second.descriptor_erased]
  | vector element =>
    rw [ObjectType.erased, ObjectType.descriptor, ObjectType.descriptor,
      element.descriptor_erased]
  | uniquePtr element =>
    rw [ObjectType.erased, ObjectType.descriptor, ObjectType.descriptor,
      element.descriptor_erased]
  | sharedPtr element =>
    rw [ObjectType.erased, ObjectType.descriptor, ObjectType.descriptor,
      element.descriptor_erased]
  | _ => rfl

end

/-- Two types have the same descriptor exactly when they agree up to signatures. -/
theorem CppType.descriptor_eq_iff (a b : CppType) :
    a.descriptor = b.descriptor ↔ a.erased = b.erased := by
  constructor
  · intro h
    refine (a.descriptor_append_inj b delimited_nil delimited_nil ?_).1
    rw [h]
  · intro h
    rw [← a.descriptor_erased, h, b.descriptor_erased]

/-! ## Type identity -/

/-- The traits of the registered types. -/
def registeredTypes : TypeTraits TypeArgument CppType where
  basetype := TypeArgument.basetype
  descriptor := CppType.descriptor

/-- The classes of the two types are assignable if and only if the types are the same without
references and top-level cv-qualifiers. -/
def TypeIdentity (s : Classes TypeArgument CppType) (a b : TypeArgument) : Prop :=
  isAssignableFrom registeredTypes s a b = true ↔ a.basetype = b.basetype

/-- Whatever classes were asked for before, the identity of two types is right exactly when the
types do not differ in the signatures of their functions alone. -/
theorem typeIdentity_iff (calls : List TypeArgument) (a b : TypeArgument) :
    TypeIdentity (calls.foldl (getClass registeredTypes) .initial) a b ↔
      (a.basetype.erased = b.basetype.erased → a.basetype = b.basetype) := by
  rw [TypeIdentity, (ready_of_calls registeredTypes calls).isAssignableFrom_iff]
  change (a.basetype.descriptor = b.basetype.descriptor ↔ _) ↔ _
  rw [CppType.descriptor_eq_iff]
  constructor
  · exact fun h => h.mp
  · exact fun h => ⟨h, congrArg CppType.erased⟩

/-- `std::function<int ()>`. -/
def getterType : TypeArgument :=
  .value false false (.object (.function (.returns (.object (.base .int)))))

/-- `std::function<void (int)>`. -/
def setterType : TypeArgument :=
  .value false false (.object (.function (.takes (.base .int) (.returns .void))))

/-- A getter and a setter are taken for the same type. -/
theorem functions_confused :
    ¬ (∀ a b : TypeArgument, TypeIdentity .initial a b) ∧
      isAssignableFrom registeredTypes .initial setterType getterType = true ∧
      setterType.basetype ≠ getterType.basetype := by
  refine ⟨fun h => ?_, by decide, by decide⟩
  have hsame := (h setterType getterType).mp (by decide)
  exact absurd hsame (by decide)

end CppImprovement.Reflect

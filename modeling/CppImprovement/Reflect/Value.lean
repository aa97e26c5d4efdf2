import CppImprovement.Core.Text

/-!
# Reflected values as text

`NumberValue<T>` holds a number and can be read and set as text; `StringValue` holds text and can
be read and set as a number. Both go through string streams with formatted output and input. For
`int`, `int64_t` and `short` every value survives. `char` and `int8_t` are characters to a stream:
whitespace is skipped on the way back, and the variable that should receive it keeps what it held.
-/

namespace CppImprovement.Reflect

/-! ## Integral types -/

/-- The integral types of values. -/
inductive Integral
  | int
  | int64
  | short
  | char
  | int8
deriving DecidableEq

/-- The number of bits; all types are signed. -/
def Integral.bits : Integral → Nat
  | .int => 32
  | .int64 => 64
  | .short => 16
  | .char => 8
  | .int8 => 8

/-- `std::numeric_limits<T>::min()`. -/
def Integral.min (T : Integral) : Int := -2 ^ (T.bits - 1)

/-- `std::numeric_limits<T>::max()`. -/
def Integral.max (T : Integral) : Int := 2 ^ (T.bits - 1) - 1

/-- Streams take the type for a character type. -/
def Integral.isCharacter : Integral → Bool
  | .char => true
  | .int8 => true
  | _ => false

/-- A value of the type. -/
structure Integer (T : Integral) where
  val : Int
  lower : T.min ≤ val
  upper : val ≤ T.max

theorem Integer.ext {T : Integral} {v w : Integer T} (h : v.val = w.val) : v = w := by
  cases v
  cases w
  cases h
  rfl

private theorem Integral.min_le_max (T : Integral) : T.min ≤ T.max := by
  cases T <;> decide

/-- The value of the type nearest to a number. -/
def Integer.nearest (T : Integral) (n : Int) : Integer T where
  val := Max.max T.min (Min.min T.max n)
  lower := by omega
  upper := by
    have := T.min_le_max
    omega

private theorem Integer.nearest_val {T : Integral} (v : Integer T) : nearest T v.val = v := by
  apply Integer.ext
  have hlower := v.lower
  have hupper := v.upper
  change Max.max T.min (Min.min T.max v.val) = v.val
  omega

/-! ## Streams -/

/-- The octet of a character. -/
def octetOf (n : Int) : UInt8 := UInt8.ofNat (n % 256).toNat

/-- The signed character of an octet. -/
def characterOf (c : UInt8) : Int := if c.toNat < 128 then c.toNat else c.toNat - 256

/-- `s << value` on an empty stream. -/
def streamOut {T : Integral} (value : Integer T) : Bytes :=
  if T.isCharacter then [octetOf value.val] else intText value.val

/-- `s >> value` on a stream of the text: the value of the variable, which held `before`. A number
out of range becomes the nearest one. -/
def streamIn {T : Integral} (before : Integer T) (text : Bytes) : Integer T :=
  if T.isCharacter then
    (readCharacter text).elim before fun c => .nearest T (characterOf c)
  else (readInteger text).elim before (.nearest T)

/-- The text of a number is read back whatever the variable held. -/
theorem streamIn_streamOut_number {T : Integral} (hT : T.isCharacter = false)
    (value before : Integer T) : streamIn before (streamOut value) = value := by
  rw [streamIn, streamOut, hT, if_neg Bool.false_ne_true, if_neg Bool.false_ne_true,
    readInteger_intText]
  exact value.nearest_val

private theorem octetOf_toNat (n : Int) : (octetOf n).toNat = (n % 256).toNat := by
  rw [octetOf, UInt8.toNat_ofNat']
  omega

private theorem Integer.character_range {T : Integral} (hT : T.isCharacter = true) (v : Integer T) :
    -128 ≤ v.val ∧ v.val ≤ 127 := by
  have hlower := v.lower
  have hupper := v.upper
  cases T <;> cases hT <;> exact ⟨hlower, hupper⟩

/-- A character is the character of its octet. -/
theorem characterOf_octetOf {n : Int} (h : -128 ≤ n ∧ n ≤ 127) : characterOf (octetOf n) = n := by
  rw [characterOf, octetOf_toNat]
  by_cases hn : 0 ≤ n
  · rw [if_pos (by omega)]
    omega
  · rw [if_neg (by omega)]
    omega

/-- A character is whitespace when its octet is. -/
theorem isSpace_octetOf {n : Int} (h : -128 ≤ n ∧ n ≤ 127) :
    isSpace (octetOf n) = true ↔ n = 32 ∨ 9 ≤ n ∧ n ≤ 13 := by
  have hnat := octetOf_toNat n
  have h32 : octetOf n = 32 ↔ n = 32 := by
    rw [← UInt8.toNat_inj, hnat]
    change _ = 32 ↔ _
    omega
  rw [isSpace, Bool.or_eq_true, beq_iff_eq, decide_eq_true_iff, h32, hnat]
  omega

/-- A character is read back unless it is whitespace; then the variable keeps what it held. -/
theorem streamIn_streamOut_character {T : Integral} (hT : T.isCharacter = true)
    (value before : Integer T) :
    streamIn before (streamOut value) = if isSpace (octetOf value.val) then before else value := by
  rw [streamIn, streamOut, hT, if_pos rfl, if_pos rfl, readCharacter_singleton]
  cases isSpace (octetOf value.val) with
  | true => rfl
  | false =>
    change Integer.nearest T (characterOf (octetOf value.val)) = value
    rw [characterOf_octetOf (value.character_range hT)]
    exact value.nearest_val

/-! ## Values -/

/-- `NumberValue<T>::stringValue`. -/
def NumberValue.stringValue {T : Integral} (value : Integer T) : Bytes := streamOut value

/-- `NumberValue<T>::setStringValue`, with `assign(T&, const std::string&)`. -/
def NumberValue.setStringValue {T : Integral} (value : Integer T) (str : Bytes) : Integer T :=
  streamIn value str

/-- `assign(std::string&, T)`: the text the string gets. -/
def assignText {T : Integral} (value : Integer T) : Bytes := streamOut value

/-- `toNumber<T>`; `uninitialized` is what its variable holds before anything is read. -/
def toNumber {T : Integral} (uninitialized : Integer T) (str : Bytes) : Integer T :=
  streamIn uninitialized str

namespace StringValue

/-- `StringValue::setIntValue`. -/
def setIntValue (value : Integer .int) : Bytes := assignText value

/-- `StringValue::setInt64Value`. -/
def setInt64Value (value : Integer .int64) : Bytes := assignText value

/-- `StringValue::setCharValue`. -/
def setCharValue (value : Integer .char) : Bytes := assignText value

/-- `StringValue::setByteValue`. -/
def setByteValue (value : Integer .int8) : Bytes := assignText value

/-- `StringValue::setShortValue`. -/
def setShortValue (value : Integer .short) : Bytes := assignText value

/-- `StringValue::intValue`. -/
def intValue (uninitialized : Integer .int) (m : Bytes) : Integer .int :=
  toNumber uninitialized m

/-- `StringValue::int64Value`. -/
def int64Value (uninitialized : Integer .int64) (m : Bytes) : Integer .int64 :=
  toNumber uninitialized m

/-- `StringValue::charValue`. -/
def charValue (uninitialized : Integer .char) (m : Bytes) : Integer .char :=
  toNumber uninitialized m

/-- `StringValue::byteValue`. -/
def byteValue (uninitialized : Integer .int8) (m : Bytes) : Integer .int8 :=
  toNumber uninitialized m

/-- `StringValue::shortValue`. -/
def shortValue (uninitialized : Integer .short) (m : Bytes) : Integer .short :=
  toNumber uninitialized m

/-- The setter of a type. -/
def set : (T : Integral) → Integer T → Bytes
  | .int => setIntValue
  | .int64 => setInt64Value
  | .short => setShortValue
  | .char => setCharValue
  | .int8 => setByteValue

/-- The getter of a type. -/
def get : (T : Integral) → Integer T → Bytes → Integer T
  | .int => intValue
  | .int64 => int64Value
  | .short => shortValue
  | .char => charValue
  | .int8 => byteValue

private theorem get_set (T : Integral) (value uninitialized : Integer T) :
    get T uninitialized (set T value) = streamIn uninitialized (streamOut value) := by
  cases T <;> rfl

end StringValue

/-- The value survives as text in a `NumberValue`, whatever that held before, and in a
`StringValue`, whatever the getter's variable held. -/
structure RoundTrips {T : Integral} (value : Integer T) : Prop where
  number : ∀ before : Integer T,
    NumberValue.setStringValue before (NumberValue.stringValue value) = value
  string : ∀ uninitialized : Integer T,
    StringValue.get T uninitialized (StringValue.set T value) = value

private theorem roundTrips_iff_streams {T : Integral} (value : Integer T) :
    RoundTrips value ↔ ∀ before : Integer T, streamIn before (streamOut value) = value := by
  constructor
  · exact fun h => h.number
  · intro h
    exact ⟨h, fun uninitialized => (StringValue.get_set T value uninitialized).trans (h _)⟩

/-- A value round trips exactly when it is not a whitespace character. -/
theorem roundTrips_iff {T : Integral} (value : Integer T) :
    RoundTrips value ↔
      ¬ (T.isCharacter = true ∧ (value.val = 32 ∨ 9 ≤ value.val ∧ value.val ≤ 13)) := by
  rw [roundTrips_iff_streams]
  cases hT : T.isCharacter with
  | false => exact iff_of_true (streamIn_streamOut_number hT value) (by simp)
  | true =>
    have hrange := value.character_range hT
    rw [← isSpace_octetOf hrange]
    simp only [streamIn_streamOut_character hT]
    cases hs : isSpace (octetOf value.val) with
    | false => exact iff_of_true (fun _ => rfl) (by simp)
    | true =>
      refine iff_of_false (fun h => ?_) (by simp)
      -- a variable that holds zero keeps it, and zero is no whitespace
      have hzero := congrArg Integer.val (h (.nearest T 0))
      have hspace := (isSpace_octetOf hrange).mp hs
      have hval : (Integer.nearest T 0).val = 0 := by
        cases T <;> rfl
      rw [if_pos rfl, hval] at hzero
      omega

/-- A blank. -/
def blankCharacter : Integer .char := ⟨32, by decide, by decide⟩

/-- A `NumberValue<char>` that holds `x` and is set to the text of a blank still holds `x`. -/
theorem blank_not_roundTrips :
    ¬ (∀ (T : Integral) (value : Integer T), RoundTrips value) ∧
    (NumberValue.setStringValue (⟨120, by decide, by decide⟩ : Integer .char)
      (NumberValue.stringValue blankCharacter)).val = 120 := by
  refine ⟨fun h => ?_, rfl⟩
  have hval := congrArg Integer.val
    ((h .char blankCharacter).number (⟨120, by decide, by decide⟩ : Integer .char))
  exact absurd hval (by decide)

end CppImprovement.Reflect

import CppImprovement.Core.Bytes
import Mathlib.Data.List.Basic

/-!
# Printed text

Text is read back piece by piece. A piece of octets that meet a condition ends before a delimiter,
an octet that does not; the piece and what follows it are then determined by the text. Formatted
streams print integers in decimal and characters as they are. Formatted input skips whitespace
first, so that integers are read back, and characters unless they are whitespace themselves.
-/

namespace CppImprovement

/-! ## Pieces up to a delimiter -/

section pieces

variable {p : UInt8 → Bool} {v w x y : Bytes}

/-- The text is empty or begins with a delimiter. -/
def Delimited (p : UInt8 → Bool) (x : Bytes) : Prop := ∀ c ∈ x.head?, p c = false

theorem delimited_nil : Delimited p [] := by
  intro c hc
  cases hc

theorem delimited_cons {c : UInt8} (hc : p c = false) (x : Bytes) : Delimited p (c :: x) := by
  intro d hd
  cases hd
  exact hc

/-- A piece is what the text holds before its first delimiter. -/
theorem takeWhile_piece (hw : ∀ c ∈ w, p c = true) (hx : Delimited p x) :
    (w ++ x).takeWhile p = w := by
  rw [List.takeWhile_append_of_pos hw]
  cases x with
  | nil => simp
  | cons c x => rw [List.takeWhile_cons_of_neg (by simp [hx c rfl]), List.append_nil]

/-- The first piece of a text is determined, and so is what follows it. -/
theorem piece_append_inj (hv : ∀ c ∈ v, p c = true) (hw : ∀ c ∈ w, p c = true)
    (hx : Delimited p x) (hy : Delimited p y) (h : v ++ x = w ++ y) : v = w ∧ x = y := by
  have hvw : v = w := by
    rw [← takeWhile_piece hv hx, h, takeWhile_piece hw hy]
  exact ⟨hvw, List.append_cancel_left (hvw ▸ h)⟩

end pieces

/-! ## Letters -/

/-- `tolower` in the "C" locale: the small letter of a capital, every other octet as it is. -/
def toLower (c : UInt8) : UInt8 := if 65 ≤ c ∧ c ≤ 90 then c + 32 else c

/-! ## Decimal numbers -/

/-- The decimal digits of a number. -/
def natText (n : Nat) : Bytes := (Nat.toDigits 10 n).map fun d => d.toNat.toUInt8

/-- `operator<<` for a signed integer. -/
def intText (n : Int) : Bytes := (if n < 0 then ascii "-" else []) ++ natText n.natAbs

/-- A decimal digit. -/
def isDecimalDigit (c : UInt8) : Bool := decide (48 ≤ c.toNat ∧ c.toNat ≤ 57)

/-- The number that digits denote. -/
def natOfText (digits : Bytes) : Nat := digits.foldl (fun n c => 10 * n + (c.toNat - 48)) 0

private theorem isDecimalDigit_of_mem {n : Nat} {c : UInt8} (h : c ∈ natText n) :
    isDecimalDigit c = true :=
  decide_eq_true (toNat_of_mem_toDigits h)

private theorem natText_ne_nil (n : Nat) : natText n ≠ [] := by
  rw [natText, ne_eq, List.map_eq_nil_iff]
  exact Nat.toDigits_ne_nil

/-- The digits of a number denote it. -/
theorem natOfText_natText (n : Nat) : natOfText (natText n) = n := by
  have hfold : natOfText (natText n) = Nat.ofDigitChars 10 (Nat.toDigits 10 n) 0 := by
    rw [natOfText, natText, List.foldl_map, Nat.ofDigitChars]
    refine List.foldl_ext _ _ _ fun m d hd => ?_
    rw [(toNat_toUInt8_of_mem_toDigits hd).1]
    rfl
  rw [hfold, Nat.ofDigitChars_toDigits (by decide) (by decide)]

/-! ## Formatted input -/

/-- `std::isspace` in the "C" locale. -/
def isSpace (c : UInt8) : Bool := c == 32 || decide (9 ≤ c.toNat ∧ c.toNat ≤ 13)

/-- The value of the sign and the digits at the front of a text, zero if there are no digits. -/
def numberAtFront : Bytes → Int
  | 45 :: rest => -(natOfText (rest.takeWhile isDecimalDigit))
  | 43 :: rest => natOfText (rest.takeWhile isDecimalDigit)
  | text => natOfText (text.takeWhile isDecimalDigit)

/-- `operator>>` for an integer, before the value is brought into the range of its type. With
nothing but whitespace left the variable is not written. -/
def readInteger (text : Bytes) : Option Int :=
  let rest := text.dropWhile isSpace
  if rest.isEmpty then none else some (numberAtFront rest)

/-- `operator>>` for a character. -/
def readCharacter (text : Bytes) : Option UInt8 := (text.dropWhile isSpace).head?

private theorem takeWhile_natText (n : Nat) : (natText n).takeWhile isDecimalDigit = natText n := by
  rw [List.takeWhile_eq_self_iff]
  exact fun c hc => isDecimalDigit_of_mem hc

private theorem numberAtFront_natText (n : Nat) : numberAtFront (natText n) = n := by
  have hsign : ∀ c ∈ natText n, c ≠ 45 ∧ c ≠ 43 := by
    intro c hc
    have hdigit := isDecimalDigit_of_mem hc
    constructor
    · rintro rfl
      cases hdigit
    · rintro rfl
      cases hdigit
  rw [numberAtFront]
  · rw [takeWhile_natText, natOfText_natText]
  · intro rest heq
    exact (hsign 45 (heq ▸ List.mem_cons_self)).1 rfl
  · intro rest heq
    exact (hsign 43 (heq ▸ List.mem_cons_self)).2 rfl

private theorem numberAtFront_intText (n : Int) : numberAtFront (intText n) = n := by
  unfold intText
  by_cases h : n < 0
  · rw [if_pos h]
    change -((natOfText ((natText n.natAbs).takeWhile isDecimalDigit) : Nat) : Int) = n
    rw [takeWhile_natText, natOfText_natText]
    omega
  · rw [if_neg h, List.nil_append, numberAtFront_natText]
    omega

/-- Printed integers begin neither with whitespace nor are they empty. -/
theorem intText_eq_cons (n : Int) : ∃ c rest, intText n = c :: rest ∧ isSpace c = false := by
  unfold intText
  by_cases h : n < 0
  · rw [if_pos h]
    exact ⟨45, natText n.natAbs, rfl, rfl⟩
  · rw [if_neg h, List.nil_append]
    obtain ⟨c, rest, heq⟩ := List.exists_cons_of_ne_nil (natText_ne_nil n.natAbs)
    refine ⟨c, rest, heq, ?_⟩
    have hdigit : isDecimalDigit c = true :=
      isDecimalDigit_of_mem (heq ▸ List.mem_cons_self)
    have hrange := of_decide_eq_true hdigit
    unfold isSpace
    have hne : c ≠ 32 := by
      rintro rfl
      cases hdigit
    simp only [Bool.or_eq_false_iff, beq_eq_false_iff_ne, decide_eq_false_iff_not]
    exact ⟨hne, by omega⟩

/-- Every integer is read back from its text. -/
theorem readInteger_intText (n : Int) : readInteger (intText n) = some n := by
  obtain ⟨c, rest, heq, hc⟩ := intText_eq_cons n
  have hskip : (intText n).dropWhile isSpace = intText n := by
    rw [heq, List.dropWhile_cons_of_neg (by simp [hc])]
  rw [readInteger, hskip, numberAtFront_intText, heq]
  rfl

/-- A character is read back from its text unless it is whitespace. -/
theorem readCharacter_singleton (c : UInt8) :
    readCharacter [c] = if isSpace c then none else some c := by
  rw [readCharacter, List.dropWhile_cons]
  cases isSpace c <;> rfl

end CppImprovement

import CppImprovement.Core.Bytes

/-!
# Base64 text

`EncodeBase64` writes four characters for every three bytes and pads the last
group. Its text is made of alphabet characters and padding signs only.
-/

namespace CppImprovement.Ws

/-- `base64_chars`. -/
def base64Chars : Bytes :=
  ascii "ABCDEFGHIJKLMNOPQRSTUVWXYZabcdefghijklmnopqrstuvwxyz0123456789+/"

/-- `base64_chars[i]`. -/
def base64Char (i : UInt8) : UInt8 := base64Chars.getD i.toNat 0

/-- The padding sign. -/
def base64Pad : UInt8 := 61

/-- `EncodeBase64`: whole groups of three bytes, then the padded remainder. -/
def encodeBase64 : Bytes → Bytes
  | b0 :: b1 :: b2 :: rest =>
    base64Char (b0 >>> 2) :: base64Char (((0x3 &&& b0) <<< 4) + (b1 >>> 4)) ::
      base64Char (((0x0f &&& b1) <<< 2) + (b2 >>> 6)) :: base64Char (0x3f &&& b2) ::
      encodeBase64 rest
  | [b0, b1] =>
    [base64Char (b0 >>> 2), base64Char (((0x3 &&& b0) <<< 4) + (b1 >>> 4)),
      base64Char ((0x0f &&& b1) <<< 2), base64Pad]
  | [b0] => [base64Char (b0 >>> 2), base64Char ((0x3 &&& b0) <<< 4), base64Pad, base64Pad]
  | [] => []

/-- The characters base64 text is made of. -/
def isBase64Sign (c : UInt8) : Bool := base64Chars.contains c || c == base64Pad

theorem isBase64Sign_iff {c : UInt8} : isBase64Sign c = true ↔ c ∈ base64Pad :: base64Chars := by
  rw [isBase64Sign, Bool.or_eq_true, List.contains_iff_mem, beq_iff_eq, List.mem_cons, or_comm]

private theorem isBase64Sign_char {i : UInt8} (h : i.toNat < 64) :
    isBase64Sign (base64Char i) = true := by
  induction i using byte_induction with
  | ofNat n => revert n; decide +kernel

/-- The four groups of six bits of three octets, and the last groups of two and of one. -/
theorem toNat_sextets (b0 b1 b2 : UInt8) :
    (b0 >>> 2).toNat = b0.toNat / 4 ∧
      (((0x3 &&& b0) <<< 4) + (b1 >>> 4)).toNat = b0.toNat % 4 * 16 + b1.toNat / 16 ∧
      (((0x0f &&& b1) <<< 2) + (b2 >>> 6)).toNat = b1.toNat % 16 * 4 + b2.toNat / 64 ∧
      (0x3f &&& b2).toNat = b2.toNat % 64 ∧
      ((0x3 &&& b0) <<< 4).toNat = b0.toNat % 4 * 16 ∧
      ((0x0f &&& b1) <<< 2).toNat = b1.toNat % 16 * 4 := by
  have h0 := b0.toNat_lt
  have h1 := b1.toNat_lt
  have h2 := b2.toNat_lt
  have hlow0 : ((0x3 &&& b0) <<< 4).toNat = b0.toNat % 4 * 16 := by
    rw [toNat_shl (k := 4) (by decide) rfl, toNat_low (k := 2) rfl]
    omega
  have hlow1 : ((0x0f &&& b1) <<< 2).toNat = b1.toNat % 16 * 4 := by
    rw [toNat_shl (k := 2) (by decide) rfl, toNat_low (k := 4) rfl]
    omega
  refine ⟨toNat_shr (k := 2) (by decide) rfl b0, ?_, ?_, toNat_low (k := 6) rfl b2, hlow0, hlow1⟩
  · rw [UInt8.toNat_add, hlow0, toNat_shr (k := 4) (by decide) rfl]
    omega
  · rw [UInt8.toNat_add, hlow1, toNat_shr (k := 6) (by decide) rfl]
    omega

/-- Encoded text holds alphabet characters and padding signs only. -/
theorem isBase64Sign_of_mem {x : Bytes} {c : UInt8} (h : c ∈ encodeBase64 x) :
    isBase64Sign c = true := by
  fun_induction encodeBase64 x with
  | case1 b0 b1 b2 rest ih =>
    obtain ⟨e0, e1, e2, e3, -, -⟩ := toNat_sextets b0 b1 b2
    simp only [List.mem_cons] at h
    have h0 := b0.toNat_lt
    have h1 := b1.toNat_lt
    have h2 := b2.toNat_lt
    rcases h with rfl | rfl | rfl | rfl | h
    · exact isBase64Sign_char (by omega)
    · exact isBase64Sign_char (by omega)
    · exact isBase64Sign_char (by omega)
    · exact isBase64Sign_char (by omega)
    · exact ih h
  | case2 b0 b1 =>
    obtain ⟨e0, e1, -, -, -, e5⟩ := toNat_sextets b0 b1 0
    simp only [List.mem_cons, List.not_mem_nil, or_false] at h
    have h0 := b0.toNat_lt
    have h1 := b1.toNat_lt
    rcases h with rfl | rfl | rfl | rfl
    · exact isBase64Sign_char (by omega)
    · exact isBase64Sign_char (by omega)
    · exact isBase64Sign_char (by omega)
    · decide
  | case3 b0 =>
    obtain ⟨e0, -, -, -, e4, -⟩ := toNat_sextets b0 0 0
    simp only [List.mem_cons, List.not_mem_nil, or_false] at h
    have h0 := b0.toNat_lt
    rcases h with rfl | rfl | rfl | rfl
    · exact isBase64Sign_char (by omega)
    · exact isBase64Sign_char (by omega)
    · decide
    · decide
  | case4 => simp at h

/-- Only the empty string encodes to the empty text. -/
theorem encodeBase64_eq_nil {x : Bytes} : encodeBase64 x = [] ↔ x = [] := by
  fun_cases encodeBase64 x <;> simp

end CppImprovement.Ws

import CppImprovement.Net.Ws.Utf8

/-!
# The UTF-8 decoder

`DecodeUtf8` takes the same transitions as `ValidateUtf8`, one byte at a call, and
gathers the bits of the character in a 32-bit accumulator. The bits of a lead byte
are cut out with a mask that is shifted by the byte's class. Fed the encoding of a
text, the decoder is in the accepting state exactly behind the last byte of each
character, and the accumulator is then its scalar value.
-/

namespace CppImprovement.Ws

/-- `DecodeUtf8`: the state and the code point after a byte. -/
def decodeUtf8 (s : Nat × UInt32) (byte : UInt8) : Nat × UInt32 :=
  (utf8Next s.1 byte,
    if s.1 ≠ WS_UTF8_ACCEPT then (byte.toUInt32 &&& (0x3f : UInt32)) ||| (s.2 <<< 6)
    else ((0xff : UInt32) >>> (utf8Type byte).toUInt32) &&& byte.toUInt32)

/-- The bytes fed one by one. -/
def decodeBytes (s : Nat × UInt32) (bytes : Bytes) : Nat × UInt32 := bytes.foldl decodeUtf8 s

private theorem decodeBytes_append (s : Nat × UInt32) (a b : Bytes) :
    decodeBytes s (a ++ b) = decodeBytes (decodeBytes s a) b :=
  List.foldl_append

/-- The decoder is in the state the validator is in. -/
theorem decodeBytes_state (s : Nat × UInt32) (bytes : Bytes) :
    (decodeBytes s bytes).1 = validateUtf8 s.1 bytes := by
  induction bytes generalizing s with
  | nil => rfl
  | cons b bytes ih =>
    have hstep : (decodeBytes s (b :: bytes)).1 = validateUtf8 (utf8Next s.1 b) bytes :=
      ih (decodeUtf8 s b)
    rw [hstep, validateUtf8]
    by_cases hr : utf8Next s.1 b = WS_UTF8_REJECT
    · rw [if_pos hr, hr, validateUtf8_reject]
    · rw [if_neg hr]

/-! ## The bits of a character -/

/-- The bits a lead byte contributes. -/
theorem toNat_decodeUtf8_lead (codep : UInt32) (b : UInt8) :
    (decodeUtf8 (WS_UTF8_ACCEPT, codep) b).2.toNat =
      (0xff >>> byteClass b.toNat) &&& b.toNat := by
  have hlt : utf8Type b < 12 := utf8Type_lt b
  have ht : (utf8Type b).toUInt32.toNat % 32 = utf8Type b := by
    rw [Nat.toUInt32, UInt32.toNat_ofNat']
    omega
  rw [decodeUtf8, if_neg (by simp)]
  rw [UInt32.toNat_and, UInt32.toNat_shiftRight, ht, UInt8.toNat_toUInt32, utf8Type_eq]
  rfl

/-- The mask leaves the payload bits of every lead byte. -/
theorem leadBits {n : Nat} (hn : n < 256) :
    (n ≤ 0x7F → (0xff >>> byteClass n) &&& n = n) ∧
      (0xC2 ≤ n ∧ n ≤ 0xDF → (0xff >>> byteClass n) &&& n = n - 0xC0) ∧
      (0xE0 ≤ n ∧ n ≤ 0xEF → (0xff >>> byteClass n) &&& n = n - 0xE0) ∧
      (0xF0 ≤ n ∧ n ≤ 0xF4 → (0xff >>> byteClass n) &&& n = n - 0xF0) := by
  revert n
  decide +kernel

/-- A byte inside a character appends its six low bits, as long as they fit. -/
theorem toNat_decodeUtf8_tail {s : Nat × UInt32} (hp : s.1 ≠ WS_UTF8_ACCEPT)
    (hc : s.2.toNat * 64 < 2 ^ 32) (b : UInt8) :
    (decodeUtf8 s b).2.toNat = s.2.toNat * 64 + b.toNat % 64 := by
  have hlow : b.toNat &&& 63 = b.toNat % 64 := Nat.and_two_pow_sub_one_eq_mod b.toNat 6
  have hshift : s.2.toNat <<< 6 = s.2.toNat * 64 := Nat.shiftLeft_eq s.2.toNat 6
  have hor := Nat.shiftLeft_add_eq_or_of_lt (b := b.toNat % 64) (i := 6) (by omega) s.2.toNat
  have h6 : ((6 : UInt32).toNat % 32) = 6 := rfl
  have h63 : (0x3f : UInt32).toNat = 63 := rfl
  rw [decodeUtf8, if_pos hp, UInt32.toNat_or, UInt32.toNat_and, UInt32.toNat_shiftLeft,
    UInt8.toNat_toUInt32, h6, h63, hlow, hshift, Nat.mod_eq_of_lt hc, Nat.or_comm, ← hshift, ← hor]

/-- The value of the bits gathered so far, with those of further bytes behind them. -/
def appendBits (n : Nat) (bytes : Bytes) : Nat := bytes.foldl (fun n b => n * 64 + b.toNat % 64) n

/-- The validator in the state behind the first byte. -/
theorem validateUtf8_decoded (s : Nat × UInt32) (b : UInt8) (bytes : Bytes) :
    validateUtf8 (decodeUtf8 s b).1 bytes = validateUtf8 s.1 (b :: bytes) :=
  (decodeBytes_state (decodeUtf8 s b) bytes).symm.trans (decodeBytes_state s (b :: bytes))

/-- The bytes behind the lead byte of a character append six bits each. -/
theorem toNat_decodeBytes_tails {s : Nat × UInt32} {bytes : Bytes}
    (hc : (s.2.toNat + 1) * 64 ^ bytes.length ≤ 2 ^ 32)
    (hp : ∀ k < bytes.length, validateUtf8 s.1 (bytes.take k) ≠ WS_UTF8_ACCEPT) :
    (decodeBytes s bytes).2.toNat = appendBits s.2.toNat bytes := by
  induction bytes generalizing s with
  | nil => rfl
  | cons b bytes ih =>
    rw [List.length_cons, pow_succ', ← mul_assoc] at hc
    have hpos : 0 < 64 ^ bytes.length := Nat.pow_pos (by decide)
    have hfit : (s.2.toNat + 1) * 64 ≤ 2 ^ 32 := (Nat.le_mul_of_pos_right _ hpos).trans hc
    have htail := toNat_decodeUtf8_tail (hp 0 (by simp)) (by omega) b
    rw [appendBits, List.foldl_cons, ← htail]
    apply ih
    · have hle : (decodeUtf8 s b).2.toNat + 1 ≤ (s.2.toNat + 1) * 64 := by omega
      exact (Nat.mul_le_mul_right _ hle).trans hc
    · intro k hk
      rw [validateUtf8_decoded]
      exact hp (k + 1) (by simpa using hk)

/-- The scalar value of a character, from its lead byte and the bytes behind it. -/
theorem toNat_decodeBytes_char {a : UInt8} {bytes : Bytes} (h : CharPath (a :: bytes)) {n : Nat}
    (hn : (0xff >>> byteClass a.toNat) &&& a.toNat = n)
    (hlt : (n + 1) * 64 ^ bytes.length ≤ 2 ^ 32) (codep : UInt32) :
    (decodeBytes (WS_UTF8_ACCEPT, codep) (a :: bytes)).2.toNat = appendBits n bytes := by
  have hlead := (toNat_decodeUtf8_lead codep a).trans hn
  have hstep : decodeBytes (WS_UTF8_ACCEPT, codep) (a :: bytes) =
      decodeBytes (decodeUtf8 (WS_UTF8_ACCEPT, codep) a) bytes := rfl
  rw [hstep, ← hlead]
  apply toNat_decodeBytes_tails
  · rw [hlead]
    exact hlt
  · intro k hk
    rw [validateUtf8_decoded]
    exact (h.2.2 (k + 1) (by omega) (by simpa using hk)).1

/-- A whole character leaves its scalar value in the accumulator. -/
theorem decodeBytes_char (c : Char) (codep : UInt32) :
    decodeBytes (WS_UTF8_ACCEPT, codep) (String.utf8EncodeChar c) = (WS_UTF8_ACCEPT, c.val) := by
  have hpath := charPath_utf8EncodeChar c
  have hvalid : c.val.toNat < 0xD800 ∨ (0xDFFF < c.val.toNat ∧ c.val.toNat < 0x110000) := c.valid
  have hstate : (decodeBytes (WS_UTF8_ACCEPT, codep) (String.utf8EncodeChar c)).1 =
      WS_UTF8_ACCEPT := (decodeBytes_state _ _).trans hpath.2.1
  refine Prod.ext hstate (UInt32.toNat_inj.mp ?_)
  rw [String.utf8EncodeChar] at hpath ⊢
  generalize c.val.toNat = v at hvalid hpath ⊢
  split_ifs at hpath ⊢ with h1 h2 h3
  · have ha : (UInt8.ofNat v).toNat = v := toNat_ofNat_of_le (by omega)
    have hlead : (0xff >>> byteClass (UInt8.ofNat v).toNat) &&& (UInt8.ofNat v).toNat = v := by
      rw [ha, (leadBits (by omega)).1 h1]
    exact toNat_decodeBytes_char hpath hlead (by rw [List.length_nil]; omega) codep
  · rw [toNat_decodeBytes_char hpath (n := v / 64)]
    · simp only [appendBits, List.foldl_cons, List.foldl_nil]
      rw [toNat_ofNat_of_le (by omega)]
      omega
    · rw [toNat_ofNat_of_le (by omega), (leadBits (by omega)).2.1 (by omega)]
      omega
    · simp only [List.length_cons, List.length_nil]
      omega
  · rw [toNat_decodeBytes_char hpath (n := v / 4096)]
    · simp only [appendBits, List.foldl_cons, List.foldl_nil]
      rw [toNat_ofNat_of_le (by omega), toNat_ofNat_of_le (by omega)]
      omega
    · rw [toNat_ofNat_of_le (by omega), (leadBits (by omega)).2.2.1 (by omega)]
      omega
    · simp only [List.length_cons, List.length_nil]
      omega
  · rw [toNat_decodeBytes_char hpath (n := v / 262144)]
    · simp only [appendBits, List.foldl_cons, List.foldl_nil]
      rw [toNat_ofNat_of_le (by omega), toNat_ofNat_of_le (by omega), toNat_ofNat_of_le (by omega)]
      omega
    · rw [toNat_ofNat_of_le (by omega), (leadBits (by omega)).2.2.2 (by omega)]
      omega
    · simp only [List.length_cons, List.length_nil]
      omega

/-- A whole text leaves the decoder between two characters. -/
theorem decodeBytes_text (cs : List Char) (codep : UInt32) :
    (decodeBytes (WS_UTF8_ACCEPT, codep) (cs.flatMap String.utf8EncodeChar)).1 =
      WS_UTF8_ACCEPT :=
  (decodeBytes_state _ _).trans (validateUtf8_of_valid ⟨cs, rfl⟩)

/-- What has been fed when `k` bytes of the character `c` behind `pre` have. -/
theorem take_text {pre post : List Char} {c : Char} {k : Nat}
    (hk : k ≤ (String.utf8EncodeChar c).length) :
    ((pre ++ c :: post).flatMap String.utf8EncodeChar).take
        ((pre.flatMap String.utf8EncodeChar).length + k) =
      pre.flatMap String.utf8EncodeChar ++ (String.utf8EncodeChar c).take k := by
  rw [List.flatMap_append, List.flatMap_cons, List.take_length_add_append,
    List.take_append_of_le_length hk]

/-- `DecodeUtf8` recovers the scalar values: fed the encoding of a text byte by byte, it returns
the accepting state at the last byte of each character and at no other, and the accumulator then
holds that character. Along every byte string it is in the state of `ValidateUtf8`. -/
theorem decodeUtf8_recovers (codep : UInt32) :
    (∀ (pre : List Char) (c : Char) (post : List Char) (k : Nat),
      0 < k → k ≤ (String.utf8EncodeChar c).length →
        ∀ fed, fed = ((pre ++ c :: post).flatMap String.utf8EncodeChar).take
            ((pre.flatMap String.utf8EncodeChar).length + k) →
          ((decodeBytes (WS_UTF8_ACCEPT, codep) fed).1 = WS_UTF8_ACCEPT ↔
              k = (String.utf8EncodeChar c).length) ∧
            (k = (String.utf8EncodeChar c).length →
              (decodeBytes (WS_UTF8_ACCEPT, codep) fed).2 = c.val)) ∧
      ∀ s : Bytes, (decodeBytes (WS_UTF8_ACCEPT, codep) s).1 = validateUtf8 WS_UTF8_ACCEPT s := by
  refine ⟨?_, decodeBytes_state (WS_UTF8_ACCEPT, codep)⟩
  intro pre c post k hpos hk fed hfed
  rw [take_text hk] at hfed
  subst hfed
  rw [decodeBytes_append]
  have hstart := decodeBytes_text pre codep
  generalize decodeBytes (WS_UTF8_ACCEPT, codep) (pre.flatMap String.utf8EncodeChar) = s at hstart ⊢
  obtain ⟨p, n⟩ := s
  obtain rfl : p = WS_UTF8_ACCEPT := hstart
  have hlast : k = (String.utf8EncodeChar c).length →
      decodeBytes (WS_UTF8_ACCEPT, n) ((String.utf8EncodeChar c).take k) =
        (WS_UTF8_ACCEPT, c.val) := by
    intro he
    rw [he, List.take_length, decodeBytes_char]
  refine ⟨⟨fun hacc => ?_, fun he => by rw [hlast he]⟩, fun he => by rw [hlast he]⟩
  by_contra hne
  rw [decodeBytes_state] at hacc
  exact ((charPath_utf8EncodeChar c).2.2 k hpos (by omega)).1 hacc

end CppImprovement.Ws

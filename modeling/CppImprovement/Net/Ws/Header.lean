import CppImprovement.Net.Ws.Types

/-!
# The frame header codec

`PackHeader` and `UnpackHeader` on a little-endian host. Both go through the
seven bit `payloadLen` field: the packer encodes the stored length, and the
unpacker stores the decoded length again. `wireHeader` is the header format
itself, with any of its three length encodings and the full length, and
`unpackHeader_wireHeader` says what the unpacker makes of it: every field is
recovered, and the length modulo 128.
-/

namespace CppImprovement.Ws

/-! ## Byte order -/

/-- `htons` and `ntohs` on a little-endian host. -/
def htons (x : Nat) : Nat := byteSwap 2 (x % 2 ^ 16)

/-- `EncodeN2H64`: the bytes of the result in memory order are the bytes of the input from
its most significant one down. -/
def encodeN2H64 (input : Nat) : Nat :=
  loadLE [UInt8.ofNat (input >>> 56), UInt8.ofNat (input >>> 48), UInt8.ofNat (input >>> 40),
    UInt8.ofNat (input >>> 32), UInt8.ofNat (input >>> 24), UInt8.ofNat (input >>> 16),
    UInt8.ofNat (input >>> 8), UInt8.ofNat (input >>> 0)]

/-- `EncodeH2N64`. -/
def encodeH2N64 (input : Nat) : Nat := encodeN2H64 input

/-- The shifts of `EncodeN2H64` reverse the eight bytes of the word. -/
theorem encodeN2H64_eq_byteSwap (x : Nat) : encodeN2H64 x = byteSwap 8 x := by
  have hbyte (k : Nat) : UInt8.ofNat (x >>> k) = UInt8.ofNat (x / 2 ^ k % 256) := by
    rw [Nat.shiftRight_eq_div_pow]
    apply UInt8.toNat_inj.mp
    simp
  simp only [encodeN2H64, byteSwap, storeLE, hbyte, Nat.div_div_eq_div_mul]
  norm_num

/-! ## Packing -/

/-- The bit `!!flag`. -/
def bit (flag : Bool) : UInt8 := if flag then 1 else 0

/-- The byte `PackHeaderFirstByte` stores. -/
def firstByte (fin rsv1 rsv2 rsv3 : Bool) (opcode : WSOpcode) : UInt8 :=
  (bit fin <<< 7) ||| (bit rsv1 <<< 6) ||| (bit rsv2 <<< 5) ||| (bit rsv3 <<< 4) |||
    (opcode.toByte &&& 0xF)

/-- `PackHeaderFirstByte`. -/
def packHeaderFirstByte (h : WSHeader) : UInt8 :=
  firstByte h.fin h.rsv1 h.rsv2 h.rsv3 h.opcode

/-- `PackHeaderRest`: the bytes from index one on, and the reported `header_len`. Its length
branches compare the stored field, so the eight byte branch of the source is kept although a
seven bit value never reaches it. -/
def packHeaderRest (h : WSHeader) : Bytes × Nat :=
  let b1 := bit h.maskBit <<< 7
  let len := h.payloadLen.val
  let sized : Bytes × Nat :=
    if len ≤ 125 then ([b1 ||| UInt8.ofNat len], 2)
    else if len ≤ 0xFFFF then ((b1 ||| 126) :: storeLE 2 (htons len), 2 + 2)
    else ((b1 ||| 127) :: storeLE 8 (encodeH2N64 len), 2 + 8)
  if h.maskBit then (sized.1 ++ h.mask.toBytes, sized.2 + 4) else sized

/-- `PackHeader`: the bytes written to the header buffer and the reported `header_len`. -/
def packHeader (h : WSHeader) : Bytes × Nat :=
  (packHeaderFirstByte h :: (packHeaderRest h).1, (packHeaderRest h).2)

/-! ## Unpacking -/

/-- What `UnpackHeader` leaves behind: its result, the new `wsHeader_` and `headerLen`. -/
structure Unpacked where
  state : WSParseState
  header : WSHeader
  headerLen : Nat
  deriving DecidableEq, Repr

/-- The fields `UnpackHeader` reads from the first two bytes. -/
def baseFields (b0 b1 : UInt8) : WSHeader :=
  { fin := (b0 >>> 7) &&& 0x1 != 0
    rsv1 := (b0 >>> 6) &&& 0x1 != 0
    rsv2 := (b0 >>> 5) &&& 0x1 != 0
    rsv3 := (b0 >>> 4) &&& 0x1 != 0
    opcode := WSOpcode.ofByte (b0 &&& 0xF)
    maskBit := (b1 >>> 7) &&& 0x1 != 0
    payloadLen := Fin.ofNat 128 (b1 &&& 0x7F).toNat
    mask := Mask.zero }

/-- The masking key step of `UnpackHeader`. The key is read at `headerLen` without a look at
how many bytes the buffer holds. -/
def unpackMask (b : Bytes) (h : WSHeader) (headerLen : Nat) : Unpacked :=
  if h.maskBit then
    ⟨.success, { h with mask := Mask.ofBytes (b.drop headerLen) }, headerLen + 4⟩
  else ⟨.success, h, headerLen⟩

/-- `UnpackHeader` on the first `len` bytes of the header buffer `b`. -/
def unpackHeader (b : Bytes) (len : Nat) : Unpacked :=
  if len < WS_HDR_MIN_SIZE then ⟨.needMore, .zero, 0⟩
  else
    let h := baseFields (b.getD 0 0) (b.getD 1 0)
    if h.payloadLen = 126 then
      if len < 2 + 2 then ⟨.needMore, h, 2⟩
      else unpackMask b (h.setPayloadLen (htons (loadLE ((b.drop 2).take 2)))) (2 + 2)
    else if h.payloadLen = 127 then
      if len < 2 + 8 then ⟨.needMore, h, 2⟩
      else unpackMask b (h.setPayloadLen (encodeN2H64 (loadLE ((b.drop 2).take 8)))) (2 + 8)
    else unpackMask b h 2

private theorem unpackMask_state (b : Bytes) (h : WSHeader) (headerLen : Nat) :
    (unpackMask b h headerLen).state = .success := by
  rw [unpackMask]
  split <;> rfl

/-- Unpacking succeeds or asks for more. -/
theorem unpackHeader_state (b : Bytes) (len : Nat) :
    (unpackHeader b len).state = .needMore ∨ (unpackHeader b len).state = .success := by
  rw [unpackHeader]
  split
  · exact Or.inl rfl
  · dsimp only
    split
    · split
      · exact Or.inl rfl
      · exact Or.inr (unpackMask_state _ _ _)
    · split
      · split
        · exact Or.inl rfl
        · exact Or.inr (unpackMask_state _ _ _)
      · exact Or.inr (unpackMask_state _ _ _)

/-- Unpacking never makes the application abort. -/
theorem unpackHeader_ne_userAbort (b : Bytes) (len : Nat) :
    (unpackHeader b len).state ≠ .userAbort := by
  rcases unpackHeader_state b len with h | h <;> simp [h]

/-! ## The wire format -/

/-- The three ways to write a payload length. -/
inductive LenForm
  | short | medium | long
  deriving DecidableEq, Repr

/-- The lengths a form can carry. -/
def LenForm.Fits : LenForm → Nat → Prop
  | .short, n => n ≤ 125
  | .medium, n => n < 256 ^ 2
  | .long, n => n < 256 ^ 8

/-- The seven bit length code of a form. -/
def LenForm.code : LenForm → Nat → UInt8
  | .short, n => UInt8.ofNat n
  | .medium, _ => 126
  | .long, _ => 127

/-- The extended length bytes of a form, most significant first. -/
def LenForm.extension : LenForm → Nat → Bytes
  | .short, _ => []
  | .medium, n => (storeLE 2 n).reverse
  | .long, n => (storeLE 8 n).reverse

/-- The extension of a length has at most eight octets. -/
theorem LenForm.length_extension_le (form : LenForm) (n : Nat) : (form.extension n).length ≤ 8 := by
  cases form <;> simp [LenForm.extension, length_storeLE]

/-- A header on the wire: flags, opcode, the length in some form, and the key if masked. -/
def wireHeader (fin rsv1 rsv2 rsv3 : Bool) (opcode : WSOpcode) (mask : Option Mask)
    (form : LenForm) (n : Nat) : Bytes :=
  firstByte fin rsv1 rsv2 rsv3 opcode :: ((bit mask.isSome <<< 7) ||| form.code n) ::
    (form.extension n ++ (mask.map Mask.toBytes).getD [])

/-- The header fields a wire header stands for, with the length cut to the seven bit field. -/
def wireFields (fin rsv1 rsv2 rsv3 : Bool) (opcode : WSOpcode) (mask : Option Mask)
    (n : Nat) : WSHeader :=
  ⟨fin, rsv1, rsv2, rsv3, opcode, mask.isSome, Fin.ofNat 128 n, mask.getD Mask.zero⟩

/-- A header has two octets, the extension of its length, and the key. -/
theorem length_wireHeader (fin rsv1 rsv2 rsv3 : Bool) (opcode : WSOpcode) (mask : Option Mask)
    (form : LenForm) (n : Nat) :
    (wireHeader fin rsv1 rsv2 rsv3 opcode mask form n).length =
      2 + (form.extension n).length + (if mask.isSome then 4 else 0) := by
  cases mask <;> simp [wireHeader] <;> omega

/-- The shifts of `UnpackHeader` recover every bit of the first byte. -/
theorem firstByte_fields (fin rsv1 rsv2 rsv3 : Bool) (opcode : WSOpcode) :
    ((firstByte fin rsv1 rsv2 rsv3 opcode >>> 7) &&& 0x1 != 0) = fin ∧
      ((firstByte fin rsv1 rsv2 rsv3 opcode >>> 6) &&& 0x1 != 0) = rsv1 ∧
      ((firstByte fin rsv1 rsv2 rsv3 opcode >>> 5) &&& 0x1 != 0) = rsv2 ∧
      ((firstByte fin rsv1 rsv2 rsv3 opcode >>> 4) &&& 0x1 != 0) = rsv3 ∧
      WSOpcode.ofByte (firstByte fin rsv1 rsv2 rsv3 opcode &&& 0xF) = opcode := by
  revert fin rsv1 rsv2 rsv3
  cases opcode <;> decide

private theorem secondByte_mask_of_lt (m : Bool) : ∀ n : Fin 128,
    (((bit m <<< 7) ||| UInt8.ofNat n.val) >>> 7 &&& 0x1 != 0) = m := by
  cases m <;> decide +kernel

private theorem secondByte_len_of_lt (m : Bool) : ∀ n : Fin 128,
    (((bit m <<< 7) ||| UInt8.ofNat n.val) &&& 0x7F).toNat = n.val := by
  cases m <;> decide +kernel

/-- The second byte carries the mask bit and the length code side by side. -/
theorem secondByte_fields (m : Bool) {n : Nat} (hn : n < 128) :
    (((bit m <<< 7) ||| UInt8.ofNat n) >>> 7 &&& 0x1 != 0) = m ∧
      (((bit m <<< 7) ||| UInt8.ofNat n) &&& 0x7F).toNat = n :=
  ⟨secondByte_mask_of_lt m ⟨n, hn⟩, secondByte_len_of_lt m ⟨n, hn⟩⟩

private theorem baseFields_wire (fin rsv1 rsv2 rsv3 : Bool) (opcode : WSOpcode) (m : Bool)
    {n : Nat} (hn : n < 128) :
    baseFields (firstByte fin rsv1 rsv2 rsv3 opcode) ((bit m <<< 7) ||| UInt8.ofNat n) =
      ⟨fin, rsv1, rsv2, rsv3, opcode, m, Fin.ofNat 128 n, Mask.zero⟩ := by
  obtain ⟨h7, h6, h5, h4, hop⟩ := firstByte_fields fin rsv1 rsv2 rsv3 opcode
  obtain ⟨hm, hl⟩ := secondByte_fields m hn
  simp only [baseFields, h7, h6, h5, h4, hop, hm, hl]

private theorem unpackHeader_cons (b0 b1 : UInt8) (tail : Bytes) {len : Nat} (hlen : 2 ≤ len) :
    unpackHeader (b0 :: b1 :: tail) len =
      if (baseFields b0 b1).payloadLen = 126 then
        if len < 2 + 2 then ⟨.needMore, baseFields b0 b1, 2⟩
        else unpackMask (b0 :: b1 :: tail)
          ((baseFields b0 b1).setPayloadLen (htons (loadLE (tail.take 2)))) (2 + 2)
      else if (baseFields b0 b1).payloadLen = 127 then
        if len < 2 + 8 then ⟨.needMore, baseFields b0 b1, 2⟩
        else unpackMask (b0 :: b1 :: tail)
          ((baseFields b0 b1).setPayloadLen (encodeN2H64 (loadLE (tail.take 8)))) (2 + 8)
      else unpackMask (b0 :: b1 :: tail) (baseFields b0 b1) 2 := by
  have hmin : ¬ len < WS_HDR_MIN_SIZE := by
    simp only [WS_HDR_MIN_SIZE, WS_HDR_BASE_SIZE]
    omega
  rw [unpackHeader, if_neg hmin]
  rfl

/-- The key step on a buffer that continues with the key, or on an unmasked header. -/
private theorem unpackMask_wire (front rest : Bytes) (mask : Option Mask) (h : WSHeader)
    (hbit : h.maskBit = mask.isSome) (hzero : h.mask = Mask.zero) :
    unpackMask (front ++ ((mask.map Mask.toBytes).getD [] ++ rest)) h front.length =
      ⟨.success, { h with mask := mask.getD Mask.zero },
        front.length + (if mask.isSome then 4 else 0)⟩ := by
  cases mask with
  | none =>
    obtain ⟨fin, rsv1, rsv2, rsv3, opcode, maskBit, payloadLen, key⟩ := h
    have hb : maskBit = false := by simpa using hbit
    have hk : key = Mask.zero := hzero
    simp [unpackMask, hb, hk]
  | some m =>
    have hb : h.maskBit = true := by simpa using hbit
    simp [unpackMask, hb]

private theorem htons_loadLE_reverse {n : Nat} (hn : n < 256 ^ 2) :
    htons (loadLE (storeLE 2 n).reverse) = n := by
  have hlt : byteSwap 2 n < 2 ^ 16 := by
    have h := loadLE_lt (storeLE 2 n).reverse
    rw [List.length_reverse, length_storeLE] at h
    exact h
  rw [htons, ← byteSwap, Nat.mod_eq_of_lt hlt, byteSwap_byteSwap hn]

private theorem encodeN2H64_loadLE_reverse {n : Nat} (hn : n < 256 ^ 8) :
    encodeN2H64 (loadLE (storeLE 8 n).reverse) = n := by
  rw [encodeN2H64_eq_byteSwap, ← byteSwap, byteSwap_byteSwap hn]

/-- Unpacking a complete wire header succeeds, whatever follows it: the flags, the opcode and
the key are recovered, the length modulo 128, and the header length is exact. -/
theorem unpackHeader_wireHeader (fin rsv1 rsv2 rsv3 : Bool) (opcode : WSOpcode)
    (mask : Option Mask) {form : LenForm} {n : Nat} (hfit : form.Fits n) (rest : Bytes)
    {len : Nat} (hlen : (wireHeader fin rsv1 rsv2 rsv3 opcode mask form n).length ≤ len) :
    unpackHeader (wireHeader fin rsv1 rsv2 rsv3 opcode mask form n ++ rest) len =
      ⟨.success, wireFields fin rsv1 rsv2 rsv3 opcode mask n,
        (wireHeader fin rsv1 rsv2 rsv3 opcode mask form n).length⟩ := by
  rw [length_wireHeader] at hlen ⊢
  simp only [wireHeader, List.cons_append, List.append_assoc]
  rw [unpackHeader_cons _ _ _ (by omega)]
  cases form with
  | short =>
    have hn : n < 126 := by
      simp only [LenForm.Fits] at hfit
      omega
    rw [LenForm.code, baseFields_wire _ _ _ _ _ _ (by omega : n < 128)]
    have h126 : (Fin.ofNat 128 n) ≠ 126 := by
      intro he
      have hv := congrArg Fin.val he
      simp at hv
      omega
    have h127 : (Fin.ofNat 128 n) ≠ 127 := by
      intro he
      have hv := congrArg Fin.val he
      simp at hv
      omega
    simp only [h126, h127, if_false, LenForm.extension, List.nil_append, List.length_nil,
      Nat.add_zero]
    exact unpackMask_wire [_, _] rest mask _ rfl rfl
  | medium =>
    have hcode : LenForm.medium.code n = UInt8.ofNat 126 := rfl
    simp only [LenForm.extension, List.length_reverse, length_storeLE] at hlen ⊢
    rw [hcode, baseFields_wire _ _ _ _ _ _ (by omega : 126 < 128)]
    have htake : (((storeLE 2 n).reverse ++ ((mask.map Mask.toBytes).getD [] ++ rest)).take 2) =
        (storeLE 2 n).reverse := by
      rw [List.take_append_of_le_length (by simp), List.take_of_length_le (by simp)]
    have h126 : Fin.ofNat 128 126 = (126 : Fin 128) := rfl
    dsimp only
    rw [if_pos h126, if_neg (by omega), htake, htons_loadLE_reverse hfit]
    have hfront := unpackMask_wire
      (firstByte fin rsv1 rsv2 rsv3 opcode :: (bit mask.isSome <<< 7 ||| UInt8.ofNat 126) ::
        (storeLE 2 n).reverse) rest mask
      (WSHeader.setPayloadLen
        ⟨fin, rsv1, rsv2, rsv3, opcode, mask.isSome, Fin.ofNat 128 126, Mask.zero⟩ n) rfl rfl
    simpa [WSHeader.setPayloadLen, wireFields] using hfront
  | long =>
    have hcode : LenForm.long.code n = UInt8.ofNat 127 := rfl
    simp only [LenForm.extension, List.length_reverse, length_storeLE] at hlen ⊢
    rw [hcode, baseFields_wire _ _ _ _ _ _ (by omega : 127 < 128)]
    have htake : (((storeLE 8 n).reverse ++ ((mask.map Mask.toBytes).getD [] ++ rest)).take 8) =
        (storeLE 8 n).reverse := by
      rw [List.take_append_of_le_length (by simp), List.take_of_length_le (by simp)]
    have h126 : ¬ Fin.ofNat 128 127 = (126 : Fin 128) := by decide
    have h127 : Fin.ofNat 128 127 = (127 : Fin 128) := rfl
    dsimp only
    rw [if_neg h126, if_pos h127, if_neg (by omega), htake, encodeN2H64_loadLE_reverse hfit]
    have hfront := unpackMask_wire
      (firstByte fin rsv1 rsv2 rsv3 opcode :: (bit mask.isSome <<< 7 ||| UInt8.ofNat 127) ::
        (storeLE 8 n).reverse) rest mask
      (WSHeader.setPayloadLen
        ⟨fin, rsv1, rsv2, rsv3, opcode, mask.isSome, Fin.ofNat 128 127, Mask.zero⟩ n) rfl rfl
    simpa [WSHeader.setPayloadLen, wireFields] using hfront

/-- A part of a wire header that ends before the masking key asks for more. -/
theorem unpackHeader_part (fin rsv1 rsv2 rsv3 : Bool) (opcode : WSOpcode) (mask : Option Mask)
    {form : LenForm} {n l : Nat} (hl : l < 2 + (form.extension n).length) (rest : Bytes) :
    (unpackHeader ((wireHeader fin rsv1 rsv2 rsv3 opcode mask form n).take l ++ rest) l).state =
      .needMore := by
  by_cases h2 : l < WS_HDR_MIN_SIZE
  · rw [unpackHeader, if_pos h2]
  · rw [WS_HDR_MIN_SIZE, WS_HDR_BASE_SIZE, not_lt] at h2
    obtain ⟨k, rfl⟩ : ∃ k, l = k + 2 := ⟨l - 2, by omega⟩
    simp only [wireHeader, List.take_succ_cons, List.cons_append]
    rw [unpackHeader_cons _ _ _ (by omega)]
    cases form with
    | short =>
      rw [LenForm.extension, List.length_nil] at hl
      omega
    | medium =>
      rw [LenForm.extension, List.length_reverse, length_storeLE] at hl
      have hcode : LenForm.medium.code n = UInt8.ofNat 126 := rfl
      have h126 : Fin.ofNat 128 126 = (126 : Fin 128) := rfl
      rw [hcode, baseFields_wire _ _ _ _ _ _ (by omega : 126 < 128)]
      dsimp only
      rw [if_pos h126, if_pos (by omega)]
    | long =>
      rw [LenForm.extension, List.length_reverse, length_storeLE] at hl
      have hcode : LenForm.long.code n = UInt8.ofNat 127 := rfl
      have h126 : Fin.ofNat 128 127 ≠ (126 : Fin 128) := by decide
      have h127 : Fin.ofNat 128 127 = (127 : Fin 128) := rfl
      rw [hcode, baseFields_wire _ _ _ _ _ _ (by omega : 127 < 128)]
      dsimp only
      rw [if_neg h126, if_pos h127, if_pos (by omega)]

/-- A packed header is the wire header of its fields, in the form its stored length selects,
and `header_len` counts exactly the bytes written. -/
theorem packHeader_eq_wireHeader (h : WSHeader) :
    packHeader h =
      let form := if h.payloadLen.val ≤ 125 then LenForm.short else LenForm.medium
      let wire := wireHeader h.fin h.rsv1 h.rsv2 h.rsv3 h.opcode
        (if h.maskBit then some h.mask else none) form h.payloadLen.val
      (wire, wire.length) := by
  have hlt := h.payloadLen.isLt
  have hle : h.payloadLen.val ≤ 0xFFFF := by omega
  have hmod : h.payloadLen.val % 2 ^ 16 = h.payloadLen.val := Nat.mod_eq_of_lt (by omega)
  have hswap : storeLE 2 (htons h.payloadLen.val) = (storeLE 2 h.payloadLen.val).reverse := by
    rw [htons, hmod, storeLE_byteSwap]
  by_cases hs : h.payloadLen.val ≤ 125 <;> cases hm : h.maskBit <;>
    simp [packHeader, packHeaderRest, packHeaderFirstByte, wireHeader, LenForm.code,
      LenForm.extension, hs, hm, hle, hswap]

/-- A stored length selects a form that carries it. -/
private theorem storedForm_fits (l : Fin 128) :
    (if l.val ≤ 125 then LenForm.short else LenForm.medium).Fits l.val := by
  by_cases hs : l.val ≤ 125
  · simp only [hs, if_true, LenForm.Fits]
  · have hlt := l.isLt
    simp only [hs, if_false, LenForm.Fits]
    omega

/-- Unpacking what `PackHeader` wrote, followed by anything, recovers the stored fields and
the reported length; the key survives exactly when the mask bit sends it. -/
theorem unpackHeader_packHeader (h : WSHeader) (rest : Bytes) :
    unpackHeader ((packHeader h).1 ++ rest) ((packHeader h).1 ++ rest).length =
      ⟨.success, { h with mask := if h.maskBit then h.mask else Mask.zero }, (packHeader h).2⟩ := by
  rw [packHeader_eq_wireHeader]
  dsimp only
  rw [unpackHeader_wireHeader _ _ _ _ _ _ (storedForm_fits h.payloadLen) rest
    (by simp only [List.length_append]; omega)]
  obtain ⟨fin, rsv1, rsv2, rsv3, opcode, maskBit, payloadLen, key⟩ := h
  cases maskBit <;> simp [wireFields]

/-! ## The round trip -/

/-- A sender stores the length `L` into the header `h`; the bytes `PackHeader` writes for it,
followed by any further bytes, decode to the same flags, opcode, mask bit, mask and length, and
to the header length `PackHeader` reported. -/
def HeaderRoundTrip (h : WSHeader) (L : Nat) (rest : Bytes) : Prop :=
  let packed := packHeader (h.setPayloadLen L)
  let out := unpackHeader (packed.1 ++ rest) (packed.1 ++ rest).length
  out.state = .success ∧ out.header.fin = h.fin ∧ out.header.rsv1 = h.rsv1 ∧
    out.header.rsv2 = h.rsv2 ∧ out.header.rsv3 = h.rsv3 ∧ out.header.opcode = h.opcode ∧
    out.header.maskBit = h.maskBit ∧ out.header.mask = h.mask ∧
    out.header.payloadLen.val = L ∧ out.headerLen = packed.2

/-- The codec round trips exactly the lengths that fit the seven bit field, and the masks that
are sent: a longer length is silently reduced modulo 128. -/
theorem headerRoundTrip_iff (h : WSHeader) (L : Nat) (rest : Bytes) :
    HeaderRoundTrip h L rest ↔ L < 128 ∧ (h.maskBit = true ∨ h.mask = Mask.zero) := by
  rw [HeaderRoundTrip, unpackHeader_packHeader]
  simp only [WSHeader.setPayloadLen, Fin.val_ofNat, true_and, and_true]
  constructor
  · rintro ⟨hmask, hlen⟩
    refine ⟨?_, ?_⟩
    · have hlt := Nat.mod_lt L (by decide : 0 < 128)
      omega
    · cases hb : h.maskBit with
      | true => exact Or.inl rfl
      | false =>
        simp only [hb, Bool.false_eq_true, if_false] at hmask
        exact Or.inr hmask.symm
  · rintro ⟨hlen, hmask⟩
    refine ⟨?_, Nat.mod_eq_of_lt hlen⟩
    rcases hmask with hb | hz
    · simp only [hb, if_true]
    · simp only [hz, ite_self]

/-- A masked text header for a 128 byte payload decodes with length zero. -/
theorem headerRoundTrip_fails_at_128 :
    ¬ ∀ (h : WSHeader) (L : Nat) (rest : Bytes), L ≤ WS_MAX_PAYLOAD_LEN →
      HeaderRoundTrip h L rest := by
  intro hall
  have h := hall ⟨true, false, false, false, .text, true, 0, ⟨1, 2, 3, 4⟩⟩ 128 [] (by decide)
  have hlen : (unpackHeader (packHeader (WSHeader.setPayloadLen
      ⟨true, false, false, false, .text, true, 0, ⟨1, 2, 3, 4⟩⟩ 128)).1 6).header.payloadLen.val
        = 128 := h.2.2.2.2.2.2.2.2.1
  revert hlen
  decide

end CppImprovement.Ws

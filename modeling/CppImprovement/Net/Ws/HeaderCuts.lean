import CppImprovement.Net.Ws.Header

/-!
# Headers that arrive in parts

`UnpackHeader` is called with whatever octets of a header have arrived. It asks for more while
the length field is incomplete, but it takes the masking key without a look at how many octets
there are. So a header that is cut inside its key is accepted, with a key of octets that have
not arrived and a length that the input buffer does not hold.
-/

namespace CppImprovement.Ws

/-! ## The announced length -/

/-- The octets of the extended length that the second octet announces. -/
def lengthExtension (b : Bytes) : Nat :=
  if (b.getD 1 0).toNat % 128 = 126 then 2 else if (b.getD 1 0).toNat % 128 = 127 then 8 else 0

/-- The second octet has the mask bit. -/
def Masked (b : Bytes) : Prop := 128 ≤ (b.getD 1 0).toNat

instance (b : Bytes) : Decidable (Masked b) := Nat.decLe _ _

/-- The length of the whole header that the first two octets announce. -/
def announcedLen (b : Bytes) : Nat := 2 + lengthExtension b + if Masked b then 4 else 0

/-- The parse of the first `len` octets of a header: it asks for more exactly while the header is
incomplete, reports the announced length otherwise, depends on no other octet, and its length
can be taken off a buffer that holds `len` octets. -/
structure ParsesCut (b : Bytes) (len : Nat) : Prop where
  needMore : (unpackHeader b len).state = .needMore ↔ len < announcedLen b
  success : announcedLen b ≤ len →
    (unpackHeader b len).state = .success ∧ (unpackHeader b len).headerLen = announcedLen b
  own : ∀ b' : Bytes, b'.take len = b.take len → unpackHeader b' len = unpackHeader b len
  drains : (unpackHeader b len).state = .success → (unpackHeader b len).headerLen ≤ len

/-! ## What `UnpackHeader` computes -/

private theorem payloadLen_baseFields (b0 b1 : UInt8) :
    (baseFields b0 b1).payloadLen.val = b1.toNat % 128 := by
  rw [baseFields, Fin.val_ofNat, UInt8.and_comm, toNat_low (k := 7) rfl]
  omega

private theorem maskBit_baseFields (b0 b1 : UInt8) :
    (baseFields b0 b1).maskBit = true ↔ 128 ≤ b1.toNat := by
  have hb := b1.toNat_lt
  have hbit : ((b1 >>> 7) &&& 0x1).toNat = b1.toNat / 128 % 2 := by
    rw [UInt8.and_comm, toNat_low (k := 1) rfl, toNat_shr (k := 7) (by decide) rfl]
    rfl
  have hzero : (0 : UInt8).toNat = 0 := rfl
  rw [baseFields, bne_iff_ne, ne_eq, ← UInt8.toNat_inj, hbit, hzero]
  omega

/-- The fields behind the length field. -/
def lengthRead (b : Bytes) : WSHeader :=
  let h := baseFields (b.getD 0 0) (b.getD 1 0)
  if lengthExtension b = 2 then h.setPayloadLen (htons (loadLE ((b.drop 2).take 2)))
  else if lengthExtension b = 8 then h.setPayloadLen (encodeN2H64 (loadLE ((b.drop 2).take 8)))
  else h

private theorem maskBit_lengthRead (b : Bytes) : (lengthRead b).maskBit = true ↔ Masked b := by
  rw [Masked, ← maskBit_baseFields (b.getD 0 0), lengthRead]
  split_ifs <;> rfl

/-- More is asked for while the length field is incomplete; then the key is taken. -/
theorem unpackHeader_eq (b : Bytes) (len : Nat) :
    unpackHeader b len =
      if len < 2 then ⟨.needMore, .zero, 0⟩
      else if len < 2 + lengthExtension b then
        ⟨.needMore, baseFields (b.getD 0 0) (b.getD 1 0), 2⟩
      else unpackMask b (lengthRead b) (2 + lengthExtension b) := by
  have hlen := payloadLen_baseFields (b.getD 0 0) (b.getD 1 0)
  have h126 : (baseFields (b.getD 0 0) (b.getD 1 0)).payloadLen = 126 ↔
      (b.getD 1 0).toNat % 128 = 126 := by
    rw [Fin.ext_iff, hlen]
    rfl
  have h127 : (baseFields (b.getD 0 0) (b.getD 1 0)).payloadLen = 127 ↔
      (b.getD 1 0).toNat % 128 = 127 := by
    rw [Fin.ext_iff, hlen]
    rfl
  rw [unpackHeader, WS_HDR_MIN_SIZE, WS_HDR_BASE_SIZE]
  by_cases hmin : len < 2
  · rw [if_pos hmin, if_pos hmin]
  rw [if_neg hmin, if_neg hmin]
  simp only [h126, h127, lengthRead, lengthExtension]
  by_cases he : (b.getD 1 0).toNat % 128 = 126
  · simp only [if_pos he, if_true]
  by_cases he' : (b.getD 1 0).toNat % 128 = 127
  · simp only [if_neg he, if_pos he', Nat.reduceEqDiff, if_true, if_false]
  · simp only [if_neg he, if_neg he', Nat.add_zero, if_neg hmin, OfNat.zero_ne_ofNat, if_false]

/-! ## The octets it depends on -/

section Agree

variable {b b' : Bytes} {len : Nat} (h : b'.take len = b.take len)

include h

private theorem getD_of_take {i : Nat} (hi : i < len) : b'.getD i 0 = b.getD i 0 := by
  rw [List.getD_eq_getElem?_getD, List.getD_eq_getElem?_getD, ← List.getElem?_take_of_lt hi, h,
    List.getElem?_take_of_lt hi]

private theorem drop_take_of_take {i k : Nat} (hik : i + k ≤ len) :
    (b'.drop i).take k = (b.drop i).take k := by
  have hcut : ∀ c : Bytes, ((c.take len).drop i).take k = (c.drop i).take k := by
    intro c
    rw [List.drop_take, List.take_take, Nat.min_eq_left (by omega)]
  rw [← hcut b', h, hcut b]

private theorem lengthExtension_of_take (hlen : 2 ≤ len) :
    lengthExtension b' = lengthExtension b := by
  rw [lengthExtension, lengthExtension, getD_of_take h (by omega)]

private theorem lengthRead_of_take (hlen : 2 + lengthExtension b ≤ len) :
    lengthRead b' = lengthRead b := by
  rw [lengthRead, lengthRead, lengthExtension_of_take h (by omega), getD_of_take h (by omega),
    getD_of_take h (by omega)]
  split_ifs with h2 h8
  · rw [drop_take_of_take h (by omega)]
  · rw [drop_take_of_take h (by omega)]
  · rfl

/-- The key depends on its four octets only. -/
theorem maskAt_of_take {i : Nat} (hi : i + 4 ≤ len) :
    Mask.ofBytes (b'.drop i) = Mask.ofBytes (b.drop i) := by
  have hoctet : ∀ j, j < 4 → (b'.drop i).getD j 0 = (b.drop i).getD j 0 := by
    intro j hj
    rw [List.getD_eq_getElem?_getD, List.getD_eq_getElem?_getD, List.getElem?_drop,
      List.getElem?_drop, ← List.getD_eq_getElem?_getD, ← List.getD_eq_getElem?_getD,
      getD_of_take h (by omega)]
  simp only [Mask.ofBytes, hoctet 0 (by omega), hoctet 1 (by omega), hoctet 2 (by omega),
    hoctet 3 (by omega)]

private theorem unpackHeader_of_take
    (hkey : Masked b → len < 2 + lengthExtension b ∨ 2 + lengthExtension b + 4 ≤ len) :
    unpackHeader b' len = unpackHeader b len := by
  rw [unpackHeader_eq, unpackHeader_eq]
  by_cases hmin : len < 2
  · rw [if_pos hmin, if_pos hmin]
  rw [if_neg hmin, if_neg hmin, lengthExtension_of_take h (by omega), getD_of_take h (by omega),
    getD_of_take h (by omega)]
  by_cases hlen : len < 2 + lengthExtension b
  · rw [if_pos hlen, if_pos hlen]
  rw [if_neg hlen, if_neg hlen, lengthRead_of_take h (by omega), unpackMask, unpackMask]
  by_cases hm : (lengthRead b).maskBit = true
  · have hlong := (hkey ((maskBit_lengthRead b).mp hm)).resolve_left hlen
    rw [if_pos hm, if_pos hm, maskAt_of_take h hlong]
  · rw [if_neg hm, if_neg hm]

end Agree

/-! ## Headers cut anywhere -/

theorem unpackHeader_needMore {b : Bytes} {len : Nat} (hlen : len < 2 + lengthExtension b) :
    (unpackHeader b len).state = .needMore := by
  rw [unpackHeader_eq]
  split_ifs <;> rfl

/-- Behind a complete length field the parse succeeds, with the announced length. -/
theorem unpackHeader_success {b : Bytes} {len : Nat} (hlen : 2 + lengthExtension b ≤ len) :
    (unpackHeader b len).state = .success ∧
      (unpackHeader b len).headerLen = announcedLen b := by
  rw [unpackHeader_eq, if_neg (by omega), if_neg (by omega), unpackMask, announcedLen]
  by_cases hm : Masked b
  · rw [if_pos ((maskBit_lengthRead b).mpr hm), if_pos hm]
    exact ⟨rfl, rfl⟩
  · rw [if_neg (mt (maskBit_lengthRead b).mp hm), if_neg hm]
    exact ⟨rfl, rfl⟩

/-- A header is parsed as it should be exactly when it is not cut inside its masking key. -/
theorem parsesCut_iff (b : Bytes) (len : Nat) :
    ParsesCut b len ↔
      (Masked b → len < 2 + lengthExtension b ∨ 2 + lengthExtension b + 4 ≤ len) := by
  constructor
  · intro h hm
    by_contra hcut
    have hsucc := (@unpackHeader_success b len (by omega)).1
    have hmore := h.needMore.mpr (by rw [announcedLen, if_pos hm]; omega)
    rw [hsucc] at hmore
    cases hmore
  · intro hkey
    have hlen : 2 + lengthExtension b ≤ len → announcedLen b ≤ len := by
      intro hle
      rw [announcedLen]
      split_ifs with hm
      · exact (hkey hm).resolve_left (by omega)
      · omega
    have hle : 2 + lengthExtension b ≤ announcedLen b := Nat.le_add_right _ _
    by_cases hcut : len < 2 + lengthExtension b
    · have hmore := unpackHeader_needMore hcut
      refine ⟨iff_of_true hmore (by omega), fun h => absurd h (by omega),
        fun b' hb => unpackHeader_of_take hb hkey, fun h => ?_⟩
      rw [hmore] at h
      cases h
    · have hsucc := @unpackHeader_success b len (by omega)
      refine ⟨iff_of_false (by rw [hsucc.1]; decide) (by omega), fun _ => hsucc,
        fun b' hb => unpackHeader_of_take hb hkey, fun _ => ?_⟩
      rw [hsucc.2]
      exact hlen (by omega)

/-- Two octets of a masked header are taken for the whole header. -/
theorem masked_header_not_parsesCut :
    ¬ ∀ (b : Bytes) (len : Nat), len ≤ 14 → ParsesCut b len := by
  intro hall
  have hmore := (hall [0x81, 0x80] 2 (by decide)).needMore.mpr (by decide)
  exact absurd hmore (by decide)

end CppImprovement.Ws

import CppImprovement.Net.Ws.Base64

/-!
# The base64 codec

RFC 4648 reads an octet string as one string of bits, cuts it into groups of six,
the last one filled up with zero bits, writes a letter for each group and pads the
text to a multiple of four. `EncodeBase64` and `DecodeBase64` work on indices: the
first with an unsigned length, the second with a signed one. The model keeps both
widths, and a read outside the string or a signed overflow has no result.
-/

namespace CppImprovement.Ws

/-! ## The text of RFC 4648 -/

/-- The bits of an octet, most significant first. -/
def octetBits (b : UInt8) : List Bool := (List.range 8).map fun i => b.toNat.testBit (7 - i)

/-- The number written by bits, most significant first. -/
def ofBits (bs : List Bool) : Nat := bs.foldl (fun n b => 2 * n + b.toNat) 0

/-- The values of the groups of six bits, the last group filled up with zero bits. -/
def sextets : List Bool → List Nat
  | a :: b :: c :: d :: e :: f :: rest => ofBits [a, b, c, d, e, f] :: sextets rest
  | [] => []
  | rest => [ofBits (rest ++ List.replicate (6 - rest.length) false)]

/-- The letters of an octet string. -/
def base64Letters (x : Bytes) : Bytes :=
  (sextets (x.flatMap octetBits)).map fun n => base64Chars.getD n 0

/-- The base64 text of an octet string. -/
def base64Text (x : Bytes) : Bytes :=
  base64Letters x ++ List.replicate ((4 - (base64Letters x).length % 4) % 4) base64Pad

private theorem base64Char_ne_pad {i : UInt8} (h : i.toNat < 64) : base64Char i ≠ base64Pad := by
  induction i using byte_induction with
  | ofNat n => revert n; decide +kernel

private theorem octetBits_eq (b : UInt8) :
    octetBits b = [b.toNat.testBit 7, b.toNat.testBit 6, b.toNat.testBit 5, b.toNat.testBit 4,
      b.toNat.testBit 3, b.toNat.testBit 2, b.toNat.testBit 1, b.toNat.testBit 0] :=
  rfl

/-- The numbers that the parts of an octet write. -/
theorem ofBits_octet (b : UInt8) :
    ofBits [b.toNat.testBit 7, b.toNat.testBit 6, b.toNat.testBit 5, b.toNat.testBit 4,
        b.toNat.testBit 3, b.toNat.testBit 2] = b.toNat / 4 ∧
      ofBits [b.toNat.testBit 1, b.toNat.testBit 0] = b.toNat % 4 ∧
      ofBits [b.toNat.testBit 7, b.toNat.testBit 6, b.toNat.testBit 5, b.toNat.testBit 4] =
        b.toNat / 16 ∧
      ofBits [b.toNat.testBit 3, b.toNat.testBit 2, b.toNat.testBit 1, b.toNat.testBit 0] =
        b.toNat % 16 ∧
      ofBits [b.toNat.testBit 7, b.toNat.testBit 6] = b.toNat / 64 ∧
      ofBits [b.toNat.testBit 5, b.toNat.testBit 4, b.toNat.testBit 3, b.toNat.testBit 2,
        b.toNat.testBit 1, b.toNat.testBit 0] = b.toNat % 64 := by
  have hb : b.toNat < 256 := b.toNat_lt
  generalize b.toNat = n at hb ⊢
  revert n
  decide +kernel

/-- A group of six bits that two and four bits make up, or four and two. -/
theorem ofBits_group (a b c d e f : Bool) :
    ofBits [a, b, c, d, e, f] = ofBits [a, b] * 16 + ofBits [c, d, e, f] ∧
      ofBits [a, b, c, d, e, f] = ofBits [a, b, c, d] * 4 + ofBits [e, f] := by
  revert a b c d e f
  decide

/-- Three octets are four groups of six bits. -/
theorem sextets_three (b0 b1 b2 : UInt8) (bs : List Bool) :
    sextets (octetBits b0 ++ (octetBits b1 ++ (octetBits b2 ++ bs))) =
      b0.toNat / 4 :: (b0.toNat % 4 * 16 + b1.toNat / 16) ::
        (b1.toNat % 16 * 4 + b2.toNat / 64) :: b2.toNat % 64 :: sextets bs := by
  obtain ⟨u0, u1, -, -, -, -⟩ := ofBits_octet b0
  obtain ⟨-, -, v2, v3, -, -⟩ := ofBits_octet b1
  obtain ⟨-, -, -, -, w4, w5⟩ := ofBits_octet b2
  simp only [octetBits_eq, List.cons_append, List.nil_append, sextets]
  rw [u0, w5, (ofBits_group (b0.toNat.testBit 1) ..).1, u1, v2,
    (ofBits_group (b1.toNat.testBit 3) ..).2, v3, w4]

/-- Two octets leave a group of four bits, which two zero bits fill up. -/
theorem sextets_two (b0 b1 : UInt8) :
    sextets (octetBits b0 ++ octetBits b1) =
      [b0.toNat / 4, b0.toNat % 4 * 16 + b1.toNat / 16, b1.toNat % 16 * 4] := by
  obtain ⟨u0, u1, -, -, -, -⟩ := ofBits_octet b0
  obtain ⟨-, -, v2, v3, -, -⟩ := ofBits_octet b1
  simp only [octetBits_eq, List.cons_append, List.nil_append, sextets, List.length_cons,
    List.length_nil, List.replicate, Nat.reduceAdd, Nat.reduceSub]
  rw [u0, (ofBits_group (b0.toNat.testBit 1) ..).1, u1, v2,
    (ofBits_group (b1.toNat.testBit 3) ..).2, v3]
  rfl

/-- One octet leaves a group of two bits, which four zero bits fill up. -/
theorem sextets_one (b0 : UInt8) :
    sextets (octetBits b0) = [b0.toNat / 4, b0.toNat % 4 * 16] := by
  obtain ⟨u0, u1, -, -, -, -⟩ := ofBits_octet b0
  simp only [octetBits_eq, List.cons_append, List.nil_append, sextets, List.length_cons,
    List.length_nil, List.replicate, Nat.reduceAdd, Nat.reduceSub]
  rw [u0, (ofBits_group (b0.toNat.testBit 1) ..).1, u1]
  rfl

private theorem base64Letters_three (b0 b1 b2 : UInt8) (x : Bytes) :
    base64Letters (b0 :: b1 :: b2 :: x) =
      base64Char (b0 >>> 2) :: base64Char (((0x3 &&& b0) <<< 4) + (b1 >>> 4)) ::
        base64Char (((0x0f &&& b1) <<< 2) + (b2 >>> 6)) :: base64Char (0x3f &&& b2) ::
        base64Letters x := by
  obtain ⟨e0, e1, e2, e3, -, -⟩ := toNat_sextets b0 b1 b2
  simp only [base64Letters, List.flatMap_cons, sextets_three, List.map_cons, base64Char, e0, e1,
    e2, e3]

private theorem base64Letters_two (b0 b1 : UInt8) :
    base64Letters [b0, b1] =
      [base64Char (b0 >>> 2), base64Char (((0x3 &&& b0) <<< 4) + (b1 >>> 4)),
        base64Char ((0x0f &&& b1) <<< 2)] := by
  obtain ⟨e0, e1, -, -, -, e5⟩ := toNat_sextets b0 b1 0
  simp only [base64Letters, List.flatMap_cons, List.flatMap_nil, List.append_nil, sextets_two,
    List.map_cons, List.map_nil, base64Char, e0, e1, e5]

private theorem base64Letters_one (b0 : UInt8) :
    base64Letters [b0] = [base64Char (b0 >>> 2), base64Char ((0x3 &&& b0) <<< 4)] := by
  obtain ⟨e0, -, -, -, e4, -⟩ := toNat_sextets b0 0 0
  simp only [base64Letters, List.flatMap_cons, List.flatMap_nil, List.append_nil, sextets_one,
    List.map_cons, List.map_nil, base64Char, e0, e4]

/-- The groups of three octets have the text of the standard. -/
theorem encodeBase64_eq_base64Text (x : Bytes) : encodeBase64 x = base64Text x := by
  fun_induction encodeBase64 x with
  | case1 b0 b1 b2 rest ih =>
    have hlen : ((base64Letters rest).length + 1 + 1 + 1 + 1) % 4 =
        (base64Letters rest).length % 4 := by omega
    simp only [base64Text, base64Letters_three, List.cons_append, List.length_cons, hlen]
    rw [ih, base64Text]
  | case2 b0 b1 =>
    rw [base64Text, base64Letters_two]
    rfl
  | case3 b0 =>
    rw [base64Text, base64Letters_one]
    rfl
  | case4 => rfl

/-- No letter is a padding sign. -/
theorem pad_notMem_base64Letters (x : Bytes) : base64Pad ∉ base64Letters x := by
  fun_induction encodeBase64 x with
  | case1 b0 b1 b2 rest ih =>
    obtain ⟨e0, e1, e2, e3, -, -⟩ := toNat_sextets b0 b1 b2
    have h0 := b0.toNat_lt
    have h1 := b1.toNat_lt
    have h2 := b2.toNat_lt
    simp only [base64Letters_three, List.mem_cons, not_or]
    exact ⟨(base64Char_ne_pad (by omega)).symm, (base64Char_ne_pad (by omega)).symm,
      (base64Char_ne_pad (by omega)).symm, (base64Char_ne_pad (by omega)).symm, ih⟩
  | case2 b0 b1 =>
    obtain ⟨e0, e1, -, -, -, e5⟩ := toNat_sextets b0 b1 0
    have h0 := b0.toNat_lt
    have h1 := b1.toNat_lt
    simp only [base64Letters_two, List.mem_cons, List.not_mem_nil, or_false, not_or]
    exact ⟨(base64Char_ne_pad (by omega)).symm, (base64Char_ne_pad (by omega)).symm,
      (base64Char_ne_pad (by omega)).symm⟩
  | case3 b0 =>
    obtain ⟨e0, -, -, -, e4, -⟩ := toNat_sextets b0 0 0
    have h0 := b0.toNat_lt
    simp only [base64Letters_one, List.mem_cons, List.not_mem_nil, or_false, not_or]
    exact ⟨(base64Char_ne_pad (by omega)).symm, (base64Char_ne_pad (by omega)).symm⟩
  | case4 => exact List.not_mem_nil

/-- Four characters for every three octets, the last ones padded. -/
theorem length_encodeBase64 (x : Bytes) :
    (encodeBase64 x).length = 4 * ((x.length + 2) / 3) := by
  fun_induction encodeBase64 x with
  | case1 b0 b1 b2 rest ih =>
    simp only [List.length_cons, ih]
    omega
  | case2 b0 b1 => simp
  | case3 b0 => simp
  | case4 => rfl

/-! ## The encoder by index -/

/-- The loop of `EncodeBase64`. The comparison with `len - 3` is unsigned, so the second operand
of the conjunction is what keeps short strings out. The bound counts iterations. -/
def encodeLoop (bytes : Bytes) (len : UInt32) : Nat → Nat → Bytes → Option (Nat × Bytes)
  | 0, _, _ => none
  | n + 1, i, res =>
    if i ≤ (len - 3).toNat ∧ 3 ≤ len then do
      let b0 ← bytes[i]?
      let b1 ← bytes[i + 1]?
      let b2 ← bytes[i + 2]?
      encodeLoop bytes len n (i + 3)
        (res ++ [base64Char (b0 >>> 2), base64Char (((0x3 &&& b0) <<< 4) + (b1 >>> 4)),
          base64Char (((0x0f &&& b1) <<< 2) + (b2 >>> 6)), base64Char (0x3f &&& b2)])
    else some (i, res)

/-- `EncodeBase64` on the memory it is given; a read outside of it has no result. -/
def encodeBytes (bytes : Bytes) (len : UInt32) : Option Bytes := do
  let modulus := len.toNat % 3
  let pad := ((modulus &&& 1) <<< 1) + ((modulus &&& 2) >>> 1)
  let (i, res) ← encodeLoop bytes len (len.toNat + 1) 0 []
  if pad = 2 then
    let b0 ← bytes[i]?
    some (res ++ [base64Char (b0 >>> 2), base64Char ((0x3 &&& b0) <<< 4), base64Pad, base64Pad])
  else if pad = 1 then
    let b0 ← bytes[i]?
    let b1 ← bytes[i + 1]?
    some (res ++ [base64Char (b0 >>> 2), base64Char (((0x3 &&& b0) <<< 4) + (b1 >>> 4)),
      base64Char ((0x0f &&& b1) <<< 2), base64Pad])
  else some res

/-- The unsigned comparison of the loop asks for three more octets. -/
theorem encodeLoop_guard (i : Nat) (len : UInt32) :
    (i ≤ (len - 3).toNat ∧ 3 ≤ len) ↔ i + 3 ≤ len.toNat := by
  rw [UInt32.le_iff_toNat_le]
  have h3 : (3 : UInt32).toNat = 3 := rfl
  rw [h3]
  constructor
  · rintro ⟨hi, hl⟩
    rw [UInt32.toNat_sub_of_le len 3 (UInt32.le_iff_toNat_le.mpr hl), h3] at hi
    omega
  · intro h
    refine ⟨?_, by omega⟩
    rw [UInt32.toNat_sub_of_le len 3 (UInt32.le_iff_toNat_le.mpr (by omega)), h3]
    omega

/-- Induction on the groups of a string that is made of groups of three. -/
@[elab_as_elim]
theorem threes_induction {P : (x : Bytes) → x.length % 3 = 0 → Prop} (nil : P [] rfl)
    (group : ∀ a b c x (hx : x.length % 3 = 0) (h : (a :: b :: c :: x).length % 3 = 0),
      P x hx → P (a :: b :: c :: x) h) :
    ∀ (x : Bytes) (h : x.length % 3 = 0), P x h
  | [], _ => nil
  | [_], h => by simp at h
  | [_, _], h => by simp at h
  | a :: b :: c :: x, h =>
    have hx : x.length % 3 = 0 := by
      simp only [List.length_cons] at h
      omega
    group a b c x hx h (threes_induction nil group x hx)

/-- The text of whole groups stands before the text of the rest. -/
theorem encodeBase64_append {x : Bytes} (hx : x.length % 3 = 0) (y : Bytes) :
    encodeBase64 (x ++ y) = encodeBase64 x ++ encodeBase64 y := by
  induction x, hx using threes_induction with
  | nil => rfl
  | group a b c x hx _ ih =>
    simp only [List.cons_append, encodeBase64]
    rw [ih]

/-- Every string is made of whole groups and a rest of at most two octets. -/
theorem exists_groups (x : Bytes) :
    ∃ done rest, x = done ++ rest ∧ done.length % 3 = 0 ∧ rest.length < 3 := by
  refine ⟨x.take (x.length / 3 * 3), x.drop (x.length / 3 * 3), by simp, ?_, ?_⟩
  · rw [List.length_take]
    omega
  · rw [List.length_drop]
    omega

/-- The loop takes the groups of three octets and stops before the rest. -/
theorem encodeLoop_eq {bytes : Bytes} {len : UInt32} (hlen : len.toNat = bytes.length)
    {done rest : Bytes} (hdone : done.length % 3 = 0) (hrest : rest.length < 3) :
    ∀ (pre : Bytes), bytes = pre ++ (done ++ rest) → ∀ {n}, done.length < 3 * n → ∀ res,
      encodeLoop bytes len n pre.length res =
        some (pre.length + done.length, res ++ encodeBase64 done) := by
  induction done, hdone using threes_induction with
  | nil =>
    intro pre hb n hn res
    obtain ⟨n, rfl⟩ := Nat.exists_eq_add_one_of_ne_zero (n := n) (by omega)
    have hl := congrArg List.length hb
    rw [List.length_append, List.nil_append] at hl
    rw [encodeLoop, if_neg (by rw [encodeLoop_guard]; omega), encodeBase64, List.append_nil]
    rfl
  | group b0 b1 b2 done hdone _ ih =>
    intro pre hb n hn res
    obtain ⟨n, rfl⟩ := Nat.exists_eq_add_one_of_ne_zero (n := n) (by omega)
    simp only [List.length_cons] at hn
    have hl := congrArg List.length hb
    simp only [List.length_append, List.length_cons] at hl
    have h0 : bytes[pre.length]? = some b0 := by simp [hb]
    have h1 : bytes[pre.length + 1]? = some b1 := by simp [hb]
    have h2 : bytes[pre.length + 2]? = some b2 := by simp [hb]
    rw [encodeLoop, if_pos (by rw [encodeLoop_guard]; omega)]
    simp only [h0, h1, h2, Option.bind_eq_bind, Option.bind_some]
    have hloop := ih (pre ++ [b0, b1, b2]) (by simp [hb]) (n := n) (by omega)
      (res ++ [base64Char (b0 >>> 2), base64Char (((0x3 &&& b0) <<< 4) + (b1 >>> 4)),
        base64Char (((0x0f &&& b1) <<< 2) + (b2 >>> 6)), base64Char (0x3f &&& b2)])
    rw [List.length_append] at hloop
    refine hloop.trans ?_
    simp only [List.length_cons, List.length_nil, List.append_assoc, List.cons_append,
      List.nil_append, encodeBase64]
    congr 2
    omega

/-- `EncodeBase64` reads inside its argument only, and writes the base64 text. -/
theorem encodeBytes_eq {x : Bytes} (hx : x.length < 2 ^ 32) :
    encodeBytes x (UInt32.ofNat x.length) = some (encodeBase64 x) := by
  have hlen : (UInt32.ofNat x.length).toNat = x.length := by
    rw [UInt32.toNat_ofNat', Nat.mod_eq_of_lt hx]
  obtain ⟨done, rest, hsplit, hdone, hrest⟩ := exists_groups x
  have hl := congrArg List.length hsplit
  rw [List.length_append] at hl
  have hloop := encodeLoop_eq hlen hdone hrest [] hsplit (n := x.length + 1) (by omega) []
  rw [List.length_nil, Nat.zero_add, List.nil_append] at hloop
  have henc : encodeBase64 x = encodeBase64 done ++ encodeBase64 rest := by
    rw [hsplit, encodeBase64_append hdone]
  rw [encodeBytes, hlen]
  simp only [hloop, Option.bind_eq_bind, Option.bind_some]
  match rest, hrest with
  | [], _ =>
    have hm : x.length % 3 = 0 := by simp only [List.length_nil] at hl; omega
    simp [hm, henc, encodeBase64]
  | [b0], _ =>
    have hm : x.length % 3 = 1 := by simp only [List.length_cons, List.length_nil] at hl; omega
    have h0 : x[done.length]? = some b0 := by simp [hsplit]
    simp [hm, henc, encodeBase64, h0]
  | [b0, b1], _ =>
    have hm : x.length % 3 = 2 := by simp only [List.length_cons, List.length_nil] at hl; omega
    have h0 : x[done.length]? = some b0 := by simp [hsplit]
    have h1 : x[done.length + 1]? = some b1 := by simp [hsplit]
    simp [hm, henc, encodeBase64, h0, h1]

/-! ## The decoder -/

/-- The value of a number that is converted to `int`. -/
def toInt (n : Nat) : Int :=
  if n % 2 ^ 32 < 2 ^ 31 then (n % 2 ^ 32 : Nat) else (n % 2 ^ 32 : Nat) - 0x100000000

/-- The result of `int` arithmetic, undefined when it overflows. -/
def intValue (x : Int) : Option Int :=
  if -0x80000000 ≤ x ∧ x < 0x80000000 then some x else none

/-- `base64Str[i]`: the index is converted to `size_t`, and the string ends with a NUL. -/
def charAt (s : Bytes) (i : Int) : Option UInt8 :=
  let j := (i % 0x10000000000000000).toNat
  if j = s.length then some 0 else s[j]?

/-- `base64_chars.find(c)` as an octet: `npos` becomes 255. -/
def base64Find (c : UInt8) : UInt8 :=
  match base64Chars.idxOf? c with
  | some i => UInt8.ofNat i
  | none => 255

/-- The loop of `DecodeBase64`; the bound counts iterations. -/
def decodeLoop (s : Bytes) (last : Int) : Nat → Int → Bytes → Option (Int × Bytes)
  | 0, _, _ => none
  | n + 1, charNo, res =>
    if charNo ≤ last then do
      let b0 := base64Find (← charAt s charNo)
      let b1 := base64Find (← charAt s (charNo + 1))
      let b2 := base64Find (← charAt s (charNo + 2))
      let b3 := base64Find (← charAt s (charNo + 3))
      let next ← intValue (charNo + 4)
      decodeLoop s last n next
        (res ++ [(b0 <<< 2) ||| (b1 >>> 4), (b1 <<< 4) ||| (b2 >>> 2), (b2 <<< 6) ||| b3])
    else some (charNo, res)

/-- The octets of a padded last group. -/
def decodeTail (s : Bytes) (pad charNo : Int) (res : Bytes) : Option Bytes :=
  if pad = 1 then do
    let b0 := base64Find (← charAt s charNo)
    let b1 := base64Find (← charAt s (charNo + 1))
    let b2 := base64Find (← charAt s (charNo + 2))
    some (res ++ [(b0 <<< 2) ||| (b1 >>> 4), (b1 <<< 4) ||| (b2 >>> 2)])
  else if pad = 2 then do
    let b0 := base64Find (← charAt s charNo)
    let b1 := base64Find (← charAt s (charNo + 1))
    some (res ++ [(b0 <<< 2) ||| (b1 >>> 4)])
  else some res

/-- How many padding signs the last two characters are. -/
def padOf (c1 c2 : UInt8) : Int :=
  (if c1 = base64Pad then 1 else 0) + (if c2 = base64Pad then 1 else 0)

/-- `DecodeBase64`. -/
def decodeBase64 (s : Bytes) : Option Bytes := do
  let len := toInt s.length
  let c1 ← charAt s (← intValue (len - 1))
  let c2 ← charAt s (← intValue (len - 2))
  let last ← intValue (len - 4 - padOf c1 c2)
  let (charNo, res) ← decodeLoop s last (s.length + 1) 0 []
  decodeTail s (padOf c1 c2) charNo res

example : decodeBase64 (ascii "YWJjZA==") = some (ascii "abcd") := by decide +kernel

/-! ## Decoding a text -/

private theorem base64Find_char {i : UInt8} (h : i.toNat < 64) : base64Find (base64Char i) = i := by
  induction i using byte_induction with
  | ofNat n => revert n; decide +kernel

/-- The octets that four groups of six bits are packed into. -/
theorem toNat_octets (s0 s1 s2 s3 : UInt8) (h0 : s0.toNat < 64) (h1 : s1.toNat < 64)
    (h2 : s2.toNat < 64) (h3 : s3.toNat < 64) :
    ((s0 <<< 2) ||| (s1 >>> 4)).toNat = s0.toNat * 4 + s1.toNat / 16 ∧
      ((s1 <<< 4) ||| (s2 >>> 2)).toNat = s1.toNat % 16 * 16 + s2.toNat / 4 ∧
      ((s2 <<< 6) ||| s3).toNat = s2.toNat % 4 * 64 + s3.toNat := by
  have e1 : (s1 >>> 4).toNat = s1.toNat / 16 := toNat_shr (k := 4) (by decide) rfl s1
  have e2 : (s2 >>> 2).toNat = s2.toNat / 4 := toNat_shr (k := 2) (by decide) rfl s2
  refine ⟨?_, ?_, ?_⟩
  · rw [toNat_shl_or (k := 2) (by decide) rfl s0 (by omega), e1]
    omega
  · rw [toNat_shl_or (k := 4) (by decide) rfl s1 (by omega), e2]
    omega
  · rw [toNat_shl_or (k := 6) (by decide) rfl s2 (by omega)]
    omega

private theorem packed_again (a : Nat) {b c : Nat} (hb : b < 256) (hc : c < 256) :
    a / 4 * 4 + (a % 4 * 16 + b / 16) / 16 = a ∧
      (a % 4 * 16 + b / 16) % 16 * 16 + (b % 16 * 4 + c / 64) / 4 = b ∧
      (b % 16 * 4 + c / 64) % 4 * 64 + c % 64 = c := by
  refine ⟨?_, ?_, ?_⟩ <;> omega

/-- The groups of six bits of three octets, packed again. -/
theorem octets_sextets (b0 b1 b2 : UInt8) :
    ((b0 >>> 2) <<< 2) ||| ((((0x3 &&& b0) <<< 4) + (b1 >>> 4)) >>> 4) = b0 ∧
      ((((0x3 &&& b0) <<< 4) + (b1 >>> 4)) <<< 4) |||
        ((((0x0f &&& b1) <<< 2) + (b2 >>> 6)) >>> 2) = b1 ∧
      ((((0x0f &&& b1) <<< 2) + (b2 >>> 6)) <<< 6) ||| (0x3f &&& b2) = b2 := by
  obtain ⟨e0, e1, e2, e3, -, -⟩ := toNat_sextets b0 b1 b2
  have h0 := b0.toNat_lt
  have h1 := b1.toNat_lt
  have h2 := b2.toNat_lt
  obtain ⟨p0, p1, p2⟩ := toNat_octets (b0 >>> 2) (((0x3 &&& b0) <<< 4) + (b1 >>> 4))
    (((0x0f &&& b1) <<< 2) + (b2 >>> 6)) (0x3f &&& b2) (by omega) (by omega) (by omega) (by omega)
  simp only [← UInt8.toNat_inj, p0, p1, p2, e0, e1, e2, e3]
  exact packed_again b0.toNat h1 h2

/-- An index within the string finds its character. -/
theorem charAt_nat {s : Bytes} {i : Nat} (hi : i < s.length) (hs : s.length < 2 ^ 31) :
    charAt s i = s[i]? := by
  have hj : ((i : Int) % 0x10000000000000000).toNat = i := by omega
  rw [charAt]
  simp only [hj]
  rw [if_neg (by omega)]

/-- A small number is the same as an `int`. -/
theorem toInt_of_lt {n : Nat} (hn : n < 2 ^ 31) : toInt n = n := by
  rw [toInt, Nat.mod_eq_of_lt (by omega), if_pos hn]

/-- A number in the range of `int` has its value. -/
theorem intValue_of {x : Int} (h : -0x80000000 ≤ x ∧ x < 0x80000000) : intValue x = some x := by
  rw [intValue, if_pos h]

/-- One iteration of the loop. -/
theorem decodeLoop_group {s : Bytes} {last charNo : Int} (hgo : charNo ≤ last)
    (hfit : -0x80000000 ≤ charNo + 4 ∧ charNo + 4 < 0x80000000) {c0 c1 c2 c3 : UInt8}
    (h0 : charAt s charNo = some c0) (h1 : charAt s (charNo + 1) = some c1)
    (h2 : charAt s (charNo + 2) = some c2) (h3 : charAt s (charNo + 3) = some c3) (n : Nat)
    (res : Bytes) :
    decodeLoop s last (n + 1) charNo res =
      decodeLoop s last n (charNo + 4)
        (res ++ [(base64Find c0 <<< 2) ||| (base64Find c1 >>> 4),
          (base64Find c1 <<< 4) ||| (base64Find c2 >>> 2),
          (base64Find c2 <<< 6) ||| base64Find c3]) := by
  rw [decodeLoop, if_pos hgo, h0, h1, h2, h3, intValue_of hfit]
  rfl

/-- The value of an `int` expression is the number. -/
theorem eq_of_intValue {x y : Int} (h : intValue x = some y) : y = x := by
  rw [intValue] at h
  split at h
  · exact (Option.some.inj h).symm
  · cases h

/-- The loop decodes whole groups and stops before a padded one. -/
theorem decodeLoop_eq {s tail : Bytes} (hs : s.length < 2 ^ 31) {pad : Int}
    (hgo : pad ≤ tail.length) (hstop : (tail.length : Int) < 4 + pad) {done : Bytes}
    (hdone : done.length % 3 = 0) :
    ∀ (pre : Bytes), s = pre ++ (encodeBase64 done ++ tail) → ∀ {n}, done.length < 3 * n →
      ∀ res, decodeLoop s (s.length - 4 - pad) n pre.length res =
        some (((pre.length + (encodeBase64 done).length : Nat) : Int), res ++ done) := by
  induction done, hdone using threes_induction with
  | nil =>
    intro pre hb n hn res
    obtain ⟨n, rfl⟩ := Nat.exists_eq_add_one_of_ne_zero (n := n) (by omega)
    have hl := congrArg List.length hb
    rw [List.length_append, encodeBase64, List.nil_append] at hl
    rw [decodeLoop, if_neg (by omega), encodeBase64, List.append_nil]
    rfl
  | group b0 b1 b2 done hdone _ ih =>
    intro pre hb n hn res
    obtain ⟨n, rfl⟩ := Nat.exists_eq_add_one_of_ne_zero (n := n) (by omega)
    simp only [List.length_cons] at hn
    rw [encodeBase64] at hb
    have hl := congrArg List.length hb
    simp only [List.length_append, List.length_cons] at hl
    obtain ⟨e0, e1, e2, e3, -, -⟩ := toNat_sextets b0 b1 b2
    obtain ⟨p0, p1, p2⟩ := octets_sextets b0 b1 b2
    have h0 := b0.toNat_lt
    have h1 := b1.toNat_lt
    have h2 := b2.toNat_lt
    have c0 : charAt s pre.length = some (base64Char (b0 >>> 2)) := by
      rw [charAt_nat (by omega) hs]
      simp [hb]
    have c1 : charAt s (pre.length + 1 : Nat) =
        some (base64Char (((0x3 &&& b0) <<< 4) + (b1 >>> 4))) := by
      rw [charAt_nat (by omega) hs]
      simp [hb]
    have c2 : charAt s (pre.length + 2 : Nat) =
        some (base64Char (((0x0f &&& b1) <<< 2) + (b2 >>> 6))) := by
      rw [charAt_nat (by omega) hs]
      simp [hb]
    have c3 : charAt s (pre.length + 3 : Nat) = some (base64Char (0x3f &&& b2)) := by
      rw [charAt_nat (by omega) hs]
      simp [hb]
    push_cast at c1 c2 c3
    rw [decodeLoop_group (by omega) (by omega) c0 c1 c2 c3, base64Find_char (by omega),
      base64Find_char (by omega), base64Find_char (by omega), base64Find_char (by omega), p0, p1,
      p2]
    have hloop := ih (pre ++ [base64Char (b0 >>> 2),
      base64Char (((0x3 &&& b0) <<< 4) + (b1 >>> 4)),
      base64Char (((0x0f &&& b1) <<< 2) + (b2 >>> 6)), base64Char (0x3f &&& b2)])
      (by simp [hb]) (n := n) (by omega) (res ++ [b0, b1, b2])
    simp only [List.length_append, List.length_cons, List.length_nil, Nat.reduceAdd,
      Nat.cast_add, Nat.cast_ofNat] at hloop
    rw [hloop, encodeBase64]
    simp only [List.length_cons, List.append_assoc, List.cons_append, List.nil_append]
    congr 2
    omega

/-- Decoding a text of whole groups and a tail that the padding announces. -/
theorem decodeBase64_of {s body tail done : Bytes} {c d : UInt8} (hs : s.length < 2 ^ 31)
    (hend : s = body ++ [c, d]) (hsplit : s = encodeBase64 done ++ tail)
    (hdone : done.length % 3 = 0) (hgo : padOf d c ≤ tail.length)
    (hstop : (tail.length : Int) < 4 + padOf d c) :
    decodeBase64 s = decodeTail s (padOf d c) (encodeBase64 done).length done := by
  have hl := congrArg List.length hend
  have hm := congrArg List.length hsplit
  simp only [List.length_append, List.length_cons, List.length_nil] at hl hm
  have hle := length_encodeBase64 done
  have hpad : 0 ≤ padOf d c ∧ padOf d c ≤ 2 := by
    rw [padOf]
    split_ifs <;> decide
  have hc1 : charAt s (s.length - 1) = some d := by
    have hi : ((s.length : Int) - 1) = ((body.length + 1 : Nat) : Int) := by omega
    rw [hi, charAt_nat (by omega) hs]
    simp [hend]
  have hc2 : charAt s (s.length - 2) = some c := by
    have hi : ((s.length : Int) - 2) = ((body.length : Nat) : Int) := by omega
    rw [hi, charAt_nat (by omega) hs]
    simp [hend]
  have hloop := decodeLoop_eq hs hgo hstop hdone [] hsplit (n := s.length + 1)
    (by omega) []
  rw [List.length_nil, Nat.zero_add, List.nil_append, Nat.cast_zero] at hloop
  rw [decodeBase64, toInt_of_lt hs]
  simp only [Option.bind_eq_bind]
  rw [intValue_of (by omega), Option.bind_some, hc1, Option.bind_some, intValue_of (by omega),
    Option.bind_some, hc2, Option.bind_some, intValue_of (by omega), Option.bind_some, hloop,
    Option.bind_some]

/-- The padding that the text of whole groups ends with: none. -/
theorem encodeBase64_groups_end {x : Bytes} (hx : x.length % 3 = 0) (hne : x ≠ []) :
    ∃ body c d, encodeBase64 x = body ++ [c, d] ∧ padOf d c = 0 := by
  induction x, hx using threes_induction with
  | nil => exact absurd rfl hne
  | group b0 b1 b2 x hx _ ih =>
    by_cases hnil : x = []
    · subst hnil
      obtain ⟨-, -, e2, e3, -, -⟩ := toNat_sextets b0 b1 b2
      have h1 := b1.toNat_lt
      have h2 := b2.toNat_lt
      refine ⟨[base64Char (b0 >>> 2), base64Char (((0x3 &&& b0) <<< 4) + (b1 >>> 4))],
        base64Char (((0x0f &&& b1) <<< 2) + (b2 >>> 6)), base64Char (0x3f &&& b2), rfl, ?_⟩
      rw [padOf, if_neg (base64Char_ne_pad (by omega)), if_neg (base64Char_ne_pad (by omega))]
      rfl
    · obtain ⟨body, c, d, hbody, hpad⟩ := ih hnil
      rw [encodeBase64, hbody]
      exact ⟨_ :: _ :: _ :: _ :: body, c, d, rfl, hpad⟩

private theorem charAt_append {s pre : Bytes} (hs : s.length < 2 ^ 31) {tail : Bytes}
    (h : s = pre ++ tail) {i : Nat} {c : UInt8} (hc : tail[i]? = some c) :
    charAt s ((pre.length + i : Nat) : Int) = some c := by
  have hi := (List.getElem?_eq_some_iff.mp hc).1
  have hl := congrArg List.length h
  rw [List.length_append] at hl
  rw [charAt_nat (by omega) hs, h, List.getElem?_append_right (by omega), Nat.add_sub_cancel_left,
    hc]

/-- The last group with two padding signs. -/
theorem decodeTail_two {s pre : Bytes} {c0 c1 : UInt8} (hs : s.length < 2 ^ 31)
    (h : s = pre ++ [c0, c1, base64Pad, base64Pad]) (res : Bytes) :
    decodeTail s 2 pre.length res =
      some (res ++ [(base64Find c0 <<< 2) ||| (base64Find c1 >>> 4)]) := by
  have h0 := charAt_append hs h (i := 0) rfl
  have h1 := charAt_append hs h (i := 1) rfl
  push_cast [add_zero] at h0 h1
  rw [decodeTail, if_neg (by decide), if_pos rfl, h0, h1]
  rfl

/-- The last group with one padding sign. -/
theorem decodeTail_one {s pre : Bytes} {c0 c1 c2 : UInt8} (hs : s.length < 2 ^ 31)
    (h : s = pre ++ [c0, c1, c2, base64Pad]) (res : Bytes) :
    decodeTail s 1 pre.length res =
      some (res ++ [(base64Find c0 <<< 2) ||| (base64Find c1 >>> 4),
        (base64Find c1 <<< 4) ||| (base64Find c2 >>> 2)]) := by
  have h0 := charAt_append hs h (i := 0) rfl
  have h1 := charAt_append hs h (i := 1) rfl
  have h2 := charAt_append hs h (i := 2) rfl
  push_cast [add_zero] at h0 h1 h2
  rw [decodeTail, if_pos rfl, h0, h1, h2]
  rfl

/-- A text of at most `INT_MAX` characters is decoded to the string it was written for. -/
theorem decodeBase64_encodeBase64 {x : Bytes} (hx : x ≠ [])
    (hl : (encodeBase64 x).length < 2 ^ 31) : decodeBase64 (encodeBase64 x) = some x := by
  obtain ⟨done, rest, hsplit, hdone, hrest⟩ := exists_groups x
  have henc : encodeBase64 x = encodeBase64 done ++ encodeBase64 rest := by
    rw [hsplit, encodeBase64_append hdone]
  match rest, hrest with
  | [], _ =>
    rw [List.append_nil] at hsplit
    subst hsplit
    obtain ⟨body, c, d, hend, hpad⟩ := encodeBase64_groups_end hdone hx
    rw [decodeBase64_of hl hend henc hdone (by rw [hpad]; simp [encodeBase64])
      (by rw [hpad]; simp [encodeBase64]), decodeTail, hpad]
    rfl
  | [b0], _ =>
    have h0 := b0.toNat_lt
    obtain ⟨e0, -, -, -, e4, -⟩ := toNat_sextets b0 0 0
    obtain ⟨p0, -, -⟩ := toNat_octets (b0 >>> 2) ((0x3 &&& b0) <<< 4) 0 0 (by omega)
      (by omega) (by decide) (by decide)
    have hb0 : ((b0 >>> 2) <<< 2) ||| (((0x3 &&& b0) <<< 4) >>> 4) = b0 := by
      rw [← UInt8.toNat_inj, p0]
      omega
    have hend : encodeBase64 x = (encodeBase64 done ++ [base64Char (b0 >>> 2),
        base64Char ((0x3 &&& b0) <<< 4)]) ++ [base64Pad, base64Pad] := by
      rw [henc, encodeBase64, List.append_assoc]
      rfl
    have hpad : padOf base64Pad base64Pad = 2 := rfl
    rw [decodeBase64_of hl hend henc hdone (by rw [hpad]; simp [encodeBase64])
      (by rw [hpad]; simp [encodeBase64]), hpad, decodeTail_two hl henc,
      base64Find_char (by omega), base64Find_char (by omega), hb0, hsplit]
  | [b0, b1], _ =>
    have h0 := b0.toNat_lt
    have h1 := b1.toNat_lt
    obtain ⟨e0, e1, -, -, -, e5⟩ := toNat_sextets b0 b1 0
    obtain ⟨p0, p1, -⟩ := toNat_octets (b0 >>> 2) (((0x3 &&& b0) <<< 4) + (b1 >>> 4))
      ((0x0f &&& b1) <<< 2) 0 (by omega) (by omega) (by omega) (by decide)
    have hb0 : ((b0 >>> 2) <<< 2) ||| ((((0x3 &&& b0) <<< 4) + (b1 >>> 4)) >>> 4) = b0 := by
      rw [← UInt8.toNat_inj, p0]
      omega
    have hb1 : ((((0x3 &&& b0) <<< 4) + (b1 >>> 4)) <<< 4) ||| (((0x0f &&& b1) <<< 2) >>> 2) =
        b1 := by
      rw [← UInt8.toNat_inj, p1]
      omega
    have hend : encodeBase64 x = (encodeBase64 done ++ [base64Char (b0 >>> 2),
        base64Char (((0x3 &&& b0) <<< 4) + (b1 >>> 4))]) ++
        [base64Char ((0x0f &&& b1) <<< 2), base64Pad] := by
      rw [henc, encodeBase64, List.append_assoc]
      rfl
    have hpad : padOf base64Pad (base64Char ((0x0f &&& b1) <<< 2)) = 1 := by
      rw [padOf, if_pos rfl, if_neg (base64Char_ne_pad (by omega))]
      rfl
    rw [decodeBase64_of hl hend henc hdone (by rw [hpad]; simp [encodeBase64])
      (by rw [hpad]; simp [encodeBase64]), hpad, decodeTail_one hl henc,
      base64Find_char (by omega), base64Find_char (by omega), base64Find_char (by omega), hb0, hb1,
      hsplit]

/-! ## Canonical texts -/

/-- A canonical text: a multiple of four characters, letters and then at most two padding signs,
and a last letter whose bits beyond the last octet are zero. -/
structure Canonical (s letters : Bytes) (pad : Nat) : Prop where
  text : s = letters ++ List.replicate pad base64Pad
  few : pad ≤ 2
  whole : s.length % 4 = 0
  alphabet : ∀ c ∈ letters, c ∈ base64Chars
  unused : ∀ c, letters.getLast? = some c → base64Chars.idxOf c % 4 ^ pad = 0

private theorem base64Find_letter {c : UInt8} (h : c ∈ base64Chars) :
    base64Char (base64Find c) = c ∧ (base64Find c).toNat < 64 ∧
      (base64Find c).toNat = base64Chars.idxOf c := by
  revert c
  decide +kernel

/-- The groups of six bits of the octets that four groups are packed into. -/
theorem sextets_octets {s0 s1 s2 s3 o0 o1 o2 : UInt8} (h0 : s0.toNat < 64) (h1 : s1.toNat < 64)
    (h2 : s2.toNat < 64) (h3 : s3.toNat < 64) (ho0 : o0 = (s0 <<< 2) ||| (s1 >>> 4))
    (ho1 : o1 = (s1 <<< 4) ||| (s2 >>> 2)) (ho2 : o2 = (s2 <<< 6) ||| s3) :
    o0 >>> 2 = s0 ∧ ((0x3 &&& o0) <<< 4) + (o1 >>> 4) = s1 ∧
      ((0x0f &&& o1) <<< 2) + (o2 >>> 6) = s2 ∧ 0x3f &&& o2 = s3 ∧
      (s1.toNat % 16 = 0 → (0x3 &&& o0) <<< 4 = s1) ∧
      (s2.toNat % 4 = 0 → (0x0f &&& o1) <<< 2 = s2) := by
  obtain ⟨p0, p1, p2⟩ := toNat_octets s0 s1 s2 s3 h0 h1 h2 h3
  obtain ⟨e0, e1, e2, e3, e4, e5⟩ := toNat_sextets o0 o1 o2
  subst ho0 ho1 ho2
  simp only [← UInt8.toNat_inj, e0, e1, e2, e3, e4, e5, p0, p1, p2]
  refine ⟨?_, ?_, ?_, ?_, ?_, ?_⟩ <;> omega

/-- Every canonical text is the text of some string. -/
theorem Canonical.exists_encodeBase64 : ∀ {letters s : Bytes} {pad : Nat}, Canonical s letters pad →
    ∃ x, s = encodeBase64 x
  | [], s, pad, h => by
    have hl := h.whole
    rw [h.text] at hl
    simp only [List.nil_append, List.length_replicate] at hl
    obtain rfl : pad = 0 := by have hf := h.few; omega
    exact ⟨[], h.text⟩
  | [c], s, pad, h => by
    have hl := h.whole
    have hf := h.few
    rw [h.text] at hl
    simp only [List.length_append, List.length_cons, List.length_nil, List.length_replicate] at hl
    omega
  | [c0, c1], s, pad, h => by
    have hl := h.whole
    have hf := h.few
    rw [h.text] at hl
    simp only [List.length_append, List.length_cons, List.length_nil, List.length_replicate] at hl
    obtain rfl : pad = 2 := by omega
    obtain ⟨l0, lt0, -⟩ := base64Find_letter (h.alphabet c0 (by simp))
    obtain ⟨l1, lt1, v1⟩ := base64Find_letter (h.alphabet c1 (by simp))
    obtain ⟨q0, -, -, -, q1, -⟩ := @sextets_octets _ _ 0 0 _ _ _ lt0 lt1 (by decide)
      (by decide) rfl rfl rfl
    have hu : (base64Find c1).toNat % 16 = 0 := by
      rw [v1]
      exact h.unused c1 rfl
    refine ⟨[(base64Find c0 <<< 2) ||| (base64Find c1 >>> 4)], ?_⟩
    rw [h.text, encodeBase64, q0, q1 hu, l0, l1]
    rfl
  | [c0, c1, c2], s, pad, h => by
    have hl := h.whole
    have hf := h.few
    rw [h.text] at hl
    simp only [List.length_append, List.length_cons, List.length_nil, List.length_replicate] at hl
    obtain rfl : pad = 1 := by omega
    obtain ⟨l0, lt0, -⟩ := base64Find_letter (h.alphabet c0 (by simp))
    obtain ⟨l1, lt1, -⟩ := base64Find_letter (h.alphabet c1 (by simp))
    obtain ⟨l2, lt2, v2⟩ := base64Find_letter (h.alphabet c2 (by simp))
    obtain ⟨q0, q1, -, -, -, q2⟩ := @sextets_octets _ _ _ 0 _ _ _ lt0 lt1 lt2 (by decide)
      rfl rfl rfl
    have hu : (base64Find c2).toNat % 4 = 0 := by
      rw [v2]
      exact h.unused c2 rfl
    refine ⟨[(base64Find c0 <<< 2) ||| (base64Find c1 >>> 4),
      (base64Find c1 <<< 4) ||| (base64Find c2 >>> 2)], ?_⟩
    rw [h.text, encodeBase64, q0, q1, q2 hu, l0, l1, l2]
    rfl
  | c0 :: c1 :: c2 :: c3 :: letters, s, pad, h => by
    have hl := h.whole
    rw [h.text] at hl
    simp only [List.length_append, List.length_cons, List.length_replicate] at hl
    obtain ⟨l0, lt0, -⟩ := base64Find_letter (h.alphabet c0 (by simp))
    obtain ⟨l1, lt1, -⟩ := base64Find_letter (h.alphabet c1 (by simp))
    obtain ⟨l2, lt2, -⟩ := base64Find_letter (h.alphabet c2 (by simp))
    obtain ⟨l3, lt3, -⟩ := base64Find_letter (h.alphabet c3 (by simp))
    obtain ⟨q0, q1, q2, q3, -, -⟩ := sextets_octets lt0 lt1 lt2 lt3 rfl rfl rfl
    have hrest : Canonical (letters ++ List.replicate pad base64Pad) letters pad :=
      { text := rfl
        few := h.few
        whole := by
          rw [List.length_append, List.length_replicate]
          omega
        alphabet := fun c hc => h.alphabet c (by simp [hc])
        unused := fun c hc => h.unused c (by
          cases letters with
          | nil => cases hc
          | cons d letters => exact hc) }
    obtain ⟨x, hx⟩ := hrest.exists_encodeBase64
    refine ⟨((base64Find c0 <<< 2) ||| (base64Find c1 >>> 4)) ::
      ((base64Find c1 <<< 4) ||| (base64Find c2 >>> 2)) ::
      ((base64Find c2 <<< 6) ||| base64Find c3) :: x, ?_⟩
    rw [h.text, encodeBase64, q0, q1, q2, q3, l0, l1, l2, l3, ← hx]
    rfl

/-! ## Lengths that do not fit -/

private theorem length_decodeLoop {s : Bytes} {last : Int} {n : Nat} {c d : Int} {res r : Bytes}
    (h : decodeLoop s last n c res = some (d, r)) :
    r.length ≤ res.length + 3 * ((last + 4 - c).toNat / 4) := by
  induction n generalizing c res with
  | zero => cases h
  | succ n ih =>
    rw [decodeLoop] at h
    by_cases hgo : c ≤ last
    · rw [if_pos hgo] at h
      simp only [Option.bind_eq_bind, Option.bind_eq_some_iff] at h
      obtain ⟨c0, -, c1, -, c2, -, c3, -, next, hnext, hrec⟩ := h
      have hn := eq_of_intValue hnext
      have hle := ih hrec
      simp only [List.length_append, List.length_cons, List.length_nil] at hle
      omega
    · rw [if_neg hgo] at h
      cases h
      omega

private theorem length_decodeTail {s res x : Bytes} {pad c : Int}
    (h : decodeTail s pad c res = some x) :
    x.length ≤ res.length + 2 := by
  rw [decodeTail] at h
  split_ifs at h
  · simp only [Option.bind_eq_bind, Option.bind_eq_some_iff] at h
    obtain ⟨c0, -, c1, -, c2, -, hx⟩ := h
    cases hx
    simp
  · simp only [Option.bind_eq_bind, Option.bind_eq_some_iff] at h
    obtain ⟨c0, -, c1, -, hx⟩ := h
    cases hx
    simp
  · cases h
    omega

/-- What is decoded has room in the length as an `int`. -/
theorem length_decodeBase64 {s x : Bytes} (h : decodeBase64 s = some x) :
    x.length ≤ 3 * ((toInt s.length).toNat / 4) + 2 := by
  rw [decodeBase64] at h
  simp only [Option.bind_eq_bind, Option.bind_eq_some_iff] at h
  obtain ⟨i1, -, c1, -, i2, -, c2, -, last, hlast, ⟨c, res⟩, hloop, htail⟩ := h
  have hpad : 0 ≤ padOf c1 c2 := by
    rw [padOf]
    split_ifs <;> decide
  have hl := eq_of_intValue hlast
  have h1 := length_decodeLoop hloop
  have h2 := @length_decodeTail s res x _ _ htail
  rw [List.length_nil] at h1
  omega

/-- Decoding a text and encoding the result. -/
def reencode (s : Bytes) : Option Bytes :=
  (decodeBase64 s).bind fun x => encodeBytes x (UInt32.ofNat x.length)

/-- A canonical text comes back from the decoder and the encoder exactly when its length is an
`int`. -/
theorem Canonical.reencode_iff {s letters : Bytes} {pad : Nat} (h : Canonical s letters pad)
    (hne : s ≠ []) : reencode s = some s ↔ s.length < 2 ^ 31 := by
  constructor
  · intro hr
    by_contra hlong
    obtain ⟨x, hx, henc⟩ := Option.bind_eq_some_iff.mp hr
    have hle := length_decodeBase64 hx
    have hint : toInt s.length < 2 ^ 31 ∧ (s.length < 2 ^ 32 → toInt s.length < 0) := by
      rw [toInt]
      split_ifs <;> omega
    rw [encodeBytes_eq (by omega)] at henc
    have hlen := congrArg List.length (Option.some.inj henc)
    rw [length_encodeBase64] at hlen
    omega
  · intro hl
    obtain ⟨x, rfl⟩ := h.exists_encodeBase64
    have hx : x ≠ [] := by
      rintro rfl
      exact hne rfl
    have hlen := length_encodeBase64 x
    rw [reencode, decodeBase64_encodeBase64 hx hl, Option.bind_some, encodeBytes_eq (by omega)]

/-- What a base64 codec is for, at one octet string and one text: the encoder stays inside the
octets and writes their base64 text, the decoder takes it back, and a canonical text comes back
from the decoder and the encoder. -/
structure CodecLaw (x s : Bytes) : Prop where
  encodes : x.length < 2 ^ 32 → encodeBytes x (UInt32.ofNat x.length) = some (base64Text x) ∧
    (base64Text x).length = 4 * ((x.length + 2) / 3) ∧ base64Pad ∉ base64Letters x
  decodes : x ≠ [] → x.length < 2 ^ 29 →
    ((encodeBytes x (UInt32.ofNat x.length)).bind decodeBase64) = some x
  reencodes : ∀ letters pad, Canonical s letters pad → s ≠ [] → reencode s = some s

/-- The codec keeps its law on every string, and on every text whose length is an `int`. -/
theorem codecLaw_iff (x s : Bytes) :
    CodecLaw x s ↔ ∀ letters pad, Canonical s letters pad → s ≠ [] → s.length < 2 ^ 31 := by
  constructor
  · intro h letters pad hs hne
    exact (hs.reencode_iff hne).mp (h.reencodes letters pad hs hne)
  · intro h
    refine ⟨fun hx => ?_, fun hne hx => ?_, fun letters pad hs hne => ?_⟩
    · rw [← encodeBase64_eq_base64Text, length_encodeBase64]
      exact ⟨encodeBytes_eq hx, rfl, pad_notMem_base64Letters x⟩
    · have hlen := length_encodeBase64 x
      rw [encodeBytes_eq (by omega), Option.bind_some, decodeBase64_encodeBase64 hne (by omega)]
    · exact (hs.reencode_iff hne).mpr (h letters pad hs hne)

private theorem canonical_replicate (n : Nat) :
    Canonical (List.replicate (4 * n) 65) (List.replicate (4 * n) 65) 0 where
  text := (List.append_nil _).symm
  few := by decide
  whole := by
    rw [List.length_replicate]
    omega
  alphabet := fun c hc => by
    rw [List.eq_of_mem_replicate hc]
    decide +kernel
  unused := fun c _ => Nat.mod_one _

/-- A text of too many letters does not come back. -/
theorem not_codecLaw_replicate {n : Nat} (hn : 2 ^ 29 ≤ n) :
    ¬ CodecLaw [] (List.replicate (4 * n) 65) := by
  intro h
  have hne : List.replicate (4 * n) (65 : UInt8) ≠ [] := by
    rw [ne_eq, List.replicate_eq_nil_iff]
    omega
  have hlt := ((canonical_replicate n).reencode_iff hne).mp
    (h.reencodes _ _ (canonical_replicate n) hne)
  rw [List.length_replicate] at hlt
  omega

/-- A text of 2147483648 letters A does not come back. -/
theorem codecLaw_long : ¬ CodecLaw [] (List.replicate (4 * 2 ^ 29) 65) :=
  not_codecLaw_replicate (le_refl _)

end CppImprovement.Ws

import CppImprovement.Net.Ws.Base64Codec

/-!
# The reads of the base64 decoder

`DecodeBase64` looks at the last two characters before it knows that there are two, and a padded
tail is read where the loop stopped. The indices of all its reads are listed here as the source
computes them, in `int` and then as `size_t`. They stay in the string exactly when the length is
an `int` of at least two and the text is not one character longer than whole groups with a single
padding sign among its last two characters.
-/

namespace CppImprovement.Ws

/-! ## The indices -/

/-- An `int` index as `size_t`. -/
def sizeIndex (i : Int) : Nat := (i % 0x10000000000000000).toNat

/-- The indices the loop uses from `charNo` on, and `charNo` behind it; the bound counts
iterations. -/
def loopIndices (last : Int) : Nat → Int → List Int × Int
  | 0, charNo => ([], charNo)
  | n + 1, charNo =>
    if charNo ≤ last then
      let rest := loopIndices last n (charNo + 4)
      (charNo :: (charNo + 1) :: (charNo + 2) :: (charNo + 3) :: rest.1, rest.2)
    else ([], charNo)

/-- The indices of a padded last group. -/
def tailIndices (pad charNo : Int) : List Int :=
  if pad = 1 then [charNo, charNo + 1, charNo + 2]
  else if pad = 2 then [charNo, charNo + 1]
  else []

/-- The indices behind the two that look for padding. -/
def groupIndices (s : Bytes) (pad : Int) : List Int :=
  let loop := loopIndices (toInt s.length - 4 - pad) (s.length + 1) 0
  loop.1 ++ tailIndices pad loop.2

/-- The indices `DecodeBase64` uses on its string. A run is not followed beyond a look for
padding that fell outside the string. -/
def decodeIndices (s : Bytes) : List Nat :=
  sizeIndex (toInt s.length - 1) :: sizeIndex (toInt s.length - 2) ::
    match charAt s (toInt s.length - 1), charAt s (toInt s.length - 2) with
    | some c1, some c2 => (groupIndices s (padOf c1 c2)).map sizeIndex
    | _, _ => []

/-- Every index is a position of the string, the one of its terminating NUL included. -/
def DecodesInBounds (s : Bytes) : Prop := ∀ i ∈ decodeIndices s, i ≤ s.length

instance (s : Bytes) : Decidable (DecodesInBounds s) := List.decidableBAll _ _

/-- Exactly one of the last two characters is a padding sign. -/
def OnePad (s : Bytes) : Prop :=
  ¬ (s[s.length - 1]? = some base64Pad ↔ s[s.length - 2]? = some base64Pad)

instance (s : Bytes) : Decidable (OnePad s) := instDecidableNot

/-! ## Bounds -/

private theorem sizeIndex_of_nonneg {i : Int} (h : 0 ≤ i) (hi : i < 0x10000000000000000) :
    (sizeIndex i : Int) = i := by
  rw [sizeIndex, Int.emod_eq_of_lt h hi, Int.toNat_of_nonneg h]

/-- A negative `int` is a large `size_t`. -/
theorem sizeIndex_of_neg {i : Int} (h : i < 0) (hi : -0x100000000 ≤ i) :
    2 ^ 63 ≤ sizeIndex i := by
  rw [sizeIndex]
  omega

private theorem toInt_bounds (n : Nat) :
    -0x80000000 ≤ toInt n ∧ toInt n ≤ n ∧ toInt n < 0x80000000 := by
  rw [toInt]
  split_ifs <;> omega

private theorem padOf_bounds (c1 c2 : UInt8) : 0 ≤ padOf c1 c2 ∧ padOf c1 c2 ≤ 2 := by
  rw [padOf]
  split_ifs <;> decide

/-- The character at an index has a value exactly when the index is in the string. -/
theorem charAt_isSome_iff {s : Bytes} {i : Int} :
    (charAt s i).isSome = true ↔ sizeIndex i ≤ s.length := by
  rw [charAt, ← sizeIndex]
  split_ifs with h
  · simp [h]
  · rw [Option.isSome_iff_ne_none, ne_eq, List.getElem?_eq_none_iff]
    omega

/-- The loop reads whole groups up to its bound and stops at the first group behind it. -/
theorem loopIndices_spec {last : Int} {n : Nat} {c : Int} (hn : last < c + 4 * n) :
    (∀ i ∈ (loopIndices last n c).1, c ≤ i ∧ i ≤ last + 3) ∧
      last < (loopIndices last n c).2 ∧ c ≤ (loopIndices last n c).2 ∧
      ((loopIndices last n c).2 = c ∨ (loopIndices last n c).2 ≤ last + 4) ∧
      ((loopIndices last n c).2 - c) % 4 = 0 := by
  induction n generalizing c with
  | zero => simp [loopIndices]; omega
  | succ n ih =>
    rw [loopIndices]
    by_cases hgo : c ≤ last
    · obtain ⟨hmem, hend, hle, hfar, hmod⟩ := @ih (c + 4) (by omega)
      rw [if_pos hgo]
      refine ⟨fun i hi => ?_, hend, by dsimp only; omega, by dsimp only; omega,
        by dsimp only; omega⟩
      simp only [List.mem_cons] at hi
      rcases hi with rfl | rfl | rfl | rfl | hi
      · omega
      · omega
      · omega
      · omega
      · have := hmem i hi
        omega
    · rw [if_neg hgo]
      simp
      omega

/-- With two characters or more only a single padding sign behind whole groups and one character
leads outside the string. -/
theorem groupIndices_inBounds_iff {s : Bytes} (hs : s.length < 2 ^ 63)
    (hlen : 2 ≤ toInt s.length) {pad : Int} (hpad : 0 ≤ pad ∧ pad ≤ 2) :
    (∀ i ∈ (groupIndices s pad).map sizeIndex, i ≤ s.length) ↔
      ¬ (pad = 1 ∧ s.length < 2 ^ 31 ∧ s.length % 4 = 1) := by
  obtain ⟨-, hle, hint⟩ := toInt_bounds s.length
  have hspec := @loopIndices_spec (toInt s.length - 4 - pad) (s.length + 1) 0 (by omega)
  rw [groupIndices]
  generalize loopIndices (toInt s.length - 4 - pad) (s.length + 1) 0 = loop at hspec ⊢
  obtain ⟨hmem, hend, hpos, hfar, hmod⟩ := hspec
  constructor
  · rintro hin ⟨rfl, hshort, hone⟩
    rw [toInt_of_lt hshort] at hlen hend hfar
    have hread : loop.2 + 2 ∈ loop.1 ++ tailIndices 1 loop.2 := by simp [tailIndices]
    have hbad := hin _ (List.mem_map_of_mem hread)
    have hval := @sizeIndex_of_nonneg (loop.2 + 2) (by omega) (by omega)
    omega
  · intro hok i hi
    obtain ⟨j, hj, rfl⟩ := List.mem_map.mp hi
    have hj' : 0 ≤ j ∧ j ≤ s.length := by
      rcases List.mem_append.mp hj with hj | hj
      · have := hmem j hj
        omega
      · have hlast : loop.2 + 2 ≤ s.length ∨ pad ≠ 1 := by
          by_contra hbad
          refine hok ⟨by omega, ?_⟩
          rw [toInt] at hlen hend hfar hle
          split_ifs at hlen hend hfar hle <;> omega
        rw [tailIndices] at hj
        split_ifs at hj with h1 h2
        · simp only [List.mem_cons, List.not_mem_nil, or_false] at hj
          omega
        · simp only [List.mem_cons, List.not_mem_nil, or_false] at hj
          omega
        · cases hj
    have hval := @sizeIndex_of_nonneg j hj'.1 (by omega)
    omega

/-- The two characters that are tested for padding. -/
theorem charAt_last {s : Bytes} (hs : s.length < 2 ^ 31) {k : Nat} (hk : 1 ≤ k)
    (hlen : k ≤ s.length) : charAt s (toInt s.length - k) = s[s.length - k]? := by
  have hi : toInt s.length - k = ((s.length - k : Nat) : Int) := by
    rw [toInt_of_lt hs]
    omega
  rw [hi, charAt_nat (by omega) hs]

private theorem padOf_eq_one_iff {c1 c2 : UInt8} :
    padOf c1 c2 = 1 ↔ ¬ (some c1 = some base64Pad ↔ some c2 = some base64Pad) := by
  rw [padOf, Option.some.injEq, Option.some.injEq]
  split_ifs <;> simp_all

/-- `DecodeBase64` stays in its string exactly when the length, as an `int`, is at least two, and
no single padding sign stands behind whole groups and one character. -/
theorem decodesInBounds_iff {s : Bytes} (hs : s.length < 2 ^ 63) :
    DecodesInBounds s ↔
      2 ≤ toInt s.length ∧ ¬ (s.length < 2 ^ 31 ∧ s.length % 4 = 1 ∧ OnePad s) := by
  obtain ⟨hlow, hle, hint⟩ := toInt_bounds s.length
  by_cases hlen : 2 ≤ toInt s.length
  · have h1 := @sizeIndex_of_nonneg (toInt s.length - 1) (by omega) (by omega)
    have h2 := @sizeIndex_of_nonneg (toInt s.length - 2) (by omega) (by omega)
    obtain ⟨c1, hc1⟩ := Option.isSome_iff_exists.mp
      ((@charAt_isSome_iff s (toInt s.length - 1)).mpr (by omega))
    obtain ⟨c2, hc2⟩ := Option.isSome_iff_exists.mp
      ((@charAt_isSome_iff s (toInt s.length - 2)).mpr (by omega))
    have hpad : s.length < 2 ^ 31 → (padOf c1 c2 = 1 ↔ OnePad s) := by
      intro hshort
      rw [toInt_of_lt hshort] at hlen
      rw [padOf_eq_one_iff, OnePad, ← hc1, ← hc2]
      rw [← @charAt_last s hshort 1 (by omega) (by omega),
        ← @charAt_last s hshort 2 (by omega) (by omega)]
      rfl
    rw [DecodesInBounds, decodeIndices, hc1, hc2]
    simp only [List.forall_mem_cons]
    rw [groupIndices_inBounds_iff hs hlen (padOf_bounds c1 c2)]
    constructor
    · rintro ⟨-, -, hok⟩
      exact ⟨hlen, fun hbad => hok ⟨(hpad hbad.1).mpr hbad.2.2, hbad.1, hbad.2.1⟩⟩
    · rintro ⟨-, hok⟩
      exact ⟨by omega, by omega, fun hbad => hok ⟨hbad.2.1, hbad.2.2, (hpad hbad.2.1).mp hbad.1⟩⟩
  · refine iff_of_false (fun hin => ?_) fun h => hlen h.1
    have h2 := hin (sizeIndex (toInt s.length - 2)) (by simp [decodeIndices])
    have hneg := @sizeIndex_of_neg (toInt s.length - 2) (by omega) (by omega)
    omega

/-- A text of one whole group. -/
theorem decodesInBounds_group :
    2 ≤ toInt (ascii "YWJj").length ∧ DecodesInBounds (ascii "YWJj") :=
  ⟨by decide, (decodesInBounds_iff (by decide)).mpr ⟨by decide, by decide⟩⟩

/-- On the empty string the first index is the largest `size_t`. -/
theorem empty_not_decodesInBounds :
    ¬ ∀ s : Bytes, s.length < 2 ^ 63 → ∀ i ∈ decodeIndices s, i ≤ s.length := by
  intro hall
  have hread := hall [] (by decide) (2 ^ 64 - 1) (by decide)
  exact absurd hread (by decide)

example : ¬ DecodesInBounds (ascii "AAAA=") ∧ DecodesInBounds (ascii "AAA=") := by decide +kernel

/-! ## The listed reads are the reads of the decoder -/

/-- A loop that ends has read its indices. -/
theorem decodeLoop_reads {s : Bytes} {last : Int} {n : Nat} {c : Int} {res : Bytes}
    {r : Int × Bytes} (h : decodeLoop s last n c res = some r) :
    (∀ i ∈ (loopIndices last n c).1, (charAt s i).isSome = true) ∧
      r.1 = (loopIndices last n c).2 := by
  induction n generalizing c res with
  | zero => cases h
  | succ n ih =>
    rw [decodeLoop] at h
    rw [loopIndices]
    by_cases hgo : c ≤ last
    · rw [if_pos hgo] at h ⊢
      simp only [Option.bind_eq_bind, Option.bind_eq_some_iff] at h
      obtain ⟨c0, h0, c1, h1, c2, h2, c3, h3, next, hnext, hrec⟩ := h
      obtain rfl := eq_of_intValue hnext
      obtain ⟨hreads, hend⟩ := ih hrec
      simp only [List.forall_mem_cons, h0, h1, h2, h3, Option.isSome_some, true_and]
      exact ⟨hreads, hend⟩
    · rw [if_neg hgo] at h ⊢
      cases h
      simp

/-- A loop whose indices are in the string ends. -/
theorem decodeLoop_ends {s : Bytes} {last : Int} (hint : last + 4 < 0x80000000) {n : Nat} {c : Int}
    (hc : 0 ≤ c) (hn : last < c + 4 * n) (res : Bytes)
    (hin : ∀ i ∈ (loopIndices last (n + 1) c).1, (charAt s i).isSome = true) :
    ∃ res', decodeLoop s last (n + 1) c res = some ((loopIndices last (n + 1) c).2, res') := by
  induction n generalizing c res with
  | zero =>
    rw [decodeLoop, loopIndices, if_neg (by omega), if_neg (by omega)]
    exact ⟨res, rfl⟩
  | succ n ih =>
    rw [loopIndices] at hin ⊢
    rw [decodeLoop]
    by_cases hgo : c ≤ last
    · rw [if_pos hgo] at hin ⊢
      rw [if_pos hgo]
      simp only [List.forall_mem_cons, Option.isSome_iff_exists] at hin
      obtain ⟨⟨c0, h0⟩, ⟨c1, h1⟩, ⟨c2, h2⟩, ⟨c3, h3⟩, hrest⟩ := hin
      have hnext : intValue (c + 4) = some (c + 4) := intValue_of (by omega)
      simp only [Option.bind_eq_bind, h0, h1, h2, h3, hnext, Option.bind_some]
      refine ih (by omega) (by omega) _ fun i hi => ?_
      exact Option.isSome_iff_exists.mpr (hrest i hi)
    · rw [if_neg hgo, if_neg hgo]
      exact ⟨res, rfl⟩

/-- A padded group is decoded exactly when its indices are in the string. -/
theorem decodeTail_isSome_iff {s : Bytes} {pad c : Int} {res : Bytes} :
    (decodeTail s pad c res).isSome = true ↔
      ∀ i ∈ tailIndices pad c, (charAt s i).isSome = true := by
  rw [decodeTail, tailIndices]
  split_ifs
  · simp only [List.forall_mem_cons, Option.isSome_iff_exists, Option.bind_eq_bind,
      Option.bind_eq_some_iff]
    constructor
    · rintro ⟨x, c0, h0, c1, h1, c2, h2, -⟩
      exact ⟨⟨c0, h0⟩, ⟨c1, h1⟩, ⟨c2, h2⟩, by simp⟩
    · rintro ⟨⟨c0, h0⟩, ⟨c1, h1⟩, ⟨c2, h2⟩, -⟩
      exact ⟨_, c0, h0, c1, h1, c2, h2, rfl⟩
  · simp only [List.forall_mem_cons, Option.isSome_iff_exists, Option.bind_eq_bind,
      Option.bind_eq_some_iff]
    constructor
    · rintro ⟨x, c0, h0, c1, h1, -⟩
      exact ⟨⟨c0, h0⟩, ⟨c1, h1⟩, by simp⟩
    · rintro ⟨⟨c0, h0⟩, ⟨c1, h1⟩, -⟩
      exact ⟨_, c0, h0, c1, h1, rfl⟩
  · simp

/-- The decoder has a result exactly when its indices are in the string. -/
theorem decodeBase64_isSome_iff {s : Bytes} (hs : s.length < 2 ^ 63) :
    (decodeBase64 s).isSome = true ↔ DecodesInBounds s := by
  obtain ⟨-, hle, hint⟩ := toInt_bounds s.length
  constructor
  · intro hsome
    obtain ⟨x, hx⟩ := Option.isSome_iff_exists.mp hsome
    rw [decodeBase64] at hx
    simp only [Option.bind_eq_bind, Option.bind_eq_some_iff] at hx
    obtain ⟨i1, hi1, c1, hc1, i2, hi2, c2, hc2, last, hlast, ⟨c, res⟩, hloop, htail⟩ := hx
    obtain rfl := eq_of_intValue hi1
    obtain rfl := eq_of_intValue hi2
    obtain rfl := eq_of_intValue hlast
    obtain ⟨hreads, rfl⟩ := decodeLoop_reads hloop
    have htail' := decodeTail_isSome_iff.mp (Option.isSome_iff_exists.mpr ⟨x, htail⟩)
    rw [DecodesInBounds, decodeIndices, hc1, hc2]
    simp only [List.forall_mem_cons, List.forall_mem_map, groupIndices, List.forall_mem_append,
      ← charAt_isSome_iff]
    exact ⟨by rw [hc1]; rfl, by rw [hc2]; rfl, hreads, htail'⟩
  · intro hin
    obtain ⟨hlen, -⟩ := (decodesInBounds_iff hs).mp hin
    have h1 := charAt_isSome_iff.mpr (hin _ List.mem_cons_self)
    have h2 := charAt_isSome_iff.mpr (hin _ (List.mem_cons_of_mem _ List.mem_cons_self))
    obtain ⟨c1, hc1⟩ := Option.isSome_iff_exists.mp h1
    obtain ⟨c2, hc2⟩ := Option.isSome_iff_exists.mp h2
    obtain ⟨hp0, hp2⟩ := padOf_bounds c1 c2
    rw [DecodesInBounds, decodeIndices, hc1, hc2] at hin
    simp only [List.forall_mem_cons, List.forall_mem_map, groupIndices, List.forall_mem_append,
      ← charAt_isSome_iff] at hin
    obtain ⟨-, -, hloop, htail⟩ := hin
    obtain ⟨res, hres⟩ := decodeLoop_ends (by omega) (le_refl 0) (by omega) [] hloop
    rw [decodeBase64]
    simp only [Option.bind_eq_bind, @intValue_of (toInt s.length - 1) (by omega),
      @intValue_of (toInt s.length - 2) (by omega), hc1, hc2, Option.bind_some,
      @intValue_of (toInt s.length - 4 - padOf c1 c2) (by omega), hres]
    exact decodeTail_isSome_iff.mpr htail

end CppImprovement.Ws

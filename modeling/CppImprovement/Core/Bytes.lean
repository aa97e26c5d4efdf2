import Mathlib.Data.List.TakeWhile
import Mathlib.Tactic.Ring

/-!
# Byte strings and little-endian memory

Byte strings are lists of octets. A machine word of `w` bytes lives in memory in
little-endian order: `storeLE` writes it and `loadLE` reads it back. Network
conversion reverses the bytes of a word, so it is an involution on words that
fit. A C string is the part of a buffer before its first NUL.
-/

namespace CppImprovement

/-- A string of octets. -/
abbrev Bytes := List UInt8

/-- A property of every octet, from its 256 values. -/
@[elab_as_elim]
theorem byte_induction {P : UInt8 → Prop} (ofNat : ∀ n : Fin 256, P (UInt8.ofNat n.val))
    (b : UInt8) : P b := by
  have hb := ofNat ⟨b.toNat, b.toNat_lt⟩
  rwa [UInt8.ofNat_toNat] at hb

/-- The octets of an ASCII literal. -/
def ascii (text : String) : Bytes := text.toList.map fun c => c.toNat.toUInt8

/-- The C string held by a buffer: everything before the first NUL. -/
def cstr (b : Bytes) : Bytes := b.takeWhile (· != 0)

/-- A buffer without NUL is its own C string. -/
theorem cstr_eq_self {b : Bytes} (h : (0 : UInt8) ∉ b) : cstr b = b := by
  rw [cstr, List.takeWhile_eq_self_iff]
  intro x hx
  simp only [bne_iff_ne, ne_eq]
  rintro rfl
  exact h hx

/-! ## Octets as numbers -/

/-- A mask of `k` ones keeps the low `k` bits. -/
theorem toNat_low {k : Nat} {m : UInt8} (hm : m.toNat = 2 ^ k - 1) (b : UInt8) :
    (m &&& b).toNat = b.toNat % 2 ^ k := by
  rw [UInt8.toNat_and, hm, Nat.and_comm, Nat.and_two_pow_sub_one_eq_mod]

/-- A shift to the left drops the high bits. -/
theorem toNat_shl {k : Nat} {s : UInt8} (hk : k < 8) (hs : s.toNat = k) (a : UInt8) :
    (a <<< s).toNat = a.toNat % 2 ^ (8 - k) * 2 ^ k := by
  rw [UInt8.toNat_shiftLeft, hs, Nat.mod_eq_of_lt hk, Nat.shiftLeft_eq, ← Nat.mul_mod_mul_right,
    ← pow_add]
  congr 2
  omega

/-- A shift to the right divides. -/
theorem toNat_shr {k : Nat} {s : UInt8} (hk : k < 8) (hs : s.toNat = k) (a : UInt8) :
    (a >>> s).toNat = a.toNat / 2 ^ k := by
  rw [UInt8.toNat_shiftRight, hs, Nat.mod_eq_of_lt hk, Nat.shiftRight_eq_div_pow]

/-- A C string has no NUL. -/
theorem nul_notMem_cstr (b : Bytes) : (0 : UInt8) ∉ cstr b := by
  intro hmem
  have hall := List.mem_takeWhile_imp hmem
  simp at hall

/-- The character of a decimal digit fits into an octet. -/
theorem toNat_toUInt8_of_mem_toDigits {n : Nat} {d : Char} (hd : d ∈ Nat.toDigits 10 n) :
    d.toNat.toUInt8.toNat = d.toNat ∧ 48 ≤ d.toNat ∧ d.toNat ≤ 57 := by
  have hdigit := Nat.isDigit_of_mem_toDigits (by decide) (by decide) hd
  have hrange : 48 ≤ d.toNat ∧ d.toNat ≤ 57 := by
    simpa [Char.isDigit, UInt32.le_iff_toNat_le] using hdigit
  refine ⟨?_, hrange⟩
  rw [Nat.toUInt8, UInt8.toNat_ofNat']
  exact Nat.mod_eq_of_lt (by omega)

/-- The octets of decimal digits. -/
theorem toNat_of_mem_toDigits {n : Nat} {c : UInt8}
    (h : c ∈ (Nat.toDigits 10 n).map fun d => d.toNat.toUInt8) : 48 ≤ c.toNat ∧ c.toNat ≤ 57 := by
  obtain ⟨d, hd, rfl⟩ := List.mem_map.mp h
  obtain ⟨hoctet, hrange⟩ := toNat_toUInt8_of_mem_toDigits hd
  rw [hoctet]
  exact hrange

/-- An octet shifted up, with the free low bits taken from another one. -/
theorem toNat_shl_or {k : Nat} {s : UInt8} (hk : k < 8) (hs : s.toNat = k) (a : UInt8) {b : UInt8}
    (hb : b.toNat < 2 ^ k) :
    ((a <<< s) ||| b).toNat = a.toNat % 2 ^ (8 - k) * 2 ^ k + b.toNat := by
  rw [UInt8.toNat_or, toNat_shl hk hs, ← Nat.shiftLeft_eq, Nat.shiftLeft_add_eq_or_of_lt hb]

/-! ## Little-endian words -/

/-- The value of a word stored with its least significant byte first. -/
def loadLE : Bytes → Nat
  | [] => 0
  | b :: bs => b.toNat + 256 * loadLE bs

/-- The `w` memory bytes of the word `x`. -/
def storeLE : Nat → Nat → Bytes
  | 0, _ => []
  | w + 1, x => UInt8.ofNat (x % 256) :: storeLE w (x / 256)

/-- A word of `w` bytes takes `w` bytes. -/
@[simp] theorem length_storeLE (w x : Nat) : (storeLE w x).length = w := by
  induction w generalizing x with
  | zero => rfl
  | succ w ih => simp only [storeLE, List.length_cons, ih]

/-- What is loaded fits the bytes it is loaded from. -/
theorem loadLE_lt (b : Bytes) : loadLE b < 256 ^ b.length := by
  induction b with
  | nil => simp [loadLE]
  | cons x xs ih =>
    have hx := x.toNat_lt
    simp only [loadLE, List.length_cons, pow_succ]
    omega

/-- Reading back a stored word loses exactly the bits above its width. -/
theorem loadLE_storeLE (w x : Nat) : loadLE (storeLE w x) = x % 256 ^ w := by
  induction w generalizing x with
  | zero => simp [storeLE, loadLE, Nat.mod_one]
  | succ w ih =>
    have hb : (UInt8.ofNat (x % 256)).toNat = x % 256 := by simp
    rw [storeLE, loadLE, ih, hb, pow_succ', Nat.mod_mul]

/-- Memory bytes are recovered from their word. -/
theorem storeLE_loadLE (b : Bytes) : storeLE b.length (loadLE b) = b := by
  induction b with
  | nil => rfl
  | cons x xs ih =>
    have hx := x.toNat_lt
    have hm : (x.toNat + 256 * loadLE xs) % 256 = x.toNat := by omega
    have hd : (x.toNat + 256 * loadLE xs) / 256 = loadLE xs := by omega
    simp only [List.length_cons, loadLE, storeLE, hm, hd, ih, UInt8.ofNat_toNat]

/-- Reverse the bytes of a `w`-byte word, as conversion between host and network order does
on a little-endian host. -/
def byteSwap (w x : Nat) : Nat := loadLE (storeLE w x).reverse

/-- The memory image of a swapped word is the reversed memory image. -/
theorem storeLE_byteSwap (w x : Nat) : storeLE w (byteSwap w x) = (storeLE w x).reverse := by
  have h := storeLE_loadLE (storeLE w x).reverse
  rwa [List.length_reverse, length_storeLE] at h

/-- Swapping twice restores every word that fits. -/
theorem byteSwap_byteSwap {w x : Nat} (hx : x < 256 ^ w) : byteSwap w (byteSwap w x) = x := by
  rw [byteSwap, storeLE_byteSwap, List.reverse_reverse, loadLE_storeLE, Nat.mod_eq_of_lt hx]

end CppImprovement

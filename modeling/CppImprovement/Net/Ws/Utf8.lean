import CppImprovement.Core.Bytes

/-!
# The UTF-8 validator

`ValidateUtf8` runs a table driven automaton over a text and stops at the first
rejected byte. The table maps a byte to its class and, 256 entries further on, a
state and a class to the next state. The automaton resumes: a text may be fed to
it in parts. On the encoding of a sequence of Unicode scalar values it is in the
accepting state exactly between characters and never in the rejecting one, and it
accepts no other text.
-/

namespace CppImprovement.Ws

/-! ## The automaton -/

def WS_UTF8_ACCEPT : Nat := 0
def WS_UTF8_REJECT : Nat := 1

/-- `utf8d`: byte classes, then one row of sixteen successors for each state. -/
def utf8d : List Nat :=
  [
    0, 0, 0, 0, 0, 0, 0, 0, 0, 0, 0, 0, 0, 0, 0, 0,
    0, 0, 0, 0, 0, 0, 0, 0, 0, 0, 0, 0, 0, 0, 0, 0,
    0, 0, 0, 0, 0, 0, 0, 0, 0, 0, 0, 0, 0, 0, 0, 0,
    0, 0, 0, 0, 0, 0, 0, 0, 0, 0, 0, 0, 0, 0, 0, 0,
    0, 0, 0, 0, 0, 0, 0, 0, 0, 0, 0, 0, 0, 0, 0, 0,
    0, 0, 0, 0, 0, 0, 0, 0, 0, 0, 0, 0, 0, 0, 0, 0,
    0, 0, 0, 0, 0, 0, 0, 0, 0, 0, 0, 0, 0, 0, 0, 0,
    0, 0, 0, 0, 0, 0, 0, 0, 0, 0, 0, 0, 0, 0, 0, 0,
    1, 1, 1, 1, 1, 1, 1, 1, 1, 1, 1, 1, 1, 1, 1, 1,
    9, 9, 9, 9, 9, 9, 9, 9, 9, 9, 9, 9, 9, 9, 9, 9,
    7, 7, 7, 7, 7, 7, 7, 7, 7, 7, 7, 7, 7, 7, 7, 7,
    7, 7, 7, 7, 7, 7, 7, 7, 7, 7, 7, 7, 7, 7, 7, 7,
    8, 8, 2, 2, 2, 2, 2, 2, 2, 2, 2, 2, 2, 2, 2, 2,
    2, 2, 2, 2, 2, 2, 2, 2, 2, 2, 2, 2, 2, 2, 2, 2,
    10, 3, 3, 3, 3, 3, 3, 3, 3, 3, 3, 3, 3, 4, 3, 3,
    11, 6, 6, 6, 5, 8, 8, 8, 8, 8, 8, 8, 8, 8, 8, 8,
    0, 1, 2, 3, 5, 8, 7, 1, 1, 1, 4, 6, 1, 1, 1, 1,
    1, 1, 1, 1, 1, 1, 1, 1, 1, 1, 1, 1, 1, 1, 1, 1,
    1, 0, 1, 1, 1, 1, 1, 0, 1, 0, 1, 1, 1, 1, 1, 1,
    1, 2, 1, 1, 1, 1, 1, 2, 1, 2, 1, 1, 1, 1, 1, 1,
    1, 1, 1, 1, 1, 1, 1, 2, 1, 1, 1, 1, 1, 1, 1, 1,
    1, 2, 1, 1, 1, 1, 1, 1, 1, 2, 1, 1, 1, 1, 1, 1,
    1, 1, 1, 1, 1, 1, 1, 3, 1, 3, 1, 1, 1, 1, 1, 1,
    1, 3, 1, 1, 1, 1, 1, 3, 1, 3, 1, 1, 1, 1, 1, 1,
    1, 3, 1, 1, 1, 1, 1, 1, 1, 1, 1, 1, 1, 1, 1, 1]

/-- The class of a byte. -/
def utf8Type (b : UInt8) : Nat := utf8d.getD b.toNat 0

/-- One transition. -/
def utf8Next (state : Nat) (b : UInt8) : Nat := utf8d.getD (256 + state * 16 + utf8Type b) 0

/-- `ValidateUtf8`: the state after a text, stopping at the first rejection. -/
def validateUtf8 : Nat → Bytes → Nat
  | state, [] => state
  | state, b :: s =>
    if utf8Next state b = WS_UTF8_REJECT then WS_UTF8_REJECT
    else validateUtf8 (utf8Next state b) s

/-- The classes of the bytes, as ranges. -/
def byteClass (n : Nat) : Nat :=
  if n ≤ 0x7F then 0
  else if n ≤ 0x8F then 1
  else if n ≤ 0x9F then 9
  else if n ≤ 0xBF then 7
  else if n ≤ 0xC1 then 8
  else if n ≤ 0xDF then 2
  else if n = 0xE0 then 10
  else if n = 0xED then 4
  else if n ≤ 0xEF then 3
  else if n = 0xF0 then 11
  else if n = 0xF4 then 5
  else if n ≤ 0xF3 then 6
  else 8

private theorem utf8d_classes : utf8d.take 256 = (List.range 256).map byteClass := by
  decide +kernel

theorem utf8Type_eq (b : UInt8) : utf8Type b = byteClass b.toNat := by
  have hb : b.toNat < 256 := b.toNat_lt
  have hd : utf8d.getD b.toNat 0 = (utf8d.take 256).getD b.toNat 0 := by
    rw [List.getD_eq_getElem?_getD, List.getD_eq_getElem?_getD, List.getElem?_take_of_lt hb]
  rw [utf8Type, hd, utf8d_classes, List.getD_eq_getElem?_getD, List.getElem?_map,
    List.getElem?_range hb]
  rfl

theorem utf8Type_lt (b : UInt8) : utf8Type b < 12 := by
  rw [utf8Type_eq]
  generalize b.toNat = n
  fun_cases byteClass n <;> omega

private theorem utf8Next_reject (b : UInt8) : utf8Next WS_UTF8_REJECT b = WS_UTF8_REJECT := by
  have hrow : ∀ t : Fin 12, utf8d.getD (256 + WS_UTF8_REJECT * 16 + t.val) 0 = WS_UTF8_REJECT := by
    decide
  exact hrow ⟨utf8Type b, utf8Type_lt b⟩

/-- Rejection is final. -/
theorem validateUtf8_reject (s : Bytes) : validateUtf8 WS_UTF8_REJECT s = WS_UTF8_REJECT := by
  cases s with
  | nil => rfl
  | cons b s => rw [validateUtf8, if_pos (utf8Next_reject b)]

/-- The automaton resumes at any cut of the text. -/
theorem validateUtf8_append (state : Nat) (s t : Bytes) :
    validateUtf8 state (s ++ t) = validateUtf8 (validateUtf8 state s) t := by
  induction s generalizing state with
  | nil => rfl
  | cons b s ih =>
    rw [List.cons_append, validateUtf8, validateUtf8]
    by_cases h : utf8Next state b = WS_UTF8_REJECT
    · rw [if_pos h, if_pos h, validateUtf8_reject]
    · rw [if_neg h, if_neg h, ih]

/-! ## The transitions a well-formed character takes -/

/-- The row of the accepting state. -/
theorem utf8d_accept (t : Fin 12) :
    utf8d.getD (256 + 0 * 16 + t.val) 0 = [0, 1, 2, 3, 5, 8, 7, 1, 1, 1, 4, 6].getD t.val 1 := by
  revert t
  decide

/-- Where the automaton goes from the accepting state. -/
theorem utf8Next_accept (b : UInt8) :
    utf8Next 0 b =
      if b.toNat ≤ 0x7F then 0
      else if 0xC2 ≤ b.toNat ∧ b.toNat ≤ 0xDF then 2
      else if b.toNat = 0xE0 then 4
      else if b.toNat = 0xED then 5
      else if 0xE1 ≤ b.toNat ∧ b.toNat ≤ 0xEF then 3
      else if b.toNat = 0xF0 then 6
      else if b.toNat = 0xF4 then 8
      else if 0xF1 ≤ b.toNat ∧ b.toNat ≤ 0xF3 then 7
      else 1 := by
  rw [utf8Next, utf8d_accept ⟨utf8Type b, utf8Type_lt b⟩]
  simp only [utf8Type_eq]
  generalize b.toNat = n
  fun_cases byteClass n <;> (simp only [List.getD_cons_zero, List.getD_cons_succ]; grind)

/-- The rows of the states inside a character. -/
theorem utf8d_inside (t : Fin 12) :
    utf8d.getD (256 + 2 * 16 + t.val) 0 = (if t.val = 1 ∨ t.val = 7 ∨ t.val = 9 then 0 else 1) ∧
      utf8d.getD (256 + 3 * 16 + t.val) 0 = (if t.val = 1 ∨ t.val = 7 ∨ t.val = 9 then 2 else 1) ∧
      utf8d.getD (256 + 4 * 16 + t.val) 0 = (if t.val = 7 then 2 else 1) ∧
      utf8d.getD (256 + 5 * 16 + t.val) 0 = (if t.val = 1 ∨ t.val = 9 then 2 else 1) ∧
      utf8d.getD (256 + 6 * 16 + t.val) 0 = (if t.val = 7 ∨ t.val = 9 then 3 else 1) ∧
      utf8d.getD (256 + 7 * 16 + t.val) 0 = (if t.val = 1 ∨ t.val = 7 ∨ t.val = 9 then 3 else 1) ∧
      utf8d.getD (256 + 8 * 16 + t.val) 0 = (if t.val = 1 then 3 else 1) := by
  revert t
  decide

/-- The classes of the bytes that continue a character. -/
theorem utf8Type_tail (b : UInt8) :
    (utf8Type b = 1 ↔ 0x80 ≤ b.toNat ∧ b.toNat ≤ 0x8F) ∧
      (utf8Type b = 7 ↔ 0xA0 ≤ b.toNat ∧ b.toNat ≤ 0xBF) ∧
      (utf8Type b = 9 ↔ 0x90 ≤ b.toNat ∧ b.toNat ≤ 0x9F) := by
  rw [utf8Type_eq]
  generalize b.toNat = n
  fun_cases byteClass n <;> omega

/-- What each state inside a character admits, and the state it leads to. -/
theorem utf8Next_inside (b : UInt8) :
    utf8Next 2 b = (if 0x80 ≤ b.toNat ∧ b.toNat ≤ 0xBF then 0 else 1) ∧
      utf8Next 3 b = (if 0x80 ≤ b.toNat ∧ b.toNat ≤ 0xBF then 2 else 1) ∧
      utf8Next 4 b = (if 0xA0 ≤ b.toNat ∧ b.toNat ≤ 0xBF then 2 else 1) ∧
      utf8Next 5 b = (if 0x80 ≤ b.toNat ∧ b.toNat ≤ 0x9F then 2 else 1) ∧
      utf8Next 6 b = (if 0x90 ≤ b.toNat ∧ b.toNat ≤ 0xBF then 3 else 1) ∧
      utf8Next 7 b = (if 0x80 ≤ b.toNat ∧ b.toNat ≤ 0xBF then 3 else 1) ∧
      utf8Next 8 b = (if 0x80 ≤ b.toNat ∧ b.toNat ≤ 0x8F then 3 else 1) := by
  obtain ⟨h1, h7, h9⟩ := utf8Type_tail b
  obtain ⟨r2, r3, r4, r5, r6, r7, r8⟩ := utf8d_inside ⟨utf8Type b, utf8Type_lt b⟩
  refine ⟨r2.trans (if_congr ?_ rfl rfl), r3.trans (if_congr ?_ rfl rfl),
    r4.trans (if_congr h7 rfl rfl), r5.trans (if_congr ?_ rfl rfl),
    r6.trans (if_congr ?_ rfl rfl), r7.trans (if_congr ?_ rfl rfl), r8.trans (if_congr h1 rfl rfl)⟩
  all_goals
    dsimp only
    omega

private theorem utf8Next_ascii {b : UInt8} (h : b.toNat ≤ 0x7F) : utf8Next 0 b = 0 := by
  rw [utf8Next_accept, if_pos h]

/-- ASCII text is accepted. -/
theorem validateUtf8_ascii {p : Bytes} (h : ∀ x ∈ p, x < 0x80) :
    validateUtf8 WS_UTF8_ACCEPT p = WS_UTF8_ACCEPT := by
  induction p with
  | nil => rfl
  | cons x p ih =>
    obtain ⟨hx, hp⟩ := List.forall_mem_cons.mp h
    have hnext : utf8Next WS_UTF8_ACCEPT x = WS_UTF8_ACCEPT := utf8Next_ascii (Nat.le_of_lt_succ hx)
    rw [validateUtf8, hnext, if_neg (by decide), ih hp]

private theorem utf8Next_lead2 {b : UInt8} (h : 0xC2 ≤ b.toNat ∧ b.toNat ≤ 0xDF) :
    utf8Next 0 b = 2 := by
  rw [utf8Next_accept, if_neg (by omega), if_pos h]

private theorem utf8Next_lead3 {b : UInt8} (h : 0xE0 ≤ b.toNat ∧ b.toNat ≤ 0xEF) :
    utf8Next 0 b = if b.toNat = 0xE0 then 4 else if b.toNat = 0xED then 5 else 3 := by
  rw [utf8Next_accept, if_neg (by omega), if_neg (by omega)]
  split_ifs <;> first | rfl | omega

private theorem utf8Next_lead4 {b : UInt8} (h : 0xF0 ≤ b.toNat ∧ b.toNat ≤ 0xF4) :
    utf8Next 0 b = if b.toNat = 0xF0 then 6 else if b.toNat = 0xF4 then 8 else 7 := by
  rw [utf8Next_accept, if_neg (by omega), if_neg (by omega), if_neg (by omega),
    if_neg (by omega), if_neg (by omega)]
  split_ifs <;> first | rfl | omega

/-- The range of the second byte that a lead state admits, and the state it leads to. -/
theorem utf8Next_tail {b : UInt8} :
    (0x80 ≤ b.toNat ∧ b.toNat ≤ 0xBF → utf8Next 2 b = 0 ∧ utf8Next 3 b = 2 ∧ utf8Next 7 b = 3) ∧
      (0xA0 ≤ b.toNat ∧ b.toNat ≤ 0xBF → utf8Next 4 b = 2) ∧
      (0x80 ≤ b.toNat ∧ b.toNat ≤ 0x9F → utf8Next 5 b = 2) ∧
      (0x90 ≤ b.toNat ∧ b.toNat ≤ 0xBF → utf8Next 6 b = 3) ∧
      (0x80 ≤ b.toNat ∧ b.toNat ≤ 0x8F → utf8Next 8 b = 3) := by
  obtain ⟨h2, h3, h4, h5, h6, h7, h8⟩ := utf8Next_inside b
  rw [h2, h3, h4, h5, h6, h7, h8]
  refine ⟨fun h => ⟨if_pos h, if_pos h, if_pos h⟩, fun h => if_pos h, fun h => if_pos h,
    fun h => if_pos h, fun h => if_pos h⟩

/-! ## Unicode text -/

/-- A byte string that encodes a sequence of Unicode scalar values. -/
def ValidUtf8 (s : Bytes) : Prop := ∃ cs : List Char, s = cs.flatMap String.utf8EncodeChar

/-- The states the automaton passes on one encoded character: every state strictly inside it is
neither accepting nor rejecting, and it accepts at the end. -/
def CharPath (s : Bytes) : Prop :=
  s ≠ [] ∧ validateUtf8 WS_UTF8_ACCEPT s = WS_UTF8_ACCEPT ∧
    ∀ k, 0 < k → k < s.length →
      validateUtf8 WS_UTF8_ACCEPT (s.take k) ≠ WS_UTF8_ACCEPT ∧
        validateUtf8 WS_UTF8_ACCEPT (s.take k) ≠ WS_UTF8_REJECT

private theorem charPath_one {a : UInt8} (ha : utf8Next 0 a = 0) : CharPath [a] := by
  refine ⟨by simp, by simp [validateUtf8, ha, WS_UTF8_ACCEPT, WS_UTF8_REJECT], ?_⟩
  intro k hk hl
  simp only [List.length_singleton] at hl
  omega

private theorem charPath_two {a b : UInt8} (ha : utf8Next 0 a = 2) (hb : utf8Next 2 b = 0) :
    CharPath [a, b] := by
  refine ⟨by simp, by simp [validateUtf8, ha, hb, WS_UTF8_ACCEPT, WS_UTF8_REJECT], ?_⟩
  intro k hk hl
  obtain rfl : k = 1 := by
    simp only [List.length_cons, List.length_nil] at hl
    omega
  simp [validateUtf8, ha, WS_UTF8_ACCEPT, WS_UTF8_REJECT]

private theorem charPath_three {a b c : UInt8} {p : Nat} (hp : 3 ≤ p) (ha : utf8Next 0 a = p)
    (hb : utf8Next p b = 2) (hc : utf8Next 2 c = 0) : CharPath [a, b, c] := by
  have hp1 : p ≠ 1 := by omega
  have hp0 : p ≠ 0 := by omega
  refine ⟨by simp, by simp [validateUtf8, ha, hb, hc, hp1, WS_UTF8_ACCEPT, WS_UTF8_REJECT], ?_⟩
  intro k hk hl
  simp only [List.length_cons, List.length_nil] at hl
  obtain rfl | rfl : k = 1 ∨ k = 2 := by omega
  · simp [validateUtf8, ha, hp1, hp0, WS_UTF8_ACCEPT, WS_UTF8_REJECT]
  · simp [validateUtf8, ha, hb, hp1, WS_UTF8_ACCEPT, WS_UTF8_REJECT]

private theorem charPath_four {a b c d : UInt8} {p : Nat} (hp : 3 ≤ p) (ha : utf8Next 0 a = p)
    (hb : utf8Next p b = 3) (hc : utf8Next 3 c = 2) (hd : utf8Next 2 d = 0) :
    CharPath [a, b, c, d] := by
  have hp1 : p ≠ 1 := by omega
  have hp0 : p ≠ 0 := by omega
  refine ⟨by simp, by
    simp [validateUtf8, ha, hb, hc, hd, hp1, WS_UTF8_ACCEPT, WS_UTF8_REJECT], ?_⟩
  intro k hk hl
  simp only [List.length_cons, List.length_nil] at hl
  obtain rfl | rfl | rfl : k = 1 ∨ k = 2 ∨ k = 3 := by omega
  · simp [validateUtf8, ha, hp1, hp0, WS_UTF8_ACCEPT, WS_UTF8_REJECT]
  · simp [validateUtf8, ha, hb, hp1, WS_UTF8_ACCEPT, WS_UTF8_REJECT]
  · simp [validateUtf8, ha, hb, hc, hp1, WS_UTF8_ACCEPT, WS_UTF8_REJECT]

theorem toNat_ofNat_of_le {n : Nat} (h : n ≤ 255) : (UInt8.ofNat n).toNat = n := by
  rw [UInt8.toNat_ofNat', Nat.mod_eq_of_lt (by omega)]

/-- Every encoded scalar value takes the automaton from acceptance to acceptance, through states
that are neither accepting nor rejecting. -/
theorem charPath_utf8EncodeChar (c : Char) : CharPath (String.utf8EncodeChar c) := by
  have hvalid : c.val.toNat < 0xD800 ∨ (0xDFFF < c.val.toNat ∧ c.val.toNat < 0x110000) := c.valid
  rw [String.utf8EncodeChar]
  generalize c.val.toNat = v at hvalid ⊢
  split_ifs with h1 h2 h3
  · apply charPath_one
    exact utf8Next_ascii (by rw [toNat_ofNat_of_le (by omega)]; omega)
  · apply charPath_two
    · exact utf8Next_lead2 (by rw [toNat_ofNat_of_le (by omega)]; omega)
    · exact (utf8Next_tail.1 (by rw [toNat_ofNat_of_le (by omega)]; omega)).1
  · have hlast : utf8Next 2 (UInt8.ofNat (v % 64 + 128)) = 0 :=
      (utf8Next_tail.1 (by rw [toNat_ofNat_of_le (by omega)]; omega)).1
    have hlead := utf8Next_lead3 (b := UInt8.ofNat (v / 4096 % 16 + 224))
      (by rw [toNat_ofNat_of_le (by omega)]; omega)
    rw [toNat_ofNat_of_le (by omega)] at hlead
    by_cases he0 : v / 4096 % 16 + 224 = 0xE0
    · rw [if_pos he0] at hlead
      exact charPath_three (by omega) hlead
        (utf8Next_tail.2.1 (by rw [toNat_ofNat_of_le (by omega)]; omega)) hlast
    · rw [if_neg he0] at hlead
      by_cases hed : v / 4096 % 16 + 224 = 0xED
      · rw [if_pos hed] at hlead
        exact charPath_three (by omega) hlead
          (utf8Next_tail.2.2.1 (by rw [toNat_ofNat_of_le (by omega)]; omega)) hlast
      · rw [if_neg hed] at hlead
        exact charPath_three (by omega) hlead
          (utf8Next_tail.1 (by rw [toNat_ofNat_of_le (by omega)]; omega)).2.1 hlast
  · have hlast : utf8Next 2 (UInt8.ofNat (v % 64 + 128)) = 0 :=
      (utf8Next_tail.1 (by rw [toNat_ofNat_of_le (by omega)]; omega)).1
    have hthird : utf8Next 3 (UInt8.ofNat (v / 64 % 64 + 128)) = 2 :=
      (utf8Next_tail.1 (by rw [toNat_ofNat_of_le (by omega)]; omega)).2.1
    have hlead := utf8Next_lead4 (b := UInt8.ofNat (v / 262144 % 8 + 240))
      (by rw [toNat_ofNat_of_le (by omega)]; omega)
    rw [toNat_ofNat_of_le (by omega)] at hlead
    by_cases hf0 : v / 262144 % 8 + 240 = 0xF0
    · rw [if_pos hf0] at hlead
      exact charPath_four (by omega) hlead
        (utf8Next_tail.2.2.2.1 (by rw [toNat_ofNat_of_le (by omega)]; omega)) hthird hlast
    · rw [if_neg hf0] at hlead
      by_cases hf4 : v / 262144 % 8 + 240 = 0xF4
      · rw [if_pos hf4] at hlead
        exact charPath_four (by omega) hlead
          (utf8Next_tail.2.2.2.2 (by rw [toNat_ofNat_of_le (by omega)]; omega)) hthird hlast
      · rw [if_neg hf4] at hlead
        exact charPath_four (by omega) hlead
          (utf8Next_tail.1 (by rw [toNat_ofNat_of_le (by omega)]; omega)).2.2 hthird hlast

/-- Valid text takes the automaton back to acceptance. -/
theorem validateUtf8_of_valid {s : Bytes} (h : ValidUtf8 s) :
    validateUtf8 WS_UTF8_ACCEPT s = WS_UTF8_ACCEPT := by
  obtain ⟨cs, rfl⟩ := h
  induction cs with
  | nil => rfl
  | cons c cs ih =>
    rw [List.flatMap_cons, validateUtf8_append, (charPath_utf8EncodeChar c).2.1, ih]

/-- On a prefix of valid text the automaton never rejects, and it accepts exactly the prefixes
that end between characters. -/
theorem validateUtf8_of_append {s t : Bytes} (h : ValidUtf8 (s ++ t)) :
    validateUtf8 WS_UTF8_ACCEPT s ≠ WS_UTF8_REJECT ∧
      (validateUtf8 WS_UTF8_ACCEPT s = WS_UTF8_ACCEPT ↔ ValidUtf8 s) := by
  obtain ⟨cs, hcs⟩ := h
  induction cs generalizing s with
  | nil =>
    have hs : s = [] := (List.append_eq_nil_iff.mp hcs).1
    subst hs
    exact ⟨by decide, fun _ => ⟨[], rfl⟩, fun _ => rfl⟩
  | cons c cs ih =>
    rw [List.flatMap_cons] at hcs
    obtain ⟨hne, hend, hmid⟩ := charPath_utf8EncodeChar c
    by_cases hshort : s.length < (String.utf8EncodeChar c).length
    · have hs : s = (String.utf8EncodeChar c).take s.length := by
        have ht := congrArg (List.take s.length) hcs
        rw [List.take_append_of_le_length (le_refl _), List.take_length,
          List.take_append_of_le_length (by omega)] at ht
        exact ht
      by_cases hz : s.length = 0
      · have hs0 : s = [] := List.length_eq_zero_iff.mp hz
        subst hs0
        exact ⟨by decide, fun _ => ⟨[], rfl⟩, fun _ => rfl⟩
      · obtain ⟨hacc, hrej⟩ := hmid s.length (by omega) hshort
        rw [← hs] at hacc hrej
        refine ⟨hrej, fun ha => absurd ha hacc, fun hv => ?_⟩
        exact validateUtf8_of_valid hv
    · obtain ⟨r, rfl⟩ : ∃ r, s = String.utf8EncodeChar c ++ r := by
        refine ⟨s.drop (String.utf8EncodeChar c).length, ?_⟩
        have ht := congrArg (List.take (String.utf8EncodeChar c).length) hcs
        rw [List.take_append_of_le_length (by omega),
          List.take_append_of_le_length (le_refl _), List.take_length] at ht
        conv_lhs => rw [← List.take_append_drop (String.utf8EncodeChar c).length s, ht]
      rw [List.append_assoc, List.append_cancel_left_eq] at hcs
      obtain ⟨hrej, hiff⟩ := ih hcs
      rw [validateUtf8_append, hend]
      refine ⟨hrej, fun ha => ?_, fun hv => ?_⟩
      · obtain ⟨ds, rfl⟩ := hiff.mp ha
        exact ⟨c :: ds, rfl⟩
      · have hv' := validateUtf8_of_valid hv
        rwa [validateUtf8_append, hend] at hv'

/-! ## What the automaton accepts -/

private theorem exists_char {v : Nat} (h : v < 0xD800 ∨ (0xDFFF < v ∧ v < 0x110000)) :
    ∃ c : Char, c.val.toNat = v := by
  have hv : (UInt32.ofNat v).toNat = v := by
    rw [UInt32.toNat_ofNat', Nat.mod_eq_of_lt (by omega)]
  refine ⟨⟨UInt32.ofNat v, ?_⟩, hv⟩
  rw [UInt32.isValidChar, hv]
  exact h

private theorem ofNat_eq {n : Nat} {a : UInt8} (h : n = a.toNat) : UInt8.ofNat n = a := by
  rw [h, UInt8.ofNat_toNat]

private theorem encode_one {a : UInt8} (ha : a.toNat ≤ 0x7F) :
    ∃ c : Char, String.utf8EncodeChar c = [a] := by
  obtain ⟨c, hc⟩ := exists_char (v := a.toNat) (by omega)
  refine ⟨c, ?_⟩
  rw [String.utf8EncodeChar, hc, if_pos ha, UInt8.ofNat_toNat]

private theorem encode_two {a b : UInt8} (ha : 0xC2 ≤ a.toNat ∧ a.toNat ≤ 0xDF)
    (hb : 0x80 ≤ b.toNat ∧ b.toNat ≤ 0xBF) : ∃ c : Char, String.utf8EncodeChar c = [a, b] := by
  obtain ⟨c, hc⟩ := exists_char (v := (a.toNat - 0xC0) * 64 + (b.toNat - 0x80)) (by omega)
  refine ⟨c, ?_⟩
  rw [String.utf8EncodeChar, hc, if_neg (by omega), if_pos (by omega),
    ofNat_eq (a := a) (by omega), ofNat_eq (a := b) (by omega)]

private theorem encode_three {a b d : UInt8} (ha : 0xE0 ≤ a.toNat ∧ a.toNat ≤ 0xEF)
    (hb : 0x80 ≤ b.toNat ∧ b.toNat ≤ 0xBF) (hd : 0x80 ≤ d.toNat ∧ d.toNat ≤ 0xBF)
    (hlow : a.toNat = 0xE0 → 0xA0 ≤ b.toNat) (hsur : a.toNat = 0xED → b.toNat ≤ 0x9F) :
    ∃ c : Char, String.utf8EncodeChar c = [a, b, d] := by
  obtain ⟨c, hc⟩ := exists_char
    (v := (a.toNat - 0xE0) * 4096 + (b.toNat - 0x80) * 64 + (d.toNat - 0x80)) (by omega)
  refine ⟨c, ?_⟩
  rw [String.utf8EncodeChar, hc, if_neg (by omega), if_neg (by omega), if_pos (by omega),
    ofNat_eq (a := a) (by omega), ofNat_eq (a := b) (by omega), ofNat_eq (a := d) (by omega)]

private theorem encode_four {a b d e : UInt8} (ha : 0xF0 ≤ a.toNat ∧ a.toNat ≤ 0xF4)
    (hb : 0x80 ≤ b.toNat ∧ b.toNat ≤ 0xBF) (hd : 0x80 ≤ d.toNat ∧ d.toNat ≤ 0xBF)
    (he : 0x80 ≤ e.toNat ∧ e.toNat ≤ 0xBF) (hlow : a.toNat = 0xF0 → 0x90 ≤ b.toNat)
    (hhigh : a.toNat = 0xF4 → b.toNat ≤ 0x8F) :
    ∃ c : Char, String.utf8EncodeChar c = [a, b, d, e] := by
  obtain ⟨c, hc⟩ := exists_char
    (v := (a.toNat - 0xF0) * 262144 + (b.toNat - 0x80) * 4096 + (d.toNat - 0x80) * 64 +
      (e.toNat - 0x80)) (by omega)
  refine ⟨c, ?_⟩
  rw [String.utf8EncodeChar, hc, if_neg (by omega), if_neg (by omega), if_neg (by omega),
    ofNat_eq (a := a) (by omega), ofNat_eq (a := b) (by omega), ofNat_eq (a := d) (by omega),
    ofNat_eq (a := e) (by omega)]

private theorem accepted_cons {p : Nat} {b : UInt8} {s : Bytes}
    (h : validateUtf8 p (b :: s) = WS_UTF8_ACCEPT) :
    utf8Next p b ≠ WS_UTF8_REJECT ∧ validateUtf8 (utf8Next p b) s = WS_UTF8_ACCEPT := by
  rw [validateUtf8] at h
  by_cases hr : utf8Next p b = WS_UTF8_REJECT
  · rw [if_pos hr] at h
    exact absurd h (by decide)
  · rw [if_neg hr] at h
    exact ⟨hr, h⟩

/-- From a state inside a character only a byte in that state's range is accepted. -/
theorem accepted_tail {p q lo hi : Nat} {s : Bytes} (hp : p ≠ WS_UTF8_ACCEPT)
    (hnext : ∀ b : UInt8,
      utf8Next p b = if lo ≤ b.toNat ∧ b.toNat ≤ hi then q else WS_UTF8_REJECT)
    (h : validateUtf8 p s = WS_UTF8_ACCEPT) :
    ∃ b t, s = b :: t ∧ (lo ≤ b.toNat ∧ b.toNat ≤ hi) ∧ validateUtf8 q t = WS_UTF8_ACCEPT := by
  cases s with
  | nil => exact absurd h hp
  | cons b t =>
    obtain ⟨hne, ht⟩ := accepted_cons h
    rw [hnext] at hne ht
    by_cases hb : lo ≤ b.toNat ∧ b.toNat ≤ hi
    · rw [if_pos hb] at ht
      exact ⟨b, t, rfl, hb, ht⟩
    · rw [if_neg hb] at hne
      exact absurd rfl hne

/-- A text that starts with an encoded character and is accepted after it. -/
def StartsChar (s : Bytes) : Prop :=
  ∃ c t, s = String.utf8EncodeChar c ++ t ∧ validateUtf8 WS_UTF8_ACCEPT t = WS_UTF8_ACCEPT

theorem StartsChar.intro {s t : Bytes} (h : ∃ c : Char, String.utf8EncodeChar c = s)
    (ht : validateUtf8 WS_UTF8_ACCEPT t = WS_UTF8_ACCEPT) : StartsChar (s ++ t) := by
  obtain ⟨c, rfl⟩ := h
  exact ⟨c, t, rfl, ht⟩

private theorem startsChar_two {a : UInt8} {s : Bytes} (ha : 0xC2 ≤ a.toNat ∧ a.toNat ≤ 0xDF)
    (h : validateUtf8 2 s = WS_UTF8_ACCEPT) : StartsChar (a :: s) := by
  obtain ⟨b, t, rfl, hb, ht⟩ := accepted_tail (by decide) (fun b => (utf8Next_inside b).1) h
  exact StartsChar.intro (encode_two ha hb) ht

/-- A three byte character, whose lead byte `a` leaves the range `lo` to `hi` to the second. -/
theorem startsChar_three {a : UInt8} {s : Bytes} {p lo hi : Nat} (hp : p ≠ WS_UTF8_ACCEPT)
    (hnext : ∀ b : UInt8,
      utf8Next p b = if lo ≤ b.toNat ∧ b.toNat ≤ hi then 2 else WS_UTF8_REJECT)
    (ha : 0xE0 ≤ a.toNat ∧ a.toNat ≤ 0xEF) (hrange : 0x80 ≤ lo ∧ hi ≤ 0xBF)
    (hlow : a.toNat = 0xE0 → 0xA0 ≤ lo) (hsur : a.toNat = 0xED → hi ≤ 0x9F)
    (h : validateUtf8 p s = WS_UTF8_ACCEPT) : StartsChar (a :: s) := by
  obtain ⟨b, u, rfl, hb, hu⟩ := accepted_tail hp hnext h
  obtain ⟨d, t, rfl, hd, ht⟩ := accepted_tail (by decide) (fun b => (utf8Next_inside b).1) hu
  exact StartsChar.intro (encode_three ha (b := b) (by omega) hd (by omega) (by omega)) ht

/-- A four byte character, whose lead byte `a` leaves the range `lo` to `hi` to the second. -/
theorem startsChar_four {a : UInt8} {s : Bytes} {p lo hi : Nat} (hp : p ≠ WS_UTF8_ACCEPT)
    (hnext : ∀ b : UInt8,
      utf8Next p b = if lo ≤ b.toNat ∧ b.toNat ≤ hi then 3 else WS_UTF8_REJECT)
    (ha : 0xF0 ≤ a.toNat ∧ a.toNat ≤ 0xF4) (hrange : 0x80 ≤ lo ∧ hi ≤ 0xBF)
    (hlow : a.toNat = 0xF0 → 0x90 ≤ lo) (hhigh : a.toNat = 0xF4 → hi ≤ 0x8F)
    (h : validateUtf8 p s = WS_UTF8_ACCEPT) : StartsChar (a :: s) := by
  obtain ⟨b, u, rfl, hb, hu⟩ := accepted_tail hp hnext h
  obtain ⟨d, v, rfl, hd, hv⟩ := accepted_tail (by decide) (fun b => (utf8Next_inside b).2.1) hu
  obtain ⟨e, t, rfl, he, ht⟩ := accepted_tail (by decide) (fun b => (utf8Next_inside b).1) hv
  exact StartsChar.intro (encode_four ha (b := b) (by omega) hd he (by omega) (by omega)) ht

/-- An accepted text that is not empty starts with one encoded character. -/
theorem startsChar_of_accepted {a : UInt8} {s : Bytes}
    (h : validateUtf8 WS_UTF8_ACCEPT (a :: s) = WS_UTF8_ACCEPT) : StartsChar (a :: s) := by
  have hs := (accepted_cons h).2
  rw [WS_UTF8_ACCEPT, utf8Next_accept, ← WS_UTF8_ACCEPT] at hs
  split at hs
  case isTrue ha => exact StartsChar.intro (encode_one ha) hs
  split at hs
  case isTrue ha => exact startsChar_two ha hs
  split at hs
  case isTrue ha =>
    exact startsChar_three (by decide) (fun b => (utf8Next_inside b).2.2.1) (by omega)
      (by omega) (by omega) (by omega) hs
  split at hs
  case isTrue ha =>
    exact startsChar_three (by decide) (fun b => (utf8Next_inside b).2.2.2.1) (by omega)
      (by omega) (by omega) (by omega) hs
  split at hs
  case isTrue ha =>
    exact startsChar_three (by decide) (fun b => (utf8Next_inside b).2.1) (by omega)
      (by omega) (by omega) (by omega) hs
  split at hs
  case isTrue ha =>
    exact startsChar_four (by decide) (fun b => (utf8Next_inside b).2.2.2.2.1) (by omega)
      (by omega) (by omega) (by omega) hs
  split at hs
  case isTrue ha =>
    exact startsChar_four (by decide) (fun b => (utf8Next_inside b).2.2.2.2.2.2) (by omega)
      (by omega) (by omega) (by omega) hs
  split at hs
  case isTrue ha =>
    exact startsChar_four (by decide) (fun b => (utf8Next_inside b).2.2.2.2.2.1) (by omega)
      (by omega) (by omega) (by omega) hs
  case isFalse => exact absurd ((validateUtf8_reject s).symm.trans hs) (by decide)

/-- The automaton accepts exactly the encodings of Unicode text. -/
theorem validateUtf8_iff (s : Bytes) :
    validateUtf8 WS_UTF8_ACCEPT s = WS_UTF8_ACCEPT ↔ ValidUtf8 s := by
  refine ⟨fun h => ?_, validateUtf8_of_valid⟩
  induction hn : s.length using Nat.strong_induction_on generalizing s with
  | _ n ih =>
    cases s with
    | nil => exact ⟨[], rfl⟩
    | cons a s =>
      obtain ⟨c, t, hs, ht⟩ := startsChar_of_accepted h
      have hlt : t.length < n := by
        have hpos := String.length_utf8EncodeChar c
        have hc := c.utf8Size_pos
        have hlen := congrArg List.length hs
        rw [List.length_append] at hlen
        omega
      obtain ⟨cs, hcs⟩ := ih t.length hlt t ht rfl
      exact ⟨c :: cs, by rw [hs, hcs]; rfl⟩

/-! ## What can still be completed -/

private theorem utf8Next_le (p : Nat) (b : UInt8) : utf8Next p b ≤ 8 := by
  have hall : ((utf8d.drop 256).all fun x => decide (x ≤ 8)) = true := rfl
  rw [utf8Next, Nat.add_assoc, List.getD_eq_getElem?_getD, ← List.getElem?_drop]
  cases hx : (utf8d.drop 256)[p * 16 + utf8Type b]? with
  | none => exact Nat.zero_le _
  | some x => exact of_decide_eq_true (List.all_eq_true.mp hall x (List.mem_of_getElem? hx))

private theorem validateUtf8_le {p : Nat} (hp : p ≤ 8) (s : Bytes) : validateUtf8 p s ≤ 8 := by
  induction s generalizing p with
  | nil => exact hp
  | cons b s ih =>
    rw [validateUtf8]
    split
    · decide
    · exact ih (utf8Next_le p b)

/-- From every state but the rejecting one some bytes lead back to acceptance. -/
theorem exists_accepted {p : Nat} (hp : p ≤ 8) (hr : p ≠ WS_UTF8_REJECT) :
    ∃ t, validateUtf8 p t = WS_UTF8_ACCEPT := by
  have hp' : p = 0 ∨ p = 2 ∨ p = 3 ∨ p = 4 ∨ p = 5 ∨ p = 6 ∨ p = 7 ∨ p = 8 := by
    have h1 : p ≠ 1 := hr
    omega
  rcases hp' with rfl | rfl | rfl | rfl | rfl | rfl | rfl | rfl
  · exact ⟨[], rfl⟩
  · exact ⟨[0x80], rfl⟩
  · exact ⟨[0x80, 0x80], rfl⟩
  · exact ⟨[0xA0, 0x80], rfl⟩
  · exact ⟨[0x80, 0x80], rfl⟩
  · exact ⟨[0x90, 0x80, 0x80], rfl⟩
  · exact ⟨[0x80, 0x80, 0x80], rfl⟩
  · exact ⟨[0x80, 0x80, 0x80], rfl⟩

/-- A text is rejected exactly when nothing that could follow makes it valid. -/
theorem validateUtf8_eq_reject (s : Bytes) :
    validateUtf8 WS_UTF8_ACCEPT s = WS_UTF8_REJECT ↔ ∀ t, ¬ ValidUtf8 (s ++ t) := by
  constructor
  · intro h t hv
    exact (validateUtf8_of_append hv).1 h
  · intro h
    by_contra hr
    obtain ⟨t, ht⟩ := exists_accepted (validateUtf8_le (by decide) s) hr
    apply h t
    rw [← validateUtf8_iff, validateUtf8_append, ht]

/-- `ValidateUtf8` decides the encodings of Unicode text, rejects as soon as no continuation is
one, and resumes at every split. -/
theorem validateUtf8_decides (s : Bytes) :
    (validateUtf8 WS_UTF8_ACCEPT s = WS_UTF8_ACCEPT ↔ ValidUtf8 s) ∧
      (validateUtf8 WS_UTF8_ACCEPT s = WS_UTF8_REJECT ↔ ∀ t, ¬ ValidUtf8 (s ++ t)) ∧
      ∀ a b, s = a ++ b →
        validateUtf8 (validateUtf8 WS_UTF8_ACCEPT a) b = validateUtf8 WS_UTF8_ACCEPT s := by
  refine ⟨validateUtf8_iff s, validateUtf8_eq_reject s, ?_⟩
  rintro a b rfl
  exact (validateUtf8_append WS_UTF8_ACCEPT a b).symm

end CppImprovement.Ws

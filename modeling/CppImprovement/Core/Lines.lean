import CppImprovement.Core.Bytes

/-!
# Lines of a byte buffer

A line ends at a line feed, and one carriage return before it belongs to the
line end. `readln` takes the first line off a buffer, or nothing while the line
feed has not arrived. Appending bytes never changes a line that is already
complete.
-/

namespace CppImprovement

/-- Line feed. -/
def LF : UInt8 := 10

/-- Carriage return. -/
def CR : UInt8 := 13

/-- Split a buffer at its first line feed. -/
def splitLF : Bytes → Option (Bytes × Bytes)
  | [] => none
  | b :: rest => if b = LF then some ([], rest) else (splitLF rest).map fun p => (b :: p.1, p.2)

/-- Drop one trailing carriage return. -/
def dropCR (line : Bytes) : Bytes := if line.getLast? = some CR then line.dropLast else line

/-- Take the first line off a buffer, without its line end. -/
def readln (b : Bytes) : Option (Bytes × Bytes) := (splitLF b).map fun p => (dropCR p.1, p.2)

/-- The split is exact: the line holds no line feed, and one stands between line and rest. -/
theorem splitLF_eq_some {b l r : Bytes} : splitLF b = some (l, r) ↔ b = l ++ LF :: r ∧ LF ∉ l := by
  induction b generalizing l with
  | nil => simp [splitLF]
  | cons x xs ih =>
    rw [splitLF]
    by_cases hx : x = LF
    · subst hx
      rw [if_pos rfl]
      cases l with
      | nil => simp
      | cons y ys =>
        simp only [Option.some.injEq, Prod.mk.injEq, List.nil_eq, reduceCtorEq, false_and,
          List.cons_append, List.cons.injEq, List.mem_cons, not_or, false_iff, not_and]
        rintro ⟨rfl, -⟩ h
        exact absurd rfl h
    · rw [if_neg hx]
      cases l with
      | nil => simp [hx]
      | cons y ys =>
        simp only [Option.map_eq_some_iff, Prod.exists, Prod.mk.injEq, List.cons.injEq,
          List.cons_append, List.mem_cons, not_or]
        constructor
        · rintro ⟨a, c, h, ⟨rfl, rfl⟩, rfl⟩
          obtain ⟨rfl, hn⟩ := ih.mp h
          exact ⟨⟨rfl, rfl⟩, Ne.symm hx, hn⟩
        · rintro ⟨⟨rfl, rfl⟩, -, hn⟩
          exact ⟨ys, r, ih.mpr ⟨rfl, hn⟩, ⟨rfl, rfl⟩, rfl⟩

/-- A complete line is not changed by bytes that arrive after it. -/
theorem readln_append {b l r : Bytes} (h : readln b = some (l, r)) (more : Bytes) :
    readln (b ++ more) = some (l, r ++ more) := by
  obtain ⟨⟨l', r'⟩, hs, he⟩ := Option.map_eq_some_iff.mp h
  obtain ⟨rfl, hn⟩ := splitLF_eq_some.mp hs
  obtain ⟨rfl, rfl⟩ := Prod.mk.inj he
  have hs' : splitLF ((l' ++ LF :: r') ++ more) = some (l', r' ++ more) :=
    splitLF_eq_some.mpr ⟨by simp, hn⟩
  rw [readln, hs']
  rfl

/-- Reading a line consumes at least its line feed. -/
theorem readln_length_lt {b l r : Bytes} (h : readln b = some (l, r)) : r.length < b.length := by
  obtain ⟨⟨l', r'⟩, hs, he⟩ := Option.map_eq_some_iff.mp h
  obtain ⟨rfl, -⟩ := splitLF_eq_some.mp hs
  obtain ⟨-, rfl⟩ := Prod.mk.inj he
  simp only [List.length_append, List.length_cons]
  omega

/-! ## Successive lines -/

/-- Reading the lines `ls` off `b`, one after the other, leaves `r`. -/
def ReadLines : Bytes → List Bytes → Bytes → Prop
  | b, [], r => b = r
  | b, l :: ls, r => ∃ b', readln b = some (l, b') ∧ ReadLines b' ls r

instance ReadLines.decidable : ∀ (b : Bytes) (ls : List Bytes) (r : Bytes),
    Decidable (ReadLines b ls r)
  | b, [], r => inferInstanceAs (Decidable (b = r))
  | b, l :: ls, r =>
    match h : readln b with
    | none => isFalse fun ⟨_, h', _⟩ => Option.some_ne_none _ (h'.symm.trans h)
    | some (l', b') =>
      have := ReadLines.decidable b' ls r
      decidable_of_iff (l' = l ∧ ReadLines b' ls r)
        ⟨fun ⟨hl, hr⟩ => ⟨b', hl ▸ h, hr⟩, fun ⟨m, hm, hr⟩ => by
          obtain ⟨rfl, rfl⟩ := Prod.mk.inj (Option.some.inj (h.symm.trans hm))
          exact ⟨rfl, hr⟩⟩

namespace ReadLines

/-- What has been read stays read when more bytes arrive. -/
theorem append {b r : Bytes} {ls : List Bytes} (h : ReadLines b ls r) (more : Bytes) :
    ReadLines (b ++ more) ls (r ++ more) := by
  induction ls generalizing b with
  | nil => exact congrArg (· ++ more) h
  | cons l ls ih =>
    obtain ⟨b', hb, h'⟩ := h
    exact ⟨b' ++ more, readln_append hb more, ih h'⟩

/-- Reading in two goes reads both lists of lines. -/
theorem trans {b m r : Bytes} {ls ls' : List Bytes} (h : ReadLines b ls m)
    (h' : ReadLines m ls' r) : ReadLines b (ls ++ ls') r := by
  induction ls generalizing b with
  | nil =>
    obtain rfl : b = m := h
    exact h'
  | cons l ls ih =>
    obtain ⟨b', hb, ht⟩ := h
    exact ⟨b', hb, ih ht⟩

/-- Every line takes at least its line end. -/
theorem length_le {b r : Bytes} {ls : List Bytes} (h : ReadLines b ls r) :
    r.length + ls.length ≤ b.length := by
  induction ls generalizing b with
  | nil =>
    obtain rfl : b = r := h
    exact le_rfl
  | cons l ls ih =>
    obtain ⟨b', hb, ht⟩ := h
    have hlt := readln_length_lt hb
    have hle := ih ht
    simp only [List.length_cons]
    omega

/-- The bytes read determine the lines. -/
theorem unique {b r : Bytes} {ls ls' : List Bytes} (h : ReadLines b ls r)
    (h' : ReadLines b ls' r) : ls = ls' := by
  induction ls generalizing b ls' with
  | nil =>
    obtain rfl : b = r := h
    have hle := length_le h'
    exact (List.length_eq_zero_iff.mp (by omega)).symm
  | cons l ls ih =>
    cases ls' with
    | nil =>
      obtain rfl : b = r := h'
      have hle := length_le h
      simp only [List.length_cons] at hle
      omega
    | cons l' ls' =>
      obtain ⟨m, hb, ht⟩ := h
      obtain ⟨m', hb', ht'⟩ := h'
      obtain ⟨rfl, rfl⟩ := Prod.mk.inj (Option.some.inj (hb.symm.trans hb'))
      rw [ih ht ht']

/-- The lines read determine what is left. -/
theorem rest_unique {b r r' : Bytes} {ls : List Bytes} (h : ReadLines b ls r)
    (h' : ReadLines b ls r') : r = r' := by
  induction ls generalizing b with
  | nil =>
    obtain rfl : b = r := h
    exact h'
  | cons l ls ih =>
    obtain ⟨m, hb, ht⟩ := h
    obtain ⟨m', hb', ht'⟩ := h'
    obtain ⟨-, rfl⟩ := Prod.mk.inj (Option.some.inj (hb.symm.trans hb'))
    exact ih ht ht'

/-- The bytes of some lines can be read on their own. -/
theorem split {b r : Bytes} {ls ls' : List Bytes} (h : ReadLines b (ls ++ ls') r) :
    ∃ b₁ b₂, b = b₁ ++ b₂ ∧ ReadLines b₁ ls [] ∧ ReadLines b₂ ls' r := by
  induction ls generalizing b with
  | nil => exact ⟨[], b, rfl, rfl, h⟩
  | cons l ls ih =>
    obtain ⟨b', hb, ht⟩ := h
    obtain ⟨b₁, b₂, rfl, h₁, h₂⟩ := ih ht
    obtain ⟨⟨l', r'⟩, hs, he⟩ := Option.map_eq_some_iff.mp hb
    obtain ⟨rfl, hn⟩ := splitLF_eq_some.mp hs
    obtain ⟨rfl, rfl⟩ := Prod.mk.inj he
    have hs' : splitLF (l' ++ LF :: b₁) = some (l', b₁) := splitLF_eq_some.mpr ⟨rfl, hn⟩
    refine ⟨l' ++ LF :: b₁, b₂, by simp, ⟨b₁, ?_, h₁⟩, h₂⟩
    rw [readln, hs']
    rfl

end ReadLines

/-! ## All lines -/

/-- The complete lines of a buffer, and the bytes of the line that has not ended. -/
def splitLines (b : Bytes) : List Bytes × Bytes :=
  match h : readln b with
  | none => ([], b)
  | some (l, b') =>
    have := readln_length_lt h
    (l :: (splitLines b').1, (splitLines b').2)
termination_by b.length

/-- Without a line end all of the text is left. -/
theorem splitLines_of_none {b : Bytes} (h : readln b = none) : splitLines b = ([], b) := by
  rw [splitLines]
  split
  · rfl
  · rename_i h'
    rw [h] at h'
    cases h'

/-- The first line and those behind it. -/
theorem splitLines_of_some {b l b' : Bytes} (h : readln b = some (l, b')) :
    splitLines b = (l :: (splitLines b').1, (splitLines b').2) := by
  rw [splitLines]
  split
  · rename_i h'
    rw [h] at h'
    cases h'
  · rename_i h'
    obtain ⟨rfl, rfl⟩ := Prod.mk.inj (Option.some.inj (h.symm.trans h'))
    rfl

/-- The complete lines are those that can be read until none is left. -/
theorem splitLines_eq {b r : Bytes} {ls : List Bytes} (h : ReadLines b ls r)
    (hr : readln r = none) : splitLines b = (ls, r) := by
  induction ls generalizing b with
  | nil =>
    obtain rfl : b = r := h
    exact splitLines_of_none hr
  | cons l ls ih =>
    obtain ⟨b', hb, ht⟩ := h
    rw [splitLines_of_some hb, ih ht]

/-- A text is split into its lines and a rest without a line end. -/
theorem splitLines_spec (b : Bytes) :
    ReadLines b (splitLines b).1 (splitLines b).2 ∧ readln (splitLines b).2 = none := by
  fun_induction splitLines b with
  | case1 b h => exact ⟨rfl, h⟩
  | case2 b l b' h _ ih => exact ⟨⟨b', h, ih.1⟩, ih.2⟩

/-- Bytes that arrive later complete the line that has not ended, and add their own lines. -/
theorem splitLines_append (b more : Bytes) :
    splitLines (b ++ more) =
      ((splitLines b).1 ++ (splitLines ((splitLines b).2 ++ more)).1,
        (splitLines ((splitLines b).2 ++ more)).2) := by
  obtain ⟨hb, -⟩ := splitLines_spec b
  obtain ⟨hm, hend⟩ := splitLines_spec ((splitLines b).2 ++ more)
  exact splitLines_eq ((hb.append more).trans hm) hend

end CppImprovement

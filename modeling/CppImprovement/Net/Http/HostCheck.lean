import CppImprovement.Core.Bytes

/-!
# The hostname matcher

`Curl_cert_hostcheck` compares the name in a certificate with the name of the host,
without regard to the case of ASCII letters. A pattern with a wildcard in its first
label stands for every host whose first label begins and ends as the pattern's does
and has something in between. Pointers into a string are its suffixes or offsets
into it; a C string ends at its first NUL or at the end of its list.
-/

namespace CppImprovement.Http

/-- A string that a C string can hold. -/
abbrev CString := { s : Bytes // (0 : UInt8) ∉ s }

def CURL_HOST_NOMATCH : Nat := 0
def CURL_HOST_MATCH : Nat := 1

/-- The wildcard. -/
def STAR : UInt8 := 42

/-- The dot between two labels. -/
def DOT : UInt8 := 46

/-! ## The matcher -/

/-- The character a pointer points to. -/
def deref : Bytes → UInt8
  | [] => 0
  | c :: _ => c

/-- `Curl_raw_toupper`. -/
def curlRawToupper (c : UInt8) : UInt8 := if 97 ≤ c ∧ c ≤ 122 then c - 32 else c

/-- `Curl_raw_equal`. -/
def curlRawEqual : Bytes → Bytes → Bool
  | a :: first, b :: second =>
    if a ≠ 0 ∧ b ≠ 0 ∧ curlRawToupper a = curlRawToupper b then curlRawEqual first second
    else curlRawToupper a == curlRawToupper b
  | first, second => curlRawToupper (deref first) == curlRawToupper (deref second)

/-- `Curl_raw_nequal`. -/
def curlRawNequal : Bytes → Bytes → Nat → Bool
  | _, _, 0 => true
  | a :: first, b :: second, max + 1 =>
    if a ≠ 0 ∧ b ≠ 0 ∧ curlRawToupper a = curlRawToupper b then curlRawNequal first second max
    else curlRawToupper a == curlRawToupper b
  | first, second, _ => curlRawToupper (deref first) == curlRawToupper (deref second)

/-- `strchr`: the offset of the first `c` in a C string. -/
def strchr : Bytes → UInt8 → Option Nat
  | [], c => if c = 0 then some 0 else none
  | b :: s, c => if b = c then some 0 else if b = 0 then none else (strchr s c).map (· + 1)

/-- The test that two strings are equal up to case. -/
def equalMatch (pattern hostname : Bytes) : Nat :=
  if curlRawEqual pattern hostname then CURL_HOST_MATCH else CURL_HOST_NOMATCH

/-- The comparison of `hostmatch` for a wildcard at `wildcard` and labels that end at
`patternLabelEnd` and `hostnameLabelEnd`. -/
def labelMatch (hostname pattern : Bytes) (wildcard patternLabelEnd hostnameLabelEnd : Nat) : Nat :=
  if !curlRawEqual (pattern.drop patternLabelEnd) (hostname.drop hostnameLabelEnd) then
    CURL_HOST_NOMATCH
  else if hostnameLabelEnd < patternLabelEnd then CURL_HOST_NOMATCH
  else
    let prefixlen := wildcard
    let suffixlen := patternLabelEnd - (wildcard + 1)
    if curlRawNequal pattern hostname prefixlen &&
        curlRawNequal (pattern.drop (wildcard + 1)) (hostname.drop (hostnameLabelEnd - suffixlen))
          suffixlen then
      CURL_HOST_MATCH
    else CURL_HOST_NOMATCH

/-- `hostmatch`. -/
def hostmatch (hostname pattern : Bytes) : Nat :=
  match strchr pattern STAR with
  | none => equalMatch pattern hostname
  | some wildcard =>
    match strchr pattern DOT with
    | none => equalMatch pattern hostname
    | some patternLabelEnd =>
      if strchr (pattern.drop (patternLabelEnd + 1)) DOT = none ∨ patternLabelEnd < wildcard ∨
          curlRawNequal pattern (ascii "xn--") 4 then
        equalMatch pattern hostname
      else
        match strchr hostname DOT with
        | none => CURL_HOST_NOMATCH
        | some hostnameLabelEnd =>
          labelMatch hostname pattern wildcard patternLabelEnd hostnameLabelEnd

/-- `Curl_cert_hostcheck`; `none` is a null pointer. -/
def curlCertHostcheck : Option Bytes → Option Bytes → Nat
  | some matchPattern, some hostname =>
    if deref matchPattern = 0 ∨ deref hostname = 0 then 0
    else if curlRawEqual hostname matchPattern then 1
    else if hostmatch hostname matchPattern = CURL_HOST_MATCH then 1
    else 0
  | _, _ => 0

/-! ## Comparisons -/

/-- Equal up to the case of ASCII letters. -/
def CaseEq (x y : Bytes) : Prop := x.map curlRawToupper = y.map curlRawToupper

instance (x y : Bytes) : Decidable (CaseEq x y) :=
  inferInstanceAs (Decidable (x.map curlRawToupper = y.map curlRawToupper))

/-- `Curl_raw_toupper` gives the upper case letter of ASCII. -/
private theorem ofUInt8_curlRawToupper (c : UInt8) :
    Char.ofUInt8 (curlRawToupper c) = (Char.ofUInt8 c).toUpper := by
  have hall : ∀ n : Fin 256, Char.ofUInt8 (curlRawToupper (.ofFin n)) =
      (Char.ofUInt8 (.ofFin n)).toUpper := by decide +kernel
  exact hall c.toFin

/-- Read as characters, the two texts have the same upper case. -/
theorem caseEq_iff_toUpper {x y : Bytes} :
    CaseEq x y ↔
      x.map (fun c => (Char.ofUInt8 c).toUpper) = y.map fun c => (Char.ofUInt8 c).toUpper := by
  have hinj : ∀ a b, Char.ofUInt8 a = Char.ofUInt8 b → a = b := fun a b h => by
    have hval : a.toUInt32 = b.toUInt32 := congrArg Char.val h
    exact UInt8.toNat_inj.mp (congrArg UInt32.toNat hval)
  simp only [← ofUInt8_curlRawToupper]
  refine (List.map_inj_right hinj).symm.trans ?_
  rw [List.map_map, List.map_map]
  rfl

theorem CaseEq.length_eq {x y : Bytes} (h : CaseEq x y) : x.length = y.length := by
  simpa using congrArg List.length h

theorem CaseEq.symm {x y : Bytes} (h : CaseEq x y) : CaseEq y x := Eq.symm h

private theorem caseEq_cons {a b : UInt8} {x y : Bytes} :
    CaseEq (a :: x) (b :: y) ↔ curlRawToupper a = curlRawToupper b ∧ CaseEq x y := by
  simp [CaseEq]

/-- A character without case is equal to no other one. -/
theorem curlRawToupper_eq {c d : UInt8} (hd : ¬ (65 ≤ d ∧ d ≤ 90) ∧ ¬ (97 ≤ d ∧ d ≤ 122)) :
    curlRawToupper c = curlRawToupper d ↔ c = d := by
  rw [curlRawToupper, curlRawToupper, if_neg hd.2]
  by_cases hc : 97 ≤ c ∧ c ≤ 122
  · have hsub : (c - 32).toNat = c.toNat - 32 :=
      UInt8.toNat_sub_of_le c 32 (UInt8.le_trans (by decide) hc.1)
    have h1 : 97 ≤ c.toNat := UInt8.le_iff_toNat_le.mp hc.1
    have h2 : c.toNat ≤ 122 := UInt8.le_iff_toNat_le.mp hc.2
    rw [if_pos hc]
    constructor
    · rintro rfl
      refine absurd ⟨UInt8.le_iff_toNat_le.mpr ?_, UInt8.le_iff_toNat_le.mpr ?_⟩ hd.1
      · rw [hsub]
        exact Nat.le_sub_of_add_le h1
      · rw [hsub]
        exact Nat.sub_le_of_le_add h2
    · rintro rfl
      exact absurd hc hd.2
  · rw [if_neg hc]

/-- Equal strings have the same dots and wildcards. -/
theorem CaseEq.mem_iff {x y : Bytes} (h : CaseEq x y) {d : UInt8}
    (hd : ¬ (65 ≤ d ∧ d ≤ 90) ∧ ¬ (97 ≤ d ∧ d ≤ 122)) : d ∈ x ↔ d ∈ y := by
  have hmap : ∀ z : Bytes, d ∈ z ↔ curlRawToupper d ∈ z.map curlRawToupper := by
    intro z
    rw [List.mem_map]
    constructor
    · exact fun hm => ⟨d, hm, rfl⟩
    · rintro ⟨c, hc, he⟩
      rwa [← (curlRawToupper_eq hd).mp he]
  rw [hmap x, hmap y, h]

private theorem curlRawToupper_eq_zero {c : UInt8} : curlRawToupper c = 0 ↔ c = 0 :=
  curlRawToupper_eq (d := 0) (by decide)

private theorem deref_take {n : Nat} (hn : ∃ m, n = m + 1) (x : Bytes) :
    deref (x.take n) = deref x := by
  obtain ⟨m, rfl⟩ := hn
  cases x with
  | nil => rfl
  | cons a x => rfl

/-- Where one of two strings has ended, the last comparison says whether both have. -/
theorem deref_caseEq {x y : Bytes} (hx : (0 : UInt8) ∉ x) (hy : (0 : UInt8) ∉ y)
    (h : x = [] ∨ y = []) :
    (curlRawToupper (deref x) == curlRawToupper (deref y)) = true ↔ CaseEq x y := by
  rw [beq_iff_eq]
  cases x with
  | nil =>
    cases y with
    | nil => simp [CaseEq]
    | cons b y =>
      rw [List.mem_cons, not_or] at hy
      have hb : curlRawToupper 0 ≠ curlRawToupper b :=
        fun he => hy.1 (curlRawToupper_eq_zero.mp he.symm).symm
      simp [CaseEq, deref, hb]
  | cons a x =>
    obtain rfl : y = [] := h.resolve_left (List.cons_ne_nil a x)
    rw [List.mem_cons, not_or] at hx
    have ha : curlRawToupper a ≠ curlRawToupper 0 :=
      fun he => hx.1 (curlRawToupper_eq_zero.mp he).symm
    simp [CaseEq, deref, ha]

/-- `Curl_raw_equal` compares whole C strings. -/
theorem curlRawEqual_iff {x y : Bytes} (hx : (0 : UInt8) ∉ x) (hy : (0 : UInt8) ∉ y) :
    curlRawEqual x y = true ↔ CaseEq x y := by
  fun_induction curlRawEqual x y with
  | case1 a first b second h ih =>
    rw [List.mem_cons, not_or] at hx hy
    rw [ih hx.2 hy.2, caseEq_cons, and_iff_right h.2.2]
  | case2 a first b second h =>
    rw [List.mem_cons, not_or] at hx hy
    have hne : curlRawToupper a ≠ curlRawToupper b :=
      fun he => h ⟨Ne.symm hx.1, Ne.symm hy.1, he⟩
    rw [beq_iff_eq, caseEq_cons]
    exact ⟨fun he => absurd he hne, fun he => absurd he.1 hne⟩
  | case3 x y h =>
    apply deref_caseEq hx hy
    cases x with
    | nil => exact Or.inl rfl
    | cons a x =>
      cases y with
      | nil => exact Or.inr rfl
      | cons b y => exact (h a x b y rfl rfl).elim

/-- `Curl_raw_nequal` compares the first characters of C strings. -/
theorem curlRawNequal_iff {x y : Bytes} (hx : (0 : UInt8) ∉ x) (hy : (0 : UInt8) ∉ y) (n : Nat) :
    curlRawNequal x y n = true ↔ CaseEq (x.take n) (y.take n) := by
  fun_induction curlRawNequal x y n with
  | case1 x y => simp [CaseEq]
  | case2 a first b second n h ih =>
    rw [List.mem_cons, not_or] at hx hy
    rw [ih hx.2 hy.2, List.take_succ_cons, List.take_succ_cons, caseEq_cons, and_iff_right h.2.2]
  | case3 a first b second n h =>
    rw [List.mem_cons, not_or] at hx hy
    have hne : curlRawToupper a ≠ curlRawToupper b :=
      fun he => h ⟨Ne.symm hx.1, Ne.symm hy.1, he⟩
    rw [beq_iff_eq, List.take_succ_cons, List.take_succ_cons, caseEq_cons]
    exact ⟨fun he => absurd he hne, fun he => absurd he.1 hne⟩
  | case4 x y n hn h =>
    have hne : ∃ m, n = m + 1 := Nat.exists_eq_add_one_of_ne_zero hn
    rw [← deref_take hne x, ← deref_take hne y]
    apply deref_caseEq (fun hm => hx (List.mem_of_mem_take hm))
      (fun hm => hy (List.mem_of_mem_take hm))
    cases x with
    | nil => exact Or.inl List.take_nil
    | cons a x =>
      cases y with
      | nil => exact Or.inr List.take_nil
      | cons b y =>
        obtain ⟨m, rfl⟩ := hne
        exact (h a x b y m rfl rfl rfl).elim

/-! ## Positions -/

/-- `strchr` finds the first occurrence. -/
theorem strchr_append {u v : Bytes} {c : UInt8} (hu : c ∉ u) (hz : (0 : UInt8) ∉ u) :
    strchr (u ++ c :: v) c = some u.length := by
  induction u with
  | nil => simp [strchr]
  | cons b u ih =>
    rw [List.mem_cons, not_or] at hu hz
    rw [List.cons_append, strchr, if_neg (Ne.symm hu.1), if_neg (Ne.symm hz.1), ih hu.2 hz.2]
    rfl

private theorem strchr_eq_none {s : Bytes} {c : UInt8} (hc : c ≠ 0) (hs : c ∉ s) :
    strchr s c = none := by
  induction s with
  | nil => rw [strchr, if_neg hc]
  | cons b s ih =>
    rw [List.mem_cons, not_or] at hs
    rw [strchr, if_neg (Ne.symm hs.1), ih hs.2]
    simp

/-! ## The rule -/

/-- A pattern whose wildcard counts: it stands in the first label, two labels follow, and the
name is not an internationalised one. -/
structure Wildcard (p a b r : Bytes) : Prop where
  pattern : p = a ++ STAR :: (b ++ r)
  first : STAR ∉ a
  left : DOT ∉ a
  right : DOT ∉ b
  labels : ∃ u, r = DOT :: u ∧ DOT ∈ u
  plain : ¬ CaseEq (p.take 4) (ascii "xn--")

/-- A host that a pattern with a wildcard stands for. -/
structure Stands (h a b r a' m b' r' : Bytes) : Prop where
  host : h = a' ++ (m ++ (b' ++ r'))
  left : CaseEq a a'
  right : CaseEq b b'
  rest : CaseEq r r'
  some : m ≠ []
  label : DOT ∉ m

/-- The declarative rule: the names are equal up to case, or the pattern's wildcard stands for a
non-empty part of the host's first label. -/
def NameMatches (p h : Bytes) : Prop :=
  p ≠ [] ∧ h ≠ [] ∧
    (CaseEq p h ∨ ∃ a b r a' m b' r', Wildcard p a b r ∧ Stands h a b r a' m b' r')

private theorem equalMatch_eq_match {p h : Bytes} (hp : (0 : UInt8) ∉ p) (hh : (0 : UInt8) ∉ h) :
    equalMatch p h = CURL_HOST_MATCH ↔ CaseEq p h := by
  rw [equalMatch, ← curlRawEqual_iff hp hh]
  by_cases he : curlRawEqual p h = true
  · simp [he]
  · simp [he, CURL_HOST_MATCH, CURL_HOST_NOMATCH]

private theorem Wildcard.notMem {p a b r : Bytes} (w : Wildcard p a b r) :
    DOT ∉ a ++ STAR :: b := by
  rw [List.mem_append, List.mem_cons, not_or, not_or]
  exact ⟨w.left, by decide, w.right⟩

/-- Without a wildcard that counts the names are compared as they are. -/
theorem hostmatch_plain {p : Bytes} (hp : (0 : UInt8) ∉ p) (h : Bytes) :
    (∃ a b r, Wildcard p a b r) ∨ hostmatch h p = equalMatch p h := by
  rw [hostmatch]
  by_cases hs : STAR ∈ p
  · obtain ⟨a, t, hat, ha⟩ := List.eq_append_cons_of_mem hs
    by_cases hd : DOT ∈ p
    · obtain ⟨l, u, hlu, hl⟩ := List.eq_append_cons_of_mem hd
      have hza : (0 : UInt8) ∉ a := fun hm => hp (by rw [hat]; exact List.mem_append_left _ hm)
      have hzl : (0 : UInt8) ∉ l := fun hm => hp (by rw [hlu]; exact List.mem_append_left _ hm)
      have hstar : strchr p STAR = some a.length := by rw [hat, strchr_append ha hza]
      have hdot : strchr p DOT = some l.length := by rw [hlu, strchr_append hl hzl]
      simp only [hstar, hdot]
      by_cases hc : strchr (p.drop (l.length + 1)) DOT = none ∨ l.length < a.length ∨
          curlRawNequal p (ascii "xn--") 4
      · rw [if_pos hc]
        exact Or.inr rfl
      · rw [not_or, not_or, curlRawNequal_iff hp (by decide)] at hc
        obtain ⟨htwo, hle, hxn⟩ := hc
        have hb : ∃ b, l = a ++ STAR :: b ∧ t = b ++ DOT :: u := by
          rcases List.append_eq_append_iff.mp (hat.symm.trans hlu) with ⟨c, hla, hc⟩ | ⟨c, hal, hc⟩
          · cases c with
            | nil => exact absurd (List.cons.inj hc).1 (by decide)
            | cons x b =>
              obtain ⟨rfl, rfl⟩ := List.cons.inj hc
              exact ⟨b, hla, rfl⟩
          · have hnil : c = [] := by
              have hlen := congrArg List.length hal
              rw [List.length_append] at hlen
              exact List.length_eq_zero_iff.mp (by omega)
            subst hnil
            exact absurd (List.cons.inj hc).1 (by decide)
        obtain ⟨b, rfl, rfl⟩ := hb
        rw [List.mem_append, List.mem_cons, not_or, not_or] at hl
        have hu : DOT ∈ u := by
          by_contra hu
          apply htwo
          rw [hlu, ← List.drop_drop, List.drop_left]
          exact strchr_eq_none (by decide) hu
        exact Or.inl ⟨a, b, DOT :: u, hat, ha, hl.1, hl.2.2, ⟨u, rfl, hu⟩, hxn⟩
    · rw [strchr_eq_none (by decide) hd]
      right
      split <;> rfl
  · rw [strchr_eq_none (by decide) hs]
    exact Or.inr rfl

/-- With a wildcard that counts, the host must have a first label, and the labels are compared. -/
theorem Wildcard.hostmatch_eq {p a b r : Bytes} (w : Wildcard p a b r) (hp : (0 : UInt8) ∉ p)
    (h : Bytes) :
    hostmatch h p =
      match strchr h DOT with
      | none => CURL_HOST_NOMATCH
      | some e => labelMatch h p a.length (a.length + 1 + b.length) e := by
  obtain ⟨u, hr, hu⟩ := w.labels
  have hsplit : p = (a ++ STAR :: b) ++ DOT :: u := by
    rw [w.pattern, hr, List.append_assoc, List.cons_append]
  have hza : (0 : UInt8) ∉ a := fun hm => hp (by rw [w.pattern]; exact List.mem_append_left _ hm)
  have hzl : (0 : UInt8) ∉ a ++ STAR :: b :=
    fun hm => hp (by rw [hsplit]; exact List.mem_append_left _ hm)
  have hzu : (0 : UInt8) ∉ u := fun hm => hp (by rw [hsplit]; simp [hm])
  have hstar : strchr p STAR = some a.length := by rw [w.pattern, strchr_append w.first hza]
  have hlen : (a ++ STAR :: b).length = a.length + 1 + b.length := by
    rw [List.length_append, List.length_cons]
    omega
  have hdot : strchr p DOT = some (a.length + 1 + b.length) := by
    rw [hsplit, strchr_append w.notMem hzl, hlen]
  have htwo : strchr (p.drop (a.length + 1 + b.length + 1)) DOT ≠ none := by
    obtain ⟨x, y, rfl, hx⟩ := List.eq_append_cons_of_mem hu
    have hdrop : p.drop (a.length + 1 + b.length + 1) = x ++ DOT :: y := by
      rw [hsplit, ← hlen, ← List.drop_drop, List.drop_left]
      rfl
    rw [hdrop, strchr_append hx (fun hm => hzu (List.mem_append_left _ hm))]
    exact Option.some_ne_none _
  have hc : ¬ (strchr (p.drop (a.length + 1 + b.length + 1)) DOT = none ∨
      a.length + 1 + b.length < a.length ∨ curlRawNequal p (ascii "xn--") 4) := by
    rw [not_or, not_or, curlRawNequal_iff hp (by decide)]
    exact ⟨htwo, by omega, w.plain⟩
  rw [hostmatch]
  simp only [hstar, hdot]
  rw [if_neg hc]

/-- The comparison of the labels, for a host whose first label is `l`. -/
theorem labelMatch_eq_match {p a b u l v : Bytes} (hp : p = a ++ STAR :: (b ++ DOT :: u))
    (hzp : (0 : UInt8) ∉ p) (hz : (0 : UInt8) ∉ l ++ DOT :: v) :
    labelMatch (l ++ DOT :: v) p a.length (a.length + 1 + b.length) l.length = CURL_HOST_MATCH ↔
      CaseEq (DOT :: u) (DOT :: v) ∧ a.length + 1 + b.length ≤ l.length ∧
        CaseEq a (l.take a.length) ∧ CaseEq b (l.drop (l.length - b.length)) := by
  have hdrop : p.drop (a.length + 1) = b ++ DOT :: u := by
    rw [hp, ← List.drop_drop, List.drop_left]
    rfl
  have hdrop' : p.drop (a.length + 1 + b.length) = DOT :: u := by
    rw [← List.drop_drop, hdrop, List.drop_left]
  have hsuffix : a.length + 1 + b.length - (a.length + 1) = b.length := by omega
  have hzd : ∀ n, (0 : UInt8) ∉ p.drop n := fun n hm => hzp (List.mem_of_mem_drop hm)
  have hzd' : ∀ n, (0 : UInt8) ∉ (l ++ DOT :: v).drop n := fun n hm => hz (List.mem_of_mem_drop hm)
  have hrest : curlRawEqual (p.drop (a.length + 1 + b.length)) ((l ++ DOT :: v).drop l.length) =
      true ↔ CaseEq (DOT :: u) (DOT :: v) := by
    rw [curlRawEqual_iff (hzd _) (hzd' _), hdrop', List.drop_left]
  rw [labelMatch]
  by_cases hr : CaseEq (DOT :: u) (DOT :: v)
  · rw [hrest.mpr hr, and_iff_right hr]
    by_cases hl : l.length < a.length + 1 + b.length
    · simp only [Bool.not_true, Bool.false_eq_true, if_false, if_pos hl]
      refine ⟨fun h => absurd h (by decide), fun h => absurd h.1 (by omega)⟩
    · have hleft : curlRawNequal p (l ++ DOT :: v) a.length = true ↔
          CaseEq a (l.take a.length) := by
        rw [curlRawNequal_iff hzp hz, List.take_append_of_le_length (by omega), hp, List.take_left]
      have hright : curlRawNequal (p.drop (a.length + 1))
          ((l ++ DOT :: v).drop (l.length - b.length)) b.length = true ↔
            CaseEq b (l.drop (l.length - b.length)) := by
        rw [curlRawNequal_iff (hzd _) (hzd' _), hdrop, List.take_left,
          List.drop_append_of_le_length (by omega), List.take_left' (by simp; omega)]
      simp only [Bool.not_true, Bool.false_eq_true, if_false, if_neg hl, hsuffix]
      rw [and_iff_right (by omega : a.length + 1 + b.length ≤ l.length), ← hleft, ← hright,
        ← Bool.and_eq_true]
      split
      case isTrue hm => exact iff_of_true rfl hm
      case isFalse hm => exact iff_of_false (by decide) hm
  · have hf : curlRawEqual (p.drop (a.length + 1 + b.length)) ((l ++ DOT :: v).drop l.length) =
        false := by
      rw [← Bool.not_eq_true, hrest]
      exact hr
    rw [hf, Bool.not_false, if_pos rfl]
    exact ⟨fun h => absurd h (by decide), fun h => absurd h.1 hr⟩

/-- With a wildcard that counts, the matcher finds the parts of the host. -/
theorem Wildcard.hostmatch_iff {p a b r h : Bytes} (w : Wildcard p a b r) (hp : (0 : UInt8) ∉ p)
    (hh : (0 : UInt8) ∉ h) :
    hostmatch h p = CURL_HOST_MATCH ↔ ∃ a' m b' r', Stands h a b r a' m b' r' := by
  obtain ⟨u, rfl, -⟩ := w.labels
  rw [w.hostmatch_eq hp]
  constructor
  · intro hmatch
    by_cases hd : DOT ∈ h
    · obtain ⟨l, v, rfl, hl⟩ := List.eq_append_cons_of_mem hd
      rw [strchr_append hl (fun hm => hh (List.mem_append_left _ hm))] at hmatch
      obtain ⟨hrest, hle, hleft, hright⟩ := (labelMatch_eq_match w.pattern hp hh).mp hmatch
      have hmid : l.take a.length ++ ((l.drop a.length).take (l.length - b.length - a.length) ++
          l.drop (l.length - b.length)) = l := by
        have hd : l.drop (l.length - b.length) =
            (l.drop a.length).drop (l.length - b.length - a.length) := by
          rw [List.drop_drop]
          congr 1
          omega
        rw [hd, List.take_append_drop, List.take_append_drop]
      refine ⟨l.take a.length, (l.drop a.length).take (l.length - b.length - a.length),
        l.drop (l.length - b.length), DOT :: v, ?_, hleft, hright, hrest, ?_, ?_⟩
      · conv_lhs => rw [← hmid]
        simp only [List.append_assoc]
      · intro hnil
        have hlen := congrArg List.length hnil
        simp only [List.length_take, List.length_drop, List.length_nil] at hlen
        omega
      · exact fun hm => hl (List.mem_of_mem_drop (List.mem_of_mem_take hm))
    · rw [strchr_eq_none (by decide) hd] at hmatch
      have hno : CURL_HOST_NOMATCH = CURL_HOST_MATCH := hmatch
      exact absurd hno (by decide)
  · rintro ⟨a', m, b', r', st⟩
    obtain ⟨v, rfl⟩ : ∃ v, r' = DOT :: v := by
      have hrest := st.rest
      cases r' with
      | nil => exact absurd hrest.length_eq (by simp)
      | cons d v =>
        rw [caseEq_cons, eq_comm, curlRawToupper_eq (by decide)] at hrest
        exact ⟨v, by rw [hrest.1]⟩
    have hhost : h = (a' ++ (m ++ b')) ++ DOT :: v := by
      rw [st.host]
      simp only [List.append_assoc]
    have hl : DOT ∉ a' ++ (m ++ b') := by
      rw [List.mem_append, List.mem_append, not_or, not_or, ← st.left.mem_iff (by decide),
        ← st.right.mem_iff (by decide)]
      exact ⟨w.left, st.label, w.right⟩
    have hm : 0 < m.length := List.length_pos_iff.mpr st.some
    have hla := st.left.length_eq
    have hlb := st.right.length_eq
    subst hhost
    rw [strchr_append hl (fun hm => hh (List.mem_append_left _ hm))]
    refine (labelMatch_eq_match w.pattern hp hh).mpr ⟨st.rest, ?_, ?_, ?_⟩
    · simp only [List.length_append]
      omega
    · rw [hla, List.take_left]
      exact st.left
    · have hn : (a' ++ (m ++ b')).length - b.length = (a' ++ m).length := by
        simp only [List.length_append]
        omega
      rw [hn, ← List.append_assoc, List.drop_left]
      exact st.right

private theorem deref_eq_zero {s : Bytes} (hs : (0 : UInt8) ∉ s) : deref s = 0 ↔ s = [] := by
  cases s with
  | nil => simp [deref]
  | cons c s =>
    rw [List.mem_cons, not_or] at hs
    simp [deref, Ne.symm hs.1]

private theorem curlCertHostcheck_eq_one {p h : Bytes} (hp : (0 : UInt8) ∉ p)
    (hh : (0 : UInt8) ∉ h) :
    curlCertHostcheck (some p) (some h) = 1 ↔ NameMatches p h := by
  have hend : (deref p = 0 ∨ deref h = 0) ↔ (p = [] ∨ h = []) :=
    or_congr (deref_eq_zero hp) (deref_eq_zero hh)
  rw [curlCertHostcheck, NameMatches]
  by_cases hnil : p = [] ∨ h = []
  · rw [if_pos (hend.mpr hnil)]
    refine ⟨fun h0 => absurd h0 (by decide), fun hm => ?_⟩
    exact (hnil.elim hm.1 hm.2.1).elim
  · rw [if_neg (mt hend.mp hnil)]
    rw [not_or] at hnil
    rw [and_iff_right hnil.1, and_iff_right hnil.2]
    by_cases he : curlRawEqual h p = true
    · rw [if_pos he]
      exact iff_of_true rfl (Or.inl ((curlRawEqual_iff hh hp).mp he).symm)
    · rw [if_neg he]
      have hne : ¬ CaseEq p h := fun hc => he ((curlRawEqual_iff hh hp).mpr hc.symm)
      have hone : (if hostmatch h p = CURL_HOST_MATCH then 1 else 0) = 1 ↔
          hostmatch h p = CURL_HOST_MATCH := by
        split <;> simp_all
      rw [hone, or_iff_right hne]
      constructor
      · intro hm
        rcases hostmatch_plain hp h with ⟨a, b, r, w⟩ | hplain
        · obtain ⟨a', m, b', r', st⟩ := (w.hostmatch_iff hp hh).mp hm
          exact ⟨a, b, r, a', m, b', r', w, st⟩
        · rw [hplain, equalMatch_eq_match hp hh] at hm
          exact absurd hm hne
      · rintro ⟨a, b, r, a', m, b', r', w, st⟩
        exact (w.hostmatch_iff hp hh).mpr ⟨a', m, b', r', st⟩

/-- `Curl_cert_hostcheck` is the declarative rule. -/
theorem curlCertHostcheck_iff (p h : CString) :
    curlCertHostcheck (some p.val) (some h.val) = 1 ↔ NameMatches p.val h.val :=
  curlCertHostcheck_eq_one p.property h.property

/-! ## Addresses -/

/-- A decimal number of at most 255. -/
structure Octet (w : Bytes) : Prop where
  nonempty : w ≠ []
  digits : ∀ c ∈ w, 48 ≤ c ∧ c ≤ 57
  bound : w.foldl (fun n c => 10 * n + (c.toNat - 48)) 0 ≤ 255

/-- An address in dotted decimal form. -/
def DottedQuad (h : Bytes) : Prop :=
  ∃ w x y z, h = w ++ DOT :: (x ++ DOT :: (y ++ DOT :: z)) ∧ Octet w ∧ Octet x ∧ Octet y ∧ Octet z

/-- The pattern is the host with a wildcard for a non-empty part of its first label. -/
def MasksFirst (p h : Bytes) : Prop :=
  ∃ a m b r, m ≠ [] ∧ DOT ∉ a ++ (m ++ b) ∧ p = a ++ STAR :: (b ++ DOT :: r) ∧
    h = a ++ (m ++ (b ++ DOT :: r))

/-- A character of an address. -/
def IsAddressSign (c : UInt8) : Prop := c = DOT ∨ (48 ≤ c ∧ c ≤ 57)

private theorem DottedQuad.signs {h : Bytes} (hq : DottedQuad h) : ∀ c ∈ h, IsAddressSign c := by
  obtain ⟨w, x, y, z, rfl, hw, hx, hy, hz⟩ := hq
  intro c hc
  simp only [List.mem_append, List.mem_cons] at hc
  rcases hc with hc | rfl | hc | rfl | hc | rfl | hc
  · exact Or.inr (hw.digits c hc)
  · exact Or.inl rfl
  · exact Or.inr (hx.digits c hc)
  · exact Or.inl rfl
  · exact Or.inr (hy.digits c hc)
  · exact Or.inl rfl
  · exact Or.inr (hz.digits c hc)

/-- The signs of an address have no case, and no wildcard, letter or NUL is among them. -/
theorem IsAddressSign.plain {c : UInt8} (h : IsAddressSign c) :
    (¬ (65 ≤ c ∧ c ≤ 90) ∧ ¬ (97 ≤ c ∧ c ≤ 122)) ∧ c ≠ STAR ∧ c ≠ 120 := by
  rw [IsAddressSign] at h
  induction c using byte_induction with
  | ofNat n => revert n; decide +kernel

/-- What is equal to signs of an address up to case is equal to them. -/
theorem CaseEq.eq_of_signs {x y : Bytes} (h : CaseEq x y) (hy : ∀ c ∈ y, IsAddressSign c) :
    x = y := by
  induction y generalizing x with
  | nil => simpa [CaseEq] using h
  | cons d y ih =>
    cases x with
    | nil => exact absurd h.length_eq (by simp)
    | cons c x =>
      rw [caseEq_cons, curlRawToupper_eq (hy d List.mem_cons_self).plain.1] at h
      rw [h.1, ih h.2 fun e he => hy e (List.mem_cons_of_mem d he)]

/-- A name that starts with signs of an address and a wildcard is not an internationalised one. -/
theorem not_caseEq_xn {a t : Bytes} (ha : ∀ c ∈ a, IsAddressSign c) :
    ¬ CaseEq ((a ++ STAR :: t).take 4) (ascii "xn--") := by
  have hxn : ascii "xn--" = 120 :: [110, 45, 45] := rfl
  cases a with
  | nil =>
    rw [List.nil_append, List.take_succ_cons, hxn, caseEq_cons]
    exact fun h => absurd h.1 (by decide)
  | cons c a =>
    have hc := (ha c List.mem_cons_self).plain
    rw [List.cons_append, List.take_succ_cons, hxn, caseEq_cons, eq_comm, curlRawToupper_eq hc.1]
    exact fun h => hc.2.2 h.1.symm

/-- Against an address only a pattern that masks its first number matches. -/
theorem DottedQuad.nameMatches_iff {p h : Bytes} (hq : DottedQuad h) (hs : STAR ∈ p) :
    NameMatches p h ↔ MasksFirst p h := by
  have hsigns := hq.signs
  constructor
  · rintro ⟨-, -, hc | ⟨a, b, r, a', m, b', r', w, st⟩⟩
    · have hstar : STAR ∈ h := (hc.mem_iff (by decide)).mp hs
      exact absurd rfl (hsigns STAR hstar).plain.2.1
    · obtain ⟨u, rfl, -⟩ := w.labels
      obtain rfl := st.host
      obtain rfl := st.left.eq_of_signs fun c hc => hsigns c (by simp [hc])
      obtain rfl := st.right.eq_of_signs fun c hc => hsigns c (by simp [hc])
      obtain rfl := st.rest.eq_of_signs fun c hc => hsigns c (by simp [hc])
      refine ⟨a, m, b, u, st.some, ?_, w.pattern, rfl⟩
      rw [List.mem_append, List.mem_append, not_or, not_or]
      exact ⟨w.left, st.label, w.right⟩
  · rintro ⟨a, m, b, r, hm, hdot, rfl, rfl⟩
    rw [List.mem_append, List.mem_append, not_or, not_or] at hdot
    have ha : ∀ c ∈ a, IsAddressSign c := fun c hc => hsigns c (by simp [hc])
    have htwo : DOT ∈ r := by
      obtain ⟨w, x, y, z, heq, -, -, -, -⟩ := hq
      have hcount := congrArg (List.count DOT) heq
      simp only [List.count_append, List.count_cons_self, List.count_eq_zero_of_not_mem hdot.1,
        List.count_eq_zero_of_not_mem hdot.2.1, List.count_eq_zero_of_not_mem hdot.2.2] at hcount
      exact List.count_pos_iff.mp (by omega)
    refine ⟨by simp, ?_, Or.inr ⟨a, b, DOT :: r, a, m, b, DOT :: r, ?_, ?_⟩⟩
    · simp [hm]
    · exact ⟨rfl, fun hmem => absurd rfl (ha STAR hmem).plain.2.1, hdot.1, hdot.2.2, ⟨r, rfl, htwo⟩,
        not_caseEq_xn ha⟩
    · exact ⟨rfl, rfl, rfl, rfl, hm, hdot.2.1⟩

private theorem curlCertHostcheck_eq_zero {p h : Option Bytes} :
    curlCertHostcheck p h = 0 ↔ ¬ curlCertHostcheck p h = 1 := by
  fun_cases curlCertHostcheck p h <;> simp

/-- A wildcard matches no address but one whose first number it masks. -/
theorem address_unmatched_iff (p h : CString) (hs : STAR ∈ p.val) (hq : DottedQuad h.val) :
    curlCertHostcheck (some p.val) (some h.val) = 0 ↔ ¬ MasksFirst p.val h.val := by
  rw [curlCertHostcheck_eq_zero, curlCertHostcheck_eq_one p.property h.property,
    hq.nameMatches_iff hs]

private theorem dottedQuad_loopback : DottedQuad (ascii "127.0.0.1") :=
  ⟨ascii "127", ascii "0", ascii "0", ascii "1", by decide,
    ⟨by decide, by decide +kernel, by decide⟩, ⟨by decide, by decide +kernel, by decide⟩,
    ⟨by decide, by decide +kernel, by decide⟩, ⟨by decide, by decide +kernel, by decide⟩⟩

/-- A name in a certificate does not match the address of the loopback interface. -/
theorem address_unmatched_loopback :
    curlCertHostcheck (some (ascii "*.example.com")) (some (ascii "127.0.0.1")) = 0 ∧
      ¬ MasksFirst (ascii "*.example.com") (ascii "127.0.0.1") :=
  have hno : curlCertHostcheck (some (ascii "*.example.com")) (some (ascii "127.0.0.1")) = 0 := by
    decide +kernel
  ⟨hno, (address_unmatched_iff ⟨ascii "*.example.com", by decide⟩ ⟨ascii "127.0.0.1", by decide⟩
    (by decide) dottedQuad_loopback).mp hno⟩

/-- A certificate for `*.0.0.1` matches the address of the loopback interface. -/
theorem wildcard_matches_address :
    ¬ ∀ p h : CString, STAR ∈ p.val → DottedQuad h.val →
      curlCertHostcheck (some p.val) (some h.val) = 0 := by
  intro hall
  have hzero := hall ⟨ascii "*.0.0.1", by decide⟩ ⟨ascii "127.0.0.1", by decide⟩ (by decide)
    dottedQuad_loopback
  revert hzero
  decide +kernel

end CppImprovement.Http

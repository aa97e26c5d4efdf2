import CppImprovement.Net.Ws.HandshakeSound
import CppImprovement.Net.Ws.Upgrade

/-!
# A handshake reply cut into reads

The parser of the reply takes whole lines only, so a reply reaches it as the same lines however
it is cut. What a cut changes is `headerVal`, which is local to a call of `ReadHttpHeaders`: a
header line without a value of its own takes the value of the line before it, but only within
one call. A reply is read the same in every partition exactly when none of its header lines
shows the difference.
-/

namespace CppImprovement.Ws

/-! ## A reply line by line -/

/-- The value of its own that a header line has for the parser. -/
def ownToken (line : Bytes) : Option Bytes := (lineRest (cstr line)).bind firstToken

/-- The name of a header line, without regard to case. -/
def foldedName (line : Bytes) : Bytes := (lineName (cstr line)).map toLower

/-- The session's fields with one more header line. -/
def Handshake.withField (h : Handshake) (line val : Bytes) : Handshake :=
  { h with header := insertOrAssign (lineName (cstr line)) val h.header }

/-- What the parser is left with after some lines: its result, the session's fields, `headerVal`
and the lines it has not taken. -/
structure Fed where
  result : WSParseState
  hs : Handshake
  headerVal : Bytes
  left : List Bytes

/-- The body of the loop of `ReadHttpHeaders`, with the stage that follows the last line. -/
def feedLine (sha1 : Bytes → Bytes) (h : Handshake) (headerVal line : Bytes) : Fed :=
  if cstr line = [] then
    let r := checkRequiredHeaders { h with connectState := .parsedHeaders } []
    ⟨r.1, r.2.1, headerVal, []⟩
  else
    let val := (ownToken line).getD headerVal
    match validateHttpHeaders (calculateKeyHash sha1 h.handshakeKeyBase64) (lineName (cstr line))
        val h.httpHeaderFlags with
    | none => ⟨.error, h.withField line val, val, []⟩
    | some flags => ⟨.needMore, { h.withField line val with httpHeaderFlags := flags }, val, []⟩

/-- Header lines in turn; those that are marked start a call of `ReadHttpHeaders`. -/
def feedLines (sha1 : Bytes → Bytes) : Handshake → Bytes → List (Bytes × Bool) → Fed
  | h, headerVal, [] => ⟨.needMore, h, headerVal, []⟩
  | h, headerVal, (line, starts) :: lines =>
    let r := feedLine sha1 h (if starts then [] else headerVal) line
    if r.result = .needMore then feedLines sha1 r.hs r.headerVal lines
    else { r with left := lines.map Prod.fst }

/-- Lines that a call takes on from the line before. -/
def goOn (lines : List Bytes) : List (Bytes × Bool) := lines.map (·, false)

/-- Lines that a call takes from its start. -/
def start : List Bytes → List (Bytes × Bool)
  | [] => []
  | line :: lines => (line, true) :: goOn lines

private theorem goOn_cons (line : Bytes) (lines : List Bytes) :
    goOn (line :: lines) = (line, false) :: goOn lines := rfl

private theorem map_fst_goOn (lines : List Bytes) : (goOn lines).map Prod.fst = lines := by
  rw [goOn, List.map_map]
  exact List.map_id lines

private theorem map_fst_start (lines : List Bytes) : (start lines).map Prod.fst = lines := by
  cases lines with
  | nil => rfl
  | cons line lines => rw [start, List.map_cons, map_fst_goOn]

/-- The header lines that the parser takes when one call reads them all: up to the end of the
head, or to the first line that `ValidateHttpHeaders` refuses. -/
def linesTaken (acceptKeyHash : Bytes) : UInt8 → Bytes → List Bytes → List Bytes
  | _, _, [] => []
  | flags, headerVal, line :: lines =>
    if cstr line = [] then []
    else
      let val := (ownToken line).getD headerVal
      match validateHttpHeaders acceptKeyHash (lineName (cstr line)) val flags with
      | none => [line]
      | some flags => line :: linesTaken acceptKeyHash flags val lines

/-- A later line of the name has a value of its own. -/
def Rewritten (name : Bytes) (lines : List Bytes) : Prop :=
  ∃ line ∈ lines, ownToken line ≠ none ∧ foldedName line = name

instance (name : Bytes) (lines : List Bytes) : Decidable (Rewritten name lines) :=
  inferInstanceAs (Decidable (∃ line ∈ lines, _))

/-- The parser looks for the name of the line. -/
def Needed (line : Bytes) : Prop := ∃ name ∈ requiredNames, readsAs name line = true

instance (line : Bytes) : Decidable (Needed line) :=
  inferInstanceAs (Decidable (∃ name ∈ requiredNames, _))

/-- No line shows whether it was the first of a call: a line without a value of its own, when a
line before it has one, has a name the parser does not look for, and a later line of that name
has a value. -/
def Settled : Bool → List Bytes → Prop
  | _, [] => True
  | seen, line :: lines =>
    (ownToken line = none → seen = true → ¬ Needed line ∧ Rewritten (foldedName line) lines) ∧
      Settled (seen || (ownToken line).isSome) lines

instance Settled.decidable : ∀ (seen : Bool) (lines : List Bytes), Decidable (Settled seen lines)
  | _, [] => isTrue trivial
  | seen, line :: lines =>
    have := Settled.decidable (seen || (ownToken line).isSome) lines
    inferInstanceAs (Decidable (_ ∧ _))

/-! ## Values that do not matter -/

section lines

variable {sha1 : Bytes → Bytes} {acceptKeyHash : Bytes}

private theorem firstToken_ne_nil {s v : Bytes} (hv : firstToken s = some v) : v ≠ [] := by
  rw [firstToken] at hv
  cases hd : s.dropWhile isSpace with
  | nil =>
    rw [hd] at hv
    cases hv
  | cons b rest =>
    rw [hd] at hv
    have hb : isSpace b = false := by
      have := List.head?_dropWhile_not isSpace s
      rw [hd] at this
      simpa using this
    obtain rfl := Option.some.inj hv
    simp [hb]

private theorem ownToken_ne_nil {line v : Bytes} (hv : ownToken line = some v) : v ≠ [] := by
  obtain ⟨rest, -, ht⟩ := Option.bind_eq_some_iff.mp hv
  exact firstToken_ne_nil ht

private theorem not_compare_of_not_needed {line name : Bytes} (hn : ¬ Needed line)
    (hname : name ∈ requiredNames) : compareStrIgnoreCase name (lineName (cstr line)) = false := by
  rw [compareStrIgnoreCase_comm, Bool.eq_false_iff]
  exact fun h => hn ⟨name, hname, h⟩

/-- The value of a header that the parser does not look for is not looked at. -/
theorem validateHttpHeaders_of_not_needed {line : Bytes} (hn : ¬ Needed line) (val val' : Bytes)
    (flags : UInt8) :
    validateHttpHeaders acceptKeyHash (lineName (cstr line)) val flags =
      validateHttpHeaders acceptKeyHash (lineName (cstr line)) val' flags := by
  have hother : ∀ name ∈ requiredNames, ∀ (flag flags : UInt8) (v w : Bytes),
      validateHttpHeader flag (lineName (cstr line)) v name w true flags = some flags :=
    fun name hname _ _ _ _ =>
      validateHttpHeader_other (not_compare_of_not_needed hn hname) _ _ _
  simp only [validateHttpHeaders, hother _ (by simp [requiredNames] : ascii "Upgrade" ∈ _),
    hother _ (by simp [requiredNames] : ascii "Connection" ∈ _),
    hother _ (by simp [requiredNames] : ascii "Sec-WebSocket-Accept" ∈ _)]

/-- A header that is looked for is refused without a value. -/
theorem validateHttpHeader_nil {flag : UInt8} {name expectedName expectedVal : Bytes}
    (hn : compareStrIgnoreCase expectedName name = true) (hv : expectedVal ≠ []) (flags : UInt8) :
    validateHttpHeader flag name [] expectedName expectedVal true flags = none := by
  have hval : compareStrIgnoreCase expectedVal [] = false := by
    rw [Bool.eq_false_iff, ne_eq, compareStrIgnoreCase_iff, List.map_nil, List.map_eq_nil_iff]
    exact hv
  rw [validateHttpHeader, if_pos hn, hval]
  split <;> rfl

private theorem validateHttpHeaders_nil {line : Bytes} (hn : Needed line) (flags : UInt8) :
    validateHttpHeaders acceptKeyHash (lineName (cstr line)) [] flags = none := by
  obtain ⟨name, hname, hread⟩ := hn
  rw [readsAs, compareStrIgnoreCase_comm] at hread
  simp only [requiredNames, List.mem_cons, List.not_mem_nil, or_false] at hname
  rw [validateHttpHeaders]
  rcases hname with rfl | rfl | rfl
  · rw [validateHttpHeader_nil hread (by decide)]
    rfl
  · cases validateHttpHeader WS_HAS_VALID_UPGRADE_HEADER (lineName (cstr line)) []
        (ascii "Upgrade") (ascii "websocket") true flags with
    | none => rfl
    | some flags' =>
      change (validateHttpHeader _ _ _ _ _ _ flags').bind _ = none
      rw [validateHttpHeader_nil hread (by decide)]
      rfl
  · by_cases hkey : acceptKeyHash = []
    · simp [hkey]
    · simp [hkey, validateHttpHeader_nil hread hkey]

/-! ## Header maps -/

/-- The value that a header map has for a name. -/
def valueOf (name : Bytes) (header : List (Bytes × Bytes)) : Option Bytes :=
  (header.find? fun e => e.1.map toLower == name).map Prod.snd

private theorem valueOf_insertOrAssign (name key val : Bytes) (header : List (Bytes × Bytes)) :
    valueOf name (insertOrAssign key val header) =
      if key.map toLower = name then some val else valueOf name header := by
  induction header with
  | nil => by_cases hk : key.map toLower = name <;> simp [insertOrAssign, valueOf, hk]
  | cons e es ih =>
    rw [insertOrAssign]
    by_cases he : compareStrIgnoreCase e.1 key = true
    · rw [if_pos he]
      rw [compareStrIgnoreCase_iff] at he
      by_cases hk : key.map toLower = name
      · simp [valueOf, he, hk]
      · simp [valueOf, he, hk]
    · rw [if_neg he]
      rw [compareStrIgnoreCase_iff] at he
      by_cases hn : e.1.map toLower = name
      · have hk : key.map toLower ≠ name := fun h => he (hn.trans h.symm)
        simp [valueOf, hn, hk]
      · have hrest : ∀ es', valueOf name (e :: es') = valueOf name es' := by
          intro es'
          simp [valueOf, hn]
        rw [hrest, hrest, ih]

/-- Two header maps have the same names, and the same values except where a name is open; a second
entry of a name, which nothing reaches, is never open. -/
def AgreeExcept : (Bytes → Prop) → List (Bytes × Bytes) → List (Bytes × Bytes) → Prop
  | _, [], [] => True
  | isOpen, e :: es, e' :: es' =>
    e.1 = e'.1 ∧ (e.2 = e'.2 ∨ isOpen (e.1.map toLower)) ∧
      AgreeExcept (fun name => isOpen name ∧ name ≠ e.1.map toLower) es es'
  | _, _, _ => False

/-- A header map agrees with itself. -/
theorem AgreeExcept.refl (isOpen : Bytes → Prop) (header : List (Bytes × Bytes)) :
    AgreeExcept isOpen header header := by
  induction header generalizing isOpen with
  | nil => trivial
  | cons e es ih => exact ⟨rfl, Or.inl rfl, ih _⟩

/-- With more names open there is less to agree on. -/
theorem AgreeExcept.mono {isOpen isOpen' : Bytes → Prop} (himp : ∀ name, isOpen name → isOpen' name)
    {header header' : List (Bytes × Bytes)} (h : AgreeExcept isOpen header header') :
    AgreeExcept isOpen' header header' := by
  induction header generalizing isOpen isOpen' header' with
  | nil =>
    cases header' with
    | nil => trivial
    | cons e' es' => exact h
  | cons e es ih =>
    cases header' with
    | nil => exact h
    | cons e' es' =>
      obtain ⟨hn, hv, hrest⟩ := h
      exact ⟨hn, hv.imp_right (himp _), ih (fun name hname => ⟨himp _ hname.1, hname.2⟩) hrest⟩

/-- With no name open the maps are equal. -/
theorem AgreeExcept.eq {isOpen : Bytes → Prop} (hnone : ∀ name, ¬ isOpen name)
    {header header' : List (Bytes × Bytes)} (h : AgreeExcept isOpen header header') :
    header = header' := by
  induction header generalizing isOpen header' with
  | nil =>
    cases header' with
    | nil => rfl
    | cons e' es' => exact h.elim
  | cons e es ih =>
    cases header' with
    | nil => exact h.elim
    | cons e' es' =>
      obtain ⟨hn, hv, hrest⟩ := h
      rw [Prod.ext hn (hv.resolve_right (hnone _)), ih (fun name hname => hnone _ hname.1) hrest]

/-- Assigning the same value closes the name; assigning two values needs it to be open. -/
theorem AgreeExcept.insertOrAssign {isOpen isOpen' : Bytes → Prop} {key val val' : Bytes}
    (hopen : ∀ name, isOpen name → isOpen' name ∨ val = val' ∧ name = key.map toLower)
    (hval : val = val' ∨ isOpen' (key.map toLower)) {header header' : List (Bytes × Bytes)}
    (h : AgreeExcept isOpen header header') :
    AgreeExcept isOpen' (insertOrAssign key val header) (insertOrAssign key val' header') := by
  induction header generalizing isOpen isOpen' header' with
  | nil =>
    cases header' with
    | nil => exact ⟨rfl, hval, trivial⟩
    | cons e' es' => exact h.elim
  | cons e es ih =>
    cases header' with
    | nil => exact h.elim
    | cons e' es' =>
      obtain ⟨hn, hv, hrest⟩ := h
      rw [Ws.insertOrAssign, Ws.insertOrAssign, ← hn]
      by_cases he : compareStrIgnoreCase e.1 key = true
      · rw [if_pos he, if_pos he]
        rw [compareStrIgnoreCase_iff] at he
        refine ⟨rfl, he ▸ hval, hrest.mono fun name hname => ⟨?_, hname.2⟩⟩
        exact (hopen name hname.1).resolve_right fun hk => hname.2 (hk.2.trans he.symm)
      · rw [if_neg he, if_neg he]
        rw [compareStrIgnoreCase_iff] at he
        refine ⟨hn, hv.imp_right fun ho => (hopen _ ho).resolve_right fun hk => he hk.2, ?_⟩
        refine ih (fun name hname => ?_) (hval.imp_right fun hk => ⟨hk, Ne.symm he⟩) hrest
        exact (hopen name hname.1).imp_left fun ho => ⟨ho, hname.2⟩

/-! ## Lines in turn -/

/-- The value a line gets: its own, or the one that a call has kept. -/
def lineValue (starts : Bool) (headerVal line : Bytes) : Bytes :=
  (ownToken line).getD (if starts then [] else headerVal)

variable {h : Handshake} {headerVal line : Bytes} {starts : Bool} {lines : List (Bytes × Bool)}

private theorem checkRequiredHeaders_ends (h : Handshake) (input : Bytes) :
    (checkRequiredHeaders h input).1 ≠ .needMore := by
  rcases checkRequiredHeaders_cases h input with ⟨r, he⟩ | ⟨he, -⟩ <;> simp [he]

/-- The last check looks at the flags alone. -/
theorem checkRequiredHeaders_map (h : Handshake) (header : List (Bytes × Bytes)) (input : Bytes) :
    (checkRequiredHeaders { h with header := header } input).1 = (checkRequiredHeaders h input).1 ∧
      (checkRequiredHeaders { h with header := header } input).2.1.header = header := by
  simp only [checkRequiredHeaders]
  split_ifs <;> exact ⟨rfl, rfl⟩

private theorem feedLines_of_end (hl : cstr line = []) :
    feedLines sha1 h headerVal ((line, starts) :: lines) =
      ⟨(checkRequiredHeaders { h with connectState := .parsedHeaders } []).1,
        (checkRequiredHeaders { h with connectState := .parsedHeaders } []).2.1,
        if starts then [] else headerVal, lines.map Prod.fst⟩ := by
  rw [feedLines, feedLine, if_pos hl]
  exact if_neg (checkRequiredHeaders_ends _ _)

private theorem feedLines_of_refused (hl : cstr line ≠ [])
    (hv : validateHttpHeaders (calculateKeyHash sha1 h.handshakeKeyBase64) (lineName (cstr line))
      (lineValue starts headerVal line) h.httpHeaderFlags = none) :
    feedLines sha1 h headerVal ((line, starts) :: lines) =
      ⟨.error, h.withField line (lineValue starts headerVal line),
        lineValue starts headerVal line, lines.map Prod.fst⟩ := by
  rw [lineValue] at hv ⊢
  rw [feedLines, feedLine, if_neg hl]
  simp only [hv, reduceCtorEq, if_false]

private theorem feedLines_of_passed {flags : UInt8} (hl : cstr line ≠ [])
    (hv : validateHttpHeaders (calculateKeyHash sha1 h.handshakeKeyBase64) (lineName (cstr line))
      (lineValue starts headerVal line) h.httpHeaderFlags = some flags) :
    feedLines sha1 h headerVal ((line, starts) :: lines) =
      feedLines sha1 { h.withField line (lineValue starts headerVal line) with
        httpHeaderFlags := flags } (lineValue starts headerVal line) lines := by
  rw [lineValue] at hv ⊢
  rw [feedLines, feedLine, if_neg hl]
  simp only [hv, if_true]

private theorem linesTaken_of_refused {flags : UInt8} {rest : List Bytes} (hl : cstr line ≠ [])
    (hv : validateHttpHeaders acceptKeyHash (lineName (cstr line)) (lineValue false headerVal line)
      flags = none) :
    linesTaken acceptKeyHash flags headerVal (line :: rest) = [line] := by
  rw [lineValue, if_neg Bool.false_ne_true] at hv
  rw [linesTaken, if_neg hl]
  simp only [hv]

private theorem linesTaken_of_passed {flags flags' : UInt8} {rest : List Bytes}
    (hl : cstr line ≠ [])
    (hv : validateHttpHeaders acceptKeyHash (lineName (cstr line)) (lineValue false headerVal line)
      flags = some flags') :
    linesTaken acceptKeyHash flags headerVal (line :: rest) =
      line :: linesTaken acceptKeyHash flags' (lineValue false headerVal line) rest := by
  rw [lineValue, if_neg Bool.false_ne_true] at hv ⊢
  rw [linesTaken, if_neg hl]
  simp only [hv]

/-- There is a value to keep once a line has had one. -/
theorem isEmpty_lineValue (headerVal line : Bytes) :
    (!(lineValue false headerVal line).isEmpty) =
      (!headerVal.isEmpty || (ownToken line).isSome) := by
  rw [lineValue, if_neg Bool.false_ne_true]
  cases hown : ownToken line with
  | none => simp
  | some v => simp [ownToken_ne_nil hown]

/-- A line gets the same value in both runs, or it has none of its own and one of the runs has lost
the value that the other has kept. -/
theorem lineValue_cases {headerVal' : Bytes} (hc : headerVal' = headerVal ∨ headerVal' = [])
    (starts : Bool) (line : Bytes) :
    lineValue starts headerVal' line = lineValue false headerVal line ∨
      ownToken line = none ∧ headerVal ≠ [] ∧ lineValue starts headerVal' line = [] := by
  rw [lineValue, lineValue, if_neg Bool.false_ne_true]
  cases hown : ownToken line with
  | some v => exact Or.inl rfl
  | none =>
    by_cases hh : headerVal = []
    · subst hh
      rw [or_self] at hc
      subst hc
      cases starts <;> exact Or.inl rfl
    · cases starts with
      | true => exact Or.inr ⟨rfl, hh, rfl⟩
      | false =>
        rcases hc with rfl | rfl
        · exact Or.inl rfl
        · exact Or.inr ⟨rfl, hh, rfl⟩

/-- Two runs over the same lines end with the same result, header map and lines left. -/
structure Fed.Alike (fed fed' : Fed) : Prop where
  result : fed'.result = fed.result
  header : fed'.hs.header = fed.hs.header
  left : fed'.left = fed.left

private theorem not_rewritten_nil (name : Bytes) : ¬ Rewritten name [] := by
  rintro ⟨line, hline, -⟩
  cases hline

private theorem rewritten_cons {name : Bytes} {rest : List Bytes}
    (hr : Rewritten name (line :: rest)) :
    Rewritten name rest ∨ ownToken line ≠ none ∧ name = foldedName line := by
  obtain ⟨l, hl, hown, hname⟩ := hr
  rcases List.mem_cons.mp hl with rfl | hl
  · exact Or.inr ⟨hown, hname.symm⟩
  · exact Or.inl ⟨l, hl, hown, hname⟩

/-- Settled lines leave the same behind wherever the calls start. -/
theorem feedLines_alike {header' : List (Bytes × Bytes)} {headerVal' : Bytes}
    (hc : headerVal' = headerVal ∨ headerVal' = [])
    (hset : Settled (!headerVal.isEmpty) (linesTaken (calculateKeyHash sha1 h.handshakeKeyBase64)
      h.httpHeaderFlags headerVal (lines.map Prod.fst)))
    (hmap : AgreeExcept (Rewritten · (linesTaken (calculateKeyHash sha1 h.handshakeKeyBase64)
      h.httpHeaderFlags headerVal (lines.map Prod.fst))) h.header header') :
    (feedLines sha1 h headerVal (goOn (lines.map Prod.fst))).Alike
      (feedLines sha1 { h with header := header' } headerVal' lines) := by
  induction lines generalizing h header' headerVal headerVal' with
  | nil => exact ⟨rfl, (hmap.eq not_rewritten_nil).symm, rfl⟩
  | cons marked lines ih =>
    obtain ⟨line, starts⟩ := marked
    rw [List.map_cons] at hset hmap ⊢
    rw [goOn_cons]
    by_cases hl : cstr line = []
    · rw [linesTaken, if_pos hl] at hmap
      rw [feedLines_of_end hl, feedLines_of_end hl]
      obtain ⟨hres, hhead⟩ :=
        checkRequiredHeaders_map { h with connectState := .parsedHeaders } header' []
      obtain ⟨-, hhead'⟩ :=
        checkRequiredHeaders_map { h with connectState := .parsedHeaders } h.header []
      exact ⟨hres, hhead.trans ((hmap.eq not_rewritten_nil).symm.trans hhead'.symm),
        (map_fst_goOn _).symm⟩
    · have hvals := lineValue_cases hc starts line
      cases hv : validateHttpHeaders (calculateKeyHash sha1 h.handshakeKeyBase64)
          (lineName (cstr line)) (lineValue false headerVal line) h.httpHeaderFlags with
      | none =>
        rw [linesTaken_of_refused hl hv] at hset hmap
        have hsame : lineValue starts headerVal' line = lineValue false headerVal line := by
          refine hvals.resolve_right fun hlost => ?_
          have hseen : (!headerVal.isEmpty) = true := by simp [hlost.2.1]
          exact not_rewritten_nil _ (hset.1 hlost.1 hseen).2
        have hv' : validateHttpHeaders (calculateKeyHash sha1 h.handshakeKeyBase64)
            (lineName (cstr line)) (lineValue starts headerVal' line) h.httpHeaderFlags = none :=
          hsame ▸ hv
        rw [feedLines_of_refused hl hv,
          feedLines_of_refused (h := { h with header := header' }) hl hv', hsame]
        refine ⟨rfl, ?_, (map_fst_goOn _).symm⟩
        exact ((hmap.insertOrAssign (fun name hname => (rewritten_cons hname).imp_right fun hn =>
          ⟨rfl, hn.2⟩) (Or.inl rfl)).eq not_rewritten_nil).symm
      | some flags =>
        rw [linesTaken_of_passed hl hv] at hset hmap
        have hlost : lineValue starts headerVal' line = lineValue false headerVal line ∨
            ownToken line = none ∧ lineValue starts headerVal' line = [] ∧ ¬ Needed line ∧
              Rewritten (foldedName line) (linesTaken
                (calculateKeyHash sha1 h.handshakeKeyBase64) flags
                (lineValue false headerVal line) (lines.map Prod.fst)) := by
          refine hvals.imp_right fun hlost => ⟨hlost.1, hlost.2.2, hset.1 hlost.1 ?_⟩
          simp [hlost.2.1]
        have hv' : validateHttpHeaders (calculateKeyHash sha1 h.handshakeKeyBase64)
            (lineName (cstr line)) (lineValue starts headerVal' line) h.httpHeaderFlags =
              some flags := by
          rcases hlost with hsame | ⟨-, -, hn, -⟩
          · rw [hsame, hv]
          · rw [validateHttpHeaders_of_not_needed hn _ (lineValue false headerVal line), hv]
        rw [feedLines_of_passed hl hv,
          feedLines_of_passed (h := { h with header := header' }) hl hv']
        refine ih (h := { h.withField line (lineValue false headerVal line) with
          httpHeaderFlags := flags }) (hlost.imp_right fun h => h.2.1) ?_ ?_
        · rw [isEmpty_lineValue]
          exact hset.2
        · refine hmap.insertOrAssign (fun name hname => (rewritten_cons hname).imp_right fun hn =>
            ⟨?_, hn.2⟩) (hlost.imp Eq.symm fun h => h.2.2.2)
          exact (hlost.resolve_right fun h => hn.1 h.1).symm

/-! ## Cuts that show -/

private theorem valueOf_withField (name line val : Bytes) (h : Handshake) :
    valueOf name (h.withField line val).header =
      if foldedName line = name then some val else valueOf name h.header :=
  valueOf_insertOrAssign name (lineName (cstr line)) val h.header

private theorem header_of_end (h : Handshake) :
    (checkRequiredHeaders { h with connectState := .parsedHeaders } []).2.1.header = h.header :=
  (checkRequiredHeaders_map { h with connectState := .parsedHeaders } h.header []).2

/-- The value of a name stays when no line of that name is taken. -/
theorem valueOf_feedLines {name : Bytes} {rest : List Bytes}
    (hname : ∀ l ∈ linesTaken (calculateKeyHash sha1 h.handshakeKeyBase64) h.httpHeaderFlags
      headerVal rest, foldedName l ≠ name) :
    valueOf name (feedLines sha1 h headerVal (goOn rest)).hs.header = valueOf name h.header := by
  induction rest generalizing h headerVal with
  | nil => rfl
  | cons line rest ih =>
    rw [goOn_cons]
    by_cases hl : cstr line = []
    · rw [feedLines_of_end hl, header_of_end]
    · cases hv : validateHttpHeaders (calculateKeyHash sha1 h.handshakeKeyBase64)
          (lineName (cstr line)) (lineValue false headerVal line) h.httpHeaderFlags with
      | none =>
        rw [linesTaken_of_refused hl hv] at hname
        rw [feedLines_of_refused hl hv, valueOf_withField,
          if_neg (hname line (List.mem_singleton_self line))]
      | some flags =>
        rw [linesTaken_of_passed hl hv, List.forall_mem_cons] at hname
        rw [feedLines_of_passed hl hv]
        refine (ih hname.2).trans ?_
        exact (valueOf_withField name line _ h).trans (if_neg hname.1)

/-- A value that is not empty is only replaced by such values, once there is a value to keep. -/
theorem valueOf_feedLines_ne_nil {name v : Bytes} {rest : List Bytes} (hc : headerVal ≠ [])
    (hv : v ≠ []) (hval : valueOf name h.header = some v) :
    ∃ w, w ≠ [] ∧
      valueOf name (feedLines sha1 h headerVal (goOn rest)).hs.header = some w := by
  induction rest generalizing h headerVal v with
  | nil => exact ⟨v, hv, hval⟩
  | cons line rest ih =>
    rw [goOn_cons]
    have hkeep : lineValue false headerVal line ≠ [] := by
      have hseen := isEmpty_lineValue headerVal line
      intro hnil
      simp [hnil, hc] at hseen
    have hnext : ∃ w, w ≠ [] ∧
        valueOf name (h.withField line (lineValue false headerVal line)).header = some w := by
      rw [valueOf_withField]
      by_cases hn : foldedName line = name
      · exact ⟨_, hkeep, if_pos hn⟩
      · exact ⟨v, hv, (if_neg hn).trans hval⟩
    by_cases hl : cstr line = []
    · rw [feedLines_of_end hl, header_of_end]
      exact ⟨v, hv, hval⟩
    · cases hvalid : validateHttpHeaders (calculateKeyHash sha1 h.handshakeKeyBase64)
          (lineName (cstr line)) (lineValue false headerVal line) h.httpHeaderFlags with
      | none =>
        rw [feedLines_of_refused hl hvalid]
        exact hnext
      | some flags =>
        rw [feedLines_of_passed hl hvalid]
        obtain ⟨w, hw, hwval⟩ := hnext
        exact ih hkeep hw hwval

/-- Among settled lines a name that is not written again does not occur. -/
theorem foldedName_ne_of_settled {name : Bytes} {rest : List Bytes} (hset : Settled true rest)
    (hname : ¬ Rewritten name rest) : ∀ l ∈ rest, foldedName l ≠ name := by
  induction rest with
  | nil =>
    intro l hl
    cases hl
  | cons line rest ih =>
    have hrest : ¬ Rewritten name rest := fun ⟨l, hl, hr⟩ =>
      hname ⟨l, List.mem_cons_of_mem line hl, hr⟩
    rw [List.forall_mem_cons]
    refine ⟨?_, ih hset.2 hrest⟩
    rintro rfl
    by_cases hown : ownToken line = none
    · exact hrest (hset.1 hown rfl).2
    · exact hname ⟨line, List.mem_cons_self, hown, rfl⟩

/-- A line that is not settled gets another value when a call starts with it, and the header map
keeps the difference. -/
theorem header_ne_of_start {rest : List Bytes} (hl : cstr line ≠ []) (hown : ownToken line = none)
    (hc : headerVal ≠ [])
    (hrest : ∀ flags, validateHttpHeaders (calculateKeyHash sha1 h.handshakeKeyBase64)
      (lineName (cstr line)) headerVal h.httpHeaderFlags = some flags →
      Settled true (linesTaken (calculateKeyHash sha1 h.handshakeKeyBase64) flags headerVal rest) ∧
        (Needed line ∨ ¬ Rewritten (foldedName line)
          (linesTaken (calculateKeyHash sha1 h.handshakeKeyBase64) flags headerVal rest))) :
    (feedLines sha1 h headerVal (start (line :: rest))).hs.header ≠
      (feedLines sha1 h headerVal (goOn (line :: rest))).hs.header := by
  have hkept : lineValue false headerVal line = headerVal := by rw [lineValue, hown]; rfl
  have hlost : lineValue true headerVal line = [] := by rw [lineValue, hown]; rfl
  have hseen : (!headerVal.isEmpty) = true := by simp [hc]
  suffices hvals : ∃ w, w ≠ [] ∧
      valueOf (foldedName line) (feedLines sha1 h headerVal (goOn (line :: rest))).hs.header =
        some w ∧
      valueOf (foldedName line) (feedLines sha1 h headerVal (start (line :: rest))).hs.header =
        some [] by
    obtain ⟨w, hw, hkeep, hlose⟩ := hvals
    intro heq
    rw [heq, hkeep] at hlose
    exact hw (Option.some.inj hlose)
  rw [start, goOn_cons]
  cases hv : validateHttpHeaders (calculateKeyHash sha1 h.handshakeKeyBase64)
      (lineName (cstr line)) headerVal h.httpHeaderFlags with
  | none =>
    have hv' : validateHttpHeaders (calculateKeyHash sha1 h.handshakeKeyBase64)
        (lineName (cstr line)) [] h.httpHeaderFlags = none := by
      by_cases hn : Needed line
      · exact validateHttpHeaders_nil hn _
      · rw [validateHttpHeaders_of_not_needed hn [] headerVal, hv]
    refine ⟨headerVal, hc, ?_, ?_⟩
    · rw [feedLines_of_refused hl (hkept.symm ▸ hv), valueOf_withField, if_pos rfl, hkept]
    · rw [feedLines_of_refused hl (hlost.symm ▸ hv'), valueOf_withField, if_pos rfl, hlost]
  | some flags =>
    obtain ⟨hset, hbad⟩ := hrest flags hv
    rw [feedLines_of_passed hl (hkept.symm ▸ hv), hkept]
    by_cases hn : Needed line
    · have hkeep : ∃ w, w ≠ [] ∧ valueOf (foldedName line) (feedLines sha1
          { h.withField line headerVal with httpHeaderFlags := flags } headerVal
          (goOn rest)).hs.header = some w :=
        valueOf_feedLines_ne_nil hc hc
          ((valueOf_withField (foldedName line) line headerVal h).trans (if_pos rfl))
      obtain ⟨w, hw, hkeep⟩ := hkeep
      refine ⟨w, hw, hkeep, ?_⟩
      rw [feedLines_of_refused hl (hlost.symm ▸ validateHttpHeaders_nil hn _), valueOf_withField,
        if_pos rfl, hlost]
    · have hname := foldedName_ne_of_settled hset (hbad.resolve_left hn)
      have hv' : validateHttpHeaders (calculateKeyHash sha1 h.handshakeKeyBase64)
          (lineName (cstr line)) [] h.httpHeaderFlags = some flags := by
        rw [validateHttpHeaders_of_not_needed hn [] headerVal, hv]
      rw [feedLines_of_passed hl (hlost.symm ▸ hv'), hlost]
      -- The run that has lost the value ends as if it had kept it from here on.
      have halike : (feedLines sha1 { h.withField line [] with httpHeaderFlags := flags } headerVal
          (goOn ((goOn rest).map Prod.fst))).Alike
          (feedLines sha1 { h.withField line [] with httpHeaderFlags := flags } []
            (goOn rest)) := by
        refine feedLines_alike (Or.inr rfl) ?_ (AgreeExcept.refl _ _)
        rw [map_fst_goOn, hseen]
        exact hset
      rw [map_fst_goOn] at halike
      refine ⟨headerVal, hc, ?_, ?_⟩
      · exact (valueOf_feedLines hname).trans
          ((valueOf_withField (foldedName line) line headerVal h).trans (if_pos rfl))
      · rw [halike.header]
        exact (valueOf_feedLines hname).trans
          ((valueOf_withField (foldedName line) line [] h).trans (if_pos rfl))

/-- Lines that are not settled can be cut so that the header map shows it. -/
theorem exists_cut {rest : List Bytes}
    (hset : ¬ Settled (!headerVal.isEmpty) (linesTaken (calculateKeyHash sha1 h.handshakeKeyBase64)
      h.httpHeaderFlags headerVal rest)) :
    ∃ pre post, rest = pre ++ post ∧
      (feedLines sha1 h headerVal (goOn pre ++ start post)).hs.header ≠
        (feedLines sha1 h headerVal (goOn rest)).hs.header := by
  induction rest generalizing h headerVal with
  | nil => exact absurd trivial hset
  | cons line rest ih =>
    by_cases hl : cstr line = []
    · rw [linesTaken, if_pos hl] at hset
      exact absurd trivial hset
    · cases hv : validateHttpHeaders (calculateKeyHash sha1 h.handshakeKeyBase64)
          (lineName (cstr line)) (lineValue false headerVal line) h.httpHeaderFlags with
      | none =>
        rw [linesTaken_of_refused hl hv] at hset
        have hline : ownToken line = none ∧ (!headerVal.isEmpty) = true := by
          by_contra hno
          exact hset ⟨fun hown hseen => absurd ⟨hown, hseen⟩ hno, trivial⟩
        have hkept : lineValue false headerVal line = headerVal := by rw [lineValue, hline.1]; rfl
        refine ⟨[], line :: rest, rfl, header_ne_of_start hl hline.1 (by simpa using hline.2) ?_⟩
        intro flags hflags
        rw [hkept, hflags] at hv
        cases hv
      | some flags =>
        rw [linesTaken_of_passed hl hv] at hset
        by_cases hrest : Settled (!headerVal.isEmpty || (ownToken line).isSome)
            (linesTaken (calculateKeyHash sha1 h.handshakeKeyBase64) flags
              (lineValue false headerVal line) (rest))
        · have hline : ownToken line = none ∧ (!headerVal.isEmpty) = true ∧
              ¬ (¬ Needed line ∧ Rewritten (foldedName line)
                (linesTaken (calculateKeyHash sha1 h.handshakeKeyBase64) flags
                  (lineValue false headerVal line) rest)) := by
            by_contra hno
            refine hset ⟨fun hown hseen => ?_, hrest⟩
            by_contra hbad
            exact hno ⟨hown, hseen, hbad⟩
          obtain ⟨hown, hseen, hbad⟩ := hline
          have hkept : lineValue false headerVal line = headerVal := by rw [lineValue, hown]; rfl
          rw [hkept] at hv hbad hrest
          rw [hseen, Bool.true_or] at hrest
          refine ⟨[], line :: rest, rfl, header_ne_of_start hl hown (by simpa using hseen) ?_⟩
          intro flags' hflags
          obtain rfl := Option.some.inj (hv.symm.trans hflags)
          exact ⟨hrest, by_contra fun hno => hbad (by tauto)⟩
        · rw [← isEmpty_lineValue] at hrest
          obtain ⟨pre, post, rfl, hne⟩ := ih (h := { h.withField line
            (lineValue false headerVal line) with httpHeaderFlags := flags }) hrest
          refine ⟨line :: pre, post, rfl, ?_⟩
          rw [goOn_cons, goOn_cons, List.cons_append, feedLines_of_passed hl hv,
            feedLines_of_passed hl hv]
          exact hne

/-! ## From reads to lines -/

private theorem feedLines_append (lines' : List (Bytes × Bool)) :
    feedLines sha1 h headerVal (lines ++ lines') =
      if (feedLines sha1 h headerVal lines).result = .needMore then
        feedLines sha1 (feedLines sha1 h headerVal lines).hs
          (feedLines sha1 h headerVal lines).headerVal lines'
      else { feedLines sha1 h headerVal lines with
        left := (feedLines sha1 h headerVal lines).left ++ lines'.map Prod.fst } := by
  induction lines generalizing h headerVal with
  | nil => rfl
  | cons marked lines ih =>
    obtain ⟨line, starts⟩ := marked
    rw [List.cons_append, feedLines, feedLines]
    by_cases hr : (feedLine sha1 h (if starts then [] else headerVal) line).result = .needMore
    · simp only [if_pos hr]
      exact ih
    · simp only [if_neg hr, List.map_append]

/-- While more lines are needed, the session stays in the stage of the headers. -/
theorem feedLines_connectState
    (hr : (feedLines sha1 h headerVal lines).result = .needMore) :
    (feedLines sha1 h headerVal lines).hs.connectState = h.connectState ∧
      (feedLines sha1 h headerVal lines).left = [] := by
  induction lines generalizing h headerVal with
  | nil => exact ⟨rfl, rfl⟩
  | cons marked lines ih =>
    obtain ⟨line, starts⟩ := marked
    by_cases hl : cstr line = []
    · rw [feedLines_of_end hl] at hr
      exact absurd hr (checkRequiredHeaders_ends _ _)
    · cases hv : validateHttpHeaders (calculateKeyHash sha1 h.handshakeKeyBase64)
          (lineName (cstr line)) (lineValue starts headerVal line) h.httpHeaderFlags with
      | none =>
        rw [feedLines_of_refused hl hv] at hr
        cases hr
      | some flags =>
        rw [feedLines_of_passed hl hv] at hr ⊢
        exact ih hr

/-- A call that starts with the lines ends as one that has kept nothing. -/
theorem feedLines_start (rest : List Bytes) :
    (feedLines sha1 h headerVal (start rest)).result = (feedLines sha1 h [] (goOn rest)).result ∧
      (feedLines sha1 h headerVal (start rest)).hs = (feedLines sha1 h [] (goOn rest)).hs ∧
      (feedLines sha1 h headerVal (start rest)).left = (feedLines sha1 h [] (goOn rest)).left := by
  cases rest with
  | nil => exact ⟨rfl, rfl, rfl⟩
  | cons line rest => exact ⟨rfl, rfl, rfl⟩

private theorem feedLines_start_nil (rest : List Bytes) :
    feedLines sha1 h [] (start rest ++ lines) = feedLines sha1 h [] (goOn rest ++ lines) := by
  cases rest with
  | nil => rfl
  | cons line rest => rfl

/-- What the header stage makes of the result of `ReadHttpHeaders`. -/
def headersEnd : Reply → Reply
  | (.success, h, rest) => checkRequiredHeaders { h with connectState := .parsedHeaders } rest
  | other => other

private theorem checkRequiredHeaders_input (h : Handshake) (input : Bytes) :
    checkRequiredHeaders h input =
      ((checkRequiredHeaders h []).1, (checkRequiredHeaders h []).2.1, input) := by
  simp only [checkRequiredHeaders]
  split_ifs <;> rfl

/-- One call on some bytes takes their complete lines in turn. -/
theorem readHttpHeadersLoop_feed {n : Nat} {input : Bytes}
    (hn : (splitLines input).1.length < n) :
    ∃ used rest, (splitLines input).1 =
        used ++ (feedLines sha1 h headerVal (goOn (splitLines input).1)).left ∧
      ReadLines input used rest ∧
      headersEnd (readHttpHeadersLoop sha1 n h headerVal input) =
        ((feedLines sha1 h headerVal (goOn (splitLines input).1)).result,
          (feedLines sha1 h headerVal (goOn (splitLines input).1)).hs, rest) := by
  induction n generalizing h headerVal input with
  | zero => exact absurd hn (Nat.not_lt_zero _)
  | succ n ih =>
    cases hread : readln input with
    | none =>
      rw [splitLines_of_none hread, readHttpHeadersLoop, hread]
      exact ⟨[], input, rfl, rfl, rfl⟩
    | some p =>
      obtain ⟨line, input'⟩ := p
      rw [splitLines_of_some hread] at hn ⊢
      rw [readHttpHeadersLoop, hread, goOn_cons]
      dsimp only
      by_cases hl : cstr line = []
      · rw [if_pos hl, feedLines_of_end hl]
        exact ⟨[line], input', by rw [map_fst_goOn]; rfl, ⟨input', hread, rfl⟩,
          checkRequiredHeaders_input _ _⟩
      · rw [if_neg hl]
        have hkv : parseHttpHeader (cstr line) headerVal =
            (lineName (cstr line), lineValue false headerVal line) := rfl
        cases hv : validateHttpHeaders (calculateKeyHash sha1 h.handshakeKeyBase64)
            (lineName (cstr line)) (lineValue false headerVal line) h.httpHeaderFlags with
        | none =>
          rw [feedLines_of_refused hl hv, hkv]
          simp only [hv]
          exact ⟨[line], input', by rw [map_fst_goOn]; rfl, ⟨input', hread, rfl⟩, rfl⟩
        | some flags =>
          rw [feedLines_of_passed hl hv, hkv]
          simp only [hv]
          obtain ⟨used, rest, hused, hlines, hend⟩ := @ih { h.withField line
            (lineValue false headerVal line) with httpHeaderFlags := flags }
            (lineValue false headerVal line) input' (Nat.lt_of_succ_lt_succ hn)
          exact ⟨line :: used, rest, by rw [List.cons_append, ← hused], ⟨input', hread, hlines⟩,
            hend⟩

/-- The lines of some reads, marked where a call starts with them. -/
def marks : Bytes → List Bytes → List (Bytes × Bool)
  | _, [] => []
  | buf, r :: rs => start (splitLines (buf ++ r)).1 ++ marks (splitLines (buf ++ r)).2 rs

/-- The lines do not depend on how the bytes are cut. -/
theorem map_fst_marks {buf : Bytes} {reads : List Bytes} (hb : readln buf = none) :
    (marks buf reads).map Prod.fst = (splitLines (buf ++ reads.flatten)).1 := by
  induction reads generalizing buf with
  | nil => rw [List.flatten_nil, List.append_nil, splitLines_of_none hb, marks, List.map_nil]
  | cons r rs ih =>
    rw [marks, List.map_append, map_fst_start, ih (splitLines_spec _).2, List.flatten_cons,
      ← List.append_assoc, splitLines_append (buf ++ r)]

/-- What a run over the lines of a stream says about a reply. -/
structure Fed.Describes (fed : Fed) (stream : Bytes) (reply : Reply) : Prop where
  result : reply.1 = fed.result
  hs : reply.2.1 = fed.hs
  rest : fed.result ≠ .needMore → ∃ used, (splitLines stream).1 = used ++ fed.left ∧
    ReadLines stream used reply.2.2

private theorem readHeaderStage_feed (hs : h.connectState = .parsedStatus) (input : Bytes) :
    ∃ used rest, (splitLines input).1 =
        used ++ (feedLines sha1 h [] (goOn (splitLines input).1)).left ∧
      ReadLines input used rest ∧
      readServerHandshakeReply sha1 h input =
        ((feedLines sha1 h [] (goOn (splitLines input).1)).result,
          (feedLines sha1 h [] (goOn (splitLines input).1)).hs, rest) := by
  have hlen := (splitLines_spec input).1.length_le
  obtain ⟨used, rest, hused, hlines, hend⟩ :=
    @readHttpHeadersLoop_feed sha1 h [] (input.length + 1) input (by omega)
  refine ⟨used, rest, hused, hlines, ?_⟩
  rw [readServerHandshakeReply, hs, ← hend]
  rfl

/-- Reads behind the end of the reply are left in the buffer. -/
theorem readReply_of_done {buf r rest : Bytes} {rs : List Bytes} {result : WSParseState}
    {h' : Handshake} (hcall : readServerHandshakeReply sha1 h (buf ++ r) = (result, h', rest))
    (hdone : result ≠ .needMore) :
    readReply sha1 h buf (r :: rs) = (result, h', rest ++ rs.flatten) := by
  rw [readReply, hcall]
  cases result with
  | needMore => exact absurd rfl hdone
  | success => rfl
  | error => rfl
  | userAbort => rfl

private theorem readReply_of_more {buf r rest : Bytes} {rs : List Bytes} {h' : Handshake}
    (hcall : readServerHandshakeReply sha1 h (buf ++ r) = (.needMore, h', rest)) :
    readReply sha1 h buf (r :: rs) = readReply sha1 h' rest rs := by
  rw [readReply, hcall]

/-- The replies of successive calls are those of a run over the lines, in which the lines that
start a call are marked. -/
theorem readReply_feed {buf : Bytes} {reads : List Bytes} (hs : h.connectState = .parsedStatus)
    (hb : readln buf = none) :
    (feedLines sha1 h headerVal (marks buf reads)).Describes (buf ++ reads.flatten)
      (readReply sha1 h buf reads) := by
  induction reads generalizing h headerVal buf with
  | nil => exact ⟨rfl, rfl, fun hne => absurd rfl hne⟩
  | cons r rs ih =>
    obtain ⟨used, rest, hused, hlines, hcall⟩ := @readHeaderStage_feed sha1 h hs (buf ++ r)
    obtain ⟨hsplit, hend⟩ := splitLines_spec (buf ++ r)
    obtain ⟨hres, hhs, hleft⟩ := @feedLines_start sha1 h headerVal (splitLines (buf ++ r)).1
    rw [marks, List.flatten_cons, ← List.append_assoc, feedLines_append, hres, hhs, hleft]
    by_cases hmore : (feedLines sha1 h [] (goOn (splitLines (buf ++ r)).1)).result = .needMore
    · obtain ⟨hstate, hnil⟩ := feedLines_connectState hmore
      rw [hnil, List.append_nil] at hused
      obtain rfl := hused
      obtain rfl := hlines.rest_unique hsplit
      rw [hmore] at hcall
      have hrs := @ih (feedLines sha1 h [] (goOn (splitLines (buf ++ r)).1)).hs
        (feedLines sha1 h headerVal (start (splitLines (buf ++ r)).1)).headerVal
        (splitLines (buf ++ r)).2 (hstate.trans hs) hend
      rw [if_pos hmore, readReply_of_more hcall]
      refine ⟨hrs.result, hrs.hs, fun hne => ?_⟩
      obtain ⟨used', hused', hlines'⟩ := hrs.rest hne
      refine ⟨(splitLines (buf ++ r)).1 ++ used', ?_, (hsplit.append _).trans hlines'⟩
      rw [splitLines_append (buf ++ r), hused', List.append_assoc]
    · rw [if_neg hmore, readReply_of_done hcall hmore]
      refine ⟨hres.symm, hhs.symm, fun _ => ⟨used, ?_, hlines.append _⟩⟩
      rw [splitLines_append (buf ++ r), map_fst_marks hend, ← List.append_assoc, ← hused]

/-! ## The reply and its cuts -/

/-- What the caller sees of the replies: the outcome, the header map, and after success the bytes
that are left. -/
def replyOutcome (reply : Reply) : WSParseState × List (Bytes × Bytes) × Option Bytes :=
  (reply.1, reply.2.1.header, if reply.1 = .success then some reply.2.2 else none)

/-- Runs that end alike describe replies with the same outcome. -/
theorem Fed.Describes.outcome_eq {fed fed' : Fed} {stream : Bytes} {reply reply' : Reply}
    (hd : fed.Describes stream reply) (hd' : fed'.Describes stream reply')
    (halike : fed.Alike fed') : replyOutcome reply' = replyOutcome reply := by
  have hres : reply'.1 = reply.1 := by rw [hd.result, hd'.result, halike.result]
  have hmap : reply'.2.1.header = reply.2.1.header := by rw [hd.hs, hd'.hs, halike.header]
  rw [replyOutcome, replyOutcome, hres, hmap]
  by_cases hsucc : reply.1 = .success
  · have hne : fed.result ≠ .needMore := by rw [← hd.result, hsucc]; decide
    obtain ⟨used, hused, hlines⟩ := hd.rest hne
    obtain ⟨used', hused', hlines'⟩ := hd'.rest (halike.result.symm ▸ hne)
    rw [halike.left, hused] at hused'
    obtain rfl := List.append_cancel_right hused'
    rw [hlines.rest_unique hlines']
  · rw [if_neg hsucc, if_neg hsucc]

/-- Behind the status line, all cuts give the same outcome exactly when the lines are settled. -/
theorem headers_cut_iff (hs : h.connectState = .parsedStatus) (stream : Bytes) :
    (∀ reads : List Bytes, reads.flatten = stream →
      replyOutcome (readReply sha1 h [] reads) = replyOutcome (readReply sha1 h [] [stream])) ↔
      Settled false (linesTaken (calculateKeyHash sha1 h.handshakeKeyBase64) h.httpHeaderFlags []
        (splitLines stream).1) := by
  have hnone : readln [] = none := rfl
  have hdesc : ∀ reads : List Bytes, (feedLines sha1 h [] (marks [] reads)).Describes
      reads.flatten (readReply sha1 h [] reads) := fun reads => readReply_feed hs hnone
  have hone : ([stream] : List Bytes).flatten = stream := by simp
  constructor
  · intro hcuts
    by_contra hset
    obtain ⟨pre, post, hlines, hne⟩ := @exists_cut sha1 h [] _ hset
    obtain ⟨hread, hend⟩ := splitLines_spec stream
    rw [hlines] at hread
    obtain ⟨b₁, b₂, hb, h₁, h₂⟩ := hread.split
    have hmarks : marks [] [b₁, b₂] = start pre ++ start post := by
      simp only [marks, List.nil_append, List.append_nil, splitLines_eq h₁ hnone,
        splitLines_eq h₂ hend]
    have hmarks' : marks [] [stream] = start (splitLines stream).1 := by
      simp only [marks, List.nil_append, List.append_nil]
    have hheader := congrArg (fun o => o.2.1) (hcuts [b₁, b₂] (by simp [hb]))
    simp only [replyOutcome, (hdesc [b₁, b₂]).hs, (hdesc [stream]).hs, hmarks, hmarks',
      feedLines_start_nil] at hheader
    rw [(feedLines_start _).2.1] at hheader
    exact hne hheader
  · intro hset reads hflat
    have halike : ∀ reads : List Bytes, reads.flatten = stream →
        (feedLines sha1 h [] (goOn (splitLines stream).1)).Alike
          (feedLines sha1 h [] (marks [] reads)) := by
      intro reads hflat
      have hfst : (marks [] reads).map Prod.fst = (splitLines stream).1 := by
        rw [map_fst_marks hnone, List.nil_append, hflat]
      rw [← hfst] at hset ⊢
      exact feedLines_alike (Or.inl rfl) hset (AgreeExcept.refl _ _)
    have h₁ := halike reads hflat
    have h₂ := halike [stream] hone
    refine Fed.Describes.outcome_eq (hone ▸ hdesc [stream]) (hflat ▸ hdesc reads) ⟨?_, ?_, ?_⟩
    · rw [h₁.result, h₂.result]
    · rw [h₁.header, h₂.header]
    · rw [h₁.left, h₂.left]

/-- A status line that the parser accepts. -/
def IsUpgrade (line : Bytes) : Prop := parseHttpStatus (cstr line) = some (1, 1, 101)

instance (line : Bytes) : Decidable (IsUpgrade line) :=
  inferInstanceAs (Decidable (_ = _))

private theorem readStatusStage_of_line {input line rest : Bytes}
    (hl : readln input = some (line, rest)) :
    readStatusStage sha1 h input =
      if IsUpgrade line then readHeaderStage sha1 { h with connectState := .parsedStatus } rest
      else (.error, h, rest) := by
  rw [readStatusStage, hl]
  dsimp only
  by_cases hup : IsUpgrade line
  · rw [if_pos hup, show parseHttpStatus (cstr line) = some (1, 1, 101) from hup]
    rfl
  · rw [if_neg hup]
    cases hst : parseHttpStatus (cstr line) with
    | none => rfl
    | some v =>
      obtain ⟨major, minor, code⟩ := v
      dsimp only
      split_ifs with hversion hcode
      · rfl
      · rfl
      · obtain ⟨rfl, rfl⟩ : major = 1 ∧ minor = 1 := by tauto
        obtain rfl : code = 101 := by tauto
        exact absurd hst hup

private theorem readServerHandshakeReply_of_sentReq (hs : h.connectState = .sentReq)
    (hf : h.httpHeaderFlags = 0) (input : Bytes) :
    readServerHandshakeReply sha1 h input = readStatusStage sha1 h input := by
  obtain ⟨_, _, _, _⟩ := h
  cases hs
  cases hf
  rfl

/-- The read that completes an accepted status line hands the bytes behind it to the header
stage. -/
theorem readReply_of_upgrade {buf r line rest : Bytes} {rs : List Bytes}
    (hs : h.connectState = .sentReq) (hf : h.httpHeaderFlags = 0)
    (hl : readln (buf ++ r) = some (line, rest)) (hup : IsUpgrade line) :
    readReply sha1 h buf (r :: rs) =
      readReply sha1 { h with connectState := .parsedStatus } [] (rest :: rs) := by
  rw [readReply, readReply, readServerHandshakeReply_of_sentReq hs hf, readStatusStage_of_line hl,
    if_pos hup]
  rfl

/-- A reply without a status line is waited for. -/
theorem readReply_of_noStatus {buf : Bytes} {reads : List Bytes} (hs : h.connectState = .sentReq)
    (hf : h.httpHeaderFlags = 0) (hl : readln (buf ++ reads.flatten) = none) :
    readReply sha1 h buf reads = (.needMore, h, buf ++ reads.flatten) := by
  induction reads generalizing buf with
  | nil => rw [readReply, List.flatten_nil, List.append_nil]
  | cons r rs ih =>
    rw [List.flatten_cons, ← List.append_assoc] at hl ⊢
    have hnone : readln (buf ++ r) = none := by
      cases hr : readln (buf ++ r) with
      | none => rfl
      | some p => rw [readln_append hr] at hl; cases hl
    have hcall : readServerHandshakeReply sha1 h (buf ++ r) = (.needMore, h, buf ++ r) := by
      rw [readServerHandshakeReply_of_sentReq hs hf, readStatusStage, hnone]
    rw [readReply_of_more hcall]
    exact ih hl

/-- A reply with a status line: refused with that line, or read on by the header stage. -/
theorem readReply_of_status {buf line rest : Bytes} {reads : List Bytes}
    (hs : h.connectState = .sentReq) (hf : h.httpHeaderFlags = 0) (hb : readln buf = none)
    (hl : readln (buf ++ reads.flatten) = some (line, rest)) :
    if IsUpgrade line then ∃ pieces : List Bytes, pieces.flatten = rest ∧
      readReply sha1 h buf reads = readReply sha1 { h with connectState := .parsedStatus } [] pieces
    else readReply sha1 h buf reads = (.error, h, rest) := by
  induction reads generalizing buf with
  | nil => rw [List.flatten_nil, List.append_nil, hb] at hl; cases hl
  | cons r rs ih =>
    rw [List.flatten_cons, ← List.append_assoc] at hl
    have hcall := @readServerHandshakeReply_of_sentReq sha1 h hs hf (buf ++ r)
    cases hr : readln (buf ++ r) with
    | none =>
      rw [readStatusStage, hr] at hcall
      rw [readReply_of_more hcall]
      exact ih hr hl
    | some p =>
      obtain ⟨line', rest'⟩ := p
      rw [readln_append hr] at hl
      obtain ⟨rfl, rfl⟩ := Prod.mk.inj (Option.some.inj hl)
      split_ifs with hup
      · exact ⟨rest' :: rs, rfl, readReply_of_upgrade hs hf hr hup⟩
      · rw [readStatusStage_of_line hr, if_neg hup] at hcall
        exact readReply_of_done hcall (by decide)

/-- The reply is settled: behind a status line that is accepted, the header lines that are taken
do not show where a call starts. -/
def SettledReply (acceptKeyHash stream : Bytes) : Prop :=
  ∀ status rest, readln stream = some (status, rest) → IsUpgrade status →
    Settled false (linesTaken acceptKeyHash 0 [] (splitLines rest).1)

/-- The flags that an earlier connection has left do not matter. -/
theorem replyOutcome_reset (hs : h.connectState = .sentReq) (reads : List Bytes) :
    replyOutcome (readReply sha1 h [] reads) =
      replyOutcome (readReply sha1 { h with httpHeaderFlags := 0 } [] reads) := by
  cases reads with
  | nil => rfl
  | cons r rs =>
    have hcall : readServerHandshakeReply sha1 h ([] ++ r) =
        readServerHandshakeReply sha1 { h with httpHeaderFlags := 0 } ([] ++ r) := by
      simp only [readServerHandshakeReply, hs]
    rw [readReply, readReply, hcall]

/-- For every reply, all partitions into reads have the outcome of one read exactly when the reply
is settled. -/
theorem readReply_cut_iff (hs : h.connectState = .sentReq) (stream : Bytes) :
    (∀ reads : List Bytes, reads.flatten = stream →
      replyOutcome (readReply sha1 h [] reads) = replyOutcome (readReply sha1 h [] [stream])) ↔
      SettledReply (calculateKeyHash sha1 h.handshakeKeyBase64) stream := by
  simp only [replyOutcome_reset hs]
  set h₀ : Handshake := { h with httpHeaderFlags := 0 } with hh₀
  have hs₀ : h₀.connectState = .sentReq := hs
  have hnone : readln [] = none := rfl
  have hone : ([stream] : List Bytes).flatten = stream := by simp
  cases hl : readln stream with
  | none =>
    -- Without a status line every cut waits, and nothing is demanded of the lines.
    have hwait : ∀ reads : List Bytes, reads.flatten = stream →
        readReply sha1 h₀ [] reads = (.needMore, h₀, stream) := fun reads hflat => by
      rw [readReply_of_noStatus hs₀ rfl (by rw [List.nil_append, hflat, hl]), List.nil_append,
        hflat]
    refine iff_of_true (fun reads hflat => ?_) (fun status rest hsome => ?_)
    · rw [hwait reads hflat, hwait [stream] hone]
    · rw [hl] at hsome
      cases hsome
  | some p =>
    obtain ⟨line, rest⟩ := p
    have hsettled : SettledReply (calculateKeyHash sha1 h.handshakeKeyBase64) stream ↔
        (IsUpgrade line → Settled false
          (linesTaken (calculateKeyHash sha1 h.handshakeKeyBase64) 0 [] (splitLines rest).1)) := by
      simp only [SettledReply, hl, Option.some.injEq, Prod.mk.injEq]
      exact ⟨fun hset => hset line rest ⟨rfl, rfl⟩, fun hset _ _ ⟨h₁, h₂⟩ => h₁ ▸ h₂ ▸ hset⟩
    have hstatus : ∀ reads : List Bytes, reads.flatten = stream → _ := fun reads hflat =>
      @readReply_of_status sha1 h₀ [] line rest reads hs₀ rfl hnone
        (by rw [List.nil_append, hflat, hl])
    rw [hsettled]
    by_cases hup : IsUpgrade line
    · simp only [if_pos hup] at hstatus
      have hwhole : readReply sha1 h₀ [] [stream] =
          readReply sha1 { h₀ with connectState := .parsedStatus } [] [rest] :=
        readReply_of_upgrade hs₀ rfl hl hup
      rw [hwhole, imp_iff_right hup]
      refine Iff.trans ⟨fun hcuts pieces hflat => ?_, fun hcuts reads hflat => ?_⟩
        (@headers_cut_iff sha1 { h₀ with connectState := .parsedStatus } rfl rest)
      · -- The status line as a read of its own.
        have hread : ReadLines stream ([line] ++ []) rest := ⟨rest, hl, rfl⟩
        obtain ⟨head, _, hsplit, ⟨_, hhead, rfl⟩, rfl⟩ := hread.split
        have hreply : readReply sha1 h₀ [] (head :: pieces) =
            readReply sha1 { h₀ with connectState := .parsedStatus } [] pieces := by
          have hempty : readServerHandshakeReply sha1 { h₀ with connectState := .parsedStatus }
              ([] ++ []) = (.needMore, { h₀ with connectState := .parsedStatus }, []) := rfl
          have hhead' : readln ([] ++ head) = some (line, []) := hhead
          rw [readReply_of_upgrade hs₀ rfl hhead' hup, readReply_of_more hempty]
        rw [← hreply]
        exact hcuts (head :: pieces) (by rw [List.flatten_cons, hflat, hsplit])
      · obtain ⟨pieces, hpieces, hreply⟩ := hstatus reads hflat
        rw [hreply]
        exact hcuts pieces hpieces
    · simp only [if_neg hup] at hstatus
      refine iff_of_true (fun reads hflat => ?_) (fun hup' => absurd hup' hup)
      rw [hstatus reads hflat, hstatus [stream] hone]

end lines

/-- A reply with a line that has no value, written over by a later line of its name, is read the
same in every partition. -/
theorem readReply_cut_rewritten :
    let sha1 : Bytes → Bytes := fun _ => List.replicate 20 0
    let h : Handshake := { connectState := .sentReq, handshakeKeyBase64 := ascii "AQ==" }
    let stream := ascii ("HTTP/1.1 101 OK\r\nUpgrade: websocket\r\nConnection: upgrade\r\nX\r\n" ++
      "Sec-WebSocket-Accept: AAAAAAAAAAAAAAAAAAAAAAAAAAA=\r\nX: 1\r\n\r\n")
    ∀ reads : List Bytes, reads.flatten = stream →
      replyOutcome (readReply sha1 h [] reads) = replyOutcome (readReply sha1 h [] [stream]) := by
  intro sha1 h stream
  refine (readReply_cut_iff rfl stream).mpr fun status rest hl _ => ?_
  have hl' : readln stream = some (ascii "HTTP/1.1 101 OK",
      ascii ("Upgrade: websocket\r\nConnection: upgrade\r\nX\r\n" ++
        "Sec-WebSocket-Accept: AAAAAAAAAAAAAAAAAAAAAAAAAAA=\r\nX: 1\r\n\r\n")) := by
    decide +kernel
  rw [hl'] at hl
  obtain ⟨rfl, rfl⟩ := Prod.mk.inj (Option.some.inj hl)
  have hlines : ReadLines (ascii ("Upgrade: websocket\r\nConnection: upgrade\r\nX\r\n" ++
      "Sec-WebSocket-Accept: AAAAAAAAAAAAAAAAAAAAAAAAAAA=\r\nX: 1\r\n\r\n"))
      [ascii "Upgrade: websocket", ascii "Connection: upgrade", ascii "X",
        ascii "Sec-WebSocket-Accept: AAAAAAAAAAAAAAAAAAAAAAAAAAA=", ascii "X: 1", []] [] := by
    decide +kernel
  rw [splitLines_eq hlines rfl]
  decide +kernel

/-- A reply that is accepted in one read and refused when a read ends before its `Connection`
line, which has no value. -/
theorem not_forall_readReply_cut :
    let sha1 : Bytes → Bytes := fun _ => List.replicate 20 0
    let h : Handshake := { connectState := .sentReq, handshakeKeyBase64 := ascii "AQ==" }
    ¬ ∀ (stream : Bytes) (reads : List Bytes), reads.flatten = stream →
      replyOutcome (readReply sha1 h [] reads) = replyOutcome (readReply sha1 h [] [stream]) := by
  intro sha1 h hcuts
  have hcut := hcuts _ [ascii "HTTP/1.1 101 OK\r\nUpgrade: websocket\r\nX: upgrade\r\n",
    ascii "Connection\r\nSec-WebSocket-Accept: AAAAAAAAAAAAAAAAAAAAAAAAAAA=\r\n\r\n"] rfl
  exact absurd (congrArg Prod.fst hcut) (by decide +kernel)

end CppImprovement.Ws

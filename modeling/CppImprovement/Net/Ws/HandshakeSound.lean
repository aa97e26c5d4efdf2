import CppImprovement.Net.Ws.Handshake
import Mathlib.Data.List.DropRight

/-!
# What an accepted handshake reply says

A reply conforms when its head is a `101` status line, header lines and an empty
line, with one `Upgrade`, one `Connection` and one `Sec-WebSocket-Accept` line,
each carrying its value after its own colon. The parser looks at less: at the C
string of a line, at the first token behind the colon, or at the token of an
earlier line when there is none. On accepted replies the two views agree exactly
when the lines that count are plainly written.
-/

namespace CppImprovement.Ws

/-! ## Conforming replies -/

/-- A text without the blanks around it. -/
def trim (s : Bytes) : Bytes := (s.dropWhile isSpace).rdropWhile isSpace

/-- The value a line carries itself: the text after its colon, trimmed. -/
def ownValue (line : Bytes) : Bytes := trim ((lineRest line).getD [])

/-- The line has a colon, and the name before it is `name` up to case. -/
def named (name line : Bytes) : Bool :=
  decide (COLON ∈ line) && compareStrIgnoreCase (lineName line) name

/-- A status line of version 1.1 with code 101. -/
def IsStatus101 (line : Bytes) : Prop :=
  ∃ tail, line = ascii "HTTP/1.1 101" ++ tail ∧ (tail = [] ∨ tail.head? = some 32)

/-- Exactly one line is named `name`, and its own value satisfies `P`. -/
def HasOne (name : Bytes) (P : Bytes → Prop) (lines : List Bytes) : Prop :=
  ∃ line, lines.filter (named name) = [line] ∧ P (ownValue line)

/-- The part of `stream` before `rest` is a conforming reply for the given accept value. -/
def Conforms (acceptKeyHash stream rest : Bytes) : Prop :=
  ∃ status lines, ReadLines stream (status :: lines ++ [[]]) rest ∧ IsStatus101 status ∧
    HasOne (ascii "Upgrade") (compareStrIgnoreCase (ascii "websocket") · = true) lines ∧
    HasOne (ascii "Connection") (compareStrIgnoreCase (ascii "upgrade") · = true) lines ∧
    HasOne (ascii "Sec-WebSocket-Accept") (· = acceptKeyHash) lines ∧
    ∀ line ∈ lines, line ≠ [] ∧ named (ascii "Sec-WebSocket-Extensions") line = false ∧
      named (ascii "Sec-WebSocket-Protocol") line = false

/-! ## Plainly written lines -/

/-- The names the parser looks for. -/
def requiredNames : List Bytes :=
  [ascii "Upgrade", ascii "Connection", ascii "Sec-WebSocket-Accept"]

/-- The name the parser reads off a line is `name` up to case. -/
def readsAs (name line : Bytes) : Bool := compareStrIgnoreCase (lineName (cstr line)) name

/-- A line with a colon, no NUL before it, and behind it one word between blanks. -/
def PlainField (line : Bytes) : Prop :=
  COLON ∈ line ∧ (0 : UInt8) ∉ lineName line ∧ ownValue line ≠ [] ∧
    ∀ c ∈ ownValue line, isSpace c = false ∧ c ≠ 0

instance (line : Bytes) : Decidable (PlainField line) :=
  haveI : Decidable (∀ c ∈ ownValue line, isSpace c = false ∧ c ≠ 0) := List.decidableBAll _ _
  instDecidableAnd

/-- The head of the stream: its first line, and the lines up to one with an empty C string. -/
def HeadOf (stream status : Bytes) (lines : List Bytes) (last rest : Bytes) : Prop :=
  ReadLines stream (status :: lines ++ [last]) rest ∧ (∀ line ∈ lines, cstr line ≠ []) ∧
    cstr last = []

/-- The head of the stream is plainly written: its status line is spelled out, its last line is
empty, the lines that read as required headers are plain fields, and no accept value differs
from the expected one in case alone. -/
def PlainlyWritten (acceptKeyHash stream : Bytes) : Prop :=
  ∀ status lines last rest, HeadOf stream status lines last rest →
    IsStatus101 status ∧ last = [] ∧
    (∀ name ∈ requiredNames, ∀ line ∈ lines, readsAs name line = true → PlainField line) ∧
    ∀ line ∈ lines, readsAs (ascii "Sec-WebSocket-Accept") line = true →
      compareStrIgnoreCase acceptKeyHash (ownValue line) = true → ownValue line = acceptKeyHash

private theorem linesUntilEmpty_unique {b last last' rest rest' : Bytes} {lines lines' : List Bytes}
    (h : ReadLines b (lines ++ [last]) rest) (h' : ReadLines b (lines' ++ [last']) rest')
    (hl : ∀ line ∈ lines, cstr line ≠ []) (hl' : ∀ line ∈ lines', cstr line ≠ [])
    (he : cstr last = []) (he' : cstr last' = []) : lines = lines' ∧ last = last' := by
  induction lines generalizing b lines' with
  | nil =>
    obtain ⟨m, hm, -⟩ := h
    cases lines' with
    | nil =>
      obtain ⟨m', hm', -⟩ := h'
      exact ⟨rfl, (Prod.mk.inj (Option.some.inj (hm.symm.trans hm'))).1⟩
    | cons l ls =>
      obtain ⟨m', hm', -⟩ := h'
      obtain ⟨rfl, -⟩ := Prod.mk.inj (Option.some.inj (hm.symm.trans hm'))
      exact absurd he (hl' last List.mem_cons_self)
  | cons l ls ih =>
    obtain ⟨m, hm, ht⟩ := h
    cases lines' with
    | nil =>
      obtain ⟨m', hm', -⟩ := h'
      obtain ⟨rfl, -⟩ := Prod.mk.inj (Option.some.inj (hm.symm.trans hm'))
      exact absurd he' (hl l List.mem_cons_self)
    | cons l' ls' =>
      obtain ⟨m', hm', ht'⟩ := h'
      obtain ⟨rfl, rfl⟩ := Prod.mk.inj (Option.some.inj (hm.symm.trans hm'))
      obtain ⟨rfl, rfl⟩ := ih ht ht' (fun k hk => hl k (List.mem_cons_of_mem _ hk))
        (fun k hk => hl' k (List.mem_cons_of_mem _ hk))
      exact ⟨rfl, rfl⟩

/-- A stream has one head. -/
theorem HeadOf.unique {stream status status' last last' rest rest' : Bytes}
    {lines lines' : List Bytes} (h : HeadOf stream status lines last rest)
    (h' : HeadOf stream status' lines' last' rest') :
    status = status' ∧ lines = lines' ∧ last = last' := by
  obtain ⟨⟨m, hm, ht⟩, hl, he⟩ := h
  obtain ⟨⟨m', hm', ht'⟩, hl', he'⟩ := h'
  obtain ⟨rfl, rfl⟩ := Prod.mk.inj (Option.some.inj (hm.symm.trans hm'))
  exact ⟨rfl, linesUntilEmpty_unique ht ht' hl hl' he he'⟩

/-! ## Text lemmas -/

/-- Two strings compare equal when their lower case is the same. -/
theorem compareStrIgnoreCase_iff {a b : Bytes} :
    compareStrIgnoreCase a b = true ↔ a.map toLower = b.map toLower := by
  rw [compareStrIgnoreCase, beq_iff_eq]

/-- The order of the two strings does not matter. -/
theorem compareStrIgnoreCase_comm (a b : Bytes) :
    compareStrIgnoreCase a b = compareStrIgnoreCase b a := by
  rw [Bool.eq_iff_iff, compareStrIgnoreCase_iff, compareStrIgnoreCase_iff]
  exact eq_comm

private theorem compareStrIgnoreCase_trans {a b c : Bytes} (h : compareStrIgnoreCase a b = true)
    (h' : compareStrIgnoreCase b c = true) : compareStrIgnoreCase a c = true := by
  rw [compareStrIgnoreCase_iff] at *
  exact h.trans h'

private theorem toLower_of_not_visible {c : UInt8} (h : isSpace c = true ∨ c = 0) :
    toLower c = c := by
  induction c using byte_induction with
  | ofNat n => revert n; decide +kernel

/-- A character of a text that equals a visible text up to case is visible. -/
theorem visible_of_compare {a b : Bytes} (h : compareStrIgnoreCase a b = true)
    (ha : ∀ c ∈ a.map toLower, isSpace c = false ∧ c ≠ 0) :
    ∀ c ∈ b, isSpace c = false ∧ c ≠ 0 := by
  intro c hc
  have hmem : toLower c ∈ a.map toLower := by
    rw [compareStrIgnoreCase_iff.mp h]
    exact List.mem_map_of_mem hc
  have hv := ha _ hmem
  by_contra hn
  have hor : isSpace c = true ∨ c = 0 := by
    by_cases hs : isSpace c = true
    · exact Or.inl hs
    · right
      by_contra h0
      exact hn ⟨by simpa using hs, h0⟩
  rw [toLower_of_not_visible hor] at hv
  exact hn hv

private theorem zero_notMem_of_compare {a b : Bytes} (h : compareStrIgnoreCase a b = true)
    (ha : (0 : UInt8) ∉ a.map toLower) : (0 : UInt8) ∉ b := by
  intro h0
  apply ha
  rw [compareStrIgnoreCase_iff.mp h]
  have hm := List.mem_map_of_mem (f := toLower) h0
  rwa [toLower_of_not_visible (Or.inr rfl)] at hm

private theorem ne_nil_of_compare {a b : Bytes} (h : compareStrIgnoreCase a b = true)
    (ha : a ≠ []) :
    b ≠ [] := by
  rintro rfl
  apply ha
  simpa using compareStrIgnoreCase_iff.mp h

/-- A line with a colon is its name, the colon and the rest. -/
theorem eq_of_colon_mem {line : Bytes} (h : COLON ∈ line) :
    ∃ rest, line = lineName line ++ COLON :: rest ∧ lineRest line = some rest := by
  have hsplit := List.takeWhile_append_dropWhile (p := (· != COLON)) (l := line)
  cases hd : line.dropWhile (· != COLON) with
  | nil =>
    rw [List.dropWhile_eq_nil_iff] at hd
    simpa using hd COLON h
  | cons x rest =>
    have hx : x = COLON := by
      have hn := List.head_dropWhile_not (p := (· != COLON)) (l := line) (by simp [hd])
      simpa [hd] using hn
    subst hx
    refine ⟨rest, ?_, ?_⟩
    · rw [hd] at hsplit
      exact hsplit.symm
    · rw [lineRest, hd]

/-- The name of a C string is the name of the line when no NUL stands before the colon. -/
theorem lineName_cstr {line : Bytes} (h : COLON ∈ line) (h0 : (0 : UInt8) ∉ lineName line) :
    lineName (cstr line) = lineName line := by
  obtain ⟨rest, he, -⟩ := eq_of_colon_mem h
  have hc : ∀ c ∈ lineName line, (c != COLON) = true := by
    intro c hc
    exact List.mem_takeWhile_imp (p := (· != COLON)) hc
  have hz : ∀ c ∈ lineName line, (c != 0) = true := by
    intro c hc
    rw [bne_iff_ne]
    rintro rfl
    exact h0 hc
  have hcs : cstr line = lineName line ++ COLON :: cstr rest := by
    conv_lhs => rw [he, cstr, List.takeWhile_append_of_pos hz]
    rfl
  conv_lhs => rw [hcs, lineName, List.takeWhile_append_of_pos hc]
  simp

/-- A line the reply names itself reads as that name. -/
theorem readsAs_of_named {name line : Bytes} (h0 : (0 : UInt8) ∉ name.map toLower)
    (h : named name line = true) : readsAs name line = true := by
  rw [named, Bool.and_eq_true, decide_eq_true_iff] at h
  have hz : (0 : UInt8) ∉ lineName line := by
    refine zero_notMem_of_compare ?_ h0
    rw [compareStrIgnoreCase_comm]
    exact h.2
  rw [readsAs, lineName_cstr h.1 hz]
  exact h.2

/-- A plain field is named as it reads. -/
theorem named_of_plain {name line : Bytes} (hp : PlainField line)
    (h : readsAs name line = true) : named name line = true := by
  rw [readsAs, lineName_cstr hp.1 hp.2.1] at h
  rw [named, Bool.and_eq_true, decide_eq_true_iff]
  exact ⟨hp.1, h⟩

private theorem isSpace_zero : isSpace 0 = false := by decide

/-- The parser takes the whole own value of a plain field. -/
theorem firstToken_of_plain {line : Bytes} (hp : PlainField line) :
    (lineRest (cstr line)).bind firstToken = some (ownValue line) := by
  obtain ⟨hcolon, hname, hne, hvis⟩ := hp
  obtain ⟨rest, he, hr⟩ := eq_of_colon_mem hcolon
  have hown : ownValue line = trim rest := by rw [ownValue, hr, Option.getD_some]
  rw [hown] at hne hvis ⊢
  have hpost : trim rest ++ (rest.dropWhile isSpace).rtakeWhile isSpace =
      rest.dropWhile isSpace := List.rdropWhile_append_rtakeWhile
  have hpre := List.takeWhile_append_dropWhile (p := isSpace) (l := rest)
  have htail : ∀ c ∈ (rest.dropWhile isSpace).rtakeWhile isSpace, isSpace c = true :=
    fun c hc => List.mem_rtakeWhile_imp hc
  have hspace : ∀ c, isSpace c = true → c ≠ 0 := by
    rintro c hc rfl
    rw [isSpace_zero] at hc
    exact Bool.noConfusion hc
  have hzero : (0 : UInt8) ∉ line := by
    rw [he, ← hpre, ← hpost]
    simp only [List.mem_append, List.mem_cons, not_or]
    refine ⟨hname, by decide, fun h => ?_, fun h => (hvis 0 h).2 rfl, fun h => ?_⟩
    · exact hspace 0 (List.mem_takeWhile_imp h) rfl
    · exact hspace 0 (htail 0 h) rfl
  rw [cstr_eq_self hzero, hr, Option.bind_some, firstToken, ← hpost]
  cases ht : trim rest with
  | nil => exact absurd ht hne
  | cons b bs =>
    simp only [List.cons_append, Option.some.injEq]
    rw [← List.cons_append, ← ht, List.takeWhile_append_of_pos]
    · rw [List.takeWhile_eq_nil_iff.mpr, List.append_nil]
      intro hl
      simpa using htail _ (List.getElem_mem hl)
    · intro c hc
      simpa using (hvis c hc).1

/-! ## What the parser has seen -/

/-- Header lines with the values they were validated with: a line's value is its own token
whenever it has one. -/
def FieldsRead (fields : List (Bytes × Bytes)) : Prop :=
  ∀ f ∈ fields, cstr f.1 ≠ [] ∧ ∀ v, (lineRest (cstr f.1)).bind firstToken = some v → f.2 = v

/-- The flag word after a list of header lines. -/
def validateAll (acceptKeyHash : Bytes) : List (Bytes × Bytes) → UInt8 → Option UInt8
  | [], flags => some flags
  | f :: fs, flags =>
    (validateHttpHeaders acceptKeyHash (lineName (cstr f.1)) f.2 flags).bind
      (validateAll acceptKeyHash fs)

private theorem validateAll_append (acceptKeyHash : Bytes) (fs gs : List (Bytes × Bytes))
    (flags : UInt8) : validateAll acceptKeyHash (fs ++ gs) flags =
      (validateAll acceptKeyHash fs flags).bind (validateAll acceptKeyHash gs) := by
  induction fs generalizing flags with
  | nil => rfl
  | cons f fs ih =>
    rw [List.cons_append, validateAll, validateAll, Option.bind_assoc]
    exact congrArg _ (funext ih)

/-- What one call of the header loop reads when it does not fail. -/
structure HeadersRead (acceptKeyHash : Bytes) (h h' : Handshake) (input : Bytes)
    (fields : List (Bytes × Bytes)) (ending : List Bytes) (rest : Bytes) : Prop where
  lines : ReadLines input (fields.map Prod.fst ++ ending) rest
  read : FieldsRead fields
  flags : validateAll acceptKeyHash fields h.httpHeaderFlags = some h'.httpHeaderFlags
  state : h'.connectState = h.connectState
  key : h'.handshakeKeyBase64 = h.handshakeKeyBase64

/-- The lines that end the loop: none while more input is needed, one empty C string on
success. -/
def LoopEnd (result : WSParseState) (ending : List Bytes) : Prop :=
  (result = .needMore ∧ ending = []) ∨
    (result = .success ∧ ∃ last, ending = [last] ∧ cstr last = [])

private theorem readHttpHeadersLoop_spec {sha1 : Bytes → Bytes} {n : Nat} {h h' : Handshake}
    {headerVal input rest : Bytes} {result : WSParseState}
    (hr : readHttpHeadersLoop sha1 n h headerVal input = (result, h', rest))
    (hne : result ≠ .error) :
    ∃ fields ending, LoopEnd result ending ∧
      HeadersRead (calculateKeyHash sha1 h.handshakeKeyBase64) h h' input fields ending rest := by
  induction n generalizing h headerVal input with
  | zero =>
    obtain ⟨rfl, rfl, rfl⟩ : WSParseState.needMore = result ∧ h = h' ∧ input = rest := by
      simpa [readHttpHeadersLoop] using hr
    exact ⟨[], [], Or.inl ⟨rfl, rfl⟩, ⟨rfl, by simp [FieldsRead], rfl, rfl, rfl⟩⟩
  | succ n ih =>
    rw [readHttpHeadersLoop] at hr
    cases hl : readln input with
    | none =>
      obtain ⟨rfl, rfl, rfl⟩ : WSParseState.needMore = result ∧ h = h' ∧ input = rest := by
        simpa [hl] using hr
      exact ⟨[], [], Or.inl ⟨rfl, rfl⟩, ⟨rfl, by simp [FieldsRead], rfl, rfl, rfl⟩⟩
    | some p =>
      obtain ⟨line, input'⟩ := p
      rw [hl] at hr
      dsimp only at hr
      by_cases hc : cstr line = []
      · obtain ⟨rfl, rfl, rfl⟩ : WSParseState.success = result ∧ h = h' ∧ input' = rest := by
          simpa [hc] using hr
        exact ⟨[], [line], Or.inr ⟨rfl, line, rfl, hc⟩,
          ⟨⟨input', hl, rfl⟩, by simp [FieldsRead], rfl, rfl, rfl⟩⟩
      · rw [if_neg hc] at hr
        cases hv : validateHttpHeaders (calculateKeyHash sha1 h.handshakeKeyBase64)
            (parseHttpHeader (cstr line) headerVal).1
            (parseHttpHeader (cstr line) headerVal).2 h.httpHeaderFlags with
        | none =>
          simp only [hv, Prod.mk.injEq] at hr
          exact absurd hr.1.symm hne
        | some flags =>
          simp only [hv] at hr
          obtain ⟨fields, ending, hend, hread⟩ := ih hr
          refine ⟨(line, (parseHttpHeader (cstr line) headerVal).2) :: fields, ending, hend,
            ⟨⟨input', hl, hread.lines⟩, ?_, ?_, hread.state, hread.key⟩⟩
          · intro f hf
            rcases List.mem_cons.mp hf with rfl | hf
            · refine ⟨hc, fun v hv => ?_⟩
              rw [parseHttpHeader, hv, Option.getD_some]
            · exact hread.read f hf
          · rw [validateAll]
            have hv' : validateHttpHeaders (calculateKeyHash sha1 h.handshakeKeyBase64)
                (lineName (cstr line)) (parseHttpHeader (cstr line) headerVal).2
                h.httpHeaderFlags = some flags := hv
            rw [hv', Option.bind_some]
            exact hread.flags

/-- What the calls before have read off the stream, of which `buf` is unread. -/
def Progress (acceptKeyHash : Bytes) (h : Handshake) (stream buf : Bytes) : Prop :=
  (h.connectState = .sentReq ∧ stream = buf) ∨
    (h.connectState = .parsedStatus ∧ ∃ status fields,
      ReadLines stream (status :: fields.map Prod.fst) buf ∧
      parseHttpStatus (cstr status) = some (1, 1, 101) ∧ FieldsRead fields ∧
      validateAll acceptKeyHash fields 0 = some h.httpHeaderFlags)

/-- The stream up to `rest` is a reply that the parser accepts. -/
def Accepted (acceptKeyHash stream rest : Bytes) : Prop :=
  ∃ status fields last flags, ReadLines stream (status :: fields.map Prod.fst ++ [last]) rest ∧
    parseHttpStatus (cstr status) = some (1, 1, 101) ∧ cstr last = [] ∧ FieldsRead fields ∧
    validateAll acceptKeyHash fields 0 = some flags ∧
    flags &&& WS_HAS_VALID_UPGRADE_HEADER ≠ 0 ∧ flags &&& WS_HAS_VALID_CONNECTION_HEADER ≠ 0 ∧
    flags &&& WS_HAS_VALID_WS_ACCEPT_HEADER ≠ 0

/-- More of the stream leaves the progress as it was. -/
theorem Progress.append {acceptKeyHash stream buf : Bytes} {h : Handshake}
    (hp : Progress acceptKeyHash h stream buf) (more : Bytes) :
    Progress acceptKeyHash h (stream ++ more) (buf ++ more) := by
  rcases hp with ⟨hs, rfl⟩ | ⟨hs, status, fields, hl, hrest⟩
  · exact Or.inl ⟨hs, rfl⟩
  · exact Or.inr ⟨hs, status, fields, hl.append more, hrest⟩

/-- More of the stream leaves an accepted reply accepted. -/
theorem Accepted.append {acceptKeyHash stream rest : Bytes}
    (ha : Accepted acceptKeyHash stream rest) (more : Bytes) :
    Accepted acceptKeyHash (stream ++ more) (rest ++ more) := by
  obtain ⟨status, fields, last, flags, hl, hrest⟩ := ha
  exact ⟨status, fields, last, flags, hl.append more, hrest⟩

/-- What a call of the parser establishes: progress, or an accepted reply. -/
def CallResult (acceptKeyHash : Bytes) (key stream : Bytes) : Reply → Prop
  | (.needMore, h, rest) => Progress acceptKeyHash h stream rest ∧ h.handshakeKeyBase64 = key
  | (.success, _, rest) => Accepted acceptKeyHash stream rest
  | _ => True

/-- The three headers are there and the handshake is complete, or it fails. -/
theorem checkRequiredHeaders_cases (h : Handshake) (input : Bytes) :
    (∃ r, checkRequiredHeaders h input = (.error, r)) ∨
    (checkRequiredHeaders h input = (.success, { h with connectState := .handshakeComplete }, input)
      ∧ h.httpHeaderFlags &&& WS_HAS_VALID_UPGRADE_HEADER ≠ 0 ∧
      h.httpHeaderFlags &&& WS_HAS_VALID_CONNECTION_HEADER ≠ 0 ∧
      h.httpHeaderFlags &&& WS_HAS_VALID_WS_ACCEPT_HEADER ≠ 0) := by
  rw [checkRequiredHeaders]
  simp only [beq_iff_eq]
  split
  · exact Or.inl ⟨_, rfl⟩
  · split
    · exact Or.inl ⟨_, rfl⟩
    · split
      · exact Or.inl ⟨_, rfl⟩
      · exact Or.inr ⟨rfl, ‹_›, ‹_›, ‹_›⟩

private theorem readHeaderStage_spec {sha1 : Bytes → Bytes} {h : Handshake} {stream buf : Bytes}
    (hs : h.connectState = .parsedStatus)
    (hp : Progress (calculateKeyHash sha1 h.handshakeKeyBase64) h stream buf) :
    CallResult (calculateKeyHash sha1 h.handshakeKeyBase64) h.handshakeKeyBase64 stream
      (readHeaderStage sha1 h buf) := by
  rcases hp with ⟨hs', -⟩ | ⟨-, status, fields, hl, hst, hf, hv⟩
  · rw [hs] at hs'
    exact absurd hs' (by decide)
  · rw [readHeaderStage]
    rcases hrun : readHttpHeaders sha1 h buf with ⟨result, h', rest⟩
    cases hres : result with
    | userAbort => trivial
    | error => trivial
    | needMore =>
      obtain ⟨more, ending, hend, hread⟩ := readHttpHeadersLoop_spec hrun (by simp [hres])
      obtain ⟨-, rfl⟩ | ⟨hc, -⟩ := hend
      · refine ⟨Or.inr ⟨hread.state.trans hs, status, fields ++ more, ?_, hst, ?_, ?_⟩, hread.key⟩
        · rw [List.map_append]
          exact (List.append_nil (more.map Prod.fst) ▸ hl.trans hread.lines)
        · intro f hmem
          exact (List.mem_append.mp hmem).elim (hf f) (hread.read f)
        · rw [validateAll_append, hv, Option.bind_some, hread.flags]
      · rw [hres] at hc
        exact WSParseState.noConfusion hc
    | success =>
      obtain ⟨more, ending, hend, hread⟩ := readHttpHeadersLoop_spec hrun (by simp [hres])
      obtain ⟨hc, -⟩ | ⟨-, last, rfl, hlast⟩ := hend
      · rw [hres] at hc
        exact WSParseState.noConfusion hc
      · dsimp only
        rcases checkRequiredHeaders_cases { h' with connectState := .parsedHeaders } rest with
          ⟨r, he⟩ | ⟨he, hflags⟩
        · rw [he]
          trivial
        · rw [he]
          refine ⟨status, fields ++ more, last, h'.httpHeaderFlags, ?_, hst, hlast, ?_, ?_, hflags⟩
          · rw [List.map_append, ← List.cons_append, List.append_assoc]
            exact hl.trans hread.lines
          · intro f hmem
            exact (List.mem_append.mp hmem).elim (hf f) (hread.read f)
          · rw [validateAll_append, hv, Option.bind_some, hread.flags]

private theorem readStatusStage_spec {sha1 : Bytes → Bytes} {h : Handshake} {stream : Bytes}
    (hs : h.connectState = .sentReq) (hflags : h.httpHeaderFlags = 0) :
    CallResult (calculateKeyHash sha1 h.handshakeKeyBase64) h.handshakeKeyBase64 stream
      (readStatusStage sha1 h stream) := by
  rw [readStatusStage]
  cases hl : readln stream with
  | none => exact ⟨Or.inl ⟨hs, rfl⟩, rfl⟩
  | some p =>
    obtain ⟨line, rest⟩ := p
    dsimp only
    cases hst : parseHttpStatus (cstr line) with
    | none => trivial
    | some v =>
      obtain ⟨major, minor, code⟩ := v
      dsimp only
      by_cases hv : major ≠ 1 ∨ minor ≠ 1
      · rw [if_pos hv]
        trivial
      · rw [if_neg hv]
        by_cases hcode : code ≠ 101
        · rw [if_pos hcode]
          trivial
        · rw [if_neg hcode]
          obtain ⟨hmajor, hminor⟩ := not_or.mp hv
          rw [not_not] at hmajor hminor hcode
          subst hmajor hminor hcode
          refine readHeaderStage_spec (h := { h with connectState := .parsedStatus }) rfl ?_
          exact Or.inr ⟨rfl, line, [], ⟨rest, hl, rfl⟩, hst, by simp [FieldsRead],
            by rw [validateAll, hflags]⟩

/-- One call of the parser on the unread input. -/
theorem readServerHandshakeReply_spec {sha1 : Bytes → Bytes} {h : Handshake}
    {stream buf : Bytes} (hp : Progress (calculateKeyHash sha1 h.handshakeKeyBase64) h stream buf) :
    CallResult (calculateKeyHash sha1 h.handshakeKeyBase64) h.handshakeKeyBase64 stream
      (readServerHandshakeReply sha1 h buf) := by
  rcases hp with ⟨hs, rfl⟩ | hp
  · obtain ⟨state, flags, header, key⟩ := h
    obtain rfl : state = .sentReq := hs
    exact readStatusStage_spec (h := ⟨.sentReq, 0, header, key⟩) rfl rfl
  · rw [readServerHandshakeReply, hp.1]
    exact readHeaderStage_spec hp.1 (Or.inr hp)

/-- Whatever the reads, success means an accepted reply at the front of the stream. -/
theorem accepted_of_readReply {sha1 : Bytes → Bytes} {h h' : Handshake} {stream buf rest : Bytes}
    {reads : List Bytes} (hp : Progress (calculateKeyHash sha1 h.handshakeKeyBase64) h stream buf)
    (hr : readReply sha1 h buf reads = (.success, h', rest)) :
    Accepted (calculateKeyHash sha1 h.handshakeKeyBase64) (stream ++ reads.flatten) rest := by
  induction reads generalizing h stream buf with
  | nil => simp [readReply] at hr
  | cons r rs ih =>
    rw [readReply] at hr
    have hcall := readServerHandshakeReply_spec (hp.append r)
    rcases hrun : readServerHandshakeReply sha1 h (buf ++ r) with ⟨result, h₁, buf₁⟩
    rw [hrun] at hr hcall
    rw [List.flatten_cons, ← List.append_assoc]
    cases result with
    | needMore =>
      obtain ⟨hp₁, hk⟩ := hcall
      rw [← hk] at hp₁ ⊢
      exact ih hp₁ hr
    | success =>
      obtain ⟨-, rfl⟩ : h₁ = h' ∧ buf₁ ++ rs.flatten = rest := by simpa using hr
      exact hcall.append _
    | error => simp at hr
    | userAbort => simp at hr

/-! ## Required headers -/

/-- A header the parser requires, with the flag that records it. -/
structure HeaderRule where
  flag : UInt8
  name : Bytes
  val : Bytes

/-- The three required headers. -/
def headerRules (acceptKeyHash : Bytes) : List HeaderRule :=
  [⟨WS_HAS_VALID_UPGRADE_HEADER, ascii "Upgrade", ascii "websocket"⟩,
    ⟨WS_HAS_VALID_CONNECTION_HEADER, ascii "Connection", ascii "upgrade"⟩,
    ⟨WS_HAS_VALID_WS_ACCEPT_HEADER, ascii "Sec-WebSocket-Accept", acceptKeyHash⟩]

/-- The effect of a validated line on one rule's flag. -/
def RuleStep (rule : HeaderRule) (name val : Bytes) (flags flags' : UInt8) : Prop :=
  if compareStrIgnoreCase name rule.name then
    flags &&& rule.flag = 0 ∧ flags' &&& rule.flag ≠ 0 ∧ compareStrIgnoreCase rule.val val = true
  else flags' &&& rule.flag = flags &&& rule.flag

private theorem or_and_same (flags : UInt8) :
    (flags ||| WS_HAS_VALID_UPGRADE_HEADER) &&& WS_HAS_VALID_UPGRADE_HEADER ≠ 0 ∧
    (flags ||| WS_HAS_VALID_CONNECTION_HEADER) &&& WS_HAS_VALID_CONNECTION_HEADER ≠ 0 ∧
    (flags ||| WS_HAS_VALID_WS_ACCEPT_HEADER) &&& WS_HAS_VALID_WS_ACCEPT_HEADER ≠ 0 := by
  induction flags using byte_induction with
  | ofNat n => revert n; decide +kernel

private theorem or_and_other (flags : UInt8) {flag flag' : UInt8} (h : flag &&& flag' = 0) :
    (flags ||| flag) &&& flag' = flags &&& flag' := by
  have hn : flag.toNat &&& flag'.toNat = 0 := by
    rw [← UInt8.toNat_and, h]
    rfl
  rw [← UInt8.toNat_inj, UInt8.toNat_and, UInt8.toNat_or, Nat.and_or_distrib_right, hn,
    Nat.or_zero, UInt8.toNat_and]

private theorem validateHttpHeader_some {flag flags flags' : UInt8}
    {name val expectedName expectedVal : Bytes}
    (h : validateHttpHeader flag name val expectedName expectedVal true flags = some flags') :
    (compareStrIgnoreCase expectedName name = true ∧ flags &&& flag = 0 ∧
      compareStrIgnoreCase expectedVal val = true ∧ flags' = flags ||| flag) ∨
    (compareStrIgnoreCase expectedName name = false ∧ flags' = flags) := by
  rw [validateHttpHeader] at h
  split at h
  case isTrue hn =>
    left
    split at h
    · exact absurd h (by simp)
    · split at h
      · exact absurd h (by simp)
      · refine ⟨hn, by simp_all, by simp_all, (Option.some.inj h).symm⟩
  case isFalse hn => exact Or.inr ⟨by simpa using hn, (Option.some.inj h).symm⟩

/-- The checks a validated line has passed, in the order of the source. -/
theorem validateHttpHeaders_some {acceptKeyHash name val : Bytes} {flags flags' : UInt8}
    (h : validateHttpHeaders acceptKeyHash name val flags = some flags') :
    ∃ f₁ f₂, validateHttpHeader WS_HAS_VALID_UPGRADE_HEADER name val
        (ascii "Upgrade") (ascii "websocket") true flags = some f₁ ∧
      validateHttpHeader WS_HAS_VALID_CONNECTION_HEADER name val
        (ascii "Connection") (ascii "upgrade") true f₁ = some f₂ ∧
      validateHttpHeader WS_HAS_VALID_WS_ACCEPT_HEADER name val
        (ascii "Sec-WebSocket-Accept") acceptKeyHash true f₂ = some flags' ∧
      compareStrIgnoreCase name (ascii "Sec-WebSocket-Extensions") = false ∧
      compareStrIgnoreCase name (ascii "Sec-WebSocket-Protocol") = false := by
  rw [validateHttpHeaders] at h
  obtain ⟨f₁, h₁, h⟩ := Option.bind_eq_some_iff.mp h
  obtain ⟨f₂, h₂, h⟩ := Option.bind_eq_some_iff.mp h
  split at h
  · exact absurd h (by simp)
  · obtain ⟨f₃, h₃, h⟩ := Option.bind_eq_some_iff.mp h
    split at h
    · exact absurd h (by simp)
    · split at h
      · exact absurd h (by simp)
      · rw [Option.some.inj h] at h₃
        refine ⟨f₁, f₂, h₁, h₂, h₃, by simp_all, ?_⟩
        rw [compareStrIgnoreCase_comm]
        simp_all

private theorem names_disjoint {a b name : Bytes} (hab : compareStrIgnoreCase a b = false)
    (ha : compareStrIgnoreCase a name = true) : compareStrIgnoreCase b name = false := by
  by_contra hb
  rw [Bool.not_eq_false, compareStrIgnoreCase_comm] at hb
  rw [compareStrIgnoreCase_trans ha hb] at hab
  exact Bool.noConfusion hab

private theorem validateHttpHeaders_rule {acceptKeyHash name val : Bytes} {flags flags' : UInt8}
    (h : validateHttpHeaders acceptKeyHash name val flags = some flags') {rule : HeaderRule}
    (hr : rule ∈ headerRules acceptKeyHash) : RuleStep rule name val flags flags' := by
  obtain ⟨f₁, f₂, h₁, h₂, h₃, -, -⟩ := validateHttpHeaders_some h
  have huc : compareStrIgnoreCase (ascii "Upgrade") (ascii "Connection") = false := by decide
  have hua : compareStrIgnoreCase (ascii "Upgrade") (ascii "Sec-WebSocket-Accept") = false := by
    decide
  have hca : compareStrIgnoreCase (ascii "Connection") (ascii "Sec-WebSocket-Accept") = false := by
    decide
  obtain ⟨hsetU, hsetC, hsetA⟩ := or_and_same flags
  have hcases : rule = ⟨WS_HAS_VALID_UPGRADE_HEADER, ascii "Upgrade", ascii "websocket"⟩ ∨
      rule = ⟨WS_HAS_VALID_CONNECTION_HEADER, ascii "Connection", ascii "upgrade"⟩ ∨
      rule = ⟨WS_HAS_VALID_WS_ACCEPT_HEADER, ascii "Sec-WebSocket-Accept", acceptKeyHash⟩ := by
    simpa [headerRules] using hr
  rw [RuleStep, compareStrIgnoreCase_comm name]
  rcases validateHttpHeader_some h₁ with ⟨hu, hz, hval, rfl⟩ | ⟨hu, rfl⟩
  · have hc := names_disjoint huc hu
    have ha := names_disjoint hua hu
    rcases validateHttpHeader_some h₂ with ⟨hc', -⟩ | ⟨-, rfl⟩
    · simp [hc] at hc'
    rcases validateHttpHeader_some h₃ with ⟨ha', -⟩ | ⟨-, rfl⟩
    · simp [ha] at ha'
    rcases hcases with rfl | rfl | rfl
    · simpa only [hu, if_true] using ⟨hz, hsetU, hval⟩
    · simpa only [hc, Bool.false_eq_true, if_false] using or_and_other _ (by decide)
    · simpa only [ha, Bool.false_eq_true, if_false] using or_and_other _ (by decide)
  · rcases validateHttpHeader_some h₂ with ⟨hc, hz, hval, rfl⟩ | ⟨hc, rfl⟩
    · have ha := names_disjoint hca hc
      rcases validateHttpHeader_some h₃ with ⟨ha', -⟩ | ⟨-, rfl⟩
      · simp [ha] at ha'
      rcases hcases with rfl | rfl | rfl
      · simpa only [hu, Bool.false_eq_true, if_false] using or_and_other _ (by decide)
      · simpa only [hc, if_true] using ⟨hz, hsetC, hval⟩
      · simpa only [ha, Bool.false_eq_true, if_false] using or_and_other _ (by decide)
    · rcases validateHttpHeader_some h₃ with ⟨ha, hz, hval, rfl⟩ | ⟨ha, rfl⟩
      · rcases hcases with rfl | rfl | rfl
        · simpa only [hu, Bool.false_eq_true, if_false] using or_and_other _ (by decide)
        · simpa only [hc, Bool.false_eq_true, if_false] using or_and_other _ (by decide)
        · simpa only [ha, if_true] using ⟨hz, hsetA, hval⟩
      · rcases hcases with rfl | rfl | rfl
        · simp only [hu, Bool.false_eq_true, if_false]
        · simp only [hc, Bool.false_eq_true, if_false]
        · simp only [ha, Bool.false_eq_true, if_false]

/-- A flag that is set was set by exactly one line, whose value was the expected one. -/
theorem validateAll_rule {acceptKeyHash : Bytes} {rule : HeaderRule}
    (hr : rule ∈ headerRules acceptKeyHash) {fields : List (Bytes × Bytes)}
    {flags flags' : UInt8} (h : validateAll acceptKeyHash fields flags = some flags') :
    (flags' &&& rule.flag = flags &&& rule.flag ∧
      fields.filter (fun f => readsAs rule.name f.1) = []) ∨
    (flags &&& rule.flag = 0 ∧ flags' &&& rule.flag ≠ 0 ∧
      ∃ f, fields.filter (fun f => readsAs rule.name f.1) = [f] ∧
        compareStrIgnoreCase rule.val f.2 = true) := by
  induction fields generalizing flags with
  | nil =>
    obtain rfl : flags = flags' := by simpa [validateAll] using h
    exact Or.inl ⟨rfl, rfl⟩
  | cons f fs ih =>
    rw [validateAll] at h
    obtain ⟨m, hm, ht⟩ := Option.bind_eq_some_iff.mp h
    have hstep := validateHttpHeaders_rule hm hr
    rw [RuleStep] at hstep
    by_cases hn : compareStrIgnoreCase (lineName (cstr f.1)) rule.name = true
    · rw [if_pos hn] at hstep
      obtain ⟨hz, hset, hval⟩ := hstep
      rcases ih ht with ⟨he, hnil⟩ | ⟨hz', -⟩
      · refine Or.inr ⟨hz, by rwa [he], f, ?_, hval⟩
        rw [List.filter_cons_of_pos (by exact hn), hnil]
      · exact absurd hz' hset
    · rw [if_neg hn] at hstep
      rw [List.filter_cons_of_neg (by exact hn), ← hstep]
      exact ih ht

/-- No validated line reads as one of the two headers that are refused. -/
theorem validateAll_refused {acceptKeyHash : Bytes} {fields : List (Bytes × Bytes)}
    {flags flags' : UInt8} (h : validateAll acceptKeyHash fields flags = some flags') :
    ∀ f ∈ fields, readsAs (ascii "Sec-WebSocket-Extensions") f.1 = false ∧
      readsAs (ascii "Sec-WebSocket-Protocol") f.1 = false := by
  induction fields generalizing flags with
  | nil => simp
  | cons f fs ih =>
    rw [validateAll] at h
    obtain ⟨m, hm, ht⟩ := Option.bind_eq_some_iff.mp h
    obtain ⟨-, -, -, -, -, hext, hproto⟩ := validateHttpHeaders_some hm
    intro g hg
    rcases List.mem_cons.mp hg with rfl | hg
    · exact ⟨hext, hproto⟩
    · exact ih ht g hg

/-! ## Soundness -/

private theorem isBase64Sign_visible {c : UInt8} (h : isBase64Sign c = true) :
    isSpace (toLower c) = false ∧ toLower c ≠ 0 := by
  rw [isBase64Sign_iff] at h
  revert c
  decide +kernel

/-- The expected value of every rule is a nonempty visible text. -/
theorem headerRules_visible {x : Bytes} (hx : x ≠ []) {rule : HeaderRule}
    (hr : rule ∈ headerRules (encodeBase64 x)) :
    rule.val ≠ [] ∧ ∀ c ∈ rule.val.map toLower, isSpace c = false ∧ c ≠ 0 := by
  simp only [headerRules, List.mem_cons, List.not_mem_nil, or_false] at hr
  rcases hr with rfl | rfl | rfl
  · decide +kernel
  · decide +kernel
  · refine ⟨fun h => hx (encodeBase64_eq_nil.mp h), fun c hc => ?_⟩
    obtain ⟨d, hd, rfl⟩ := List.mem_map.mp hc
    exact isBase64Sign_visible (isBase64Sign_of_mem hd)

private theorem headerRules_name {acceptKeyHash : Bytes} {rule : HeaderRule}
    (hr : rule ∈ headerRules acceptKeyHash) :
    rule.name ∈ requiredNames ∧ (0 : UInt8) ∉ rule.name.map toLower := by
  simp only [headerRules, List.mem_cons, List.not_mem_nil, or_false] at hr
  rcases hr with rfl | rfl | rfl
  · decide
  · decide
  · dsimp only
    decide

private theorem filter_map_fst (p : Bytes → Bool) (fields : List (Bytes × Bytes)) :
    (fields.map Prod.fst).filter p = (fields.filter fun f => p f.1).map Prod.fst := by
  rw [List.filter_map]
  rfl

/-- With plain fields, a rule's line is the only one of its name and carries the value. -/
theorem hasOne_of_plain {acceptKeyHash : Bytes} {rule : HeaderRule}
    (hr : rule ∈ headerRules acceptKeyHash) {fields : List (Bytes × Bytes)}
    (hread : FieldsRead fields) {flags : UInt8}
    (hv : validateAll acceptKeyHash fields 0 = some flags) (hset : flags &&& rule.flag ≠ 0)
    (hplain : ∀ line ∈ fields.map Prod.fst, readsAs rule.name line = true → PlainField line) :
    ∃ line ∈ fields.map Prod.fst, readsAs rule.name line = true ∧
      (fields.map Prod.fst).filter (named rule.name) = [line] ∧
      compareStrIgnoreCase rule.val (ownValue line) = true := by
  rcases validateAll_rule hr hv with ⟨he, -⟩ | ⟨-, -, f, hf, hval⟩
  · rw [he] at hset
    exact absurd UInt8.zero_and hset
  · have hmem : f ∈ fields ∧ readsAs rule.name f.1 = true := by
      have hin : f ∈ fields.filter fun f => readsAs rule.name f.1 := by simp [hf]
      simpa using hin
    have hline : f.1 ∈ fields.map Prod.fst := List.mem_map_of_mem hmem.1
    have hp := hplain f.1 hline hmem.2
    refine ⟨f.1, hline, hmem.2, ?_, ?_⟩
    · have hcongr : (fields.map Prod.fst).filter (named rule.name) =
          (fields.map Prod.fst).filter (readsAs rule.name) := by
        apply List.filter_congr
        intro l hl
        rw [Bool.eq_iff_iff]
        exact ⟨readsAs_of_named (headerRules_name hr).2, fun h => named_of_plain (hplain l hl h) h⟩
      rw [hcongr, filter_map_fst, hf]
      rfl
    · rw [← (hread f hmem.1).2 _ (firstToken_of_plain hp)]
      exact hval

/-- In a conforming reply the line that reads as a rule's name is a plain field. -/
theorem plain_of_hasOne {x : Bytes} (hx : x ≠ []) {rule : HeaderRule}
    (hr : rule ∈ headerRules (encodeBase64 x)) {fields : List (Bytes × Bytes)}
    {flags : UInt8} (hv : validateAll (encodeBase64 x) fields 0 = some flags)
    (hone : HasOne rule.name (compareStrIgnoreCase rule.val · = true) (fields.map Prod.fst)) :
    ∀ line ∈ fields.map Prod.fst, readsAs rule.name line = true → PlainField line := by
  intro line hline hreads
  obtain ⟨one, hone, hval⟩ := hone
  have hmem : one ∈ fields.map Prod.fst ∧ named rule.name one = true := by
    have hin : one ∈ (fields.map Prod.fst).filter (named rule.name) := by simp [hone]
    exact List.mem_filter.mp hin
  have hone' := readsAs_of_named (headerRules_name hr).2 hmem.2
  have hsingle : ∃ l, (fields.map Prod.fst).filter (readsAs rule.name) = [l] := by
    rcases validateAll_rule hr hv with ⟨-, hnil⟩ | ⟨-, -, f, hf, -⟩
    · have hin : one ∈ (fields.map Prod.fst).filter (readsAs rule.name) :=
        List.mem_filter.mpr ⟨hmem.1, hone'⟩
      rw [filter_map_fst, hnil] at hin
      simp at hin
    · exact ⟨f.1, by rw [filter_map_fst, hf]; rfl⟩
  obtain ⟨l, hl⟩ := hsingle
  have hin : ∀ k ∈ fields.map Prod.fst, readsAs rule.name k = true → k = l := by
    intro k hk hkr
    have hkin := List.mem_filter.mpr ⟨hk, hkr⟩
    rw [hl] at hkin
    exact List.mem_singleton.mp hkin
  rw [hin line hline hreads, ← hin one hmem.1 hone']
  have hvis := headerRules_visible hx hr
  have hnamed := hmem.2
  rw [named, Bool.and_eq_true, decide_eq_true_iff] at hnamed
  refine ⟨hnamed.1, ?_, ne_nil_of_compare hval hvis.1, visible_of_compare hval hvis.2⟩
  refine zero_notMem_of_compare ?_ (headerRules_name hr).2
  rw [compareStrIgnoreCase_comm]
  exact hnamed.2

private theorem compareStrIgnoreCase_self (a : Bytes) : compareStrIgnoreCase a a = true := by
  rw [compareStrIgnoreCase_iff]

/-- An accepted reply conforms exactly when it is plainly written. -/
theorem conforms_iff_of_accepted {x stream rest : Bytes} (hx : x ≠ [])
    (ha : Accepted (encodeBase64 x) stream rest) :
    Conforms (encodeBase64 x) stream rest ↔ PlainlyWritten (encodeBase64 x) stream := by
  obtain ⟨status, fields, last, flags, hl, -, hlast, hread, hv, hU, hC, hA⟩ := ha
  have hhead : HeadOf stream status (fields.map Prod.fst) last rest := by
    refine ⟨hl, fun line hline => ?_, hlast⟩
    obtain ⟨f, hf, rfl⟩ := List.mem_map.mp hline
    exact (hread f hf).1
  have hrU : (⟨WS_HAS_VALID_UPGRADE_HEADER, ascii "Upgrade", ascii "websocket"⟩ : HeaderRule) ∈
      headerRules (encodeBase64 x) := by simp [headerRules]
  have hrC : (⟨WS_HAS_VALID_CONNECTION_HEADER, ascii "Connection", ascii "upgrade"⟩ :
      HeaderRule) ∈ headerRules (encodeBase64 x) := by simp [headerRules]
  have hrA : (⟨WS_HAS_VALID_WS_ACCEPT_HEADER, ascii "Sec-WebSocket-Accept", encodeBase64 x⟩ :
      HeaderRule) ∈ headerRules (encodeBase64 x) := by simp [headerRules]
  constructor
  · rintro ⟨status', lines, hl', hst, hu, hc, hacc, -⟩ status'' lines'' last'' rest'' hhead''
    obtain ⟨rfl, hlines⟩ := List.cons.inj (hl.unique hl')
    obtain ⟨rfl, hnil⟩ := List.append_inj' hlines rfl
    obtain ⟨rfl, rfl, rfl⟩ := hhead.unique hhead''
    have haccOne : HasOne (ascii "Sec-WebSocket-Accept")
        (compareStrIgnoreCase (encodeBase64 x) · = true) (fields.map Prod.fst) := by
      obtain ⟨l, hl, he⟩ := hacc
      exact ⟨l, hl, by rw [he]; exact compareStrIgnoreCase_self _⟩
    have hplainA := plain_of_hasOne hx hrA hv haccOne
    refine ⟨hst, List.singleton_inj.mp hnil, ?_, ?_⟩
    · intro name hname
      simp only [requiredNames, List.mem_cons, List.not_mem_nil, or_false] at hname
      rcases hname with rfl | rfl | rfl
      · exact plain_of_hasOne hx hrU hv hu
      · exact plain_of_hasOne hx hrC hv hc
      · exact hplainA
    · intro line hline hreads _
      obtain ⟨one, hone, he⟩ := hacc
      have hin := List.mem_filter.mpr ⟨hline, named_of_plain (hplainA line hline hreads) hreads⟩
      rw [hone] at hin
      rw [List.mem_singleton.mp hin, he]
  · intro hplain
    obtain ⟨hst, hnil, hfield, hcase⟩ := hplain _ _ _ _ hhead
    rw [hnil] at hl
    obtain ⟨lu, -, -, hu, huv⟩ := hasOne_of_plain hrU hread hv hU
      (hfield _ (headerRules_name hrU).1)
    obtain ⟨lc, -, -, hc, hcv⟩ := hasOne_of_plain hrC hread hv hC
      (hfield _ (headerRules_name hrC).1)
    obtain ⟨la, hla, hlr, hacc, hav⟩ := hasOne_of_plain hrA hread hv hA
      (hfield _ (headerRules_name hrA).1)
    refine ⟨status, fields.map Prod.fst, hl, hst, ⟨lu, hu, huv⟩, ⟨lc, hc, hcv⟩,
      ⟨la, hacc, hcase la hla hlr hav⟩, ?_⟩
    intro line hline
    obtain ⟨f, hf, rfl⟩ := List.mem_map.mp hline
    obtain ⟨hext, hproto⟩ := validateAll_refused hv f hf
    refine ⟨?_, ?_, ?_⟩
    · intro h0
      exact (hread f hf).1 (by rw [h0]; rfl)
    · by_contra hn
      rw [Bool.not_eq_false] at hn
      rw [readsAs_of_named (by decide) hn] at hext
      exact Bool.noConfusion hext
    · by_contra hn
      rw [Bool.not_eq_false] at hn
      rw [readsAs_of_named (by decide) hn] at hproto
      exact Bool.noConfusion hproto

private theorem eq_of_success {result : Reply} {rest : Bytes}
    (h : (result.1, result.2.2) = (.success, rest)) : result = (.success, result.2.1, rest) :=
  Prod.ext (Prod.mk.inj h).1 (Prod.ext rfl (Prod.mk.inj h).2)

end CppImprovement.Ws

import CppImprovement.Net.Ws.Line
import CppImprovement.Net.Ws.Served

/-!
# Data frames through the read loop

What the parts of the read loop do with an unmasked data frame whose length fits
the header field: the round that reads its header, the rounds that take its
payload off the buffer in any number of chunks, and its end. Every result is the
exact state in which the part ends.
-/

namespace CppImprovement.Ws

variable {env : Env} {s t : Session} {b : Bufferevent}

/-! ## Frames on the wire -/

/-- An unmasked frame. -/
structure Frame where
  fin : Bool
  rsv1 : Bool
  rsv2 : Bool
  rsv3 : Bool
  opcode : WSOpcode
  form : LenForm
  payload : Bytes
  deriving DecidableEq, Repr

namespace Frame

/-- A frame without extension bits whose length is written in the short form. -/
def plain (fin : Bool) (opcode : WSOpcode) (payload : Bytes) : Frame :=
  ⟨fin, false, false, false, opcode, .short, payload⟩

/-- The header bytes. -/
def header (f : Frame) : Bytes :=
  wireHeader f.fin f.rsv1 f.rsv2 f.rsv3 f.opcode none f.form f.payload.length

/-- The frame as it is sent. -/
def bytes (f : Frame) : Bytes := f.header ++ f.payload

/-- The header fields. -/
def fields (f : Frame) : WSHeader :=
  wireFields f.fin f.rsv1 f.rsv2 f.rsv3 f.opcode none f.payload.length

/-- The length fits the form it is written in, and the field it is stored in. -/
structure Fits (f : Frame) : Prop where
  form : f.form.Fits f.payload.length
  field : f.payload.length < 128

/-- The frame begins a message. -/
structure BeginsMessage (f : Frame) : Prop where
  valid : validateHeader f.fields false = 0
  not_control : isControlOpcode f.opcode = false

/-- A header has two octets at least. -/
theorem two_le_length_header (f : Frame) : 2 ≤ f.header.length := by
  rw [header, length_wireHeader]
  omega

/-- A frame is its header and its payload. -/
@[simp] theorem length_bytes (f : Frame) :
    f.bytes.length = f.header.length + f.payload.length := by
  rw [bytes, List.length_append]

/-- The header of a frame that fits announces its length. -/
theorem payloadLen_fields {f : Frame} (h : f.Fits) : f.fields.payloadLen.val = f.payload.length :=
  Nat.mod_eq_of_lt h.field

/-- A short payload fits the length field. -/
theorem plain_fits {fin : Bool} {opcode : WSOpcode} {p : Bytes} (h : p.length ≤ 125) :
    (plain fin opcode p).Fits :=
  ⟨h, Nat.lt_of_le_of_lt h (by decide)⟩

/-- A frame with a data opcode begins a message. -/
theorem plain_begins {fin : Bool} {opcode : WSOpcode} (h : opcode = .text ∨ opcode = .binary)
    (p : Bytes) : (plain fin opcode p).BeginsMessage := by
  rcases h with rfl | rfl <;> cases fin <;> exact ⟨rfl, rfl⟩

end Frame

/-! ## The header part of a round -/

/-- The session with a header stored. -/
def Session.headed (s : Session) (h : WSHeader) : Session :=
  { s with wsHeader := h, io.scratchPos := s.io.scratchPos + 1 }

/-- The session in which the frame begins whose header has been read. -/
def Session.frameBegun (s : Session) : Session :=
  if isControlOpcode s.wsHeader.opcode = true then
    { s with rx := { s.rx with
        recvFrameLen := 0, ctrlPayload := List.replicate WS_CONTROL_MAX_PAYLOAD_LEN 0
        ctrlLen := 0 } }
  else if s.rx.inMsgFlag = true then
    { s with
      rx := { s.rx with recvFrameLen := 0, frameData := some [] }
      io.callPos := s.io.callPos + 1 }
  else
    { s with
      rx := { s.rx with
        recvFrameLen := 0, inMsgFlag := true, utf8State := WS_UTF8_ACCEPT
        msgIsBinary_ := decide (s.wsHeader.opcode = .binary), msg := some [], frameData := some [] }
      io.callPos := s.io.callPos + 2 }

/-- A control frame begins without a call of the library. -/
theorem handleFrameBegin_control (env : Env) (h : isControlOpcode s.wsHeader.opcode = true) :
    handleFrameBegin env s = .ok () s.frameBegun := by
  apply eq_ok_of_wp
  simp [handleFrameBegin, Session.frameBegun, h]

/-- `HandleFrameBegin` when no library call fails. -/
theorem handleFrameBegin_ok (hf : env.NoFault) (s : Session) :
    handleFrameBegin env s = .ok () s.frameBegun := by
  apply eq_ok_of_wp
  simp only [handleFrameBegin, beginMessage, onRecvMsgBegin, onMsgFrameBegin, callFails, wp_bind,
    wp_modify, wp_get, wp_ite, wp_modifyGet, wp_pure, hf _, Bool.false_eq_true, if_false]
  rw [Session.frameBegun]
  split
  · exact ⟨trivial, rfl⟩
  · split
    · exact ⟨trivial, rfl⟩
    · exact ⟨trivial, rfl⟩

/-- The header that the read loop makes of its input. -/
def Session.unpacked (env : Env) (s : Session) (input : Bytes) : Unpacked :=
  unpackHeader (headerBuf env s input) (min WS_HDR_MAX_SIZE input.length)

/-- A complete header is unpacked, whatever follows it. -/
theorem unpacked_wireHeader (fin rsv1 rsv2 rsv3 : Bool) (opcode : WSOpcode) (mask : Option Mask)
    {form : LenForm} {n : Nat} (hfit : form.Fits n) (env : Env) (s : Session) (x : Bytes) :
    s.unpacked env (wireHeader fin rsv1 rsv2 rsv3 opcode mask form n ++ x) =
      ⟨.success, wireFields fin rsv1 rsv2 rsv3 opcode mask n,
        (wireHeader fin rsv1 rsv2 rsv3 opcode mask form n).length⟩ := by
  have hlen : (wireHeader fin rsv1 rsv2 rsv3 opcode mask form n).length ≤ 14 := by
    have := form.length_extension_le n
    rw [length_wireHeader]
    split <;> omega
  have hmax : WS_HDR_MAX_SIZE = 14 := rfl
  rw [Session.unpacked, headerBuf, List.take_append, List.take_of_length_le (by omega),
    List.append_assoc]
  refine unpackHeader_wireHeader fin rsv1 rsv2 rsv3 opcode mask hfit _ ?_
  rw [List.length_append]
  omega

/-- A part of a header that ends before the key asks for more. -/
theorem unpacked_part (fin rsv1 rsv2 rsv3 : Bool) (opcode : WSOpcode) (mask : Option Mask)
    {form : LenForm} {n : Nat} {y d : Bytes}
    (h : y ++ d = wireHeader fin rsv1 rsv2 rsv3 opcode mask form n)
    (hy : y.length < 2 + (form.extension n).length) (env : Env) (s : Session) :
    (s.unpacked env y).state = .needMore := by
  have hext := form.length_extension_le n
  have hmax : WS_HDR_MAX_SIZE = 14 := rfl
  have htake : y = (wireHeader fin rsv1 rsv2 rsv3 opcode mask form n).take y.length := by
    rw [← h, List.take_left]
  rw [Session.unpacked, headerBuf, List.take_of_length_le (by omega), Nat.min_eq_right (by omega)]
  nth_rewrite 1 [htake]
  exact unpackHeader_part fin rsv1 rsv2 rsv3 opcode mask hy _

/-- A header that is not complete has to wait. -/
theorem headerState_needMore {u : Unpacked} (h : u.state = .needMore) (inMsgFlag : Bool) :
    headerState u inMsgFlag = .needMore := by
  rw [headerState, if_neg (fun hn => hn.1 h), h]

/-- A header that is not valid is an error. -/
theorem headerState_error {u : Unpacked} {h : WSHeader} {n : Nat} (hu : u = ⟨.success, h, n⟩)
    {inMsgFlag : Bool} (hv : validateHeader h inMsgFlag ≠ 0) :
    headerState u inMsgFlag = .error := by
  rw [hu, headerState, if_pos ⟨by simp, hv⟩]

/-- The session whose header has been accepted. -/
def Session.accepted (s : Session) (u : Unpacked) : Session :=
  { s.headed u.header with rx.hasHeader := true }.drain u.headerLen

/-- Accepting a header stores it and closes nothing. -/
theorem Session.accepted_kept (s : Session) (u : Unpacked) :
    (s.accepted u).wsHeader = u.header ∧ (s.accepted u).cl = s.cl := by
  rw [Session.accepted, Session.drain_wsHeader, Session.drain_cl]
  exact ⟨rfl, rfl⟩

/-- The session whose header `h` has been accepted and taken off the buffer. -/
theorem Session.accepted_eq (hb : s.Reading b) {h x : Bytes} (hin : b.input = h ++ x)
    (fields : WSHeader) :
    s.accepted ⟨.success, fields, h.length⟩ =
      { s.headed fields with
        rx.hasHeader := true
        bev := some { b with input := x } } := by
  have hreading : Session.Reading { s.headed fields with rx.hasHeader := true } b := hb
  rw [Session.accepted, hreading.drain, hin, List.drop_left]

/-- Outside a frame a round begins with a header. -/
theorem needHeader_outside (h : s.rx.hasHeader = false) (input : Bytes) :
    needHeader env input s = readHeader env input s := by
  change (if s.rx.hasHeader = true then _ else _ : M Bool) s = _
  rw [if_neg (by simp [h])]

/-- A header that is accepted begins its frame. -/
theorem readHeader_accepts {input : Bytes}
    (hst : headerState (s.unpacked env input) s.rx.inMsgFlag = .success) :
    readHeader env input s = (handleFrameBegin env >>= fun _ => pure true)
      (s.accepted (s.unpacked env input)) := by
  have hab : ¬ (s.unpacked env input).state = .userAbort := unpackHeader_ne_userAbort _ _
  rw [Session.unpacked] at hab hst
  refine eq_of_wp fun Q E hw => ?_
  simp only [readHeader, wp_bind, wp_get, wp_modify] at hw
  rw [if_neg hab] at hw
  simp only [hst, wp_bind, wp_modify] at hw
  rw [wp_bind]
  exact hw

/-- A round accepts a header and begins its frame. -/
theorem readHeader_begins (hf : env.NoFault) {input : Bytes}
    (hst : headerState (s.unpacked env input) s.rx.inMsgFlag = .success) :
    readHeader env input s = .ok true (s.accepted (s.unpacked env input)).frameBegun := by
  rw [readHeader_accepts hst, bind_eq_of_ok (handleFrameBegin_ok hf _)]
  rfl

/-- A round waits for the rest of a header. -/
theorem readHeader_waits {input : Bytes}
    (hst : headerState (s.unpacked env input) s.rx.inMsgFlag = .needMore) :
    readHeader env input s = .ok false (s.headed (s.unpacked env input).header) := by
  have hab : ¬ (s.unpacked env input).state = .userAbort := unpackHeader_ne_userAbort _ _
  rw [Session.unpacked] at hab hst
  apply eq_ok_of_wp
  simp only [readHeader, wp_bind, wp_get, wp_modify]
  rw [if_neg hab]
  simp only [hst]
  exact ⟨rfl, rfl⟩

/-- A round answers a header it refuses with a Close frame. -/
theorem readHeader_refuses (hf : env.NoFault) (hb : s.bev ≠ none) (hs : s.tx.sendState = .none)
    {input : Bytes} (hst : headerState (s.unpacked env input) s.rx.inMsgFlag = .error) :
    readHeader env input s =
      .ok false
        ((s.headed (s.unpacked env input).header).closeStarted env .protocolErr1002 []) := by
  have hab : ¬ (s.unpacked env input).state = .userAbort := unpackHeader_ne_userAbort _ _
  have hclose := closeWithStatus_ok (s := s.headed (s.unpacked env input).header) hf hb hs
    (show WSCloseStatus.protocolErr1002.notUsed = false from by decide)
  rw [Session.unpacked] at hab hst
  apply eq_ok_of_wp
  simp only [readHeader, wp_bind, wp_get, wp_modify]
  rw [if_neg hab]
  simp only [hst, wp_bind]
  exact (wp_of_eq_ok hclose).mpr ⟨rfl, rfl⟩

/-! ## The header of a frame -/

/-- The session after the header of the first frame of a message, with `x` left to read. -/
def Session.begun (s : Session) (b : Bufferevent) (f : Frame) (x : Bytes) : Session :=
  { s with
    bev := some { b with input := x }
    wsHeader := f.fields
    rx := { s.rx with
      hasHeader := true
      recvFrameLen := 0
      utf8State := WS_UTF8_ACCEPT
      inMsgFlag := true
      msgIsBinary_ := decide (f.opcode = .binary)
      msg := some []
      frameData := some [] }
    io := { s.io with callPos := s.io.callPos + 2, scratchPos := s.io.scratchPos + 1 } }

/-- The header of a frame that begins a message is read. -/
theorem needHeader_begins (hf : env.NoFault) {f : Frame} (hs : f.Fits) (hm : f.BeginsMessage)
    {x : Bytes} (hb : s.Reading b) (hin : b.input = f.header ++ x)
    (hh : s.rx.hasHeader = false) (hi : s.rx.inMsgFlag = false) :
    needHeader env b.input s = .ok true (s.begun b f x) := by
  have hu : s.unpacked env b.input = ⟨.success, f.fields, f.header.length⟩ := by
    rw [hin]
    exact unpacked_wireHeader _ _ _ _ _ none hs.form env s x
  have hst : headerState (s.unpacked env b.input) s.rx.inMsgFlag = .success := by
    rw [hu, headerState, hi, hm.valid]
    rfl
  rw [needHeader_outside hh, readHeader_begins hf hst, hu, Session.accepted_eq hb hin,
    Session.frameBegun, if_neg (by exact Bool.eq_false_iff.mp hm.not_control),
    if_neg (by exact Bool.eq_false_iff.mp hi)]
  rfl

/-- A part of a header is no header: the loop waits, having stored what it saw. -/
theorem needHeader_waits (env : Env) {f : Frame} {d : Bytes} (hin : b.input ++ d = f.header)
    (hd : d ≠ []) (hh : s.rx.hasHeader = false) :
    ∃ h, needHeader env b.input s = .ok false (s.headed h) := by
  have hpos := List.length_pos_iff.mpr hd
  have hlen := congrArg List.length hin
  have hheader : f.header.length = 2 + (f.form.extension f.payload.length).length :=
    length_wireHeader _ _ _ _ _ none _ _
  rw [List.length_append] at hlen
  have hu := unpacked_part _ _ _ _ _ none hin (by omega) env s
  exact ⟨_, (needHeader_outside hh _).trans (readHeader_waits (headerState_needMore hu _))⟩

/-! ## The payload of a frame -/

/-- The receiver is inside the first frame of a message, `k` bytes into its payload. -/
structure Session.InFrame (s : Session) (f : Frame) (k : Nat) : Prop where
  hasHeader : s.rx.hasHeader = true
  header : s.wsHeader = f.fields
  recvFrameLen : s.rx.recvFrameLen = k
  utf8State : s.rx.utf8State = validateUtf8 WS_UTF8_ACCEPT (f.payload.take k)
  inMsgFlag : s.rx.inMsgFlag = true
  kind : s.rx.msgIsBinary_ = decide (f.opcode = .binary)
  msg : s.rx.msg = some []
  frameData : s.rx.frameData = some (f.payload.take k)
  checked : s.rx.msgIsBinary = false

/-- The text check lets the first `n` bytes of the payload pass. It is made for data frames. -/
def Frame.Passes (f : Frame) (n : Nat) : Prop :=
  isControlOpcode f.opcode = false →
    validateUtf8 WS_UTF8_ACCEPT (f.payload.take n) ≠ WS_UTF8_REJECT ∧
      (validateUtf8 WS_UTF8_ACCEPT (f.payload.take n) = WS_UTF8_ACCEPT ∨ f.fin = false)

/-- The empty beginning of a payload passes the text check. -/
theorem Frame.passes_zero (f : Frame) : f.Passes 0 := fun _ => ⟨nofun, Or.inl rfl⟩

/-- Behind its header the receiver is inside the frame. -/
theorem Session.begun_inFrame (hc : s.rx.msgIsBinary = false) (f : Frame) (x : Bytes) :
    (s.begun b f x).InFrame f 0 :=
  ⟨rfl, rfl, rfl, rfl, rfl, rfl, rfl, rfl, hc⟩

/-- The session after a chunk `c` of a payload, with `x` left to read. -/
def Session.took (s : Session) (b : Bufferevent) (c x : Bytes) : Session :=
  { s with
    bev := some { b with input := x }
    rx := { s.rx with
      recvFrameLen := s.rx.recvFrameLen + c.length
      utf8State := validateUtf8 s.rx.utf8State c
      frameData := s.rx.frameData.map (· ++ c) } }

/-- A chunk lengthens what has been taken of a payload. -/
theorem take_append_chunk {p c d : Bytes} {k : Nat} (h : p.drop k = c ++ d) :
    p.take (k + c.length) = p.take k ++ c := by
  rw [List.take_add, h, List.take_left]

/-- A chunk takes the receiver further into the frame. -/
theorem Session.InFrame.took {f : Frame} {k : Nat} (h : s.InFrame f k) {c d : Bytes}
    (hc : f.payload.drop k = c ++ d) (b : Bufferevent) (x : Bytes) :
    (s.took b c x).InFrame f (k + c.length) where
  hasHeader := h.hasHeader
  header := h.header
  recvFrameLen := congrArg (· + c.length) h.recvFrameLen
  utf8State := by
    rw [take_append_chunk hc, validateUtf8_append, ← h.utf8State]
    rfl
  inMsgFlag := h.inMsgFlag
  kind := h.kind
  msg := h.msg
  frameData := by
    rw [take_append_chunk hc]
    exact congrArg (Option.map (· ++ c)) h.frameData
  checked := h.checked

/-- As long as the frame is in count, the remaining length is the difference. -/
theorem remainingLen_of_le {n k : Nat} (hn : n < 128) (hk : k ≤ n) : remainingLen n k = n - k := by
  rw [remainingLen]
  omega

/-- The end of a frame, as the payload part calls it. -/
def endFrame (env : Env) : M Unit := do
  let _ ← handleFrameEnd env
  pure ()

section payload

variable {f : Frame} {k : Nat} {c d x : Bytes}

/-- The session after a chunk was taken off the buffer, before it is checked and stored. -/
def Session.drained (s : Session) (b : Bufferevent) (c x : Bytes) : Session :=
  { s with
    bev := some { b with input := x }
    rx.recvFrameLen := s.rx.recvFrameLen + c.length }

/-- With nothing of the payload to come, the frame ends. -/
theorem readPayload_ended (hrem : s.remaining = 0) : readPayload env s = endFrame env s := by
  rw [readPayload, get_bind, if_pos hrem]
  rfl

/-- With something of the payload to come, a chunk is taken off the buffer. -/
theorem readPayload_takes (hrem : s.remaining ≠ 0) :
    readPayload env s = handleChunk env (unmaskChunk s.wsHeader s.chunk)
      ((s.drain s.remaining).counted s.chunk.length) := by
  rw [readPayload, get_bind, if_neg hrem]
  rfl

/-- The chunk `c` is all that is left of the payload or all that the buffer holds. It is taken off
the buffer and unmasked. -/
theorem readPayload_part (hb : s.Reading b) (hrem : s.remaining = c.length + d.length)
    (hin : b.input = c ++ x) (hend : d = [] ∨ x = []) (hpos : c.length + d.length ≠ 0)
    (hcount : s.rx.recvFrameLen + c.length < 128) :
    readPayload env s = handleChunk env (unmaskChunk s.wsHeader c) (s.drained b c x) := by
  have htake : b.input.take (c.length + d.length) = c := by
    rcases hend with rfl | rfl
    · rw [hin, List.length_nil, Nat.add_zero, List.take_left]
    · rw [hin, List.append_nil, List.take_of_length_le (by omega)]
  have hdrop : b.input.drop (c.length + d.length) = x := by
    rcases hend with rfl | rfl
    · rw [hin, List.length_nil, Nat.add_zero, List.drop_left]
    · rw [hin, List.append_nil, List.drop_eq_nil_of_le (by omega)]
  -- The payload is shorter than 128 octets, so the count does not wrap.
  have hword : (s.rx.recvFrameLen + c.length) % 2 ^ 64 = s.rx.recvFrameLen + c.length := by
    omega
  rw [readPayload_takes (by omega), Session.chunk, hb.inBuf, hb.drain, hrem, htake, hdrop,
    Session.counted]
  simp only [hword]
  rfl

/-- A chunk of a frame without a key is taken as it is. -/
theorem readPayload_chunk (hh : s.wsHeader = f.fields) (hn : s.rx.recvFrameLen = k)
    (hs : f.Fits) (hb : s.Reading b) (hc : f.payload.drop k = c ++ d)
    (hin : b.input = c ++ x) (hend : d = [] ∨ x = []) (hlt : k < f.payload.length) :
    readPayload env s = handleChunk env c (s.drained b c x) := by
  have hfield := hs.field
  have hlen : f.payload.length - k = c.length + d.length := by
    rw [← List.length_drop, hc, List.length_append]
  have hrem : s.remaining = c.length + d.length := by
    rw [Session.remaining, hh, hn, Frame.payloadLen_fields hs, remainingLen_of_le hfield hlt.le,
      hlen]
  rw [readPayload_part hb hrem hin hend (by omega) (by omega), hh]
  rfl

/-- The first frame of a message is a data frame. -/
theorem Session.InFrame.not_control (h : s.InFrame f k) (hm : f.BeginsMessage) :
    isControlOpcode s.wsHeader.opcode = false := by
  rw [h.header]
  exact hm.not_control

/-- The test of the text check, in terms of the frame. -/
theorem Session.InFrame.passes_iff (h : s.InFrame f k) (hm : f.BeginsMessage)
    (hc : f.payload.drop k = c ++ d) :
    f.Passes (k + c.length) ↔ ¬ (validateUtf8 s.rx.utf8State c = WS_UTF8_REJECT ∨
      (validateUtf8 s.rx.utf8State c ≠ WS_UTF8_ACCEPT ∧ s.wsHeader.fin = true)) := by
  have hfin : s.wsHeader.fin = f.fin := congrArg WSHeader.fin h.header
  rw [Frame.Passes, take_append_chunk hc, validateUtf8_append, ← h.utf8State, hfin, not_or, not_and,
    Bool.not_eq_true, ← or_iff_not_imp_left, forall_prop_of_true hm.not_control]

/-- The session with the text check advanced over a chunk. -/
def Session.checkedOver (s : Session) (c : Bytes) : Session :=
  { s with rx.utf8State := validateUtf8 s.rx.utf8State c }

private theorem checkUtf8_passes (h : s.InFrame f k) (hm : f.BeginsMessage)
    (hc : f.payload.drop k = c ++ d) (hp : f.Passes (k + c.length)) :
    checkUtf8 env c (s.drained b c x) = .ok () ((s.drained b c x).checkedOver c) := by
  rw [h.passes_iff hm hc] at hp
  apply eq_ok_of_wp
  simp [checkUtf8, Session.drained, Session.checkedOver, h.checked, h.not_control hm, hp]

/-- A chunk that does not pass the text check is answered with a Close frame. -/
theorem checkUtf8_refuses (hf : env.NoFault) (h : s.InFrame f k) (hm : f.BeginsMessage)
    (hs : s.tx.sendState = .none) (hc : f.payload.drop k = c ++ d)
    (hp : ¬ f.Passes (k + c.length)) :
    checkUtf8 env c (s.drained b c x) =
      .ok () (((s.drained b c x).checkedOver c).closeStarted env .inconsistentData1007 []) := by
  rw [h.passes_iff hm hc, not_not] at hp
  have hclose := closeWithStatus_ok (s := (s.drained b c x).checkedOver c) hf nofun hs
    (show WSCloseStatus.inconsistentData1007.notUsed = false from by decide)
  apply eq_ok_of_wp
  simp only [checkUtf8, wp_bind, wp_get, wp_ite, wp_modify]
  rw [if_pos ⟨h.checked, h.not_control hm⟩]
  refine (if_pos hp).mpr ?_
  exact (wp_of_eq_ok hclose).mpr ⟨trivial, rfl⟩

/-- A chunk that passes the text check is stored. -/
theorem readPayload_took (h : s.InFrame f k) (hs : f.Fits) (hm : f.BeginsMessage)
    (hb : s.Reading b) (hc : f.payload.drop k = c ++ d) (hin : b.input = c ++ x)
    (hend : d = [] ∨ x = []) (hlt : k < f.payload.length) (hp : f.Passes (k + c.length)) :
    readPayload env s =
      (if k + c.length = f.payload.length then endFrame env else pure ()) (s.took b c x) := by
  have ht := h.took hc b x
  have hdata : handleFrameData env c ((s.drained b c x).checkedOver c) =
      .ok 0 (s.took b c x) := by
    apply eq_ok_of_wp
    simp [handleFrameData, Session.drained, Session.checkedOver, Session.took, h.not_control hm,
      h.frameData]
  rw [readPayload_chunk h.header h.recvFrameLen hs hb hc hin hend hlt, handleChunk,
    bind_eq_of_ok (checkUtf8_passes h hm hc hp), bind_eq_of_ok hdata]
  change (if 0 = 0 ∧ (s.took b c x).rx.recvFrameLen = (s.took b c x).wsHeader.payloadLen then _
    else _ : M Unit) _ = _
  rw [ht.recvFrameLen, ht.header, Frame.payloadLen_fields hs]
  simp only [true_and, endFrame]

/-- When the whole payload has been received, the frame ends. -/
theorem readPayload_done (hh : s.wsHeader = f.fields)
    (hn : s.rx.recvFrameLen = f.payload.length) (hs : f.Fits) :
    readPayload env s = endFrame env s := by
  refine readPayload_ended ?_
  rw [Session.remaining, hh, hn, Frame.payloadLen_fields hs, remainingLen_of_le hs.field le_rfl,
    Nat.sub_self]

private theorem Session.took_nil (hb : s.bev = some b) : s.took b [] b.input = s := by
  have hmap : s.rx.frameData.map (· ++ []) = s.rx.frameData := by
    cases s.rx.frameData with
    | none => rfl
    | some d => exact congrArg some (List.append_nil d)
  rw [Session.took, hmap]
  cases s
  cases hb
  rfl

/-- The rest of a payload that passes the text check is stored, and the frame ends. -/
theorem readPayload_complete (h : s.InFrame f k) (hs : f.Fits) (hm : f.BeginsMessage)
    (hb : s.Reading b) (hin : b.input = f.payload.drop k ++ x) (hk : k ≤ f.payload.length)
    (hp : f.Passes f.payload.length) :
    readPayload env s = endFrame env (s.took b (f.payload.drop k) x) := by
  have hend : k + (f.payload.drop k).length = f.payload.length := by
    rw [List.length_drop]
    omega
  rcases hk.lt_or_eq with hlt | rfl
  · rw [readPayload_took h hs hm hb (List.append_nil _).symm hin (Or.inl rfl) hlt (by rwa [hend]),
      if_pos hend]
  · have hx : b.input = x := by
      rw [hin, List.drop_length, List.nil_append]
    rw [List.drop_length, ← hx, Session.took_nil hb.1]
    exact readPayload_done h.header h.recvFrameLen hs

end payload

/-! ## The end of a frame -/

/-- The session with the payload of a frame moved to the message. -/
def Session.gathered (s : Session) (p : Bytes) : Session :=
  { s with rx := { s.rx with msg := some p, frameData := none } }

/-- The session after the end of a message. -/
def Session.messageEnded (s : Session) : Session :=
  { s with rx := { s.rx with msg := none, inMsgFlag := false, hasHeader := false } }

/-- The end of a message: its handler, and the receiver between two messages. -/
def endOfMessage (env : Env) (p : Bytes) : M Unit := do
  callOnMessage env p
  modify Session.messageEnded

/-- The end of a data frame that is final ends the message. -/
theorem endFrame_message (hctl : isControlOpcode s.wsHeader.opcode = false)
    (hfin : s.wsHeader.fin = true) {msg frame : Bytes} (hmsg : s.rx.msg = some msg)
    (hframe : s.rx.frameData = some frame) :
    endFrame env s = endOfMessage env (msg ++ frame) (s.gathered (msg ++ frame)) := by
  refine eq_of_wp fun Q E hw => ?_
  simpa [endFrame, handleFrameEnd, hctl, onMsgFrameEnd, hframe, hmsg, endMessage, hfin,
    onRecvMsgEnd, endOfMessage, Session.gathered, Session.messageEnded] using hw

/-- A final frame that has been received ends its message. -/
theorem endFrame_final {f : Frame} (h : s.InFrame f f.payload.length) (hm : f.BeginsMessage)
    (hfin : f.fin = true) :
    endFrame env s = endOfMessage env f.payload (s.gathered f.payload) := by
  have hdata : s.rx.frameData = some f.payload := by
    rw [h.frameData, List.take_length]
  exact endFrame_message (h.not_control hm) ((congrArg WSHeader.fin h.header).trans hfin) h.msg
    hdata

/-- The session after the end of a frame that is not final. -/
def Session.frameEnded (s : Session) (p : Bytes) : Session :=
  { s with rx := { s.rx with msg := some p, frameData := none, hasHeader := false } }

/-- The end of a data frame that is not final keeps the message open. -/
theorem endFrame_open (hctl : isControlOpcode s.wsHeader.opcode = false)
    (hfin : s.wsHeader.fin = false) {msg frame : Bytes} (hmsg : s.rx.msg = some msg)
    (hframe : s.rx.frameData = some frame) :
    endFrame env s = .ok () (s.frameEnded (msg ++ frame)) := by
  apply eq_ok_of_wp
  simp [endFrame, handleFrameEnd, hctl, onMsgFrameEnd, hframe, hmsg, endMessage, hfin,
    Session.frameEnded]

/-- A frame that is not final keeps its message open. -/
theorem endFrame_fragment {f : Frame} (h : s.InFrame f f.payload.length) (hm : f.BeginsMessage)
    (hfin : f.fin = false) :
    endFrame env s = .ok () (s.frameEnded f.payload) := by
  have hdata : s.rx.frameData = some f.payload := by
    rw [h.frameData, List.take_length]
  exact endFrame_open (h.not_control hm) ((congrArg WSHeader.fin h.header).trans hfin) h.msg hdata

/-- A header that breaks the protocol is answered with a Close frame. -/
theorem needHeader_refuses (hf : env.NoFault) {f : Frame} (hs : f.Fits) {x : Bytes}
    (hb : s.bev = some b) (hin : b.input = f.header ++ x) (hh : s.rx.hasHeader = false)
    (hv : validateHeader f.fields s.rx.inMsgFlag ≠ 0) (hst : s.tx.sendState = .none) :
    needHeader env b.input s =
      .ok false ((s.headed f.fields).closeStarted env .protocolErr1002 []) := by
  have hu : s.unpacked env b.input = ⟨.success, f.fields, f.header.length⟩ := by
    rw [hin]
    exact unpacked_wireHeader _ _ _ _ _ none hs.form env s x
  have hlive : s.bev ≠ none := by
    rw [hb]
    exact Option.some_ne_none b
  rw [needHeader_outside hh, readHeader_refuses hf hlive hst (headerState_error hu hv), hu]

/-! ## Rounds of the loop -/

/-- With an empty buffer the loop does nothing. -/
theorem readLoop_nil (hb : s.Reading b) (hin : b.input = []) (n : Nat) :
    readLoop env n s = .ok () s := by
  cases n with
  | zero => rfl
  | succ n =>
    rw [readLoop, get_bind, if_neg (hb.not_freed env), if_pos (hb.inBuf.trans hin)]
    rfl

/-- A round of the loop that goes on to the payload part. -/
theorem readLoop_round (hb : s.Reading b) (hin : b.input ≠ []) {s' : Session}
    (hh : needHeader env b.input s = .ok true s') (n : Nat) :
    readLoop env (n + 1) s = (readPayload env >>= fun _ => readLoop env n) s' := by
  rw [readLoop, get_bind, if_neg (hb.not_freed env), hb.inBuf, if_neg hin, bind_eq_of_ok hh,
    if_pos rfl]

/-- A round of the loop that waits for more of a header. -/
theorem readLoop_stop (hb : s.Reading b) (hin : b.input ≠ []) {s' : Session}
    (hh : needHeader env b.input s = .ok false s') (n : Nat) :
    readLoop env (n + 1) s = .ok () s' := by
  rw [readLoop, get_bind, if_neg (hb.not_freed env), hb.inBuf, if_neg hin, bind_eq_of_ok hh,
    if_neg (by decide)]
  rfl

/-- Inside a frame the header part does nothing. -/
theorem needHeader_inside (h : s.rx.hasHeader = true) (input : Bytes) :
    needHeader env input s = .ok true s := by
  change (if s.rx.hasHeader = true then _ else _ : M Bool) s = _
  rw [if_pos h]
  rfl

end CppImprovement.Ws

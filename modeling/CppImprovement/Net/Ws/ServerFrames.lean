import CppImprovement.Net.Ws.Deadline
import CppImprovement.Net.Ws.MaskedReads
import CppImprovement.Net.Ws.ReadBoundaries

/-!
# Frames with and without a key

A server has no business masking its frames, but the client takes the key of a frame
that has one and unmasks the payload with it. What the parts of the read loop do with
such a frame is here: its header, its chunks and its end, for data and for control
frames. The header is taken as soon as the length is complete, and every chunk is
unmasked from the first octet of the key.
-/

namespace CppImprovement.Ws

/-! ## Frames on the wire -/

/-- A frame of the server, with or without a key. -/
structure ServerFrame extends Frame where
  mask : Option Mask
  deriving DecidableEq, Repr

/-- A frame without a key is one. -/
instance : Coe Frame ServerFrame := ⟨fun f => ⟨f, none⟩⟩

namespace ServerFrame

/-- The header octets. -/
def header (f : ServerFrame) : Bytes :=
  wireHeader f.fin f.rsv1 f.rsv2 f.rsv3 f.opcode f.mask f.form f.payload.length

/-- The payload as it is sent. -/
def data (f : ServerFrame) : Bytes :=
  match f.mask with
  | none => f.payload
  | some key => maskPayload key f.payload

/-- The frame as it is sent. -/
def bytes (f : ServerFrame) : Bytes := f.header ++ f.data

/-- The header fields. -/
def fields (f : ServerFrame) : WSHeader :=
  wireFields f.fin f.rsv1 f.rsv2 f.rsv3 f.opcode f.mask f.payload.length

/-- The length of the header up to the key. -/
def keyAt (f : ServerFrame) : Nat := 2 + (f.form.extension f.payload.length).length

/-- A chunk at `k` is unmasked as it should be: there is no key, or it begins anew at `k`. -/
def Aligned (f : ServerFrame) (k : Nat) : Prop := f.mask = none ∨ 4 ∣ k

variable {f : ServerFrame} {k : Nat} {c d y : Bytes}

theorem length_header (f : ServerFrame) :
    f.header.length = f.keyAt + if f.mask.isSome then 4 else 0 :=
  length_wireHeader _ _ _ _ _ _ _ _

/-- The key comes after the two octets that every header has. -/
theorem two_le_keyAt (f : ServerFrame) : 2 ≤ f.keyAt := Nat.le_add_right _ _

/-- Masking keeps the length. -/
@[simp] theorem length_data (f : ServerFrame) : f.data.length = f.payload.length := by
  rw [data]
  split
  · rfl
  · exact length_maskPayload _ _

/-- With the rest of the data the frame is complete. -/
theorem add_length_drop_data (hk : k ≤ f.payload.length) :
    k + (f.data.drop k).length = f.payload.length := by
  rw [List.length_drop, f.length_data]
  omega

/-- Behind the end of the payload there is no data. -/
theorem drop_data_payload (f : ServerFrame) : f.data.drop f.payload.length = [] := by
  rw [← f.length_data, List.drop_length]

/-- A frame is its header and its payload. -/
@[simp] theorem length_bytes (f : ServerFrame) :
    f.bytes.length = f.header.length + f.payload.length := by
  rw [bytes, List.length_append, length_data]

/-- The header announces the length of the payload. -/
theorem payloadLen_fields (h : f.Fits) : f.fields.payloadLen.val = f.payload.length :=
  Nat.mod_eq_of_lt h.field

/-- The payload begins with the first octet of the key. -/
theorem aligned_zero (f : ServerFrame) : f.Aligned 0 := Or.inr (dvd_zero 4)

/-- From a place where the key begins anew, what is left is masked by itself. -/
theorem maskPayload_drop (key : Mask) (p : Bytes) (h : 4 ∣ k) :
    (maskPayload key p).drop k = maskPayload key (p.drop k) := by
  have hbyte : ∀ i, key.byte (k + i) = key.byte i := by
    intro i
    rw [Mask.byte, Mask.byte, Nat.add_mod, Nat.mod_eq_zero_of_dvd h, Nat.zero_add, Nat.mod_mod]
  rw [maskPayload, maskPayload, List.ext_getElem_iff]
  simp only [List.length_drop, List.length_mapIdx, List.getElem_drop, List.getElem_mapIdx, hbyte,
    implies_true, and_self]

/-- A chunk that is unmasked as it should be is a part of the payload. -/
theorem Aligned.unmasked (h : f.Aligned k) (hc : f.data.drop k = c ++ d) :
    ∃ d', f.payload.drop k = unmaskChunk f.fields c ++ d' ∧ d'.length = d.length := by
  cases hm : f.mask with
  | none =>
    rw [data, hm] at hc
    have hchunk : unmaskChunk f.fields c = c := by
      rw [unmaskChunk, fields, wireFields, hm]
      rfl
    exact ⟨d, by rw [hchunk, hc], rfl⟩
  | some key =>
    have h4 : 4 ∣ k := h.resolve_left (by rw [hm]; exact Option.some_ne_none key)
    have hchunk : unmaskChunk f.fields c = unmaskFrom key 0 c := by
      rw [unmaskChunk, fields, wireFields, hm]
      exact unmaskPayload_eq_iff.mpr fun j _ => by rw [Nat.zero_add]
    rw [data, hm] at hc
    have hdrop := congrArg (maskPayload key) ((maskPayload_drop key f.payload h4).symm.trans hc)
    rw [maskPayload_maskPayload] at hdrop
    have hall : maskPayload key (c ++ d) = unmaskFrom key 0 (c ++ d) :=
      unmaskPayload_eq_iff.mpr fun j _ => by rw [Nat.zero_add]
    refine ⟨unmaskFrom key (0 + c.length) d, ?_, length_unmaskFrom _ _ _⟩
    rw [hdrop, hall, hchunk, unmaskFrom_append]

end ServerFrame

variable {env : Env} {s : Session} {b : Bufferevent} {f : ServerFrame} {k : Nat} {c d x y : Bytes}

/-- The header of the frame is found at the beginning of the buffer. -/
theorem ServerFrame.unpacked (hs : f.Fits) (hin : b.input = f.header ++ x) (env : Env)
    (s : Session) : s.unpacked env b.input = ⟨.success, f.fields, f.header.length⟩ := by
  rw [hin]
  exact unpacked_wireHeader _ _ _ _ _ f.mask hs.form env s x

/-- A part of a header that ends before the key is no header: the loop waits, having stored what
it saw. -/
theorem needHeader_cut (env : Env) (hin : b.input ++ d = f.header)
    (hcut : b.input.length < f.keyAt) (hh : s.rx.hasHeader = false) :
    ∃ h, needHeader env b.input s = .ok false (s.headed h) := by
  have hu := unpacked_part _ _ _ _ _ f.mask hin hcut env s
  exact ⟨_, (needHeader_outside hh _).trans (readHeader_waits (headerState_needMore hu _))⟩

/-- A header that breaks the protocol is answered with a Close frame. -/
theorem needHeader_breaks (hf : env.NoFault) (hs : f.Fits) (hb : s.bev ≠ none)
    (hin : b.input = f.header ++ x) (hh : s.rx.hasHeader = false)
    (hv : validateHeader f.fields s.rx.inMsgFlag ≠ 0) (hst : s.tx.sendState = .none) :
    needHeader env b.input s =
      .ok false ((s.headed f.fields).closeStarted env .protocolErr1002 []) := by
  have hu := f.unpacked hs hin env s
  rw [needHeader_outside hh, readHeader_refuses hf hb hst (headerState_error hu hv), hu]

/-- A header that keeps to the protocol is taken off the buffer, and its frame begins. -/
theorem needHeader_keeps (env : Env) (hs : f.Fits) (hb : s.Reading b)
    (hin : b.input = f.header ++ x) (hh : s.rx.hasHeader = false)
    (hv : validateHeader f.fields s.rx.inMsgFlag = 0) :
    needHeader env b.input s = (handleFrameBegin env >>= fun _ => pure true)
      { s.headed f.fields with
        rx.hasHeader := true
        bev := some { b with input := x } } := by
  have hu := f.unpacked hs hin env s
  have hst : headerState (s.unpacked env b.input) s.rx.inMsgFlag = .success := by
    rw [hu, headerState, hv]
    rfl
  rw [needHeader_outside hh, readHeader_accepts hst, hu, Session.accepted_eq hb hin]

/-! ## Data frames -/

/-- The session after the header of the first frame of a message, with `x` left to read. -/
def Session.serverBegun (s : Session) (b : Bufferevent) (f : ServerFrame) (x : Bytes) : Session :=
  { s.begun b f.toFrame x with wsHeader := f.fields }

/-- The header of a data frame is read. -/
theorem needHeader_data (hf : env.NoFault) (hs : f.Fits)
    (hd : isControlOpcode f.opcode = false) (hv : validateHeader f.fields s.rx.inMsgFlag = 0)
    (hb : s.Reading b) (hin : b.input = f.header ++ x) (hh : s.rx.hasHeader = false) :
    needHeader env b.input s = .ok true (s.serverBegun b f x) := by
  have hi : s.rx.inMsgFlag = false := validateHeader_data hv hd
  rw [needHeader_keeps env hs hb hin hh hv, bind_eq_of_ok (handleFrameBegin_ok hf _),
    Session.frameBegun, if_neg (by exact Bool.eq_false_iff.mp hd),
    if_neg (by exact Bool.eq_false_iff.mp hi)]
  rfl

/-- The receiver is inside the first frame of a message, `k` octets into its payload. -/
structure Session.InData (s : Session) (f : ServerFrame) (k : Nat) : Prop where
  hasHeader : s.rx.hasHeader = true
  header : s.wsHeader = f.fields
  recvFrameLen : s.rx.recvFrameLen = k
  utf8State : s.rx.utf8State = validateUtf8 WS_UTF8_ACCEPT (f.payload.take k)
  msg : s.rx.msg = some []
  frameData : s.rx.frameData = some (f.payload.take k)
  checked : s.rx.msgIsBinary = false

/-- Behind its header the receiver is inside the frame. -/
theorem Session.serverBegun_inData (hc : s.rx.msgIsBinary = false) (f : ServerFrame) (x : Bytes) :
    (s.serverBegun b f x).InData f 0 :=
  ⟨rfl, rfl, rfl, rfl, rfl, rfl, hc⟩

/-- Inside a data frame no control payload is stored. -/
theorem Session.InData.not_control (h : s.InData f k) (hd : isControlOpcode f.opcode = false) :
    isControlOpcode s.wsHeader.opcode = false := by
  rw [h.header]
  exact hd

/-- A chunk that begins with the key takes the receiver further into the frame. -/
theorem Session.InData.took (h : s.InData f k) (ha : f.Aligned k)
    (hc : f.data.drop k = c ++ d) (b : Bufferevent) (x : Bytes) :
    (s.took b (unmaskChunk f.fields c) x).InData f (k + c.length) := by
  obtain ⟨d', hp, -⟩ := ha.unmasked hc
  have htake := take_append_chunk hp
  rw [length_unmaskChunk] at htake
  exact
    { hasHeader := h.hasHeader
      header := h.header
      recvFrameLen := by
        rw [Session.took, length_unmaskChunk, h.recvFrameLen]
      utf8State := by
        rw [htake, validateUtf8_append, ← h.utf8State]
        rfl
      msg := h.msg
      frameData := by
        rw [htake]
        exact congrArg (Option.map (· ++ unmaskChunk f.fields c)) h.frameData
      checked := h.checked }

/-- What is left of a frame is left of its payload. -/
theorem Session.remaining_of_header (hh : s.wsHeader = f.fields) (hn : s.rx.recvFrameLen = k)
    (hs : f.Fits) (hk : k ≤ f.payload.length) (hc : f.data.drop k = c ++ d) :
    s.remaining = c.length + d.length := by
  rw [Session.remaining, hh, hn, ServerFrame.payloadLen_fields hs,
    remainingLen_of_le hs.field hk, ← f.length_data, ← List.length_drop, hc, List.length_append]

/-- A chunk is taken off the buffer and unmasked. -/
theorem readPayload_masked (hh : s.wsHeader = f.fields) (hn : s.rx.recvFrameLen = k)
    (hs : f.Fits) (hb : s.Reading b) (hc : f.data.drop k = c ++ d) (hin : b.input = c ++ x)
    (hend : d = [] ∨ x = []) (hlt : k < f.payload.length) :
    readPayload env s = handleChunk env (unmaskChunk f.fields c)
      (s.drained b (unmaskChunk f.fields c) x) := by
  have hfield := hs.field
  have hrem := Session.remaining_of_header hh hn hs hlt.le hc
  have hlen : f.payload.length - k = c.length + d.length := by
    rw [← f.length_data, ← List.length_drop, hc, List.length_append]
  rw [readPayload_part hb hrem hin hend (by omega) (by omega), hh, Session.drained,
    Session.drained, length_unmaskChunk]

/-- A chunk that passes the text check is stored. -/
theorem readPayload_data (h : s.InData f k) (hs : f.Fits) (hd : isControlOpcode f.opcode = false)
    (ha : f.Aligned k) (hb : s.Reading b) (hc : f.data.drop k = c ++ d) (hin : b.input = c ++ x)
    (hend : d = [] ∨ x = []) (hlt : k < f.payload.length) (hp : f.Passes (k + c.length)) :
    readPayload env s = (if k + c.length = f.payload.length then endFrame env else pure ())
      (s.took b (unmaskChunk f.fields c) x) := by
  have ht := h.took ha hc b x
  obtain ⟨d', hpay, -⟩ := ha.unmasked hc
  have htake := take_append_chunk hpay
  rw [length_unmaskChunk] at htake
  have hpass : ¬ (validateUtf8 s.rx.utf8State (unmaskChunk f.fields c) = WS_UTF8_REJECT ∨
      (validateUtf8 s.rx.utf8State (unmaskChunk f.fields c) ≠ WS_UTF8_ACCEPT ∧
        s.wsHeader.fin = true)) := by
    have hfin : s.wsHeader.fin = f.fin := congrArg WSHeader.fin h.header
    have hp' := hp hd
    rwa [htake, validateUtf8_append, ← h.utf8State, ← hfin, ← Bool.not_eq_true,
      or_iff_not_imp_left, ← not_and, ← not_or] at hp'
  have hcheck : checkUtf8 env (unmaskChunk f.fields c) (s.drained b (unmaskChunk f.fields c) x) =
      .ok () ((s.drained b (unmaskChunk f.fields c) x).checkedOver (unmaskChunk f.fields c)) := by
    apply eq_ok_of_wp
    simp [checkUtf8, Session.drained, Session.checkedOver, h.checked, h.not_control hd, hpass]
  have hstore : handleFrameData env (unmaskChunk f.fields c)
      ((s.drained b (unmaskChunk f.fields c) x).checkedOver (unmaskChunk f.fields c)) =
      .ok 0 (s.took b (unmaskChunk f.fields c) x) := by
    apply eq_ok_of_wp
    simp [handleFrameData, Session.drained, Session.checkedOver, Session.took, h.not_control hd,
      h.frameData]
  rw [readPayload_masked h.header h.recvFrameLen hs hb hc hin hend hlt, handleChunk,
    bind_eq_of_ok hcheck, bind_eq_of_ok hstore]
  change (if 0 = 0 ∧ (s.took b _ x).rx.recvFrameLen = (s.took b _ x).wsHeader.payloadLen then _
    else _ : M Unit) _ = _
  rw [ht.recvFrameLen, ht.header, ServerFrame.payloadLen_fields hs]
  simp only [true_and, endFrame]

/-- When the whole payload has been received, the frame ends. -/
theorem readPayload_finished (hh : s.wsHeader = f.fields)
    (hn : s.rx.recvFrameLen = f.payload.length) (hs : f.Fits) :
    readPayload env s = endFrame env s := by
  refine readPayload_ended ?_
  exact Session.remaining_of_header (c := []) (d := []) hh hn hs le_rfl f.drop_data_payload

private theorem Session.InData.frameData_full (h : s.InData f f.payload.length) :
    s.rx.frameData = some f.payload := by
  rw [h.frameData, List.take_length]

/-- A final frame that has been received ends its message. -/
theorem Session.InData.endFrame_final (h : s.InData f f.payload.length)
    (hd : isControlOpcode f.opcode = false) (hfin : f.fin = true) :
    endFrame env s = endOfMessage env f.payload (s.gathered f.payload) :=
  endFrame_message (h.not_control hd) ((congrArg WSHeader.fin h.header).trans hfin) h.msg
    h.frameData_full

/-- A frame that is not final keeps its message open. -/
theorem Session.InData.endFrame_open (h : s.InData f f.payload.length)
    (hd : isControlOpcode f.opcode = false) (hfin : f.fin = false) :
    endFrame env s = .ok () (s.frameEnded f.payload) :=
  Ws.endFrame_open (h.not_control hd) ((congrArg WSHeader.fin h.header).trans hfin) h.msg
    h.frameData_full

/-! ## Control frames -/

/-- The session after the header of a control frame, with `x` left to read. -/
def Session.ctrlBegun (s : Session) (b : Bufferevent) (f : ServerFrame) (x : Bytes) : Session :=
  { s with
    bev := some { b with input := x }
    wsHeader := f.fields
    rx := { s.rx with
      hasHeader := true
      recvFrameLen := 0
      ctrlPayload := List.replicate WS_CONTROL_MAX_PAYLOAD_LEN 0
      ctrlLen := 0 }
    io := { s.io with scratchPos := s.io.scratchPos + 1 } }

/-- The header of a control frame is read. -/
theorem needHeader_control (env : Env) (hs : f.Fits) (hc : isControlOpcode f.opcode = true)
    (hv : validateHeader f.fields s.rx.inMsgFlag = 0) (hb : s.Reading b)
    (hin : b.input = f.header ++ x) (hh : s.rx.hasHeader = false) :
    needHeader env b.input s = .ok true (s.ctrlBegun b f x) := by
  rw [needHeader_keeps env hs hb hin hh hv, bind_eq_of_ok (handleFrameBegin_control env hc),
    Session.frameBegun, if_pos (by exact hc)]
  rfl

/-- The receiver is inside a control frame, `k` octets into its payload. -/
structure Session.InControl (s : Session) (f : ServerFrame) (k : Nat) : Prop where
  hasHeader : s.rx.hasHeader = true
  header : s.wsHeader = f.fields
  recvFrameLen : s.rx.recvFrameLen = k
  ctrlLen : s.rx.ctrlLen = k

/-- The session after a chunk `c` of a control payload, with `x` left to read. -/
def Session.ctrlTook (s : Session) (b : Bufferevent) (c x : Bytes) : Session :=
  { s with
    bev := some { b with input := x }
    rx := { s.rx.writeCtrl s.rx.ctrlLen c with
      recvFrameLen := s.rx.recvFrameLen + c.length
      ctrlLen := s.rx.ctrlLen + c.length } }

/-- A chunk takes the receiver further into the control frame. -/
theorem Session.InControl.ctrlTook (h : s.InControl f k) (b : Bufferevent) (c x : Bytes) :
    (s.ctrlTook b c x).InControl f (k + c.length) where
  hasHeader := h.hasHeader
  header := h.header
  recvFrameLen := congrArg (· + c.length) h.recvFrameLen
  ctrlLen := congrArg (· + c.length) h.ctrlLen

/-- A chunk of a control frame that fits the buffer is stored. -/
theorem readPayload_ctrlTook (h : s.InControl f k) (hs : f.Fits)
    (hctl : isControlOpcode f.opcode = true) (hmax : f.payload.length ≤ 125)
    (hb : s.Reading b) (hc : f.data.drop k = c ++ d) (hin : b.input = c ++ x)
    (hend : d = [] ∨ x = []) (hlt : k < f.payload.length) :
    readPayload env s = (if k + c.length = f.payload.length then endFrame env else pure ())
      (s.ctrlTook b (unmaskChunk f.fields c) x) := by
  have ht := h.ctrlTook b (unmaskChunk f.fields c) x
  rw [length_unmaskChunk] at ht
  have hop : isControlOpcode s.wsHeader.opcode = true := by
    rw [h.header]
    exact hctl
  have hlen := congrArg List.length hc
  rw [List.length_drop, f.length_data, List.length_append] at hlen
  have hfit : ¬ WS_CONTROL_MAX_PAYLOAD_LEN < s.rx.ctrlLen + (unmaskChunk f.fields c).length := by
    rw [h.ctrlLen, WS_CONTROL_MAX_PAYLOAD_LEN, length_unmaskChunk]
    omega
  have hcheck : checkUtf8 env (unmaskChunk f.fields c) (s.drained b (unmaskChunk f.fields c) x) =
      .ok () (s.drained b (unmaskChunk f.fields c) x) := by
    apply eq_ok_of_wp
    simp [checkUtf8, Session.drained, hop]
  have hdata : handleFrameData env (unmaskChunk f.fields c)
      (s.drained b (unmaskChunk f.fields c) x) =
      .ok 0 (s.ctrlTook b (unmaskChunk f.fields c) x) := by
    apply eq_ok_of_wp
    simp [handleFrameData, Session.drained, Session.ctrlTook, Receiver.writeCtrl, hop, hfit]
  rw [readPayload_masked h.header h.recvFrameLen hs hb hc hin hend hlt, handleChunk,
    bind_eq_of_ok hcheck, bind_eq_of_ok hdata]
  change (if 0 = 0 ∧ (s.ctrlTook b _ x).rx.recvFrameLen =
    (s.ctrlTook b _ x).wsHeader.payloadLen then _ else _ : M Unit) _ = _
  rw [ht.recvFrameLen, ht.header, ServerFrame.payloadLen_fields hs]
  simp only [true_and, endFrame]

private theorem ping_or_pong {opcode : WSOpcode} (hctl : isControlOpcode opcode = true)
    (hres : isReservedOpcode opcode = false) (hne : opcode ≠ .close) :
    opcode = .ping ∨ opcode = .pong := by
  revert hctl hres hne
  cases opcode <;> decide

/-- The end of a control frame other than Close is the end of the process: the ping and pong
callbacks are null. -/
theorem wp_endFrame_control (h : s.wsHeader = f.fields) (hctl : isControlOpcode f.opcode = true)
    (hres : isReservedOpcode f.opcode = false) (hne : f.opcode ≠ .close) :
    wp (endFrame env) (fun _ _ => False) (fun e s' => e = .nullCall ∧ SameCloses s s') s := by
  have hop : s.wsHeader.opcode = f.opcode := congrArg WSHeader.opcode h
  have hkept : SameCloses s { s with rx.hasHeader := false } := ⟨rfl, rfl⟩
  rcases ping_or_pong hctl hres hne with hp | hp <;>
    rw [hp] at hop hctl <;>
    simp [endFrame, handleFrameEnd, handleControlFrame, hop, hctl, hkept]

/-- The end of a Close frame is the call of `HandleCloseFrame`. -/
theorem endFrame_close (hop : s.wsHeader.opcode = .close) :
    endFrame env s =
      (handleCloseFrame env >>= fun _ => pure ()) { s with rx.hasHeader := false } := by
  refine eq_of_wp fun Q E hw => ?_
  have hctl : isControlOpcode .close = true := rfl
  simpa [endFrame, handleFrameEnd, handleControlFrame, hop, hctl] using hw

/-- After the end of a Close frame the session receives what follows it, and the frame has been
handled with the buffer as it was. -/
theorem wp_endFrame_close (hf : env.NoFault) (hr : s.Receiving b)
    (hop : s.wsHeader.opcode = .close) :
    wp (endFrame env)
      (fun _ s' => s'.Receiving b ∧ s'.rx.hasHeader = false ∧
        s'.rx.closeEntries = s.rx.closeEntries ++ [s.closeEntry]) (fun _ _ => False) s := by
  rw [wp_congr (endFrame_close hop), wp_bind]
  have hserves : Moves (Serves True False) Mild (handleCloseFrame env)
      { s with rx.hasHeader := false } := serves_handleCloseFrame (fun _ => hf) _
  refine wp_mono (wp_and (wp_handleCloseFrame_deadline _)
    (wp_and (retains_handleCloseFrame _) hserves)) (fun _ s' hs => ?_) fun _ _ hs => hs.1
  obtain ⟨⟨hentries, -⟩, hretains, hserved⟩ := hs
  have hv := hserved { hr.sane with }
  have hlive : s'.bev ≠ none := hv.live trivial (by rw [hr.bev]; exact nofun)
  refine ⟨⟨?_, hr.enabled, ?_, hv.sane, hv.binary.trans hr.checked⟩, hretains.hasHeader, hentries⟩
  · exact (hretains.bev.resolve_left hlive).trans hr.bev
  · rw [hretains.hs]
    exact hr.complete

end CppImprovement.Ws

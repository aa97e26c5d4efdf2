import CppImprovement.Net.Ws.Sending

/-!
# Outgoing messages on the wire

What `SendMsgEx` appends to the output, read by the framing rules: each frame is
a header and masked data, and its payload is the data unmasked with the frame's
own key. A message that fits the frame size leaves as one frame. A longer one
never leaves: `SendMsgEx` requires a connected session, and `OnSendMsgBegin`,
which it calls first, requires one that is not.
-/

namespace CppImprovement.Ws

/-! ## The output -/

/-- The bytes that an event appends to the output. -/
def Event.bytes : Event → Bytes
  | .request text => text
  | .sent _ bytes => bytes
  | _ => []

/-- Everything written so far. -/
def Session.output (s : Session) : Bytes := s.io.trace.flatMap Event.bytes

/-- A frame as the framing rules read it, with a short length and the data as it was sent. -/
structure WireFrame where
  fin : Bool
  opcode : WSOpcode
  key : Mask
  data : Bytes
  deriving DecidableEq, Repr

namespace WireFrame

/-- The payload, unmasked with the frame's own key. -/
def payload (f : WireFrame) : Bytes := unmaskPayload f.key f.data

/-- The bytes of the frame. -/
def encode (f : WireFrame) : Bytes :=
  wireHeader f.fin false false false f.opcode (some f.key) .short f.data.length ++ f.data

end WireFrame

/-- The frames make up one message: the message's opcode and then continuations, FIN on the last
frame only, payloads within the limit, and together the message. -/
structure OneMessage (binary : Bool) (limit : Nat) (msg : Bytes) (fs : List WireFrame) : Prop where
  opcodes : fs.map WireFrame.opcode =
    (if binary then .binary else .text) :: List.replicate (fs.length - 1) .continuation
  fins : fs.map WireFrame.fin = List.replicate (fs.length - 1) false ++ [true]
  fits : ∀ f ∈ fs, f.payload.length ≤ limit
  payloads : fs.flatMap WireFrame.payload = msg

/-- Masking twice with one key restores the data. -/
theorem maskPayload_maskPayload (key : Mask) (msg : Bytes) :
    maskPayload key (maskPayload key msg) = msg := by
  apply List.ext_getElem?
  intro i
  rw [maskPayload, maskPayload, List.getElem?_mapIdx, List.getElem?_mapIdx]
  cases msg[i]? with
  | none => rfl
  | some b =>
    rw [Option.map_some, Option.map_some, UInt8.xor_assoc, UInt8.xor_self, UInt8.xor_zero]

theorem length_maskPayload (key : Mask) (msg : Bytes) :
    (maskPayload key msg).length = msg.length := by
  rw [maskPayload, List.length_mapIdx]

/-! ## One frame -/

/-- The frame that carries a whole message. -/
def wholeFrame (key : Mask) (opcode : WSOpcode) (msg : Bytes) : WireFrame :=
  ⟨true, opcode, key, maskPayload key msg⟩

theorem payload_wholeFrame (key : Mask) (opcode : WSOpcode) (msg : Bytes) :
    (wholeFrame key opcode msg).payload = msg :=
  maskPayload_maskPayload key msg

private theorem oneMessage_wholeFrame {limit : Nat} {msg : Bytes} (key : Mask) (binary : Bool)
    (hlen : msg.length ≤ limit) :
    OneMessage binary limit msg [wholeFrame key (if binary then .binary else .text) msg] where
  opcodes := rfl
  fins := rfl
  fits := by
    intro f hf
    obtain rfl := List.mem_singleton.mp hf
    rw [payload_wholeFrame]
    exact hlen
  payloads := by
    rw [List.flatMap_singleton, payload_wholeFrame]

/-- The two writes of a frame are its bytes, as long as the length field holds its length. -/
theorem bytes_sentEvents (env : Env) (pos : Nat) (opcode : WSOpcode) {data : Bytes}
    (hlen : data.length ≤ 125) :
    (sentEvents env pos opcode data).flatMap Event.bytes =
      (wholeFrame (env.key pos) opcode data).encode := by
  have hmod : data.length % 128 = data.length := Nat.mod_eq_of_lt (by omega)
  simp only [sentEvents, List.flatMap_cons, List.flatMap_nil, List.append_nil, Event.bytes,
    packHeader_eq_wireHeader, sentHeader, Fin.val_ofNat, hmod, hlen, if_true]
  rw [WireFrame.encode, wholeFrame, length_maskPayload]

/-! ## Messages -/

/-- `SendMsgEx` succeeds, and what it appends to the output is exactly one message. -/
def SendsMessage (env : Env) (s : Session) (msg : Bytes) (binary : Bool) : Prop :=
  ∃ buf s', sendMsgEx env msg binary s = .ok (0, buf) s' ∧ s'.tx.sendState = .none ∧
    ∃ fs, OneMessage binary s.tx.maxFrameSize msg fs ∧
      s'.output = s.output ++ fs.flatMap WireFrame.encode

variable {env : Env} {s : Session}

/-- A message that fits the frame size is sent as one frame. -/
theorem sendsMessage_of_fits (hf : env.NoFault) (hb : s.bev ≠ none)
    (hc : s.cl.state = .connected) (hs : s.tx.sendState = .none) (hmax : s.tx.maxFrameSize ≤ 125)
    {msg : Bytes} (binary : Bool) (hlen : msg.length ≤ s.tx.maxFrameSize) :
    SendsMessage env s msg binary := by
  have hdata : isControlOpcode (if binary then .binary else .text) = false := by
    cases binary <;> rfl
  have hctrl : isControlOpcode (if binary then .binary else .text) = true → msg.length ≤ 125 :=
    fun h => absurd (hdata.symm.trans h) (by decide)
  have hsend := sendFrameRaw_ok hf hb hs hctrl ((hlen.trans hmax).trans (by decide))
  have hout := (sendMsgEx_whole hc binary (Or.inl hlen)).trans hsend
  refine ⟨_, _, hout, hs, _, oneMessage_wholeFrame (env.key s.io.randPos) binary hlen,
    ?_⟩
  rw [Session.output, Session.sentFrame, List.flatMap_append,
    bytes_sentEvents env _ _ (hlen.trans hmax), List.flatMap_singleton, Session.output]

/-- A longer message dies on the check of `OnSendMsgBegin`. -/
theorem sendMsgEx_longer (hc : s.cl.state = .connected) {msg : Bytes} (binary : Bool)
    (hpos : 1 ≤ s.tx.maxFrameSize) (hlen : s.tx.maxFrameSize < msg.length) :
    sendMsgEx env msg binary s = .error (.check .sendMsgBeginNotConnected) s := by
  change (if s.cl.state ≠ .connected then _ else _ : M (Int × Bytes)) s = _
  rw [if_neg (not_not.mpr hc), if_neg (by omega)]
  exact bind_eq_of_error (onSendMsgBegin_connected hc binary)

/-- On a connected session a message leaves exactly when it needs no fragmentation. -/
theorem sendsMessage_iff (hf : env.NoFault) (hb : s.bev ≠ none) (hc : s.cl.state = .connected)
    (hs : s.tx.sendState = .none) (hmax : 1 ≤ s.tx.maxFrameSize ∧ s.tx.maxFrameSize ≤ 125)
    (msg : Bytes) (binary : Bool) :
    SendsMessage env s msg binary ↔ msg.length ≤ s.tx.maxFrameSize := by
  refine ⟨fun hsends => ?_, sendsMessage_of_fits hf hb hc hs hmax.2 binary⟩
  by_contra hlen
  obtain ⟨buf, s', hok, -⟩ := hsends
  rw [sendMsgEx_longer hc binary hmax.1 (by omega)] at hok
  cases hok

/-- A connected session with a frame size of two. -/
def pairwise : Session := { bev := some {}, tx.maxFrameSize := 2, cl.state := .connected }

/-- Two octets leave as one frame. -/
theorem sendsMessage_two :
    SendsMessage {} pairwise (ascii "hi") false ∧ (ascii "hi").length ≤ pairwise.tx.maxFrameSize :=
  ⟨(sendsMessage_iff (fun _ => rfl) (by decide) rfl rfl (by decide) _ _).mpr (by decide), by decide⟩

/-- Three octets do not leave at all. -/
theorem three_octets_not_sent :
    ¬ ∀ (env : Env) (s : Session) (msg : Bytes) (binary : Bool), env.NoFault → s.bev ≠ none →
      s.cl.state = .connected → s.tx.sendState = .none →
      1 ≤ s.tx.maxFrameSize ∧ s.tx.maxFrameSize ≤ 125 → s.tx.maxFrameSize < msg.length →
      SendsMessage env s msg binary := by
  intro hall
  obtain ⟨buf, s', hok, -⟩ := hall {} pairwise (ascii "hey") false (fun _ => rfl) (by decide) rfl
    rfl (by decide) (by decide)
  rw [sendMsgEx_longer rfl false (by decide) (by decide)] at hok
  cases hok

end CppImprovement.Ws

import CppImprovement.Net.Ws.Session

/-!
# Sending on a live connection

The exact results of the sending functions when no library call fails and the
session holds a bufferevent. A frame goes out as a masked header and masked data
and leaves its header behind in the session; closing sends one Close frame per
connection and arms the close timer.
-/

namespace CppImprovement.Ws

variable {env : Env} {s : Session}

/-- The masking key drawn at a position of the random stream. -/
def Env.key (env : Env) (pos : Nat) : Mask := Mask.ofBytes ((List.range' pos 4).map env.rand)

/-- The header of a frame that the session sends. -/
def sentHeader (env : Env) (pos : Nat) (opcode : WSOpcode) (len : Nat) : WSHeader :=
  { fin := true, rsv1 := false, rsv2 := false, rsv3 := false, opcode := opcode, maskBit := true,
    payloadLen := Fin.ofNat 128 len, mask := env.key pos }

/-- The events of sending a frame. -/
def sentEvents (env : Env) (pos : Nat) (opcode : WSOpcode) (data : Bytes) : List Event :=
  [.sent false (packHeader (sentHeader env pos opcode data.length)).1,
    .sent true (maskPayload (env.key pos) data)]

/-- The session after sending a frame. -/
def Session.sentFrame (env : Env) (opcode : WSOpcode) (data : Bytes) (s : Session) : Session :=
  { s with
    wsHeader := sentHeader env s.io.randPos opcode data.length
    io.trace := s.io.trace ++ sentEvents env s.io.randPos opcode data
    io.randPos := s.io.randPos + 4
    io.callPos := s.io.callPos + 3 }

/-- A frame that fits is sent. -/
theorem sendFrameRaw_ok (hf : env.NoFault) (hb : s.bev ≠ none) (hs : s.tx.sendState = .none)
    {opcode : WSOpcode} {data : Bytes} (hc : isControlOpcode opcode = true → data.length ≤ 125)
    (hlen : data.length ≤ WS_MAX_PAYLOAD_LEN) :
    sendFrameRaw env opcode data s =
      .ok (0, maskPayload (env.key s.io.randPos) data) (s.sentFrame env opcode data) := by
  have hc' : ¬ (isControlOpcode opcode = true ∧ 125 < data.length) := by
    rintro ⟨h, h'⟩
    exact absurd (hc h) (by omega)
  apply eq_ok_of_wp
  simp only [sendFrameRaw, getRandomMask, callFails, sendData, emit, wp_bind, wp_get, wp_ite,
    wp_modify, wp_modifyGet, wp_pure, hs, hb, hc', hf _, not_lt.mpr hlen, ne_eq, not_true_eq_false,
    if_false, Bool.false_eq_true]
  refine ⟨rfl, ?_⟩
  simp [Session.sentFrame, sentEvents, sentHeader, WSHeader.zero, WSHeader.setPayloadLen, Env.key]

/-- Without a bufferevent a frame that fits is not sent, and its header is built all the same. -/
theorem sendFrameRaw_gone (hf : env.NoFault) (hb : s.bev = none) (hs : s.tx.sendState = .none)
    {opcode : WSOpcode} {data : Bytes} (hc : isControlOpcode opcode = true → data.length ≤ 125)
    (hlen : data.length ≤ WS_MAX_PAYLOAD_LEN) :
    sendFrameRaw env opcode data s =
      .ok (-1, data)
        { s with
          wsHeader := sentHeader env s.io.randPos opcode data.length
          io.randPos := s.io.randPos + 4
          io.callPos := s.io.callPos + 1 } := by
  have hc' : ¬ (isControlOpcode opcode = true ∧ 125 < data.length) := by
    rintro ⟨h, h'⟩
    exact absurd (hc h) (by omega)
  apply eq_ok_of_wp
  simp [sendFrameRaw, getRandomMask, callFails, sendData, hs, hb, hc', hf _, not_lt.mpr hlen,
    sentHeader, WSHeader.zero, WSHeader.setPayloadLen, Env.key]

/-- A data frame that is too long is refused, after its header has been begun. -/
theorem sendFrameRaw_tooLong (hs : s.tx.sendState = .none) {opcode : WSOpcode} {data : Bytes}
    (hc : isControlOpcode opcode = false) (hlen : WS_MAX_PAYLOAD_LEN < data.length) :
    sendFrameRaw env opcode data s =
      .ok (-1, data)
        { s with wsHeader := { WSHeader.zero with fin := true, opcode := opcode } } := by
  apply eq_ok_of_wp
  simp only [sendFrameRaw, wp_bind, wp_get, wp_ite, wp_modify, wp_pure, hs, hc, hlen, ne_eq,
    not_true_eq_false, if_false, if_true, Bool.false_eq_true, false_and, and_self]

theorem closePayload_length (status : WSCloseStatus) (reason : Bytes) :
    (closePayload status reason).length = reason.length + 2 := by
  rw [closePayload, List.length_append, length_storeLE, Nat.add_comm]

/-- A Close frame with a status and a reason that fit is sent. -/
theorem sendClose_ok (hf : env.NoFault) (hb : s.bev ≠ none) (hs : s.tx.sendState = .none)
    {status : WSCloseStatus} {reason : Bytes} (hst : status.notUsed = false)
    (hr : reason.length + 2 ≤ WS_CONTROL_MAX_PAYLOAD_LEN) :
    sendClose env status reason s =
      .ok 0 (s.sentFrame env .close (closePayload status reason)) := by
  have hsend : sendFrameRaw env .close (closePayload status reason) s =
      .ok (0, maskPayload (env.key s.io.randPos) (closePayload status reason))
        (s.sentFrame env .close (closePayload status reason)) := by
    refine sendFrameRaw_ok hf hb hs (fun _ => ?_) ?_
    · rw [closePayload_length]
      exact hr
    · rw [closePayload_length]
      exact hr.trans (by decide)
  apply eq_ok_of_wp
  simp only [sendClose, hst, Bool.false_eq_true, if_false, not_lt.mpr hr, wp_bind]
  rw [wp_of_eq_ok hsend]
  simp

/-- The session after the Close frame, if one was still to be sent. -/
def Session.closeFrameSent (env : Env) (status : WSCloseStatus) (reason : Bytes) (s : Session) :
    Session :=
  if s.cl.sentCloseFlag = true then s else s.sentFrame env .close (closePayload status reason)

/-- The session after a close has been started. -/
def Session.closeStarted (env : Env) (status : WSCloseStatus) (reason : Bytes) (s : Session) :
    Session :=
  let t := s.closeFrameSent env status reason
  { t with
    cl.state := .closing
    cl.sentCloseFlag := true
    cl.closeTimeoutEvent := .pending
    io.callPos := t.io.callPos + 2 }

/-- Closing succeeds. -/
theorem closeWithStatusReason_ok (hf : env.NoFault) (hb : s.bev ≠ none)
    (hs : s.tx.sendState = .none) {status : WSCloseStatus} {reason : Bytes}
    (hst : status.notUsed = false) (hr : reason.length + 2 ≤ WS_CONTROL_MAX_PAYLOAD_LEN) :
    closeWithStatusReason env status reason s = .ok 0 (s.closeStarted env status reason) := by
  apply eq_ok_of_wp
  by_cases hc : s.cl.sentCloseFlag = true
  · simp [closeWithStatusReason, sendCloseOnce, callFails, hf _, hc, Session.closeStarted,
      Session.closeFrameSent]
  · have hsend := sendClose_ok (s := { s with cl.state := .closing }) hf hb hs hst hr
    simp only [closeWithStatusReason, sendCloseOnce, wp_bind, wp_modify, wp_get, wp_ite]
    rw [if_neg hc]
    refine (wp_of_eq_ok hsend).mpr ?_
    simp [callFails, hf _, hc, Session.closeStarted, Session.closeFrameSent, Session.sentFrame]

theorem closeWithStatus_ok (hf : env.NoFault) (hb : s.bev ≠ none) (hs : s.tx.sendState = .none)
    {status : WSCloseStatus} (hst : status.notUsed = false) :
    closeWithStatus env status s = .ok 0 (s.closeStarted env status []) :=
  closeWithStatusReason_ok hf hb hs hst (by decide)

/-- On a connected session a message that needs no fragmentation is sent by `SendFrameRaw`. -/
theorem sendMsgEx_whole (hc : s.cl.state = .connected) {msg : Bytes} (binary : Bool)
    (hlen : msg.length ≤ s.tx.maxFrameSize ∨ s.tx.maxFrameSize = 0) :
    sendMsgEx env msg binary s =
      sendFrameRaw env (if binary then .binary else .text) msg s := by
  change (if s.cl.state ≠ .connected then _ else _ : M (Int × Bytes)) s = _
  rw [if_neg (not_not.mpr hc), if_pos hlen]

/-- A message is sent as one frame on a connected session. -/
theorem doSendMsg_ok (hf : env.NoFault) (hb : s.bev ≠ none) (hs : s.tx.sendState = .none)
    (hm : s.tx.maxFrameSize = 0) (hc : s.cl.state = .connected) {msg : Bytes}
    (hlen : msg.length ≤ WS_MAX_PAYLOAD_LEN) :
    doSendMsg env msg s =
      .ok (0, maskPayload (env.key s.io.randPos) msg) (s.sentFrame env .text msg) := by
  have htext : isControlOpcode .text = true → msg.length ≤ 125 := fun h => absurd h (by decide)
  exact (sendMsgEx_whole hc false (Or.inr hm)).trans (sendFrameRaw_ok hf hb hs htext hlen)

end CppImprovement.Ws

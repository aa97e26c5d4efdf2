import CppImprovement.Net.Ws.Discipline
import CppImprovement.Net.Ws.Outgoing

/-!
# The send state

A send that fails must leave the session able to send, above all its Close frame.
`SendFrameRaw` never touches the send state, at whatever call it fails. The functions that do are
reached by `SendMsgEx` on a connected session only, where the check of `OnSendMsgBegin` ends the
process before the state has changed. Their own failure exits do not put the state back, which
would show as soon as the check let them through.
-/

namespace CppImprovement.Ws

variable {env : Env} {s s' : Session}

/-! ## Sends -/

/-- A send: `SendMsgEx` of a message, or `SendFrameRaw` of a frame. -/
inductive Send
  | message (msg : Bytes) (binary : Bool)
  | frame (opcode : WSOpcode) (data : Bytes)
  deriving DecidableEq, Repr

/-- Perform a send. -/
def Send.run (env : Env) : Send → M (Int × Bytes)
  | .message msg binary => sendMsgEx env msg binary
  | .frame opcode data => sendFrameRaw env opcode data

/-- Perform one send after the other, whatever they return. -/
def runSends (env : Env) (sends : List Send) : M Unit :=
  runAll (fun x => x.run env >>= fun _ => pure ⟨⟩) sends

/-- The send state is NONE, and a frame that fits is not refused. -/
structure Session.Unwedged (s : Session) : Prop where
  sendState : s.tx.sendState = .none
  frame : ∀ (env : Env) (opcode : WSOpcode) (data : Bytes), env.NoFault → s.bev ≠ none →
    (isControlOpcode opcode = true → data.length ≤ 125) → data.length ≤ WS_MAX_PAYLOAD_LEN →
    ∃ buf s', sendFrameRaw env opcode data s = .ok (0, buf) s'

private theorem Session.unwedged_of_none (h : s.tx.sendState = .none) : s.Unwedged :=
  ⟨h, fun _ _ _ hf hb hc hlen => ⟨_, _, sendFrameRaw_ok hf hb h hc hlen⟩⟩

/-- The sender is the same. -/
def SameSender (s s' : Session) : Prop := s'.tx = s.tx

/-- Doing nothing leaves the sender. -/
theorem SameSender.refl (s : Session) : SameSender s s := rfl

/-- What leaves the sender twice leaves it. -/
theorem SameSender.trans (a b c : Session) (h : SameSender a b) (h' : SameSender b c) :
    SameSender a c := Eq.trans h' h

private theorem Writes.sameSender {opcode : WSOpcode} (h : Writes opcode s s') :
    SameSender s s' := by
  obtain ⟨_, _, _, rfl, -⟩ := h
  rfl

/-- No send changes the sender, at whatever call it fails. -/
theorem moves_send (x : Send) (s : Session) : Moves SameSender AnyTrap (x.run env) s := by
  have hframe : ∀ (opcode : WSOpcode) (data : Bytes),
      Moves SameSender AnyTrap (sendFrameRaw env opcode data) s := fun opcode data =>
    wp_mono (wp_sendFrameRaw_writes opcode data s) (fun _ _ h => h.sameSender) fun _ _ h => h.elim
  cases x with
  | frame opcode data => exact hframe opcode data
  | message msg binary =>
    refine moves_get_bind (moves_ite (fun _ => moves_throw SameSender.refl trivial s) fun hc => ?_)
    refine moves_ite (fun _ => hframe _ _) fun _ => ?_
    rw [not_not] at hc
    rw [Moves, wp_bind, wp_of_eq_error (onSendMsgBegin_connected hc binary)]
    exact ⟨rfl, trivial⟩

private theorem moves_runSends (sends : List Send) (s : Session) :
    Moves SameSender AnyTrap (runSends env sends) s :=
  moves_runAll SameSender.refl SameSender.trans (fun x u =>
    moves_bind SameSender.trans (moves_send x u) fun _ v _ => moves_pure SameSender.refl _ v)
    sends s

/-- However the sends before it went, a send that fails leaves a session that can send. -/
theorem failed_send_unwedged (hs : s.tx.sendState = .none) {sends : List Send} {x : Send}
    {buf : Bytes} {u : Session} (hsends : runSends env sends s = .ok ⟨⟩ u)
    (hfail : x.run env u = .ok (-1, buf) s') : s'.Unwedged := by
  have hu : SameSender s u := (wp_of_eq_ok hsends).mp (moves_runSends sends s)
  have hs' : SameSender u s' := (wp_of_eq_ok hfail).mp (moves_send x u)
  refine Session.unwedged_of_none ?_
  rw [SameSender.trans s u s' hu hs']
  exact hs

/-- The message "hi" fails at its header, the frame behind it at its masking key. -/
theorem failed_send_unwedged_faults :
    let env : Env := { fault := fun n => n = 1 ∨ n = 2 }
    let u := finalState (runSends env [.message (ascii "hi") false] pairwise)
    (finalState ((Send.frame .close []).run env u)).Unwedged := by
  intro env u
  exact @failed_send_unwedged env pairwise _ rfl [.message (ascii "hi") false] (.frame .close []) []
    u rfl rfl

/-! ## The failure exits -/

/-- The send state says that a message is under way. -/
def Session.InMessage (s : Session) : Prop := s.tx.sendState ≠ .none

/-- A message under way stays under way. -/
def StaysInMessage (s s' : Session) : Prop := s.InMessage → s'.InMessage

/-- A message stays under way as long as nothing is done. -/
theorem StaysInMessage.refl (s : Session) : StaysInMessage s s := id

/-- What keeps a message under way twice keeps it. -/
theorem StaysInMessage.trans (a b c : Session) (h : StaysInMessage a b) (h' : StaysInMessage b c) :
    StaysInMessage a c := fun ha => h' (h ha)

private theorem moves_callFails_inMessage (s : Session) :
    Moves StaysInMessage AnyTrap (callFails env) s := fun hs => hs

private theorem moves_sendData_inMessage (msg : Bytes) (noCopy : Bool) (s : Session) :
    Moves StaysInMessage AnyTrap (sendData env msg noCopy) s := by
  refine moves_get_bind (moves_ite (fun _ => StaysInMessage.refl s) fun _ => ?_)
  refine moves_bind StaysInMessage.trans (moves_callFails_inMessage s) fun _ u _ => ?_
  refine moves_ite (fun _ => StaysInMessage.refl u) fun _ => ?_
  exact moves_modify_bind StaysInMessage.trans (fun hu => hu) (StaysInMessage.refl _)

private theorem moves_getRandomMask_inMessage (len : Nat) (s : Session) :
    Moves StaysInMessage AnyTrap (getRandomMask env len) s := by
  refine moves_bind StaysInMessage.trans (moves_callFails_inMessage s) fun _ u _ => ?_
  exact moves_ite (fun _ => StaysInMessage.refl u) fun _ => fun hu => hu

private theorem moves_startMsgFrame (s : Session) :
    Moves StaysInMessage AnyTrap startMsgFrame s := by
  refine moves_get_bind (moves_ite (fun _ => ?_) fun _ => fun hs => hs)
  refine moves_ite (fun _ => moves_throw StaysInMessage.refl trivial s) fun _ => fun _ => ?_
  simp [Session.InMessage]

private theorem moves_onMsgFrameDataBegin (datalen : Nat) (s : Session) :
    Moves StaysInMessage AnyTrap (onMsgFrameDataBegin env datalen) s := by
  refine moves_get_bind (moves_ite (fun _ => StaysInMessage.refl s) fun _ => ?_)
  refine moves_ite (fun _ => StaysInMessage.refl s) fun _ => ?_
  refine moves_modify_bind StaysInMessage.trans (fun hs => hs) ?_
  refine moves_bind StaysInMessage.trans (moves_getRandomMask_inMessage 4 _) fun key u _ => ?_
  cases key with
  | none => exact StaysInMessage.refl u
  | some key =>
    refine moves_modify_bind StaysInMessage.trans (fun hu => hu) ?_
    refine moves_bind StaysInMessage.trans (moves_startMsgFrame _) fun _ v _ => moves_get_bind ?_
    refine moves_bind StaysInMessage.trans (moves_sendData_inMessage _ _ v) fun _ w _ => ?_
    exact moves_ite (fun _ => StaysInMessage.refl w) fun _ => StaysInMessage.refl w

private theorem moves_onMsgFrameDataSend (data : Bytes) (s : Session) :
    Moves StaysInMessage AnyTrap (onMsgFrameDataSend env data) s := by
  refine moves_get_bind (moves_ite (fun _ => StaysInMessage.refl s) fun _ => ?_)
  refine moves_bind StaysInMessage.trans (moves_sendData_inMessage _ _ s) fun _ u _ => ?_
  exact moves_ite (fun _ => StaysInMessage.refl u) fun _ => StaysInMessage.refl u

/-- However `OnMsgFrameSend` ends, the message that its frame belongs to stays under way. -/
theorem moves_onMsgFrameSend (data : Bytes) (s : Session) :
    Moves StaysInMessage AnyTrap (onMsgFrameSend env data) s := by
  refine moves_get_bind ?_
  refine moves_ite (fun _ => moves_throw StaysInMessage.refl trivial s) fun _ => ?_
  refine moves_ite (fun _ => StaysInMessage.refl s) fun _ => ?_
  refine moves_bind StaysInMessage.trans (moves_onMsgFrameDataBegin _ s) fun _ u _ => ?_
  refine moves_ite (fun _ => StaysInMessage.refl u) fun _ => ?_
  refine moves_bind StaysInMessage.trans (moves_onMsgFrameDataSend _ u) fun _ v _ => ?_
  exact moves_ite (fun _ => StaysInMessage.refl v) fun _ => StaysInMessage.refl v

/-- A frame that fails leaves a session that refuses every further `SendFrameRaw`. -/
theorem onMsgFrameSend_refuses (hs : s.InMessage) {data : Bytes} {r : Int × Bytes}
    (h : onMsgFrameSend env data s = .ok r s') (opcode : WSOpcode) (data' : Bytes) :
    sendFrameRaw env opcode data' s' = .ok (-1, data') s' := by
  have hstays : StaysInMessage s s' := (wp_of_eq_ok h).mp (moves_onMsgFrameSend data s)
  have hbusy : s'.tx.sendState ≠ .none := hstays hs
  rw [sendFrameRaw, get_bind, if_pos hbusy]
  rfl

end CppImprovement.Ws

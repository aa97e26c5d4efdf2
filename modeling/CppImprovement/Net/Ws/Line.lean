import CppImprovement.Core.Sim
import CppImprovement.Net.Ws.Receive

/-!
# Sessions that sending cannot tell apart

The functions of the sending side look only at part of the session: whether there
is a bufferevent, the sender's fields, the connection's life cycle, and the past.
From two sessions that agree on this part they send the same and end in sessions
that agree again, when no library call fails.
-/

namespace CppImprovement.Ws

/-- Two sessions agree on what sending looks at; with `hdr` also on the frame header, and with
`scr` on the position in the uninitialised memory. -/
structure Line (hdr scr : Prop) (s t : Session) : Prop where
  bev : s.bev = none ↔ t.bev = none
  tx : s.tx = t.tx
  state : s.cl.state = t.cl.state
  sentClose : s.cl.sentCloseFlag = t.cl.sentCloseFlag
  received : s.cl.receivedCloseFlag = t.cl.receivedCloseFlag
  status : s.cl.serverCloseStatus = t.cl.serverCloseStatus
  reason : s.cl.serverReason = t.cl.serverReason
  reasonLen : s.cl.serverReasonLen = t.cl.serverReasonLen
  trace : s.io.trace = t.io.trace
  randPos : s.io.randPos = t.io.randPos
  header : hdr → s.wsHeader = t.wsHeader
  scratchPos : scr → s.io.scratchPos = t.io.scratchPos

variable {env : Env} {hdr scr : Prop} {s t : Session}

/-- A session sends like itself. -/
theorem Line.refl (hdr scr : Prop) (s : Session) : Line hdr scr s s :=
  ⟨Iff.rfl, rfl, rfl, rfl, rfl, rfl, rfl, rfl, rfl, rfl, fun _ => rfl, fun _ => rfl⟩

/-- Sessions that send alike send like a third. -/
theorem Line.trans {u : Session} (h : Line hdr scr s t) (h' : Line hdr scr t u) :
    Line hdr scr s u :=
  ⟨h.bev.trans h'.bev, h.tx.trans h'.tx, h.state.trans h'.state, h.sentClose.trans h'.sentClose,
    h.received.trans h'.received, h.status.trans h'.status, h.reason.trans h'.reason,
    h.reasonLen.trans h'.reasonLen, h.trace.trans h'.trace, h.randPos.trans h'.randPos,
    fun hf => (h.header hf).trans (h'.header hf),
    fun hf => (h.scratchPos hf).trans (h'.scratchPos hf)⟩

/-- The runs of `m` from two sessions end alike, in sessions that agree again. -/
abbrev Alike {α : Type} (hdr scr : Prop) (m : M α) (s t : Session) : Prop :=
  Sim (Line hdr scr) (Line hdr scr) m m s t

private theorem sim_emit (h : Line hdr scr s t) (e : Event) :
    Alike hdr scr (emit e) s t :=
  sim_modify { h with trace := by rw [h.trace] }

private theorem sim_callFails (hf : env.NoFault) (h : Line hdr scr s t) :
    Alike hdr scr (callFails env) s t :=
  sim_modifyGet (by rw [hf, hf]) { h with }

private theorem sim_getRandomMask (hf : env.NoFault) (len : Nat) (h : Line hdr scr s t) :
    Alike hdr scr (getRandomMask env len) s t := by
  refine sim_bind (sim_callFails hf h) fun failed s' t' h' => ?_
  refine sim_ite Iff.rfl (fun _ => sim_pure h' _) fun _ => ?_
  exact sim_modifyGet (by rw [h'.randPos]) { h' with randPos := by rw [h'.randPos] }

private theorem sim_sendData (hf : env.NoFault) (msg : Bytes) (noCopy : Bool)
    (h : Line hdr scr s t) :
    Alike hdr scr (sendData env msg noCopy) s t := by
  refine sim_get_bind (sim_ite h.bev (fun _ => sim_pure h _) fun _ => ?_)
  refine sim_bind (sim_callFails hf h) fun failed s' t' h' => ?_
  refine sim_ite Iff.rfl (fun _ => sim_pure h' _) fun _ => ?_
  exact sim_bind (sim_emit h' _) fun _ _ _ h'' => sim_pure h'' _

private theorem Line.with_header (h : Line True scr s t) : Line hdr scr s t :=
  { h with header := fun _ => h.header trivial }

private theorem sim_sendFrameRaw (hf : env.NoFault) (opcode : WSOpcode) (data : Bytes)
    (h : Line hdr scr s t) :
    Alike hdr scr (sendFrameRaw env opcode data) s t := by
  refine sim_get_bind (sim_ite (by rw [h.tx]) (fun _ => sim_pure h _) fun _ => ?_)
  refine sim_ite Iff.rfl (fun _ => sim_pure h _) fun _ => sim_modify_bind ?_
  refine Sim.mono (R := Line True scr) (E := Line True scr) ?_ (fun _ _ h' => h'.with_header)
    (fun _ _ h' => h'.with_header)
  refine sim_ite Iff.rfl (fun _ => sim_pure { h with header := fun _ => rfl } _) fun _ => ?_
  refine sim_modify_bind (sim_bind (sim_getRandomMask hf 4 ?_) fun key s₁ t₁ h₁ => ?_)
  · exact { h with header := fun _ => rfl }
  · cases key with
    | none => exact sim_pure h₁ _
    | some key =>
      refine sim_modify_bind (sim_get_bind ?_)
      dsimp only
      rw [h₁.header trivial]
      refine sim_bind (sim_sendData hf _ _ { h₁ with header := fun _ => rfl }) fun rc s₃ t₃ h₃ => ?_
      refine sim_ite Iff.rfl (fun _ => sim_pure h₃ _) fun _ => ?_
      refine sim_bind (sim_sendData hf _ _ h₃) fun rc s₄ t₄ h₄ => ?_
      exact sim_ite Iff.rfl (fun _ => sim_pure h₄ _) fun _ => sim_pure h₄ _

private theorem sim_sendClose (hf : env.NoFault) (status : WSCloseStatus) (reason : Bytes)
    (h : Line hdr scr s t) :
    Alike hdr scr (sendClose env status reason) s t := by
  refine sim_ite Iff.rfl (fun _ => sim_pure h _) fun _ => ?_
  refine sim_ite Iff.rfl (fun _ => sim_pure h _) fun _ => ?_
  refine sim_bind (sim_sendFrameRaw hf _ _ h) fun r s₁ t₁ h₁ => ?_
  exact sim_ite Iff.rfl (fun _ => sim_pure h₁ _) fun _ => sim_pure h₁ _

private theorem sim_closeFail (h : Line hdr scr s t) :
    Alike hdr scr closeFail s t :=
  sim_modify_bind (sim_modify_bind (sim_pure { h with bev := Iff.rfl } _))

private theorem sim_sendCloseOnce (hf : env.NoFault) (status : WSCloseStatus) (reason : Bytes)
    (h : Line hdr scr s t) : Alike hdr scr (sendCloseOnce env status reason) s t := by
  refine sim_get_bind (sim_ite (by rw [h.sentClose]) (fun _ => sim_pure h _) fun _ => ?_)
  exact sim_sendClose hf _ _ h

/-- Closing does not look at the close timer, which may differ. -/
theorem sim_closeWithStatusReason (hf : env.NoFault) (status : WSCloseStatus) (reason : Bytes)
    (h : Line hdr scr s t) :
    Alike hdr scr (closeWithStatusReason env status reason) s t := by
  refine sim_modify_bind (sim_bind (sim_sendCloseOnce hf _ _ { h with state := rfl })
    fun rc s₁ t₁ h₁ => ?_)
  refine sim_ite Iff.rfl (fun _ => sim_closeFail h₁) fun _ => sim_modify_bind ?_
  refine sim_bind (sim_callFails hf { h₁ with sentClose := rfl }) fun failed s₂ t₂ h₂ => ?_
  refine sim_ite Iff.rfl (fun _ => sim_closeFail h₂) fun _ => ?_
  refine sim_bind (sim_callFails hf h₂) fun failed s₃ t₃ h₃ => ?_
  refine sim_ite Iff.rfl (fun _ => sim_closeFail h₃) fun _ => ?_
  exact sim_modify_bind (sim_pure { h₃ with } _)

/-- A message is sent as one frame or, when it would be split, dies on a check. -/
theorem sim_doSendMsg (hf : env.NoFault) (msg : Bytes) (h : Line hdr scr s t) :
    Alike hdr scr (doSendMsg env msg) s t := by
  refine sim_get_bind (sim_ite (by rw [h.state]) (fun _ => sim_throw h _) fun hc => ?_)
  refine sim_ite (by rw [h.tx]) (fun _ => sim_sendFrameRaw hf _ _ h) fun _ => ?_
  rw [not_not] at hc
  exact sim_bind_error (onSendMsgBegin_connected hc false)
    (onSendMsgBegin_connected (h.state ▸ hc) false) h

private theorem sim_setupConnectionTimeout (hf : env.NoFault) (h : Line hdr scr s t) :
    Alike hdr scr (setupConnectionTimeout env) s t := by
  refine sim_modify_bind (sim_bind (sim_callFails hf { h with }) fun failed s₂ t₂ h₂ => ?_)
  refine sim_ite Iff.rfl (fun _ => sim_pure h₂ _) fun _ => ?_
  refine sim_bind (sim_callFails hf h₂) fun failed s₃ t₃ h₃ => ?_
  refine sim_ite Iff.rfl (fun _ => sim_pure h₃ _) fun _ => ?_
  exact sim_modify_bind (sim_pure { h₃ with } _)

private theorem sim_doConnect (hf : env.NoFault) (h : Line hdr scr s t) :
    Alike hdr scr (doConnect env) s t := by
  refine sim_get_bind (sim_ite (by rw [h.state]) (fun _ => sim_pure h _) fun _ => ?_)
  have h₀ : Line hdr scr s.connecting t.connecting :=
    { h with bev := Iff.rfl, state := rfl, sentClose := rfl, received := rfl }
  refine sim_modify_bind (sim_bind (sim_emit h₀ _) fun _ s₁ t₁ h₁ => ?_)
  refine sim_bind (sim_setupConnectionTimeout hf h₁) fun rc s₂ t₂ h₂ => ?_
  exact sim_ite Iff.rfl (fun _ => sim_pure h₂ _) fun _ => sim_pure h₂ _

private theorem sim_runCall (hf : env.NoFault) (call : AppCall) (h : Line hdr scr s t) :
    Alike hdr scr (runCall env call) s t := by
  cases call with
  | send msg => exact sim_bind (sim_doSendMsg hf msg h) fun _ _ _ h' => sim_pure h' _
  | close => exact sim_bind (sim_closeWithStatusReason hf _ _ h) fun _ _ _ h' => sim_pure h' _
  | connect => exact sim_bind (sim_doConnect hf h) fun _ _ _ h' => sim_pure h' _

/-- The calls of a handler. -/
theorem sim_runCalls (hf : env.NoFault) (calls : List AppCall) (h : Line hdr scr s t) :
    Alike hdr scr (runCalls env calls) s t :=
  sim_runAll (fun call _ _ _ h' => sim_runCall hf call h') h

/-- A message is delivered alike to sessions that agree on its kind. -/
theorem sim_callOnMessage (hf : env.NoFault) (payload : Bytes) (h : Line hdr scr s t)
    (hbin : s.rx.msgIsBinary_ = t.rx.msgIsBinary_) :
    Alike hdr scr (callOnMessage env payload) s t := by
  refine sim_get_bind ?_
  cases env.app.onMessage with
  | none => exact sim_pure h _
  | some handler =>
    refine sim_ite (by rw [h.state]) (fun _ => sim_pure h _) fun _ => ?_
    rw [hbin]
    refine sim_bind (sim_emit h _) fun _ s' t' h' => sim_get_bind ?_
    rw [h'.trace]
    exact sim_runCalls hf _ h'

end CppImprovement.Ws

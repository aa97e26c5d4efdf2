import CppImprovement.Net.Ws.Events
import CppImprovement.Net.Ws.Sending

/-!
# What the code under a read can do

Everything that runs between two inputs of a live session, apart from opening a
connection, moves the session within one relation: it sends and delivers, closes,
advances the receiver, and gives up the bufferevent only when a library call has
failed. Each function is shown once to move within the relation; invariants of
runs are read off it.
-/

namespace CppImprovement.Ws

/-- The state of a session on which no connection can be opened, between two operations. -/
structure Session.Sane (s : Session) : Prop where
  notClosedCleanly : s.cl.state ≠ .closedCleanly
  notClosedUncleanly : s.cl.state ≠ .closedUncleanly
  sendState : s.tx.sendState = .none
  ctrlLen : s.rx.ctrlLen ≤ WS_CONTROL_MAX_PAYLOAD_LEN
  reasonLen : s.cl.serverReasonLen + 2 ≤ WS_CONTROL_MAX_PAYLOAD_LEN

/-- The event is data sent. -/
def Event.isSent : Event → Bool
  | .sent _ _ => true
  | _ => false

/-- The event is a message delivered. -/
def Event.isMessage : Event → Bool
  | .onMessage _ _ => true
  | _ => false

/-- `HandleCloseFrame` was entered with a full control buffer. -/
def CloseEntry.Full (e : CloseEntry) : Prop := e.ctrlLen = WS_CONTROL_MAX_PAYLOAD_LEN

/-- Stores `ws` to `ctrlPayload_` are within its bounds, except for the NUL of a Close frame that
finds the buffer full. -/
def CtrlBounded (ws : List Nat) (es : List CloseEntry) : Prop :=
  (∀ e ∈ es, ¬ e.Full) → ∀ i ∈ ws, i < WS_CONTROL_MAX_PAYLOAD_LEN

/-- Where nothing is stored, nothing is out of bounds. -/
theorem CtrlBounded.nil : CtrlBounded [] [] := by simp [CtrlBounded]

/-- Stores one after the other are bounded if each of them is. -/
theorem CtrlBounded.append {ws ws' : List Nat} {es es' : List CloseEntry}
    (h : CtrlBounded ws es) (h' : CtrlBounded ws' es') :
    CtrlBounded (ws ++ ws') (es ++ es') := by
  intro hes i hi
  rcases List.mem_append.mp hi with hi | hi
  · exact h (fun e he => hes e (List.mem_append_left _ he)) i hi
  · exact h' (fun e he => hes e (List.mem_append_right _ he)) i hi

/-- The progress of a live session from `s` to `s'`. When `keep` holds, the bufferevent is not
given up; when `quiet` holds, nothing is received. -/
structure Served (keep quiet : Prop) (s s' : Session) : Prop where
  sane : s'.Sane
  hs : s'.hs = s.hs
  tx : s'.tx = s.tx
  binary : s'.rx.msgIsBinary = s.rx.msgIsBinary
  trace : ∃ evs, s'.io.trace = s.io.trace ++ evs ∧
    ∀ e ∈ evs, e.isSent = true ∨ ¬ quiet ∧ e.isMessage = true
  state : s'.cl.state = s.cl.state ∨ s'.cl.state = .closing
  sentClose : s.cl.sentCloseFlag = true → s'.cl.sentCloseFlag = true
  received : s.cl.receivedCloseFlag = true → s'.cl.receivedCloseFlag = true
  bev : ∀ b', s'.bev = some b' → ∃ b, s.bev = some b ∧ b'.readEnabled = b.readEnabled
  live : keep → s.bev ≠ none → s'.bev ≠ none
  rx : quiet → s'.rx = s.rx ∧ s'.cl.receivedCloseFlag = s.cl.receivedCloseFlag
  held : quiet → s'.bev = none ∨ s'.bev = s.bev
  ctrl : ∃ ws es, s'.rx.ctrlWrites = s.rx.ctrlWrites ++ ws ∧
    s'.rx.closeEntries = s.rx.closeEntries ++ es ∧ CtrlBounded ws es

namespace Served

variable {keep quiet : Prop}

/-- Doing nothing serves. -/
theorem refl (keep quiet : Prop) {s : Session} (h : s.Sane) : Served keep quiet s s where
  sane := h
  hs := rfl
  tx := rfl
  binary := rfl
  trace := ⟨[], (List.append_nil _).symm, by simp⟩
  state := Or.inl rfl
  sentClose := id
  received := id
  bev := fun b hb => ⟨b, hb, rfl⟩
  live := fun _ hb => hb
  rx := fun _ => ⟨rfl, rfl⟩
  held := fun _ => Or.inr rfl
  ctrl := ⟨[], [], (List.append_nil _).symm, (List.append_nil _).symm, .nil⟩

/-- One service after another is a service. -/
theorem trans {s s' s'' : Session} (h : Served keep quiet s s')
    (h' : Served keep quiet s' s'') : Served keep quiet s s'' := by
  obtain ⟨evs, he, hev⟩ := h.trace
  obtain ⟨evs', he', hev'⟩ := h'.trace
  obtain ⟨ws, es, hw, hl, hc⟩ := h.ctrl
  obtain ⟨ws', es', hw', hl', hc'⟩ := h'.ctrl
  refine
    { sane := h'.sane
      hs := h'.hs.trans h.hs
      tx := h'.tx.trans h.tx
      binary := h'.binary.trans h.binary
      trace := ⟨evs ++ evs', by rw [he', he, List.append_assoc], ?_⟩
      state := ?_
      sentClose := fun hs => h'.sentClose (h.sentClose hs)
      received := fun hs => h'.received (h.received hs)
      bev := ?_
      live := fun hf hb => h'.live hf (h.live hf hb)
      rx := fun hq => ⟨(h'.rx hq).1.trans (h.rx hq).1, (h'.rx hq).2.trans (h.rx hq).2⟩
      held := ?_
      ctrl := ⟨ws ++ ws', es ++ es', by rw [hw', hw, List.append_assoc],
        by rw [hl', hl, List.append_assoc], hc.append hc'⟩ }
  · intro e hmem
    exact (List.mem_append.mp hmem).elim (hev e) (hev' e)
  · rcases h'.state with h2 | h2
    · rw [h2]
      exact h.state
    · exact Or.inr h2
  · intro b'' hb''
    obtain ⟨b', hb', hr'⟩ := h'.bev b'' hb''
    obtain ⟨b, hb, hr⟩ := h.bev b' hb'
    exact ⟨b, hb, hr'.trans hr⟩
  · intro hq
    rcases h'.held hq with hn | hn
    · exact Or.inl hn
    · rw [hn]
      exact h.held hq

end Served

/-- A quiet service is a service. -/
theorem Served.loud {keep quiet : Prop} {s s' : Session} (h : Served keep quiet s s') :
    Served keep False s s' := by
  obtain ⟨evs, he, hev⟩ := h.trace
  exact { h with
    trace := ⟨evs, he, fun e hmem => (hev e hmem).imp_right fun hm => ⟨id, hm.2⟩⟩
    rx := False.elim
    held := False.elim }

/-- The failure is a failed check of the frame reader or of its callers. -/
def Trap.readerCheck : Trap → Bool
  | .check .readWebsocketBev => true
  | .check .readWebsocketUserAbort => true
  | .check .handleControlFrameOpcode => true
  | _ => false

/-- Any other failure. -/
def Mild (trap : Trap) : Prop := trap.readerCheck = false

instance : DecidablePred Mild := fun trap => inferInstanceAs (Decidable (trap.readerCheck = false))

/-- The relation as a progress relation: what it says is said of sane sessions. -/
def Serves (keep quiet : Prop) (s s' : Session) : Prop := s.Sane → Served keep quiet s s'

variable {env : Env} {keep quiet : Prop}

/-- Doing nothing serves. -/
theorem Serves.refl (s : Session) : Serves keep quiet s s :=
  fun h => Served.refl _ _ h

/-- One service after another is a service. -/
theorem Serves.trans (a b c : Session) (h : Serves keep quiet a b) (h' : Serves keep quiet b c) :
    Serves keep quiet a c := fun ha => (h ha).trans (h' (h ha).sane)

/-- Nothing is said of the progress of a session that is not sane. -/
theorem moves_of_not_sane {α : Type} {s : Session} (h : ¬ s.Sane) {m : M α}
    (hm : wp m (fun _ _ => True) (fun e _ => Mild e) s) : Moves (Serves keep quiet) Mild m s :=
  wp_mono hm (fun _ _ _ hs => absurd hs h) (fun _ _ he => ⟨fun hs => absurd hs h, he⟩)

/-! ## The sending side -/

private theorem serves_emit {e : Event} (he : e.isSent = true ∨ ¬ quiet ∧ e.isMessage = true)
    (s : Session) :
    Moves (Serves keep quiet) Mild (emit e) s := by
  intro hs
  exact { Served.refl _ _ hs with sane := { hs with }, trace := ⟨[e], rfl, by simpa using he⟩ }

private theorem serves_callFails (s : Session) : Moves (Serves keep quiet) Mild (callFails env) s :=
  fun hs => { Served.refl _ _ hs with sane := { hs with } }

private theorem serves_getRandomMask (len : Nat) (s : Session) :
    Moves (Serves keep quiet) Mild (getRandomMask env len) s := by
  refine moves_bind Serves.trans (serves_callFails s) fun failed s' _ => ?_
  refine moves_ite (fun _ => Serves.refl s') fun _ => ?_
  exact fun hs => { Served.refl _ _ hs with sane := { hs with } }

private theorem serves_sendData (msg : Bytes) (noCopy : Bool) (s : Session) :
    Moves (Serves keep quiet) Mild (sendData env msg noCopy) s := by
  refine moves_get_bind (moves_ite (fun _ => Serves.refl s) fun _ => ?_)
  refine moves_bind Serves.trans (serves_callFails s) fun failed s' _ => ?_
  refine moves_ite (fun _ => Serves.refl s') fun _ => ?_
  exact moves_bind Serves.trans (serves_emit (Or.inl rfl) s') fun _ s'' _ => Serves.refl s''

private theorem serves_sendFrameRaw (opcode : WSOpcode) (data : Bytes) (s : Session) :
    Moves (Serves keep quiet) Mild (sendFrameRaw env opcode data) s := by
  refine moves_get_bind (moves_ite (fun _ => Serves.refl s) fun _ => ?_)
  refine moves_ite (fun _ => Serves.refl s) fun _ => ?_
  refine moves_modify_bind Serves.trans
      (fun hs => { Served.refl _ _ hs with sane := { hs with } }) ?_
  refine moves_ite (fun _ => Serves.refl _) fun _ => ?_
  refine moves_modify_bind Serves.trans
      (fun hs => { Served.refl _ _ hs with sane := { hs with } }) ?_
  refine moves_bind Serves.trans (serves_getRandomMask 4 _) fun key s₁ _ => ?_
  cases key with
  | none => exact Serves.refl s₁
  | some key =>
    refine moves_modify_bind Serves.trans
        (fun hs => { Served.refl _ _ hs with sane := { hs with } }) ?_
    refine moves_get_bind (moves_bind Serves.trans (serves_sendData _ _ _) fun rc s₂ _ => ?_)
    refine moves_ite (fun _ => Serves.refl s₂) fun _ => ?_
    refine moves_bind Serves.trans (serves_sendData _ _ _) fun rc s₃ _ => ?_
    exact moves_ite (fun _ => Serves.refl s₃) fun _ => Serves.refl s₃

private theorem serves_sendClose (status : WSCloseStatus) (reason : Bytes) (s : Session) :
    Moves (Serves keep quiet) Mild (sendClose env status reason) s := by
  refine moves_ite (fun _ => Serves.refl s) fun _ => ?_
  refine moves_ite (fun _ => Serves.refl s) fun _ => ?_
  refine moves_bind Serves.trans (serves_sendFrameRaw _ _ _) fun r s₁ _ => ?_
  exact moves_ite (fun _ => Serves.refl s₁) fun _ => Serves.refl s₁

/-- A message is sent as one frame or, when it would be split, dies on a check. -/
theorem serves_doSendMsg (msg : Bytes) (s : Session) :
    Moves (Serves keep quiet) Mild (doSendMsg env msg) s := by
  refine moves_get_bind (moves_ite (fun _ => moves_throw Serves.refl (by decide) s) fun hc => ?_)
  refine moves_ite (fun _ => serves_sendFrameRaw _ _ _) fun _ => ?_
  rw [not_not] at hc
  rw [Moves, wp_bind, wp_of_eq_error (onSendMsgBegin_connected hc false)]
  exact ⟨Serves.refl s, by decide⟩

/-! ## Closing -/

private theorem serves_shutDown (s : Session) : Moves (Serves False quiet) Mild shutDown s := by
  intro hs
  exact { Served.refl False _ hs with
    sane := { hs with }, bev := by rintro b ⟨⟩, live := False.elim, held := fun _ => Or.inl rfl }

private theorem serves_closeFail (s : Session) : Moves (Serves False quiet) Mild closeFail s := by
  refine moves_modify_bind Serves.trans
      (fun hs => { Served.refl _ _ hs with sane := { hs with } }) ?_
  exact moves_bind Serves.trans (serves_shutDown _) fun _ s' _ => Serves.refl s'

/-- Closing, when the bufferevent may be lost. -/
theorem serves_close_lossy (env : Env) (status : WSCloseStatus) (reason : Bytes) (s : Session) :
    Moves (Serves False quiet) Mild (closeWithStatusReason env status reason) s := by
  refine moves_modify_bind Serves.trans (fun hs => ?_) ?_
  · exact
      { Served.refl _ _ hs with
        sane := { hs with notClosedCleanly := by simp, notClosedUncleanly := by simp }
        state := Or.inr rfl }
  · refine moves_bind Serves.trans ?_ fun rc s₁ _ => ?_
    · refine moves_get_bind ?_
      exact moves_ite (fun _ => moves_pure Serves.refl _ _) fun _ => serves_sendClose _ _ _
    refine moves_ite (fun _ => serves_closeFail s₁) fun _ => ?_
    refine moves_modify_bind Serves.trans
      (fun hs => { Served.refl _ _ hs with sane := { hs with }, sentClose := fun _ => rfl }) ?_
    refine moves_bind Serves.trans (serves_callFails _) fun failed s₂ _ => ?_
    refine moves_ite (fun _ => serves_closeFail s₂) fun _ => ?_
    refine moves_bind Serves.trans (serves_callFails _) fun failed s₃ _ => ?_
    refine moves_ite (fun _ => serves_closeFail s₃) fun _ => ?_
    exact fun hs => { Served.refl _ _ hs with sane := { hs with } }

/-- What was shown without regard to the bufferevent holds with it when it is kept. -/
theorem Served.of_lossy {s s' : Session} (h : Served False quiet s s')
    (hl : keep → s.bev ≠ none → s'.bev ≠ none) : Served keep quiet s s' :=
  { h with live := hl }

/-- The Close frame is written on the connection there is. -/
theorem Session.closeStarted_bev (status : WSCloseStatus) (reason : Bytes) (s : Session) :
    (s.closeStarted env status reason).bev = s.bev := by
  rw [Session.closeStarted, Session.closeFrameSent]
  split <;> rfl

/-- Closing with a status and a reason that fit. -/
theorem serves_closeWithStatusReason (hk : keep → env.NoFault) {status : WSCloseStatus}
    {reason : Bytes} {s : Session} (hst : status.notUsed = false)
    (hr : reason.length + 2 ≤ WS_CONTROL_MAX_PAYLOAD_LEN) :
    Moves (Serves keep quiet) Mild (closeWithStatusReason env status reason) s := by
  have hlossy : Moves (Serves False quiet) Mild (closeWithStatusReason env status reason) s :=
    serves_close_lossy env status reason s
  by_cases hlive : keep ∧ s.bev ≠ none ∧ s.tx.sendState = .none
  · obtain ⟨hkeep, hb, hs⟩ := hlive
    have hok := closeWithStatusReason_ok (hk hkeep) hb hs hst hr
    rw [Moves, wp_of_eq_ok hok] at hlossy ⊢
    intro hsane
    refine (hlossy hsane).of_lossy fun _ _ => ?_
    rw [Session.closeStarted_bev]
    exact hb
  · have hdead : ∀ s', Serves False quiet s s' → Serves keep quiet s s' := fun s' h hsane =>
      (h hsane).of_lossy fun hkeep hb => absurd ⟨hkeep, hb, hsane.sendState⟩ hlive
    exact wp_mono hlossy (fun _ s' h => hdead s' h) (fun _ s' h => ⟨hdead s' h.1, h.2⟩)

/-- `CloseWithStatus` serves, with a status that may be sent. -/
theorem serves_closeWithStatus (hk : keep → env.NoFault) {status : WSCloseStatus}
    (hst : status.notUsed = false) (s : Session) :
    Moves (Serves keep quiet) Mild (closeWithStatus env status) s :=
  serves_closeWithStatusReason hk hst (by decide)

/-! ## Calls by the application -/

/-- A session that is not closed refuses to connect. -/
theorem serves_doConnect (s : Session) : Moves (Serves keep quiet) Mild (doConnect env) s := by
  by_cases hs : s.Sane
  · have hc : s.cl.state ≠ .closedCleanly ∧ s.cl.state ≠ .closedUncleanly :=
      ⟨hs.notClosedCleanly, hs.notClosedUncleanly⟩
    refine moves_get_bind ?_
    rw [if_pos hc]
    exact moves_pure Serves.refl _ _
  · refine moves_of_not_sane hs ?_
    simp [doConnect, setupConnectionTimeout, callFails, emit]

/-- A call of the application serves. -/
theorem serves_runCall (hk : keep → env.NoFault) (call : AppCall) (s : Session) :
    Moves (Serves keep quiet) Mild (runCall env call) s := by
  cases call with
  | send msg =>
    exact moves_bind Serves.trans (serves_doSendMsg _ _) fun _ _ _ =>
      moves_pure Serves.refl _ _
  | close =>
    exact moves_bind Serves.trans (serves_closeWithStatusReason hk (by decide) (by decide))
      fun _ _ _ => moves_pure Serves.refl _ _
  | connect =>
    exact moves_bind Serves.trans (serves_doConnect _) fun _ _ _ =>
      moves_pure Serves.refl _ _

/-- The calls of a handler serve. -/
theorem serves_runCalls (hk : keep → env.NoFault) (calls : List AppCall) (s : Session) :
    Moves (Serves keep quiet) Mild (runCalls env calls) s :=
  moves_runAll Serves.refl Serves.trans (serves_runCall hk) calls s

/-! ## Frame begin and end -/

private theorem serves_handleFrameBegin (s : Session) :
    Moves (Serves keep False) Mild (handleFrameBegin env) s := by
  refine moves_modify_bind Serves.trans
      (fun hs => { Served.refl _ False hs with sane := { hs with }, rx := False.elim })
      (moves_get_bind ?_)
  refine moves_ite (fun _ hs =>
      { Served.refl _ False hs with
        sane := { hs with ctrlLen := Nat.zero_le _ }
        rx := False.elim }) fun _ => ?_
  refine moves_bind Serves.trans ?_ fun _ s₁ _ => ?_
  · refine moves_get_bind (moves_ite (fun _ => moves_pure Serves.refl _ _) fun _ => ?_)
    refine moves_modify_bind Serves.trans
        (fun hs => { Served.refl _ False hs with sane := { hs with }, rx := False.elim }) ?_
    refine moves_bind Serves.trans (serves_callFails _) fun failed s₂ _ => ?_
    exact fun hs => { Served.refl _ False hs with sane := { hs with }, rx := False.elim }
  · refine moves_bind Serves.trans (serves_callFails _) fun failed s₂ _ => ?_
    exact fun hs => { Served.refl _ False hs with sane := { hs with }, rx := False.elim }

private theorem serves_onMsgFrameEnd (s : Session) :
    Moves (Serves keep False) Mild onMsgFrameEnd s := by
  refine moves_get_bind ?_
  split
  · exact fun hs => { Served.refl _ False hs with sane := { hs with }, rx := False.elim }
  · exact moves_throw Serves.refl (by decide) _

private theorem serves_callOnMessage (hk : keep → env.NoFault) (payload : Bytes) (s : Session) :
    Moves (Serves keep False) Mild (callOnMessage env payload) s := by
  refine moves_get_bind ?_
  split
  · exact moves_pure Serves.refl _ _
  · refine moves_ite (fun _ => moves_pure Serves.refl _ _) fun _ => ?_
    refine moves_bind Serves.trans (serves_emit (Or.inr ⟨id, rfl⟩) s) fun _ s₁ _ =>
      moves_get_bind ?_
    exact serves_runCalls hk _ _

private theorem serves_onRecvMsgEnd (hk : keep → env.NoFault) (s : Session) :
    Moves (Serves keep False) Mild (onRecvMsgEnd env) s := by
  refine moves_get_bind ?_
  split
  · exact moves_throw Serves.refl (by decide) _
  · refine moves_bind Serves.trans (serves_callOnMessage hk _ s) fun _ s₁ _ => ?_
    exact fun hs => { Served.refl _ False hs with sane := { hs with }, rx := False.elim }

/-! ## Control frames -/

/-- No more of a reason is sent than its length says. -/
theorem serverReasonBytes_length_le (env : Env) (s : Session) :
    (serverReasonBytes env s).length ≤ s.cl.serverReasonLen := by
  rw [serverReasonBytes]
  cases s.cl.serverReason with
  | null => exact Nat.zero_le _
  | emptyLiteral => exact List.length_take_le _ _
  | ctrlPayload => exact List.length_take_le _ _

/-- The echo fits when the recorded status may be sent. -/
theorem serves_echoClose (hk : keep → env.NoFault) {s : Session}
    (hst : s.cl.serverCloseStatus.notUsed = false) :
    Moves (Serves keep False) Mild (echoClose env) s := by
  refine moves_get_bind (moves_ite (fun _ => moves_pure Serves.refl _ _) fun _ => ?_)
  by_cases hs : s.Sane
  · refine serves_closeWithStatusReason hk hst ?_
    have hle := serverReasonBytes_length_le env s
    have hr := hs.reasonLen
    omega
  · have hlossy : Moves (Serves False False) Mild
        (closeWithStatusReason env s.cl.serverCloseStatus (serverReasonBytes env s)) s :=
      serves_close_lossy env _ _ s
    exact moves_of_not_sane hs (wp_mono hlossy (fun _ _ _ => trivial) (fun _ _ he => he.2))

/-- The session once a Close frame has been recorded. -/
theorem served_closeReceived {s : Session} (hs : s.Sane) :
    Served keep False s s.closeReceived where
  __ := Served.refl keep False hs
  sane :=
    { hs with
      notClosedCleanly := by simp [Session.closeReceived]
      notClosedUncleanly := by simp [Session.closeReceived] }
  state := Or.inr rfl
  received := fun _ => rfl
  rx := False.elim
  ctrl := ⟨[], _, (List.append_nil _).symm, rfl, by simp [CtrlBounded]⟩

/-- The session once status and reason have been read: the terminating NUL is stored at the
control length. -/
theorem served_closeStatusRead {s : Session} (hs : s.Sane) (hl : 2 ≤ s.rx.ctrlLen) :
    Served keep False s s.closeReceived.closeStatusRead where
  __ := Served.refl keep False hs
  sane :=
    { hs with
      notClosedCleanly := by simp [Session.closeReceived, Session.closeStatusRead]
      notClosedUncleanly := by simp [Session.closeReceived, Session.closeStatusRead]
      reasonLen := by
        have hc := hs.ctrlLen
        simp only [Session.closeReceived, Session.closeStatusRead]
        omega }
  state := Or.inr rfl
  received := fun _ => rfl
  rx := False.elim
  ctrl := by
    have hpos : 2 + (s.rx.ctrlLen - 2) = s.rx.ctrlLen := by omega
    refine ⟨[s.rx.ctrlLen], _, ?_, rfl, fun hes i hi => ?_⟩
    · simp only [Session.closeReceived, Session.closeStatusRead, Receiver.writeCtrl, hpos]
      rfl
    · rw [List.mem_singleton.mp hi]
      exact lt_of_le_of_ne hs.ctrlLen (hes _ List.mem_cons_self)

/-- `HandleCloseFrame` serves. -/
theorem serves_handleCloseFrame (hk : keep → env.NoFault) (s : Session) :
    Moves (Serves keep False) Mild (handleCloseFrame env) s := by
  by_cases h2 : s.rx.ctrlLen < 2
  · refine moves_modify_bind Serves.trans (fun hs => ?_) (moves_get_bind ?_)
    · exact served_closeReceived hs
    · refine moves_ite (fun _ => serves_echoClose hk (by rfl)) fun _ => ?_
      refine moves_ite (fun _ => ?_) fun hn => absurd h2 hn
      refine moves_modify_bind Serves.trans
          (fun hs => { Served.refl _ False hs with sane := { hs with }, rx := False.elim }) ?_
      exact moves_bind Serves.trans (serves_closeWithStatus hk (by decide) _) fun _ _ _ =>
        moves_pure Serves.refl _ _
  · have h2' : ¬ s.closeReceived.rx.ctrlLen < 2 := h2
    have h0 : ¬ s.closeReceived.rx.ctrlLen = 0 := by omega
    rw [Moves, handleCloseFrame, wp_bind, wp_modify, wp_bind, wp_get, if_neg h0, if_neg h2',
      wp_bind, wp_modify]
    have hfirst : Serves keep False s s.closeReceived.closeStatusRead :=
      fun hs => served_closeStatusRead hs (not_lt.mp h2)
    refine Moves.after Serves.trans hfirst ?_
    refine moves_get_bind (moves_ite (fun _ => ?_) fun hv => ?_)
    · exact moves_bind Serves.trans (serves_closeWithStatus hk (by decide) _) fun _ _ _ =>
        moves_pure Serves.refl _ _
    · refine moves_modify_bind Serves.trans
          (fun hs => { Served.refl _ False hs with sane := { hs with }, rx := False.elim })
        (moves_get_bind (moves_ite (fun _ => ?_) fun _ => ?_))
      · exact moves_bind Serves.trans (serves_closeWithStatus hk (by decide) _) fun _ _ _ =>
          moves_pure Serves.refl _ _
      · refine serves_echoClose hk (WSCloseStatus.notUsed_of_peerValid ?_)
        simpa using hv

/-- A control frame passes the check of `HandleControlFrame`. -/
theorem serves_handleControlFrame (hk : keep → env.NoFault) {s : Session}
    (hc : isControlOpcode s.wsHeader.opcode = true) :
    Moves (Serves keep False) Mild (handleControlFrame env) s := by
  refine moves_get_bind (moves_ite (fun hn => ?_) fun _ => ?_)
  · rw [hc] at hn
    exact absurd hn (by decide)
  split
  · exact serves_handleCloseFrame hk s
  · exact moves_throw Serves.refl (by decide) _
  · exact moves_throw Serves.refl (by decide) _
  · exact moves_pure Serves.refl _ _

/-- `HandleFrameEnd` serves. -/
theorem serves_handleFrameEnd (hk : keep → env.NoFault) (s : Session) :
    Moves (Serves keep False) Mild (handleFrameEnd env) s := by
  refine moves_get_bind (moves_ite (fun hc => ?_) fun _ => ?_)
  · exact moves_modify_bind Serves.trans
        (fun hs => { Served.refl _ False hs with sane := { hs with }, rx := False.elim })
      (serves_handleControlFrame hk hc)
  · refine moves_bind Serves.trans (serves_onMsgFrameEnd s) fun _ s₁ _ => ?_
    refine moves_bind Serves.trans ?_ fun _ s₂ _ => ?_
    · refine moves_get_bind (moves_ite (fun _ => ?_) fun _ => moves_pure Serves.refl _ _)
      refine moves_bind Serves.trans (serves_onRecvMsgEnd hk s₁) fun _ s₂ _ => ?_
      exact fun hs => { Served.refl _ False hs with sane := { hs with }, rx := False.elim }
    · exact moves_modify_bind Serves.trans
          (fun hs => { Served.refl _ False hs with sane := { hs with }, rx := False.elim })
        (moves_pure Serves.refl _ _)

/-! ## Frame data -/

/-- Control data that fits is written within the buffer. -/
theorem served_writeCtrl {s : Session} (hs : s.Sane) {b : Bytes}
    (hb : s.rx.ctrlLen + b.length ≤ WS_CONTROL_MAX_PAYLOAD_LEN) :
    Served keep False s { s with rx := { s.rx.writeCtrl s.rx.ctrlLen b with
      ctrlLen := s.rx.ctrlLen + b.length } } where
  __ := Served.refl keep False hs
  sane := { hs with ctrlLen := hb }
  rx := False.elim
  ctrl := by
    refine ⟨List.range' s.rx.ctrlLen b.length, [], rfl, (List.append_nil _).symm, ?_⟩
    intro _ i hi
    have hlt := (List.mem_range'_1.mp hi).2
    omega

/-- `HandleFrameData` serves. -/
theorem serves_handleFrameData (hk : keep → env.NoFault) (buf : Bytes) (s : Session) :
    Moves (Serves keep False) Mild (handleFrameData env buf) s := by
  refine moves_get_bind (moves_ite (fun _ => moves_ite (fun hbig => ?_) fun hfit => ?_) fun _ => ?_)
  · have hclose : Moves (Serves keep True) Mild (closeWithStatus env .protocolErr1002) s :=
      serves_closeWithStatus hk (by decide) s
    have hlen : (buf.take (WS_CONTROL_MAX_PAYLOAD_LEN - s.rx.ctrlLen)).length =
        WS_CONTROL_MAX_PAYLOAD_LEN - s.rx.ctrlLen := by
      rw [List.length_take]
      omega
    rw [Moves, wp_bind]
    refine wp_mono hclose (fun _ s₁ h hs => ?_) (fun _ s₁ h => ⟨fun hs => (h.1 hs).loud, h.2⟩)
    have h₁ := h hs
    have hfit : s₁.rx.ctrlLen +
        (buf.take (WS_CONTROL_MAX_PAYLOAD_LEN - s.rx.ctrlLen)).length ≤
          WS_CONTROL_MAX_PAYLOAD_LEN := by
      have hc := hs.ctrlLen
      rw [hlen, (h₁.rx trivial).1]
      omega
    have hwrite : Served keep False s₁ _ := served_writeCtrl h₁.sane hfit
    rw [hlen] at hwrite
    exact h₁.loud.trans hwrite
  · refine moves_modify_bind Serves.trans (fun hs => ?_) (moves_pure Serves.refl _ _)
    exact served_writeCtrl hs (not_lt.mp hfit)
  · split
    · exact moves_throw Serves.refl (by decide) _
    · exact moves_modify_bind Serves.trans
        (fun hs => { Served.refl _ False hs with sane := { hs with }, rx := False.elim })
        (moves_pure Serves.refl _ _)

/-! ## The read loop -/

private theorem serves_drain (n : Nat) (s : Session) : Serves keep False s (s.drain n) := by
  intro hs
  obtain ⟨bev, detached, heq, hmap⟩ := s.drain_eq n
  rw [heq]
  refine { Served.refl keep False hs with
    sane := { hs with }
    bev := fun b' hb' => ?_
    live := fun _ hb hn => hb ?_
    rx := False.elim
    held := False.elim }
  · change bev = some b' at hb'
    rw [hb', Option.map_some, eq_comm, Option.map_eq_some_iff] at hmap
    obtain ⟨b, hb, hr⟩ := hmap
    exact ⟨b, hb, hr.symm⟩
  · change bev = none at hn
    rwa [hn, Option.map_none, eq_comm, Option.map_eq_none_iff] at hmap

/-- A header never makes the application abort. -/
theorem headerState_ne_userAbort (b : Bytes) (len : Nat) (inMsgFlag : Bool) :
    headerState (unpackHeader b len) inMsgFlag ≠ .userAbort := by
  rw [headerState]
  split
  · simp
  · exact unpackHeader_ne_userAbort b len

private theorem serves_readHeader (hk : keep → env.NoFault) (input : Bytes) (s : Session) :
    Moves (Serves keep False) Mild (readHeader env input) s := by
  refine moves_get_bind (moves_modify_bind Serves.trans
    (fun hs => { Served.refl _ False hs with sane := { hs with }, rx := False.elim }) ?_)
  refine moves_ite (fun h => absurd h (unpackHeader_ne_userAbort _ _)) fun _ => ?_
  split
  · refine moves_modify_bind Serves.trans
        (fun hs => { Served.refl _ False hs with sane := { hs with }, rx := False.elim }) ?_
    refine moves_modify_bind Serves.trans (serves_drain _ _) ?_
    exact moves_bind Serves.trans (serves_handleFrameBegin _) fun _ _ _ =>
        moves_pure Serves.refl _ _
  · exact moves_pure Serves.refl _ _
  · exact moves_bind Serves.trans (serves_closeWithStatus hk (by decide) _) fun _ _ _ =>
      moves_pure Serves.refl _ _
  · exact moves_bind Serves.trans (serves_handleFrameBegin _) fun _ _ _ =>
      moves_pure Serves.refl _ _

private theorem serves_checkUtf8 (hk : keep → env.NoFault) (buf : Bytes) (s : Session) :
    Moves (Serves keep False) Mild (checkUtf8 env buf) s := by
  refine moves_get_bind (moves_ite (fun _ => ?_) fun _ => moves_pure Serves.refl _ _)
  refine moves_modify_bind Serves.trans
      (fun hs => { Served.refl _ False hs with sane := { hs with }, rx := False.elim })
    (moves_get_bind (moves_ite (fun _ => ?_) fun _ => moves_pure Serves.refl _ _))
  exact moves_bind Serves.trans (serves_closeWithStatus hk (by decide) _) fun _ _ _ =>
    moves_pure Serves.refl _ _

private theorem serves_handleChunk (hk : keep → env.NoFault) (buf : Bytes) (s : Session) :
    Moves (Serves keep False) Mild (handleChunk env buf) s := by
  refine moves_bind Serves.trans (serves_checkUtf8 hk _ s) fun _ s₁ _ => ?_
  refine moves_bind Serves.trans (serves_handleFrameData hk _ s₁) fun rc s₂ _ => ?_
  refine moves_get_bind (moves_ite (fun _ => ?_) fun _ => moves_pure Serves.refl _ _)
  exact moves_bind Serves.trans (serves_handleFrameEnd hk s₂) fun _ _ _ =>
    moves_pure Serves.refl _ _

private theorem serves_readPayload (hk : keep → env.NoFault) (s : Session) :
    Moves (Serves keep False) Mild (readPayload env) s := by
  refine moves_get_bind (moves_ite (fun _ => ?_) fun _ => ?_)
  · exact moves_bind Serves.trans (serves_handleFrameEnd hk s) fun _ _ _ =>
      moves_pure Serves.refl _ _
  · refine moves_modify_bind Serves.trans (serves_drain _ _) ?_
    refine moves_modify_bind Serves.trans
      (fun hs => { Served.refl _ False hs with sane := { hs with }, rx := False.elim }) ?_
    exact serves_handleChunk hk _ _

/-- The loop of `ReadWebsocket` serves. -/
theorem serves_readLoop (hk : keep → env.NoFault) (n : Nat) (s : Session) :
    Moves (Serves keep False) Mild (readLoop env n) s := by
  induction n generalizing s with
  | zero => exact moves_pure Serves.refl _ _
  | succ n ih =>
    refine moves_get_bind (moves_ite (fun _ => moves_throw Serves.refl (by decide) _) fun _ => ?_)
    refine moves_ite (fun _ => moves_pure Serves.refl _ _) fun _ => ?_
    refine moves_bind Serves.trans ?_ fun goOn s₁ _ => ?_
    · refine moves_get_bind (moves_ite (fun _ => moves_pure Serves.refl _ _) fun _ => ?_)
      exact serves_readHeader hk _ s
    · refine moves_ite (fun _ => ?_) fun _ => moves_pure Serves.refl _ _
      exact moves_bind Serves.trans (serves_readPayload hk s₁) fun _ s₂ _ => ih s₂

/-- Everything that `ReadWebsocket` does. -/
theorem serves_readWebsocket (hk : keep → env.NoFault) {s : Session} (hb : s.bev ≠ none) :
    Moves (Serves keep False) Mild (readWebsocket env) s := by
  refine moves_get_bind ?_
  cases h : s.bev with
  | none => exact absurd h hb
  | some b => exact serves_readLoop hk _ s

end CppImprovement.Ws

import CppImprovement.Net.Ws.Lifecycle
import CppImprovement.Net.Ws.Steady

/-!
# Sessions a connection cannot tell apart

Two sessions agree on a connection when they agree on every field that the code can
still read before it writes it: the header of the frame being received, but not one
left behind; the message being gathered, but not the remains of another. From
agreeing sessions a connection goes alike until both have closed it, and then
neither sends nor delivers anything more.
-/

namespace CppImprovement.Ws

variable {env : Env} {s t : Session}

/-- What is observed of a session. -/
def Session.past (s : Session) : List Event := s.io.trace

/-- Two runs end alike, unless both have closed the connection. -/
abbrev Alongside {α : Type} (R : Session → Session → Prop) (m : M α) (s t : Session) : Prop :=
  SimUnless Session.Hushed Session.past R m m s t

/-- A session that has closed the connection is silent. -/
theorem Session.Hushed.unseen {α : Type} {m : M α} (h : s.Hushed)
    (hm : Moves (Steadies False) AnyTrap m s) : Unseen Session.Hushed Session.past m s := by
  have hc := Session.not_closed_of_closing h.1
  exact wp_mono hm (fun _ _ hs => (hs hc).hushed h) fun _ _ hs => ((hs.1 hc).hushed h).2

/-- What follows a part of the code under a read. -/
theorem alongside_bind {α β : Type} {R R' : Session → Session → Prop} {m : M α} {f : α → M β}
    (hm : Alongside R' m s t) (hf : ∀ a s' t', R' s' t' → Alongside R (f a) s' t')
    (hu : ∀ a u, Moves (Steadies False) AnyTrap (f a) u) : Alongside R (m >>= f) s t :=
  simUnless_bind hm hf (fun a u h => h.unseen (hu a u)) fun a u h => h.unseen (hu a u)

private theorem alongside_throw {α : Type} {R : Session → Session → Prop} (h : s.past = t.past)
    (e : Trap) :
    Alongside R (throw e : M α) s t := Or.inl ⟨rfl, h⟩

/-! ## Live connections -/

/-- Two sessions on live connections with the same input, of which neither is closing. -/
structure Live (s t : Session) : Prop where
  line : Line False True s t
  bev : s.bev = t.bev
  held : s.bev ≠ none
  left : s.Sane
  right : t.Sane
  notClosing : s.cl.state ≠ .closing
  unarmed : s.cl.closeTimeoutEvent ≠ .pending
  unarmed' : t.cl.closeTimeoutEvent ≠ .pending

/-- Both connections are there. -/
theorem Live.held' (h : Live s t) : t.bev ≠ none := h.bev ▸ h.held

/-- Both sessions read from the same bufferevent. -/
theorem Live.reading (h : Live s t) {b : Bufferevent} (hr : s.Reading b) : t.Reading b :=
  ⟨h.bev ▸ hr.1, hr.2⟩

private theorem Session.trace_closeStarted (status : WSCloseStatus) (reason : Bytes) (s : Session) :
    (s.closeStarted env status reason).io.trace =
      if s.cl.sentCloseFlag = true then s.io.trace
      else s.io.trace ++ sentEvents env s.io.randPos .close (closePayload status reason) := by
  rw [Session.closeStarted, Session.closeFrameSent]
  split <;> rfl

/-- Two sessions that can close and would send the same frame. -/
structure Poised (s t : Session) : Prop where
  line : Line False True s t
  held : s.bev ≠ none
  held' : t.bev ≠ none
  sendState : s.tx.sendState = .none

private theorem Live.poised (h : Live s t) :
    Poised s t := ⟨h.line, h.held, h.held', h.left.sendState⟩

private theorem Poised.past_closeStarted (h : Poised s t) (status : WSCloseStatus)
    (reason : Bytes) :
    (s.closeStarted env status reason).past = (t.closeStarted env status reason).past := by
  rw [Session.past, Session.past, Session.trace_closeStarted, Session.trace_closeStarted,
    h.line.sentClose, h.line.trace, h.line.randPos]

/-- Both sessions close. -/
theorem Poised.alongside_close (h : Poised s t) (hf : env.NoFault) {R : Session → Session → Prop}
    {status : WSCloseStatus} {reason : Bytes} (hst : status.notUsed = false)
    (hr : reason.length + 2 ≤ WS_CONTROL_MAX_PAYLOAD_LEN) :
    Alongside R (closeWithStatusReason env status reason) s t := by
  have hsend : t.tx.sendState = .none := h.line.tx ▸ h.sendState
  exact simUnless_of_ok (closeWithStatusReason_ok hf h.held h.sendState hst hr)
    (closeWithStatusReason_ok hf h.held' hsend hst hr) ⟨rfl, rfl⟩ ⟨rfl, rfl⟩
    (h.past_closeStarted status reason)

private theorem Poised.alongside_closed (h : Poised s t) (hf : env.NoFault)
    {R : Session → Session → Prop} {β : Type} {f : Int → M β} {status : WSCloseStatus}
    (hst : status.notUsed = false) (hu : ∀ a u, Moves (Steadies False) AnyTrap (f a) u) :
    Alongside R (closeWithStatus env status >>= f) s t := by
  have hclose : Alongside (fun _ _ => False) (closeWithStatus env status) s t :=
    h.alongside_close hf hst (by decide)
  exact alongside_bind hclose (fun _ _ _ h => h.elim) hu

/-! ## Calls by the application -/

/-- A session that is closing has sent its Close frame. -/
def Session.Resolved (s : Session) : Prop := s.cl.state = .closing → s.cl.sentCloseFlag = true

private theorem wp_runCall_resolved (hf : env.NoFault) (hs : s.Sane) (hb : s.bev ≠ none)
    (h : s.Resolved) (call : AppCall) :
    wp (runCall env call) (fun _ => Session.Resolved) (fun _ _ => True) s := by
  cases call with
  | send msg =>
    rw [runCall, wp_bind]
    refine wp_mono (sends_doSendMsg msg s) (fun _ s' hs' => ?_) fun _ _ _ => trivial
    obtain ⟨_, _, rfl, _⟩ := hs'
    exact h
  | close =>
    rw [runCall, wp_bind, doClose,
      wp_of_eq_ok (closeWithStatusReason_ok hf hb hs.sendState (by decide) (by decide))]
    exact fun _ => rfl
  | connect =>
    have hst : s.cl.state ≠ .closedCleanly ∧ s.cl.state ≠ .closedUncleanly :=
      ⟨hs.notClosedCleanly, hs.notClosedUncleanly⟩
    simp only [runCall, doConnect, wp_bind, wp_get, wp_ite, if_pos hst, wp_pure]
    exact h

private theorem wp_runCalls_resolved (hf : env.NoFault) (hs : s.Sane) (hb : s.bev ≠ none)
    (h : s.Resolved) (calls : List AppCall) :
    wp (runCalls env calls) (fun _ => Session.Resolved) (fun _ _ => True) s := by
  induction calls generalizing s with
  | nil => exact h
  | cons call calls ih =>
    have hserved : Moves (Serves True True) Mild (runCall env call) s :=
      serves_runCall (fun _ => hf) call s
    rw [runCalls, runAll_cons, wp_bind]
    refine wp_mono (wp_and hserved (wp_runCall_resolved hf hs hb h call)) (fun _ s' hs' => ?_)
      fun _ _ _ => trivial
    exact ih (hs'.1 hs).sane ((hs'.1 hs).live trivial hb) hs'.2

/-- What the calls of a handler leave of two sessions that go on. -/
structure Undisturbed (s t s' t' : Session) : Prop where
  live : Live s' t'
  bev : s'.bev = s.bev
  rx : s'.rx = s.rx
  rx' : t'.rx = t.rx
  hs : s'.hs = s.hs
  hs' : t'.hs = t.hs

/-- What the calls of a handler leave of one session. -/
structure Called (s s' : Session) : Prop where
  served : Served True True s s'
  steady : Steady False s s'
  resolved : s'.Resolved

private theorem wp_runCalls_called (hf : env.NoFault) (hs : s.Sane) (hb : s.bev ≠ none)
    (hc : s.cl.state ≠ .closing) (calls : List AppCall) :
    wp (runCalls env calls) (fun _ => Called s) (fun _ _ => True) s := by
  have hserved : Moves (Serves True True) Mild (runCalls env calls) s :=
    serves_runCalls (fun _ => hf) calls s
  have hsteady : Moves (Steadies False) AnyTrap (runCalls env calls) s := steadies_runCalls calls s
  have hresolved := wp_runCalls_resolved hf hs hb (fun h => absurd h hc) calls
  refine wp_mono (wp_and (wp_and hserved hsteady) hresolved) (fun _ s' h => ?_)
    fun _ _ _ => trivial
  exact ⟨h.1.1 hs, h.1.2 hs.not_closed, h.2⟩

/-- A handler that leaves the connection leaves its bufferevent. -/
theorem Called.bev {s' : Session} (h : Called s s') (hb : s.bev ≠ none) : s'.bev = s.bev :=
  (h.served.held trivial).resolve_left (h.served.live trivial hb)

/-- The calls of a handler: either they close both sessions, or they leave both undisturbed. -/
theorem Live.alongside_runCalls (h : Live s t) (hf : env.NoFault) (calls : List AppCall) :
    Alongside (Undisturbed s t) (runCalls env calls) s t := by
  have hc : t.cl.state ≠ .closing := h.line.state ▸ h.notClosing
  have hsim := ((sim_runCalls hf calls h.line).and_left
    (wp_runCalls_called hf h.left h.held h.notClosing calls)).and_right
      (wp_runCalls_called hf h.right h.held' hc calls)
  refine hsim.simUnless_of (fun s' t' ⟨⟨hl, hs⟩, ht⟩ => ?_) fun s' t' ⟨⟨hl, _⟩, _⟩ => hl.trace
  by_cases hcl : s'.cl.state = .closing
  · have hcl' : t'.cl.state = .closing := hl.state ▸ hcl
    exact Or.inr ⟨hl.trace, ⟨hcl, hs.resolved hcl⟩, hcl', ht.resolved hcl'⟩
  · have hcl' : t'.cl.state ≠ .closing := hl.state ▸ hcl
    have hlife : s'.cl = s.cl := hs.steady.life.resolve_right hcl
    have hlife' : t'.cl = t.cl := ht.steady.life.resolve_right hcl'
    have hb := hs.bev h.held
    have hb' := ht.bev h.held'
    refine Or.inl ⟨⟨hl, ?_, ?_, hs.served.sane, ht.served.sane, hcl, ?_, ?_⟩,
      hb, (hs.served.rx trivial).1, (ht.served.rx trivial).1, hs.served.hs, ht.served.hs⟩
    · rw [hb, hb', h.bev]
    · rw [hb]
      exact h.held
    · rw [hlife]
      exact h.unarmed
    · rw [hlife']
      exact h.unarmed'

/-- Handlers that call nothing disturb nothing. -/
theorem Undisturbed.refl (h : Live s t) : Undisturbed s t s t :=
  ⟨h, rfl, rfl, rfl, rfl, rfl⟩

/-- Both sessions report the same event. -/
theorem Live.emitted (h : Live s t) (e : Event) :
    Live { s with io.trace := s.io.trace ++ [e] } { t with io.trace := t.io.trace ++ [e] } :=
  { h with
    line := { h.line with trace := by rw [h.line.trace] }
    left := { h.left with }
    right := { h.right with } }

/-- A handler is called alike. -/
theorem Live.alongside_handler (h : Live s t) (hf : env.NoFault) (e : Event)
    (handler : List Event → List AppCall) :
    Alongside (Undisturbed s t)
      (do emit e
          let s ← get
          runCalls env (handler s.io.trace)) s t := by
  have hcalls : handler (s.io.trace ++ [e]) = handler (t.io.trace ++ [e]) := by
    rw [h.line.trace]
  have hruns := (h.emitted e).alongside_runCalls hf (handler (t.io.trace ++ [e]))
  refine simUnless_modify_bind (simUnless_get_bind ?_)
  change SimUnless _ _ _ (runCalls env (handler (s.io.trace ++ [e]))) _ _ _
  rw [hcalls]
  exact hruns.mono fun _ _ h => { h with }

private theorem Live.alongside_callOnMessage (h : Live s t) (hf : env.NoFault)
    (hbin : s.rx.msgIsBinary_ = t.rx.msgIsBinary_) (payload : Bytes) :
    Alongside (Undisturbed s t) (callOnMessage env payload) s t := by
  refine simUnless_get_bind ?_
  cases env.app.onMessage with
  | none => exact (sim_pure (.refl h) _).simUnless
  | some handler =>
    refine simUnless_ite (by rw [h.line.state]) (fun hc => absurd hc h.notClosing) fun _ => ?_
    rw [hbin]
    exact h.alongside_handler hf _ handler

/-! ## Agreement -/

/-- Two receivers are gathering the same message. -/
structure SameMessage (r r' : Receiver) : Prop where
  utf8State : r.utf8State = r'.utf8State
  binary : r.msgIsBinary_ = r'.msgIsBinary_
  msg : r.msg = r'.msg

/-- Two sessions agree on all that the frame reader can read before it writes it. -/
structure Agree (s t : Session) : Prop extends Live s t where
  hasHeader : s.rx.hasHeader = t.rx.hasHeader
  inMsgFlag : s.rx.inMsgFlag = t.rx.inMsgFlag
  binary : s.rx.msgIsBinary = t.rx.msgIsBinary
  header : s.rx.hasHeader = true →
    s.wsHeader = t.wsHeader ∧ s.rx.recvFrameLen = t.rx.recvFrameLen
  control : s.rx.hasHeader = true → isControlOpcode s.wsHeader.opcode = true →
    s.rx.ctrlPayload = t.rx.ctrlPayload ∧ s.rx.ctrlLen = t.rx.ctrlLen
  data : s.rx.hasHeader = true → isControlOpcode s.wsHeader.opcode = false →
    s.rx.frameData = t.rx.frameData
  message : s.rx.inMsgFlag = true ∨
    s.rx.hasHeader = true ∧ isControlOpcode s.wsHeader.opcode = false → SameMessage s.rx t.rx

/-- Two sessions agree on what they have gathered, whatever frame they are in. -/
structure Gathering (s t : Session) : Prop extends Live s t where
  inMsgFlag : s.rx.inMsgFlag = t.rx.inMsgFlag
  binary : s.rx.msgIsBinary = t.rx.msgIsBinary
  message : s.rx.inMsgFlag = true → SameMessage s.rx t.rx

/-- Sessions that agree have gathered the same. -/
theorem Agree.gathering (h : Agree s t) : Gathering s t :=
  { h.toLive with
    inMsgFlag := h.inMsgFlag, binary := h.binary, message := fun hm => h.message (Or.inl hm) }

/-- Outside a frame nothing else matters. -/
theorem Gathering.agree (h : Gathering s t) (hs : s.rx.hasHeader = false)
    (ht : t.rx.hasHeader = false) : Agree s t :=
  { h.toLive with
    hasHeader := hs.trans ht.symm
    inMsgFlag := h.inMsgFlag
    binary := h.binary
    header := fun hh => absurd hh (by simp [hs])
    control := fun hh => absurd hh (by simp [hs])
    data := fun hh => absurd hh (by simp [hs])
    message := fun hm => h.message (hm.resolve_right fun hh => absurd hh.1 (by simp [hs])) }

/-- The end of a frame. -/
theorem Gathering.frameDone (h : Gathering s t) :
    Agree { s with rx.hasHeader := false } { t with rx.hasHeader := false } := by
  refine Gathering.agree ?_ rfl rfl
  exact
    { h.toLive with
      line := { h.line with }, left := { h.left with }, right := { h.right with }
      inMsgFlag := h.inMsgFlag
      binary := h.binary
      message := fun hm => { h.message hm with } }

/-- Two sessions agree inside a frame. -/
def AgreeInside (s t : Session) : Prop := Agree s t ∧ s.rx.hasHeader = true

/-- Two sessions agree inside a data frame. -/
def AgreeInData (s t : Session) : Prop :=
  AgreeInside s t ∧ isControlOpcode s.wsHeader.opcode = false

/-- Inside a data frame both gather the same message. -/
theorem AgreeInData.message (h : AgreeInData s t) : SameMessage s.rx t.rx :=
  h.1.1.message (Or.inr ⟨h.1.2, h.2⟩)

/-! ## Control frames -/

private theorem Poised.alongside_echoClose (h : Poised s t) (hf : env.NoFault)
    {R : Session → Session → Prop} (hc : s.cl.state = .closing)
    (hp : s.rx.ctrlPayload = t.rx.ctrlPayload) (hst : s.cl.serverCloseStatus.notUsed = false)
    (hlen : s.cl.serverReasonLen + 2 ≤ WS_CONTROL_MAX_PAYLOAD_LEN) :
    Alongside R (echoClose env) s t := by
  have hreason : serverReasonBytes env s = serverReasonBytes env t := by
    rw [serverReasonBytes, serverReasonBytes, h.line.reason, h.line.reasonLen, hp]
  refine simUnless_get_bind (simUnless_ite (by rw [h.line.sentClose]) (fun hs => ?_) fun _ => ?_)
  · have hc' : t.cl.state = .closing := h.line.state ▸ hc
    exact simUnless_of_ok rfl rfl ⟨hc, hs⟩ ⟨hc', h.line.sentClose ▸ hs⟩ h.line.trace
  · rw [← hreason, ← h.line.status]
    refine h.alongside_close hf hst ?_
    have hle := serverReasonBytes_length_le env s
    omega

/-- A Close frame closes both sessions. -/
theorem Live.alongside_handleCloseFrame (h : Live s t) (hf : env.NoFault)
    {R : Session → Session → Prop} (hp : s.rx.ctrlPayload = t.rx.ctrlPayload)
    (hl : s.rx.ctrlLen = t.rx.ctrlLen) : Alongside R (handleCloseFrame env) s t := by
  have h₁ : Poised s.closeReceived t.closeReceived :=
    ⟨{ h.line with state := rfl, received := rfl, status := rfl, reason := rfl }, h.held, h.held',
      h.left.sendState⟩
  refine simUnless_modify_bind (simUnless_get_bind ?_)
  refine simUnless_ite (by rw [Session.closeReceived, Session.closeReceived, hl]) (fun _ => ?_)
    fun h0 => ?_
  · exact h₁.alongside_echoClose hf rfl hp rfl h.left.reasonLen
  refine simUnless_ite (by rw [Session.closeReceived, Session.closeReceived, hl]) (fun _ => ?_)
    fun h2 => ?_
  · refine simUnless_modify_bind (Poised.alongside_closed ?_ hf (by decide) fun _ _ =>
      moves_pure Steadies.refl _ _)
    exact { h₁ with line := { h₁.line with status := rfl } }
  · let s₂ := s.closeReceived.closeStatusRead
    let t₂ := t.closeReceived.closeStatusRead
    have hstatus : s₂.cl.serverCloseStatus = t₂.cl.serverCloseStatus := by
      simp only [s₂, t₂, Session.closeStatusRead, Session.closeReceived, hp]
    have hreasonLen : s₂.cl.serverReasonLen = t₂.cl.serverReasonLen := by
      simp only [s₂, t₂, Session.closeStatusRead, Session.closeReceived, hl]
    have hpayload : s₂.rx.ctrlPayload = t₂.rx.ctrlPayload := by
      simp only [s₂, t₂, Session.closeStatusRead, Session.closeReceived, Receiver.writeCtrl, hp, hl]
    have h₂ : Poised s₂ t₂ :=
      { h₁ with line := { h₁.line with
          status := hstatus, reason := rfl, reasonLen := hreasonLen } }
    have hbytes : serverReasonBytes env s₂ = serverReasonBytes env t₂ := by
      rw [serverReasonBytes, serverReasonBytes, h₂.line.reason, hreasonLen, hpayload]
    have hlen : s₂.cl.serverReasonLen + 2 ≤ WS_CONTROL_MAX_PAYLOAD_LEN := by
      have hle := h.left.ctrlLen
      simp only [s₂, Session.closeStatusRead, Session.closeReceived] at h2 ⊢
      omega
    refine simUnless_modify_bind (simUnless_get_bind ?_)
    refine simUnless_ite (by rw [hstatus]) (fun _ => ?_) fun hv => ?_
    · exact h₂.alongside_closed hf (by decide) fun _ _ => moves_pure Steadies.refl _ _
    · refine simUnless_modify_bind (simUnless_get_bind ?_)
      have hutf8 := congrArg (fun b => validateUtf8 WS_UTF8_ACCEPT b = WS_UTF8_REJECT) hbytes
      refine simUnless_ite (iff_of_eq hutf8) (fun _ => ?_) fun _ => ?_
      · refine Poised.alongside_closed ?_ hf (by decide) fun _ _ => moves_pure Steadies.refl _ _
        exact { h₂ with line := { h₂.line with } }
      · refine Poised.alongside_echoClose ?_ hf rfl hpayload
          (WSCloseStatus.notUsed_of_peerValid (eq_true_of_ne_false hv)) hlen
        exact { h₂ with line := { h₂.line with } }

/-- The end of a control frame. -/
theorem AgreeInside.alongside_control (h : AgreeInside s t) (hf : env.NoFault)
    (hc : isControlOpcode s.wsHeader.opcode = true) :
    Alongside Agree
      (do modify fun s => { s with rx.hasHeader := false }
          handleControlFrame env) s t := by
  obtain ⟨ha, hh⟩ := h
  have hheader := (ha.header hh).1
  have hdone := ha.gathering.frameDone
  refine simUnless_modify_bind (simUnless_get_bind ?_)
  refine simUnless_ite (by rw [hheader]) (fun hn => absurd hn (by simp [hc])) fun _ => ?_
  have hop : t.wsHeader.opcode = s.wsHeader.opcode := by rw [hheader]
  dsimp only
  rw [hop]
  split
  · exact hdone.toLive.alongside_handleCloseFrame hf (ha.control hh hc).1 (ha.control hh hc).2
  · exact alongside_throw hdone.line.trace _
  · exact alongside_throw hdone.line.trace _
  · exact (sim_pure hdone _).simUnless

/-! ## Data frames -/

private theorem AgreeInData.alongside_onMsgFrameEnd (h : AgreeInData s t) :
    Alongside AgreeInData onMsgFrameEnd s t := by
  have hm := h.message
  obtain ⟨⟨ha, hh⟩, hc⟩ := h
  refine simUnless_get_bind ?_
  rw [← ha.data hh hc, ← hm.msg]
  split
  · refine (sim_modify ⟨⟨?_, hh⟩, hc⟩).simUnless
    exact
      { ha with
        line := { ha.line with }, left := { ha.left with }, right := { ha.right with }
        data := fun _ _ => rfl
        message := fun _ => { hm with msg := rfl } }
  · exact alongside_throw ha.line.trace _

/-- The end of a message. -/
theorem AgreeInData.alongside_endMessage (h : AgreeInData s t) (hf : env.NoFault) :
    Alongside Gathering (endMessage env) s t := by
  have hm := h.message
  obtain ⟨⟨ha, hh⟩, hc⟩ := h
  refine simUnless_get_bind (simUnless_ite (by rw [(ha.header hh).1]) (fun _ => ?_) fun _ => ?_)
  · have hend : Alongside (fun s' t' => Live s' t' ∧ s'.rx.msgIsBinary = t'.rx.msgIsBinary)
        (onRecvMsgEnd env) s t := by
      refine simUnless_get_bind ?_
      rw [← hm.msg]
      split
      · exact alongside_throw ha.line.trace _
      · refine alongside_bind (ha.toLive.alongside_callOnMessage hf hm.binary _)
          (fun _ s' t' hu => (sim_modify ⟨?_, ?_⟩).simUnless) fun _ u h => { Steady.refl _ h with }
        · exact
            { hu.live with
              line := { hu.live.line with }
              left := { hu.live.left with }
              right := { hu.live.right with } }
        · dsimp only
          rw [hu.rx, hu.rx']
          exact ha.binary
    refine alongside_bind hend (fun _ s' t' hl => (sim_modify ?_).simUnless)
      fun _ u h => { Steady.refl _ h with }
    exact
      { hl.1 with
        line := { hl.1.line with }, left := { hl.1.left with }, right := { hl.1.right with }
        inMsgFlag := rfl
        binary := hl.2
        message := nofun }
  · exact (sim_pure ha.gathering _).simUnless

private theorem AgreeInside.alongside_handleFrameEnd (h : AgreeInside s t) (hf : env.NoFault) :
    Alongside Agree (handleFrameEnd env) s t := by
  refine simUnless_get_bind (simUnless_ite (by rw [(h.1.header h.2).1]) (fun hc => ?_)
    fun hc => ?_)
  · exact h.alongside_control hf hc
  · rw [Bool.not_eq_true] at hc
    refine alongside_bind (AgreeInData.alongside_onMsgFrameEnd ⟨h, hc⟩) (fun _ s₁ t₁ h₁ => ?_)
      fun _ u => (steadies_rules env).dataEnd _ u
    refine alongside_bind (h₁.alongside_endMessage hf) (fun _ s₂ t₂ h₂ => ?_) fun _ u => ?_
    · exact simUnless_modify_bind (sim_pure h₂.frameDone _).simUnless
    · exact (steadies_rules env).turn_bind (.held rfl rfl rfl rfl)
        (moves_pure Steadies.refl _ _)

private theorem AgreeInside.alongside_endFrame (h : AgreeInside s t) (hf : env.NoFault) :
    Alongside Agree (endFrame env) s t :=
  alongside_bind (h.alongside_handleFrameEnd hf) (fun _ _ _ h' => (sim_pure h' _).simUnless)
    fun _ _ => moves_pure Steadies.refl _ _

/-! ## Frame data -/

private theorem AgreeInside.alongside_handleFrameData (h : AgreeInside s t) (hf : env.NoFault)
    (buf : Bytes) : Alongside AgreeInside (handleFrameData env buf) s t := by
  obtain ⟨ha, hh⟩ := h
  have hheader := (ha.header hh).1
  refine simUnless_get_bind (simUnless_ite (by rw [hheader]) (fun hc => ?_) fun hc => ?_)
  · obtain ⟨hp, hl⟩ := ha.control hh hc
    rw [← hl]
    refine simUnless_ite Iff.rfl (fun _ => ?_) fun hfit => ?_
    · refine ha.toLive.poised.alongside_closed hf (by decide) fun _ u => ?_
      exact moves_modify_bind Steadies.trans (fun h => { Steady.refl _ h with })
        (moves_pure Steadies.refl _ _)
    · refine simUnless_modify_bind (sim_pure ⟨?_, hh⟩ _).simUnless
      have hlen := not_lt.mp hfit
      exact
        { ha with
          line := { ha.line with }
          left := { ha.left with ctrlLen := hlen }
          right := { ha.right with ctrlLen := hl ▸ hlen }
          control := fun _ _ => ⟨by simp only [Receiver.writeCtrl, hp, hl], by simp only [hl]⟩
          message := fun hm => { ha.message hm with } }
  · rw [Bool.not_eq_true] at hc
    rw [← ha.data hh hc]
    split
    · exact alongside_throw ha.line.trace _
    · refine simUnless_modify_bind (sim_pure ⟨?_, hh⟩ _).simUnless
      exact
        { ha with
          line := { ha.line with }, left := { ha.left with }, right := { ha.right with }
          data := fun _ _ => rfl
          message := fun hm => { ha.message hm with } }

private theorem AgreeInside.alongside_checkUtf8 (h : AgreeInside s t) (hf : env.NoFault)
    (buf : Bytes) :
    Alongside AgreeInside (checkUtf8 env buf) s t := by
  have hin := h
  obtain ⟨ha, hh⟩ := h
  have hheader := (ha.header hh).1
  refine simUnless_get_bind (simUnless_ite (by rw [ha.binary, hheader]) (fun hc => ?_) fun _ => ?_)
  · have hm := ha.message (Or.inr ⟨hh, hc.2⟩)
    have hchecked : Agree (s.checkedOver buf) (t.checkedOver buf) :=
      { ha with
        line := { ha.line with }, left := { ha.left with }, right := { ha.right with }
        message := fun _ => { hm with
          utf8State := by simp only [Session.checkedOver, hm.utf8State] } }
    refine simUnless_modify_bind (simUnless_get_bind ?_)
    refine simUnless_ite (by rw [hm.utf8State, hheader]) (fun _ => ?_) fun _ => ?_
    · exact hchecked.toLive.poised.alongside_closed hf (by decide) fun _ _ =>
        moves_pure Steadies.refl _ _
    · exact (sim_pure ⟨hchecked, hh⟩ _).simUnless
  · exact (sim_pure hin _).simUnless

/-! ## The read loop -/

/-- Both sessions take the same chunk. -/
theorem AgreeInside.counted (h : AgreeInside s t) {b : Bufferevent} (hr : s.Reading b) (n k : Nat) :
    AgreeInside ((s.drain n).counted k) ((t.drain n).counted k) := by
  have hr' := h.1.toLive.reading hr
  rw [hr.drain, hr'.drain]
  obtain ⟨ha, hh⟩ := h
  refine ⟨?_, hh⟩
  exact
    { ha with
      line := { ha.line with bev := iff_of_false nofun nofun }
      bev := rfl
      held := nofun
      left := { ha.left with }
      right := { ha.right with }
      header := fun _ => ⟨(ha.header hh).1, by simp only [Session.counted, (ha.header hh).2]⟩
      message := fun hm => { ha.message hm with } }

/-- A chunk that has been checked is stored, and perhaps ends its frame. -/
theorem AgreeInside.alongside_storeChunk (h : AgreeInside s t) (hf : env.NoFault) (buf : Bytes) :
    Alongside Agree
      (do let rc ← handleFrameData env buf
          let s ← get
          if rc = 0 ∧ s.rx.recvFrameLen = s.wsHeader.payloadLen then
            endFrame env
          else
            pure ()) s t := by
  refine alongside_bind (h.alongside_handleFrameData hf buf) (fun rc s' t' h' => ?_)
    fun rc u => (steadies_rules env).endChunk rc u
  obtain ⟨hheader, hlen⟩ := h'.1.header h'.2
  refine simUnless_get_bind (simUnless_ite (by rw [hheader, hlen]) (fun _ => ?_) fun _ => ?_)
  · exact h'.alongside_endFrame hf
  · exact (sim_pure h'.1 _).simUnless

private theorem AgreeInside.alongside_readPayload (h : AgreeInside s t) (hf : env.NoFault)
    {b : Bufferevent} (hr : s.Reading b) : Alongside Agree (readPayload env) s t := by
  have ha := h.1
  obtain ⟨hheader, hlen⟩ := ha.header h.2
  have hrem : t.remaining = s.remaining := by
    rw [Session.remaining, Session.remaining, hheader, hlen]
  have hchunk : t.chunk = s.chunk := by
    rw [Session.chunk, Session.chunk, hrem, hr.inBuf, (ha.toLive.reading hr).inBuf]
  refine simUnless_get_bind ?_
  rw [hrem, hchunk, ← hheader]
  refine simUnless_ite Iff.rfl (fun _ => h.alongside_endFrame hf) fun _ => ?_
  refine simUnless_modify_bind (simUnless_modify_bind ?_)
  exact alongside_bind ((h.counted hr _ _).alongside_checkUtf8 hf _)
    (fun _ s' t' h' => h'.alongside_storeChunk hf _) fun _ u => (steadies_rules env).storeChunk _ u

/-! ## Headers -/

/-- A frame begins alike when the headers are the same. -/
theorem Gathering.frameBegun (h : Gathering s t) (hheader : s.wsHeader = t.wsHeader)
    (hs : s.rx.hasHeader = true) (ht : t.rx.hasHeader = true) :
    AgreeInside s.frameBegun t.frameBegun := by
  have hline : Line False True s t := h.line
  rw [Session.frameBegun, Session.frameBegun, ← hheader, ← h.inMsgFlag]
  split
  · rename_i hc
    refine ⟨?_, hs⟩
    exact
      { h.toLive with
        line := { hline with header := False.elim }
        left := { h.left with ctrlLen := Nat.zero_le _ }
        right := { h.right with ctrlLen := Nat.zero_le _ }
        hasHeader := hs.trans ht.symm
        inMsgFlag := h.inMsgFlag
        binary := h.binary
        header := fun _ => ⟨rfl, rfl⟩
        control := fun _ _ => ⟨rfl, rfl⟩
        data := fun _ hd => absurd hd (by simp [hc])
        message := fun hm => { h.message (hm.resolve_right fun hd => by simp [hc] at hd) with } }
  · split
    · rename_i hm
      refine ⟨?_, hs⟩
      exact
        { h.toLive with
          line := { hline with header := False.elim }
          left := { h.left with }
          right := { h.right with }
          hasHeader := hs.trans ht.symm
          inMsgFlag := h.inMsgFlag
          binary := h.binary
          header := fun _ => ⟨rfl, rfl⟩
          control := fun _ hd => absurd hd ‹_›
          data := fun _ _ => rfl
          message := fun _ => { h.message hm with } }
    · refine ⟨?_, hs⟩
      exact
        { h.toLive with
          line := { hline with header := False.elim }
          left := { h.left with }
          right := { h.right with }
          hasHeader := hs.trans ht.symm
          inMsgFlag := rfl
          binary := h.binary
          header := fun _ => ⟨rfl, rfl⟩
          control := fun _ hd => absurd hd ‹_›
          data := fun _ _ => rfl
          message := fun _ => ⟨rfl, rfl, rfl⟩ }

/-- Both sessions unpack the same header. -/
theorem Live.unpacked (h : Live s t) (input : Bytes) :
    s.unpacked env input = t.unpacked env input := by
  rw [Session.unpacked, Session.unpacked, headerBuf, headerBuf, h.line.scratchPos trivial]

/-- Both sessions store the header. -/
theorem Gathering.headed (h : Gathering s t) (hd : WSHeader) :
    Gathering (s.headed hd) (t.headed hd) :=
  { h.toLive with
    line := { h.line with
      header := False.elim
      scratchPos := fun _ => by simp only [Session.headed, h.line.scratchPos trivial] }
    left := { h.left with }
    right := { h.right with }
    inMsgFlag := h.inMsgFlag
    binary := h.binary
    message := h.message }

/-- A header is accepted by taking its octets off the buffer. -/
theorem Session.Reading.accepted {b : Bufferevent} (hr : s.Reading b) (u : Unpacked) :
    s.accepted u =
      { s.headed u.header with
        rx.hasHeader := true
        bev := some { b with input := b.input.drop u.headerLen } } :=
  Session.Reading.drain (s := { s.headed u.header with rx.hasHeader := true }) hr u.headerLen

/-- Both sessions accept the header. -/
theorem Gathering.accepted (h : Gathering s t) {b : Bufferevent} (hr : s.Reading b)
    (u : Unpacked) : Gathering (s.accepted u) (t.accepted u) := by
  have hd := h.headed u.header
  rw [hr.accepted, (h.toLive.reading hr).accepted]
  exact
    { hd.toLive with
      line := { hd.line with bev := iff_of_false nofun nofun }
      bev := rfl
      held := nofun
      left := { hd.left with }
      right := { hd.right with }
      inMsgFlag := h.inMsgFlag
      binary := h.binary
      message := fun hm => { h.message hm with } }

/-- The header part outside a frame, and what follows it. -/
theorem Agree.alongside_readHeader (h : Agree s t) (hf : env.NoFault) {b : Bufferevent}
    (hr : s.Reading b) (hh : s.rx.hasHeader = false) (input : Bytes) {f : Bool → M Unit}
    (hgo : ∀ s' t' b', AgreeInside s' t' → s'.Reading b' → Alongside Agree (f true) s' t')
    (hstop : f false = pure ()) : Alongside Agree (readHeader env input >>= f) s t := by
  have hh' : t.rx.hasHeader = false := h.hasHeader ▸ hh
  have hg := h.gathering
  have hu : s.unpacked env input = t.unpacked env input := h.toLive.unpacked input
  have hst' : headerState (t.unpacked env input) t.rx.inMsgFlag =
      headerState (s.unpacked env input) s.rx.inMsgFlag := by rw [hu, h.inMsgFlag]
  cases hst : headerState (s.unpacked env input) s.rx.inMsgFlag with
  | success =>
    rw [hst] at hst'
    have hacc := hr.accepted (s.unpacked env input)
    have hacc' := (h.toLive.reading hr).accepted (s.unpacked env input)
    have hbegun := (hg.accepted hr (s.unpacked env input)).frameBegun (by rw [hacc, hacc']; rfl)
      (by rw [hacc]) (by rw [hacc'])
    refine (hgo _ _ { b with input := b.input.drop (s.unpacked env input).headerLen } ?_ ?_).of_eq
      (bind_eq_of_ok (readHeader_begins hf hst)) (bind_eq_of_ok (readHeader_begins hf hst'))
    · rw [← hu]
      exact hbegun
    · refine ⟨?_, hr.2⟩
      rw [hacc, Session.frameBegun]
      split_ifs <;> rfl
  | needMore =>
    rw [hst] at hst'
    have hrest : Alongside Agree (f false) (s.headed (s.unpacked env input).header)
        (t.headed (t.unpacked env input).header) := by
      rw [hstop, ← hu]
      exact (sim_pure ((hg.headed _).agree hh hh') _).simUnless
    exact hrest.of_eq (bind_eq_of_ok (readHeader_waits hst)) (bind_eq_of_ok (readHeader_waits hst'))
  | error =>
    rw [hst] at hst'
    have hrest : Alongside Agree (f false)
        ((s.headed (s.unpacked env input).header).closeStarted env .protocolErr1002 [])
        ((t.headed (t.unpacked env input).header).closeStarted env .protocolErr1002 []) := by
      rw [hstop, ← hu]
      exact simUnless_of_ok rfl rfl ⟨rfl, rfl⟩ ⟨rfl, rfl⟩
        ((hg.headed _).toLive.poised.past_closeStarted _ _)
    exact hrest.of_eq (bind_eq_of_ok (readHeader_refuses hf h.held h.left.sendState hst))
      (bind_eq_of_ok (readHeader_refuses hf h.held' h.right.sendState hst'))
  | userAbort => exact absurd hst (headerState_ne_userAbort _ _ _)

/-! ## The read loop -/

/-- A live session keeps reading. -/
theorem wp_reading {α : Type} {m : M α} {b : Bufferevent} (hr : s.Reading b) (hc : ¬ s.Closed)
    (hm : Moves (Steadies False) AnyTrap m s) :
    wp m (fun _ s' => ∀ b', s'.bev = some b' → s'.Reading b') (fun _ _ => True) s := by
  refine wp_mono hm (fun _ s' h b' hb' => ⟨hb', ?_⟩) fun _ _ _ => trivial
  obtain ⟨b₀, hb₀, hr₀, -⟩ := (h hc).bev b' hb'
  obtain rfl : b = b₀ := Option.some.inj (hr.1.symm.trans hb₀)
  exact hr₀.trans hr.2

private theorem Agree.alongside_readLoop (h : Agree s t) (hf : env.NoFault) {b : Bufferevent}
    (hr : s.Reading b) (n : Nat) : Alongside Agree (readLoop env n) s t := by
  induction n generalizing s t b with
  | zero => exact (sim_pure h _).simUnless
  | succ n ih =>
    have hgo : ∀ s' t' b', AgreeInside s' t' → s'.Reading b' →
        Alongside Agree (do readPayload env; readLoop env n) s' t' := by
      intro s' t' b' h' hr'
      refine alongside_bind (SimUnless.and_left (h'.alongside_readPayload hf hr')
        (wp_reading hr' h'.1.left.not_closed ((steadies_rules env).readPayload s')))
        (fun _ s'' t'' h'' => ?_) fun _ u => (steadies_rules env).readLoop n u
      obtain ⟨b'', hb''⟩ := Option.ne_none_iff_exists'.mp h''.1.held
      exact ih h''.1 (h''.2 b'' hb'')
    have hr' := h.toLive.reading hr
    refine simUnless_get_bind ?_
    rw [if_neg (hr.not_freed env), if_neg (hr'.not_freed env), hr.inBuf, hr'.inBuf]
    refine simUnless_ite Iff.rfl (fun _ => (sim_pure h _).simUnless) fun _ => ?_
    cases hh : s.rx.hasHeader with
    | true =>
      have hh' : t.rx.hasHeader = true := h.hasHeader ▸ hh
      exact SimUnless.of_eq (hgo s t b ⟨h, hh⟩ hr) (bind_eq_of_ok (needHeader_inside hh _))
        (bind_eq_of_ok (needHeader_inside hh' _))
    | false =>
      have hh' : t.rx.hasHeader = false := h.hasHeader ▸ hh
      exact SimUnless.of_eq (h.alongside_readHeader hf hr hh b.input hgo rfl)
        (bind_eq_of_eq (needHeader_outside hh _)) (bind_eq_of_eq (needHeader_outside hh' _))

/-- `ReadWebsocket` takes sessions that agree along the same way. -/
theorem Agree.alongside_readWebsocket (h : Agree s t) (hf : env.NoFault) {b : Bufferevent}
    (hr : s.Reading b) : Alongside Agree (readWebsocket env) s t := by
  refine simUnless_get_bind ?_
  rw [← h.bev, hr.1, hr.inBuf, (h.toLive.reading hr).inBuf]
  exact h.alongside_readLoop hf hr _

end CppImprovement.Ws

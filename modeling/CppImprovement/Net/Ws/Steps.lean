import CppImprovement.Net.Ws.Served

/-!
# What one input can do

A step of a run either settles at once, or begins traffic: it brings the session
into a state from which the code under a read, or a call of the application, moves
within the relation of the previous module. Two relations list all the ways in
which either can happen; `step_spec` says that they are exhaustive, and under which
condition a step dies on a check of the frame reader.
-/

namespace CppImprovement.Ws

variable {env : Env} {keep : Prop} {s : Session}

/-! ## The results of the handshake parser -/

/-- The result of a call of the parser agrees with the connection state it leaves. -/
def Reply.Agrees (r : Reply) : Prop :=
  match r.1 with
  | .needMore => r.2.1.connectState ≠ .handshakeComplete
  | .success => r.2.1.connectState = .handshakeComplete
  | .error => True
  | .userAbort => False

/-- As long as the reply is not complete, neither is the handshake. -/
theorem Reply.Agrees.needMore {r : Reply} (h : r.Agrees) (hr : r.1 = .needMore) :
    r.2.1.connectState ≠ .handshakeComplete := by
  rw [Reply.Agrees, hr] at h
  exact h

/-- With a reply that is accepted the handshake is complete. -/
theorem Reply.Agrees.success {r : Reply} (h : r.Agrees) (hr : r.1 = .success) :
    r.2.1.connectState = .handshakeComplete := by
  rw [Reply.Agrees, hr] at h
  exact h

/-- A reply never makes the application abort. -/
theorem Reply.Agrees.ne_userAbort {r : Reply} (h : r.Agrees) : r.1 ≠ .userAbort := by
  intro hr
  rw [Reply.Agrees, hr] at h
  exact h

private theorem readHttpHeadersLoop_agrees (sha1 : Bytes → Bytes) (n : Nat) (h : Handshake)
    (headerVal input : Bytes) :
    (readHttpHeadersLoop sha1 n h headerVal input).1 ≠ .userAbort ∧
      (readHttpHeadersLoop sha1 n h headerVal input).2.1.connectState = h.connectState := by
  induction n generalizing h headerVal input with
  | zero => exact ⟨by simp [readHttpHeadersLoop], rfl⟩
  | succ n ih =>
    rw [readHttpHeadersLoop]
    split
    · exact ⟨by simp, rfl⟩
    · split
      · exact ⟨by simp, rfl⟩
      · dsimp only
        split
        · exact ⟨by simp, rfl⟩
        · exact ih _ _ _

private theorem checkRequiredHeaders_agrees (h : Handshake) (input : Bytes) :
    (checkRequiredHeaders h input).Agrees := by
  rw [checkRequiredHeaders]
  split
  · trivial
  · split
    · trivial
    · split
      · trivial
      · rfl

private theorem readHeaderStage_agrees (sha1 : Bytes → Bytes) {h : Handshake}
    (hc : h.connectState ≠ .handshakeComplete) (input : Bytes) :
    (readHeaderStage sha1 h input).Agrees := by
  obtain ⟨hab, hst⟩ := readHttpHeadersLoop_agrees sha1 (input.length + 1) h [] input
  rw [readHeaderStage]
  split
  · exact checkRequiredHeaders_agrees _ _
  · rename_i hns
    rw [readHttpHeaders] at hns ⊢
    rw [Reply.Agrees]
    split
    · rw [hst]
      exact hc
    · rename_i hs
      exact (hns _ _ (Prod.ext hs rfl)).elim
    · trivial
    · rename_i hs
      exact hab hs

/-- The result of the handshake parser agrees with the state it leaves. -/
theorem readServerHandshakeReply_agrees (sha1 : Bytes → Bytes) (h : Handshake) (input : Bytes) :
    (readServerHandshakeReply sha1 h input).Agrees := by
  rw [readServerHandshakeReply]
  split
  · rename_i hc
    rw [readStatusStage]
    split
    · rw [Reply.Agrees]
      dsimp only
      rw [hc]
      decide
    · split
      · trivial
      · split
        · trivial
        · split
          · trivial
          · exact readHeaderStage_agrees sha1 (by simp) _
  · rename_i hc
    exact readHeaderStage_agrees sha1 (by simp [hc]) _
  · exact checkRequiredHeaders_agrees _ _
  · trivial

/-! ## Ways to step -/

/-- No connection is open. -/
def Session.Closed (s : Session) : Prop :=
  s.cl.state = .closedCleanly ∨ s.cl.state = .closedUncleanly

/-- The session with bytes appended to its input. -/
def Session.received (s : Session) (b : Bufferevent) (bytes : Bytes) : Session :=
  { s with bev := some { b with input := b.input ++ bytes } }

/-- What the handshake parser makes of the bytes received. -/
def Session.reply (env : Env) (s : Session) (b : Bufferevent) (bytes : Bytes) : Reply :=
  readServerHandshakeReply env.sha1 s.hs (b.input ++ bytes)

/-- What a read makes of the reply agrees with the state it leaves. -/
theorem Session.reply_agrees (env : Env) (s : Session) (b : Bufferevent) (bytes : Bytes) :
    (s.reply env b bytes).Agrees := readServerHandshakeReply_agrees _ _ _

/-- The session after a call of the handshake parser. -/
def Session.replied (env : Env) (s : Session) (b : Bufferevent) (bytes : Bytes) : Session :=
  { s with
    hs := (s.reply env b bytes).2.1
    bev := some { b with input := (s.reply env b bytes).2.2 } }

/-- The session with `onConnect_` called. -/
def Session.announced (s : Session) : Session :=
  { s with cl.state := .connected, io.trace := s.io.trace ++ [.onConnect] }

/-- The session after `OnEofEvent` has read what was left. -/
def Session.ended (s : Session) : Session :=
  { s with
    bev := none
    detached := s.inBuf
    connectTimeoutEvent := .null
    cl.state := if s.cl.receivedCloseFlag = true then s.cl.state else .closedUncleanly }

/-- The input asks for something to be read. -/
def Input.reads : Input → Bool
  | .read _ | .eof => true
  | _ => false

/-- The input is a call of the application. -/
def Input.IsCall : Input → Prop
  | .connect | .close | .send _ => True
  | _ => False

/-- The steps that settle at once. -/
inductive Settles (env : Env) (s : Session) : Input → Session → Prop
  | idle {i : Input} (h : i.reads = true → ∀ b, ¬ s.Reading b) : Settles env s i s
  | opened (hc : s.Closed) (timer : TimerEvent) (callPos : Nat) :
      Settles env s .connect
        { s.connecting with
          connectTimeoutEvent := timer
          io := { s.io with trace := s.io.trace ++ [.opened], callPos := callPos } }
  | requested {b : Bufferevent} (hb : s.bev = some b) (text key : Bytes) (randPos callPos : Nat) :
      Settles env s .connected
        { s with
          bev := some { b with readEnabled := true }
          hs := { s.hs with handshakeKeyBase64 := key, connectState := .sentReq }
          io := { s.io with
            trace := s.io.trace ++ [.request text], randPos := randPos, callPos := callPos } }
  | notRequested {b : Bufferevent} (hb : s.bev = some b) (hf : ¬ env.NoFault) (callPos : Nat) :
      Settles env s .connected
        { s with bev := some { b with readEnabled := true }, io.callPos := callPos }
  | waiting {b : Bufferevent} {bytes : Bytes} (hb : s.Reading b)
      (hc : s.hs.connectState ≠ .handshakeComplete) (hr : (s.reply env b bytes).1 = .needMore) :
      Settles env s (.read bytes) (s.replied env b bytes)
  | ended {b : Bufferevent} (hb : s.Reading b) (hi : b.input = []) : Settles env s .eof s.ended
  | timerFired (hp : s.cl.closeTimeoutEvent = .pending) :
      Settles env s .closeTimeout { s with cl.closeTimeoutEvent := .fired }
  | timedOut (hp : s.cl.closeTimeoutEvent = .pending) :
      Settles env s .closeTimeout
        { s with
          cl.closeTimeoutEvent := .fired
          bev := none
          detached := s.inBuf
          connectTimeoutEvent := .null }

/-- The steps that begin traffic, with the state it begins in. -/
inductive Begins (env : Env) (s : Session) : Input → Session → Prop
  | closing : Begins env s .close { s with cl.state := .closing }
  | sending {msg : Bytes} : Begins env s (.send msg) s
  | received {b : Bufferevent} {bytes : Bytes} (hb : s.Reading b)
      (hc : s.hs.connectState = .handshakeComplete) :
      Begins env s (.read bytes) (s.received b bytes)
  | announced {b : Bufferevent} {bytes : Bytes} (hb : s.Reading b)
      (hc : s.hs.connectState ≠ .handshakeComplete) (hr : (s.reply env b bytes).1 = .success) :
      Begins env s (.read bytes) (s.replied env b bytes).announced
  | leftover {b : Bufferevent} (hb : s.Reading b) (hi : b.input ≠ []) : Begins env s .eof s

/-- What is done after the traffic. -/
def Input.finish : Input → Session → Session
  | .eof, s => s.ended
  | _, s => s

/-- The read in which the handshake is refused. -/
def Refused (env : Env) (s : Session) : Input → Prop
  | .read bytes => ∃ b, s.Reading b ∧ s.hs.connectState ≠ .handshakeComplete ∧
      (s.reply env b bytes).1 = .error
  | _ => False

/-- What a completed step has done. -/
def Stepped (env : Env) (keep : Prop) (s : Session) (i : Input) (s' : Session) : Prop :=
  Settles env s i s' ∨
    ∃ s₀ s₁, Begins env s i s₀ ∧ s₀.Sane ∧ Served keep i.IsCall s₀ s₁ ∧ s' = i.finish s₁

/-- What a step that ended in `trap` has done. -/
def Trapped (env : Env) (keep : Prop) (s : Session) (i : Input) (trap : Trap) (s' : Session) :
    Prop :=
  (Settles env s i s' ∧ Mild trap) ∨
    (∃ s₀, Begins env s i s₀ ∧ s₀.Sane ∧ Served keep i.IsCall s₀ s' ∧ (keep → Mild trap)) ∨
      (Refused env s i ∧ trap = .check .readWebsocketBev ∧ s'.io = s.io ∧ s'.rx = s.rx)

/-! ## Sessions between two inputs -/

/-- What holds of a session between two inputs, whatever happened to it. -/
structure Session.Tidy (s : Session) : Prop where
  sendState : s.tx.sendState = .none
  ctrlLen : s.rx.ctrlLen ≤ WS_CONTROL_MAX_PAYLOAD_LEN
  reasonLen : s.cl.serverReasonLen + 2 ≤ WS_CONTROL_MAX_PAYLOAD_LEN
  closed : s.Closed → s.bev = none

/-- A session that can go on is not closed. -/
theorem Session.Sane.not_closed (h : s.Sane) : ¬ s.Closed :=
  fun hc => hc.elim h.notClosedCleanly h.notClosedUncleanly

/-- A session that can go on is tidy. -/
theorem Session.Sane.tidy (h : s.Sane) : s.Tidy :=
  ⟨h.sendState, h.ctrlLen, h.reasonLen, fun hc => absurd hc h.not_closed⟩

/-- A tidy session that is not closed can go on. -/
theorem Session.Tidy.sane (h : s.Tidy) (hc : ¬ s.Closed) : s.Sane :=
  ⟨fun hs => hc (Or.inl hs), fun hs => hc (Or.inr hs), h.sendState, h.ctrlLen, h.reasonLen⟩

/-- A tidy session with a bufferevent can go on. -/
theorem Session.Tidy.sane_of_bev (h : s.Tidy) {b : Bufferevent} (hb : s.bev = some b) : s.Sane :=
  h.sane fun hc => by simp [h.closed hc] at hb

/-- The step of `i` ends in one of the ways listed. -/
def Listed (env : Env) (keep : Prop) (s : Session) (i : Input) : Prop :=
  wp (step env i) (fun _ => Stepped env keep s i) (fun e => Trapped env keep s i e) s

/-- The frame reader's checks hold when the bufferevent is kept. -/
def MildIf (keep : Prop) (trap : Trap) : Prop := keep → Mild trap

/-- Traffic as a whole step. -/
theorem wp_begins {i : Input} {s₀ : Session} {m : M Unit} (hb : Begins env s i s₀)
    (hs : s₀.Sane) (hm : Moves (Serves keep i.IsCall) (MildIf keep) m s₀)
    (hi : ∀ t, i.finish t = t) :
    wp m (fun _ => Stepped env keep s i) (fun e => Trapped env keep s i e) s₀ := by
  refine wp_mono hm (fun _ t ht => ?_) (fun e t ht => ?_)
  · exact Or.inr ⟨s₀, t, hb, hs, ht hs, (hi t).symm⟩
  · exact Or.inr (Or.inl ⟨s₀, hb, hs, ht.1 hs, ht.2⟩)

private theorem listed_connect (s : Session) : Listed env keep s .connect := by
  by_cases hc : s.Closed
  · have hst : ¬ (s.cl.state ≠ .closedCleanly ∧ s.cl.state ≠ .closedUncleanly) := by
      rintro ⟨h, h'⟩
      exact hc.elim h h'
    simp only [Listed, step, runCall, doConnect, setupConnectionTimeout, callFails, emit, wp_bind,
      wp_get, wp_ite, wp_modify, wp_modifyGet, wp_pure, if_neg hst]
    split
    · exact Or.inl (.opened hc .null _)
    · split
      · exact Or.inl (.opened hc .null _)
      · exact Or.inl (.opened hc .pending _)
  · have hst : s.cl.state ≠ .closedCleanly ∧ s.cl.state ≠ .closedUncleanly :=
      ⟨fun h => hc (Or.inl h), fun h => hc (Or.inr h)⟩
    simp only [Listed, step, runCall, doConnect, wp_bind, wp_get, wp_ite, if_pos hst, wp_pure]
    exact Or.inl (.idle fun h => by cases h)

/-- Closing does not look at the state it overwrites. -/
theorem runCall_close_closing (env : Env) (s : Session) :
    runCall env .close s = runCall env .close { s with cl.state := .closing } := rfl

private theorem listed_close (hk : keep → env.NoFault) (ht : s.Tidy) :
    Listed env keep s .close := by
  have hs : Session.Sane { s with cl.state := .closing } :=
    ⟨by simp, by simp, ht.sendState, ht.ctrlLen, ht.reasonLen⟩
  have hm : Moves (Serves keep True) Mild (runCall env .close) { s with cl.state := .closing } :=
    serves_runCall hk .close _
  rw [Listed, wp, step, runCall_close_closing]
  exact wp_begins .closing hs (hm.imp_fail fun _ h _ => h) fun _ => rfl

/-- A session on which nothing is open dies on a check when it is to send. -/
theorem listed_send (hk : keep → env.NoFault) (ht : s.Tidy) (msg : Bytes) :
    Listed env keep s (.send msg) := by
  by_cases hc : s.Closed
  · have hn : s.cl.state ≠ .connected := by
      rcases hc with h | h <;> simp [h]
    simp only [Listed, step, runCall, doSendMsg, sendMsgEx, wp_bind, wp_get, wp_ite, if_pos hn,
      wp_throw]
    exact Or.inl ⟨.idle fun h => (by cases h), by decide⟩
  · have hm : Moves (Serves keep True) Mild (runCall env (.send msg)) s := serves_runCall hk _ s
    exact wp_begins .sending (ht.sane hc) (hm.imp_fail fun _ h _ => h) fun _ => rfl

private theorem listed_connected (s : Session) : Listed env keep s .connected := by
  have hidle : Settles env s .connected s := .idle fun h => by cases h
  rw [Listed, step, wp_bind, wp_get]
  cases hb : s.bev with
  | none => exact Or.inl hidle
  | some b =>
    dsimp only
    rw [wp_ite]
    split
    · exact Or.inl hidle
    · simp only [onConnectEvent, sendHandshake, generateHandshakeKey, getRandomMask, callFails,
        emit, wp_bind, wp_modify, wp_modifyGet, wp_get, wp_ite, wp_pure, hb, Option.map_some]
      have hkey : encodeBase64 ((List.range' s.io.randPos 16).map env.rand) ≠ [] := by
        rw [ne_eq, encodeBase64_eq_nil]
        simp
      split
      · rename_i hf
        exact Or.inl (.notRequested hb (fun h => by simp [h s.io.callPos] at hf) _)
      · exact Or.inl (.requested hb _ _ _ _)

/-- The session is shut down and, unless the peer closed it, marked as closed. -/
theorem wp_ended {Q : Unit → Session → Prop} {E : Trap → Session → Prop} (t : Session) :
    wp (do
      shutDown
      let s ← get
      if s.cl.receivedCloseFlag = true then
        pure ()
      else
        modify fun s => { s with cl.state := .closedUncleanly }) Q E t ↔ Q ⟨⟩ t.ended := by
  rw [wp_bind, shutDown, wp_modify, wp_bind, wp_get, wp_ite, wp_pure, wp_modify, Session.ended]
  split <;> rfl

private theorem listed_eof (hk : keep → env.NoFault) (ht : s.Tidy) : Listed env keep s .eof := by
  rw [Listed, step, wp_bind, wp_get]
  cases hb : s.bev with
  | none =>
    refine Or.inl (.idle fun _ b h => ?_)
    rw [h.1] at hb
    cases hb
  | some b =>
    dsimp only
    rw [wp_ite]
    split
    · rename_i hr
      rw [onEofEvent, wp_bind, wp_get]
      simp only [hb]
      rw [wp_bind, readLeftover]
      simp only [wp_ended, wp_ite]
      split
      · rename_i hi
        exact Or.inl (.ended ⟨hb, hr⟩ hi)
      · rename_i hi
        have hs := ht.sane_of_bev hb
        have hm := serves_readWebsocket hk (s := s) (by simp [hb])
        refine wp_mono hm (fun _ t h => ?_) (fun e t h => ?_)
        · exact Or.inr ⟨s, t, .leftover ⟨hb, hr⟩ hi, hs, h hs, rfl⟩
        · exact Or.inr (Or.inl ⟨s, .leftover ⟨hb, hr⟩ hi, hs, h.1 hs, fun _ => h.2⟩)
    · rename_i hr
      refine Or.inl (.idle fun _ b' h => hr ?_)
      rw [h.1] at hb
      cases hb
      exact h.2

private theorem listed_closeTimeout (s : Session) : Listed env keep s .closeTimeout := by
  rw [Listed, step, wp_bind, wp_get, wp_ite]
  split
  · rename_i hp
    rw [wp_bind, wp_modify, onCloseTimeout, wp_bind, wp_get, wp_ite]
    split
    · exact Or.inl ⟨.timerFired hp, by decide⟩
    · exact Or.inl (.timedOut hp)
  · exact Or.inl (.idle fun h => by cases h)

/-- The calls of the connect handler serve. -/
theorem serves_onConnectCalls (hk : keep → env.NoFault) (trace : List Event) (s : Session) :
    Moves (Serves keep True) Mild
      (match env.app.onConnect with
      | none => pure ()
      | some handler => runCalls env (handler trace)) s := by
  split
  · exact moves_pure Serves.refl _ _
  · exact serves_runCalls hk _ _

/-- The frame reader, when the bufferevent may have been given up. -/
theorem serves_readWebsocket_lossy (hk : keep → env.NoFault) (s : Session)
    (hb : keep → s.bev ≠ none) :
    Moves (Serves keep False) (MildIf keep) (readWebsocket env) s := by
  by_cases h : s.bev = none
  · rw [Moves, readWebsocket, wp_bind, wp_get]
    simp only [h]
    exact ⟨Serves.refl s, fun hkeep => absurd h (hb hkeep)⟩
  · exact (serves_readWebsocket hk h).imp_fail fun _ ht _ => ht

private theorem listed_read (hk : keep → env.NoFault) (ht : s.Tidy) (bytes : Bytes) :
    Listed env keep s (.read bytes) := by
  rw [Listed, step, wp_bind, wp_get]
  cases hb : s.bev with
  | none =>
    refine Or.inl (.idle fun _ b h => ?_)
    rw [h.1] at hb
    cases hb
  | some b =>
    dsimp only
    rw [wp_ite]
    split
    · rename_i hr
      have hs := ht.sane_of_bev hb
      rw [wp_bind, wp_modify, onRead, wp_bind, wp_get]
      dsimp only
      rw [wp_ite]
      split
      · rename_i hc
        rw [wp_bind, wp_modify]
        split
        · rename_i hres
          rw [wp_bind, shutDown, wp_modify, readWebsocket, wp_bind, wp_get]
          exact Or.inr (Or.inr ⟨⟨b, ⟨hb, hr⟩, hc, hres⟩, rfl, rfl, rfl⟩)
        · rename_i hres
          exact Or.inl (.waiting ⟨hb, hr⟩ hc hres)
        · rename_i hres
          rw [wp_bind, wp_modify, wp_bind]
          have hann : Session.Sane (s.replied env b bytes).announced :=
            { hs with
              notClosedCleanly := by simp [Session.announced]
              notClosedUncleanly := by simp [Session.announced] }
          have hbeg : Begins env s (.read bytes) (s.replied env b bytes).announced :=
            .announced ⟨hb, hr⟩ hc hres
          rw [callOnConnect, wp_bind, emit, wp_modify, wp_bind, wp_get]
          refine wp_mono (serves_onConnectCalls hk _ _) (fun _ t h => ?_) (fun e t h => ?_)
          · have hcalls := h hann
            refine wp_mono (serves_readWebsocket_lossy hk t ?_) (fun _ t' h' => ?_)
              (fun e t' h' => ?_)
            · exact fun hkeep => hcalls.live hkeep (Option.some_ne_none _)
            · exact Or.inr ⟨_, t', hbeg, hann, hcalls.loud.trans (h' hcalls.sane), rfl⟩
            · exact Or.inr (Or.inl ⟨_, hbeg, hann, hcalls.loud.trans (h'.1 hcalls.sane), h'.2⟩)
          · exact Or.inr (Or.inl ⟨_, hbeg, hann, (h.1 hann).loud, fun _ => h.2⟩)
        · rename_i hres
          exact absurd hres (s.reply_agrees env b bytes).ne_userAbort
      · rename_i hc
        rw [ne_eq, not_not] at hc
        refine wp_begins (.received ⟨hb, hr⟩ hc) { hs with } ?_ fun _ => rfl
        exact serves_readWebsocket_lossy hk _ fun _ => by simp
    · rename_i hr
      refine Or.inl (.idle fun _ b' h => hr ?_)
      rw [h.1] at hb
      cases hb
      exact h.2

/-- Every step of a tidy session ends in one of the ways listed. -/
theorem step_listed (hk : keep → env.NoFault) (ht : s.Tidy) (i : Input) : Listed env keep s i := by
  cases i with
  | connect => exact listed_connect s
  | close => exact listed_close hk ht
  | send msg => exact listed_send hk ht msg
  | connected => exact listed_connected s
  | read bytes => exact listed_read hk ht bytes
  | eof => exact listed_eof hk ht
  | error => exact Or.inl (.idle fun h => by cases h)
  | closeTimeout => exact listed_closeTimeout s
  | connectTimeout => exact Or.inl (.idle fun h => by cases h)

/-! ## Tidiness is kept -/

/-- A step that settles leaves the session tidy. -/
theorem Session.Tidy.settles (ht : s.Tidy) {i : Input} {s' : Session}
    (h : Settles env s i s') : s'.Tidy := by
  cases h with
  | idle => exact ht
  | opened =>
    exact { ht with closed := fun hc => by simp [Session.Closed, Session.connecting] at hc }
  | requested hb => exact { ht with closed := fun hc => absurd hc (ht.sane_of_bev hb).not_closed }
  | notRequested hb =>
    exact { ht with closed := fun hc => absurd hc (ht.sane_of_bev hb).not_closed }
  | waiting hb => exact { ht with closed := fun hc => absurd hc (ht.sane_of_bev hb.1).not_closed }
  | ended => exact { ht with closed := fun _ => rfl }
  | timerFired => exact { ht with }
  | timedOut => exact { ht with closed := fun _ => rfl }

private theorem Session.Sane.finish_tidy (h : s.Sane) (i : Input) : (i.finish s).Tidy := by
  cases i with
  | eof => exact { h.tidy with closed := fun _ => rfl }
  | _ => exact h.tidy

/-- A completed step leaves a tidy session. -/
theorem Stepped.tidy (ht : s.Tidy) {i : Input} {s' : Session} (h : Stepped env keep s i s') :
    s'.Tidy := by
  rcases h with h | ⟨s₀, s₁, _, _, hserved, rfl⟩
  · exact ht.settles h
  · exact hserved.sane.finish_tidy i

end CppImprovement.Ws

import CppImprovement.Net.Ws.Steps

/-!
# The life of a session

Invariants of whole runs of a session that `DoInit` has set up, for every order of
inputs. Each one says what a step that settles, traffic, and the end of a
connection keep; the rule `wp_run` carries it through the run. Where an input can
break the property, the condition on the inputs that keeps it is part of the
statement.
-/

namespace CppImprovement.Ws

variable {env : Env} {keep : Prop} {s s' s₀ s₁ : Session} {i : Input}

/-! ## Runs of a new session -/

/-- The session that `DoInit` has set up. -/
def Session.initialised : Session := { cl := { state := .closedCleanly }, io := { callPos := 2 } }

/-- There is one way for `DoInit` to succeed. -/
theorem eq_initialised (h : doInit env {} = .ok 0 s₀) : s₀ = Session.initialised := by
  have hwp : wp (doInit env) (fun rc t => rc = 0 → t = Session.initialised)
      (fun _ _ => True) {} := by
    simp only [doInit, callFails, wp_bind, wp_modify, wp_modifyGet, wp_ite, wp_pure]
    split
    · exact fun hrc => absurd hrc (by decide)
    · split
      · exact fun hrc => absurd hrc (by decide)
      · exact fun _ => rfl
  rw [wp, h] at hwp
  exact hwp rfl

/-- A session that `DoInit` has made is tidy. -/
theorem tidy_initialised : Session.initialised.Tidy where
  sendState := rfl
  ctrlLen := Nat.zero_le _
  reasonLen := by decide
  closed := fun _ => rfl

/-- A property that completed steps keep, under a condition on the inputs, holds at the end of
every run that meets the condition; `E` is what failing steps establish. -/
theorem wp_run (hk : keep → env.NoFault) {I : Session → Prop} {E : Trap → Session → Prop}
    {C : Input → Session → Prop}
    (hok : ∀ {i s s'}, s.Tidy → I s → C i s → Stepped env keep s i s' → I s')
    (htrap : ∀ {i s e s'}, s.Tidy → I s → C i s → Trapped env keep s i e s' → E e s')
    {inputs : List Input} (ht : s.Tidy) (hI : I s) (hC : Along C (step env) inputs s) :
    wp (run env inputs) (fun _ t => t.Tidy ∧ I t) E s := by
  refine wp_runAll (I := fun t => t.Tidy ∧ I t) (fun i t h hc => ?_) ⟨ht, hI⟩ hC
  refine wp_mono (step_listed hk h.1 i) (fun _ t' hstep => ?_) (fun e t' hstep => ?_)
  · exact ⟨hstep.tidy h.1, hok h.1 h.2 hc hstep⟩
  · exact htrap h.1 h.2 hc hstep

/-- A run without a condition. -/
theorem along_true (step : Input → M Unit) (inputs : List Input) (s : Session) :
    Along (fun _ _ => True) step inputs s :=
  along_of_forall (fun _ _ => trivial) s

/-- Every session that a run has reached is tidy. -/
theorem tidy_run (h0 : doInit env {} = .ok 0 s₀) {inputs : List Input}
    (h : run env inputs s₀ = .ok ⟨⟩ s) : s.Tidy := by
  rw [eq_initialised h0] at h
  have hrun : wp (run env inputs) (fun _ t => t.Tidy ∧ True) (fun _ _ => True)
      Session.initialised :=
    wp_run (fun h : False => h.elim) (fun _ _ _ _ => trivial) (fun _ _ _ _ => trivial)
      tidy_initialised trivial (along_true _ _ _)
  rw [wp, h] at hrun
  exact hrun.1

/-- A reply that the handshake accepts when the digest is all zero. -/
def plainReply : Bytes :=
  ascii ("HTTP/1.1 101 OK\r\nUpgrade: websocket\r\nConnection: Upgrade\r\n" ++
    "Sec-WebSocket-Accept: AAAAAAAAAAAAAAAAAAAAAAAAAAA=\r\n\r\n")

/-- The inputs of a connection on which the server sends `stream` behind its reply. -/
def replyThen (stream : Bytes) : List Input :=
  [.connect, .connected, .read (plainReply ++ stream)]

/-! ## The control payload buffer -/

/-- A step that settles stores nothing into `ctrlPayload_`. -/
theorem Settles.ctrl (h : Settles env s i s') :
    s'.rx.ctrlWrites = s.rx.ctrlWrites ∧ s'.rx.closeEntries = s.rx.closeEntries ∧
      s'.rx.ctrlLen = s.rx.ctrlLen := by
  cases h <;> exact ⟨rfl, rfl, rfl⟩

/-- The begin of traffic stores nothing into `ctrlPayload_`. -/
theorem Begins.ctrl (h : Begins env s i s₀) :
    s₀.rx.ctrlWrites = s.rx.ctrlWrites ∧ s₀.rx.closeEntries = s.rx.closeEntries := by
  cases h <;> exact ⟨rfl, rfl⟩

private theorem Input.finish_rx (i : Input) (s : Session) : (i.finish s).rx = s.rx := by
  cases i <;> rfl

/-- The stores into `ctrlPayload_` since `s₀` are within bounds, full Close frames apart. -/
structure CtrlSince (s₀ s : Session) : Prop where
  ctrlLen : s.rx.ctrlLen ≤ WS_CONTROL_MAX_PAYLOAD_LEN
  stores : ∃ ws es, s.rx.ctrlWrites = s₀.rx.ctrlWrites ++ ws ∧
    s.rx.closeEntries = s₀.rx.closeEntries ++ es ∧ CtrlBounded ws es

/-- A step that settles keeps the stores within bounds. -/
theorem CtrlSince.settles {s₀ : Session} (h : CtrlSince s₀ s) (hs : Settles env s i s') :
    CtrlSince s₀ s' := by
  obtain ⟨hw, hl, hn⟩ := hs.ctrl
  refine ⟨by rw [hn]; exact h.ctrlLen, ?_⟩
  rw [hw, hl]
  exact h.stores

/-- Traffic keeps the stores within bounds. -/
theorem CtrlSince.served {quiet : Prop} {s₂ : Session} (h : CtrlSince s₂ s)
    (hb : Begins env s i s₀) (hs : Served keep quiet s₀ s₁) : CtrlSince s₂ s₁ := by
  obtain ⟨ws, es, hw, hl, hc⟩ := h.stores
  obtain ⟨ws', es', hw', hl', hc'⟩ := hs.ctrl
  obtain ⟨hw₀, hl₀⟩ := hb.ctrl
  refine ⟨hs.sane.ctrlLen, ws ++ ws', es ++ es', ?_, ?_, hc.append hc'⟩
  · rw [hw', hw₀, hw, List.append_assoc]
  · rw [hl', hl₀, hl, List.append_assoc]

/-- Whatever happens to a session, its stores into `ctrlPayload_` are as described. -/
theorem ctrlSince_run (env : Env) (ht : s.Tidy)
    (hlen : s.rx.ctrlLen ≤ WS_CONTROL_MAX_PAYLOAD_LEN) (inputs : List Input) :
    CtrlSince s (finalState (run env inputs s)) := by
  refine wp_final.mp ?_
  have hstart : CtrlSince s s :=
    ⟨hlen, [], [], (List.append_nil _).symm, (List.append_nil _).symm, CtrlBounded.nil⟩
  refine wp_mono (wp_run (I := CtrlSince s) (E := fun _ => CtrlSince s)
    (fun h : False => h.elim) ?_ ?_ ht hstart (along_true _ _ _)) (fun _ t h => h.2) fun _ t h => h
  · rintro i u u' _ h _ (hs | ⟨u₀, u₁, hb, _, hserved, rfl⟩)
    · exact h.settles hs
    · have hu := h.served hb hserved
      exact ⟨by rw [Input.finish_rx]; exact hu.ctrlLen, by rw [Input.finish_rx]; exact hu.stores⟩
  · rintro i u e u' _ h _ (⟨hs, _⟩ | ⟨u₀, hb, _, hserved, _⟩ | ⟨_, _, _, hrx⟩)
    · exact h.settles hs
    · exact h.served hb hserved
    · exact ⟨by rw [hrx]; exact h.ctrlLen, by rw [hrx]; exact h.stores⟩

/-! ## No message before the handshake -/

/-- `onConnect_` has been called on the connection opened last. -/
def Announced (past : List Event) : Prop :=
  ∃ before since, past = before ++ .onConnect :: since ∧ .opened ∉ since

/-- Every message was delivered after `onConnect_` had been called on its connection. -/
def MessagesAnnounced (trace : List Event) : Prop :=
  ∀ past payload binary future, trace = past ++ .onMessage payload binary :: future →
    Announced past

/-- An announcement lasts until the next connection is opened. -/
theorem Announced.append {past evs : List Event} (h : Announced past) (he : .opened ∉ evs) :
    Announced (past ++ evs) := by
  obtain ⟨before, since, rfl, hs⟩ := h
  refine ⟨before, since ++ evs, by simp, ?_⟩
  rw [List.mem_append]
  exact fun hm => hm.elim hs he

private theorem announced_onConnect (past : List Event) : Announced (past ++ [.onConnect]) :=
  ⟨past, [], rfl, by simp⟩

/-- Events behind a good trace keep it good when each message among them is announced. -/
theorem MessagesAnnounced.append {trace evs : List Event} (h : MessagesAnnounced trace)
    (he : ∀ past payload binary future, evs = past ++ .onMessage payload binary :: future →
      Announced (trace ++ past)) : MessagesAnnounced (trace ++ evs) := by
  intro past payload binary future heq
  rcases List.append_eq_append_iff.mp heq with ⟨mid, rfl, hevs⟩ | ⟨mid, rfl, hmid⟩
  · exact he mid payload binary future hevs
  · cases mid with
    | nil =>
      have hp := he [] payload binary future hmid.symm
      rwa [List.append_nil, List.append_nil] at hp
    | cons e mid =>
      rw [List.cons_append, List.cons.injEq] at hmid
      obtain ⟨rfl, rfl⟩ := hmid
      exact h past payload binary mid rfl

/-- Events that are no messages need no announcement. -/
theorem MessagesAnnounced.quiet {trace evs : List Event} (h : MessagesAnnounced trace)
    (he : ∀ e ∈ evs, e.isMessage = false) : MessagesAnnounced (trace ++ evs) := by
  refine h.append fun past payload binary future heq => ?_
  have hm := he (.onMessage payload binary) (by simp [heq])
  exact absurd hm (by simp [Event.isMessage])

private theorem Event.isMessage_of_isSent {e : Event} (h : e.isSent = true) :
    e.isMessage = false := by
  cases e <;> first | rfl | cases h

private theorem Event.ne_opened_of_traffic {e : Event} (h : e.isSent = true ∨ e.isMessage = true) :
    e ≠ .opened := by
  rintro rfl
  rcases h with h | h <;> cases h

/-- Messages on an announced connection are announced. -/
theorem MessagesAnnounced.traffic {trace evs : List Event} (h : MessagesAnnounced trace)
    (ha : Announced trace) (he : .opened ∉ evs) : MessagesAnnounced (trace ++ evs) := by
  refine h.append fun past payload binary future heq => ha.append fun hm => he ?_
  rw [heq]
  exact List.mem_append_left _ hm

/-- At the end of a stream before the handshake is complete, nothing is left to read. -/
def EofAfterHandshake : Input → Session → Prop
  | .eof, s => s.hs.connectState = .handshakeComplete ∨ ∀ b ∈ s.bev, b.input = []
  | _, _ => True

instance : ∀ i s, Decidable (EofAfterHandshake i s)
  | .eof, s => inferInstanceAs
      (Decidable (s.hs.connectState = .handshakeComplete ∨ ∀ b ∈ s.bev, b.input = []))
  | .connect, _ | .close, _ | .send _, _ | .connected, _ | .read _, _ | .error, _
  | .closeTimeout, _ | .connectTimeout, _ => isTrue trivial

/-- The messages so far were announced, and messages that can still come are. -/
structure Session.InOrder (s : Session) : Prop where
  messages : MessagesAnnounced s.io.trace
  complete : ∀ b, s.Reading b → s.hs.connectState = .handshakeComplete → Announced s.io.trace

/-- A step that settles keeps the order. -/
theorem Session.InOrder.settles (h : s.InOrder) (hf : env.NoFault) (hs : Settles env s i s') :
    s'.InOrder := by
  cases hs with
  | idle => exact h
  | opened =>
    refine ⟨h.messages.quiet (by simp [Event.isMessage]), fun b hb => ?_⟩
    obtain ⟨rfl, hr⟩ := And.imp_left Option.some.inj hb
    cases hr
  | requested hb =>
    exact ⟨h.messages.quiet (by simp [Event.isMessage]), fun b _ hc => by cases hc⟩
  | notRequested _ hn => exact absurd hf hn
  | @waiting b₀ bytes _ _ hr =>
    refine ⟨h.messages, fun b _ hcomplete => ?_⟩
    exact absurd hcomplete ((s.reply_agrees env b₀ bytes).needMore hr)
  | ended => exact ⟨h.messages, fun b hb => by cases hb.1⟩
  | timerFired => exact ⟨h.messages, h.complete⟩
  | timedOut => exact ⟨h.messages, fun b hb => by cases hb.1⟩

/-- Once `onConnect_` has been called, traffic is in order. -/
theorem Served.inOrder {quiet : Prop} (hs : Served keep quiet s₀ s₁)
    (hm : MessagesAnnounced s₀.io.trace) (ha : Announced s₀.io.trace) : s₁.InOrder := by
  obtain ⟨evs, he, hevs⟩ := hs.trace
  have ho : .opened ∉ evs := fun hmem =>
    Event.ne_opened_of_traffic ((hevs _ hmem).imp_right And.right) rfl
  refine ⟨?_, fun _ _ _ => ?_⟩
  · rw [he]
    exact hm.traffic ha ho
  · rw [he]
    exact ha.append ho

/-- Calls of the application deliver nothing. -/
theorem Session.InOrder.calls (h : s₀.InOrder) (hs : Served keep True s₀ s₁) : s₁.InOrder := by
  obtain ⟨evs, he, hevs⟩ := hs.trace
  have hsent : ∀ e ∈ evs, e.isSent = true := fun e hmem =>
    (hevs e hmem).resolve_right fun hq => hq.1 trivial
  refine ⟨?_, fun b hb hc => ?_⟩
  · rw [he]
    exact h.messages.quiet fun e hmem => Event.isMessage_of_isSent (hsent e hmem)
  · obtain ⟨b₀, hb₀, hr⟩ := hs.bev b hb.1
    rw [he]
    rw [hs.hs] at hc
    refine (h.complete b₀ ⟨hb₀, hr.symm.trans hb.2⟩ hc).append fun hmem => ?_
    exact Event.ne_opened_of_traffic (Or.inl (hsent _ hmem)) rfl

/-- Traffic keeps the order. -/
theorem Session.InOrder.served (h : s.InOrder) (hC : EofAfterHandshake i s)
    (hb : Begins env s i s₀) (hs : Served keep i.IsCall s₀ s₁) : s₁.InOrder := by
  cases hb with
  | closing =>
    have h₀ : Session.InOrder { s with cl.state := .closing } := ⟨h.messages, h.complete⟩
    exact h₀.calls hs
  | sending => exact h.calls hs
  | received hb hc => exact hs.inOrder h.messages (h.complete _ hb hc)
  | announced =>
    exact hs.inOrder (h.messages.quiet (by simp [Event.isMessage])) (announced_onConnect _)
  | leftover hb hi =>
    have hc := hC.resolve_right fun hn => hi (hn _ hb.1)
    exact hs.inOrder h.messages (h.complete _ hb hc)

/-- So does the end of an input. -/
theorem Session.InOrder.finish (h : s.InOrder) (i : Input) : (i.finish s).InOrder := by
  cases i with
  | eof => exact ⟨h.messages, fun b hb => by cases hb.1⟩
  | _ => exact h

/-- In every run in which no library call fails and no stream ends with bytes left to read before
the handshake is complete, every message is delivered after `onConnect_` on its connection. -/
theorem message_after_handshake (hf : env.NoFault) (h0 : doInit env {} = .ok 0 s₀)
    {inputs : List Input} (hC : Along EofAfterHandshake (step env) inputs s₀) :
    MessagesAnnounced (finalState (run env inputs s₀)).io.trace := by
  rw [eq_initialised h0] at hC ⊢
  have hinit : Session.initialised.InOrder :=
    ⟨fun past payload binary future h => by simp [Session.initialised] at h,
      fun b hb => by cases hb.1⟩
  have hrun := wp_run (I := Session.InOrder) (E := fun _ t => MessagesAnnounced t.io.trace)
    (C := EofAfterHandshake) (fun _ : True => hf) ?_ ?_ tidy_initialised hinit hC
  · exact wp_final.mp (wp_mono hrun (fun _ t h => h.2.messages) (fun _ t h => h))
  · rintro i s s' _ h hc (hs | ⟨s₀, s₁, hb, _, hserved, rfl⟩)
    · exact h.settles hf hs
    · exact (h.served hc hb hserved).finish i
  · rintro i s e s' _ h hc (⟨hs, _⟩ | ⟨s₀, hb, _, hserved, _⟩ | ⟨_, _, hio, _⟩)
    · exact (h.settles hf hs).messages
    · exact (h.served hc hb hserved).messages
    · rw [hio]
      exact h.messages

/-- An application that listens and makes no calls. -/
def listener : Env := { app := { onMessage := some fun _ => [] } }

/-- A message that comes instead of the reply is delivered at the end of the stream. -/
theorem message_before_handshake :
    ¬ ∀ (env : Env) (s₀ : Session) (inputs : List Input), env.NoFault →
      doInit env {} = .ok 0 s₀ → MessagesAnnounced (finalState (run env inputs s₀)).io.trace := by
  intro h
  let trace := (finalState (run listener [.connect, .connected, .read [0x81, 0x01, 0x41], .eof]
    Session.initialised)).io.trace
  have htrace : trace = trace.take 2 ++ .onMessage [0x41] false :: [] := by decide +kernel
  obtain ⟨before, since, heq, -⟩ := h listener Session.initialised
    [.connect, .connected, .read [0x81, 0x01, 0x41], .eof] (fun _ => rfl) rfl _ _ _ _ htrace
  have hmem : Event.onConnect ∈ trace.take 2 := by
    rw [heq]
    simp
  exact absurd hmem (by decide +kernel)

/-- A message behind the reply comes in order. -/
theorem message_after_handshake_listener :
    Along EofAfterHandshake (step listener) (replyThen [0x81, 0x01, 0x41] ++ [.eof])
      Session.initialised ∧
    MessagesAnnounced (finalState (run listener (replyThen [0x81, 0x01, 0x41] ++ [.eof])
      Session.initialised)).io.trace := by
  have hC : Along EofAfterHandshake (step listener) (replyThen [0x81, 0x01, 0x41] ++ [.eof])
      Session.initialised := by decide +kernel
  exact ⟨hC, message_after_handshake (fun _ => rfl) rfl hC⟩

/-! ## Failed checks of the frame reader -/

/-- The server's bytes arriving in reads, and then perhaps the end of the stream. -/
def serverInputs (reads : List Bytes) (eof : Bool) : List Input :=
  reads.map .read ++ if eof then [.eof] else []

private theorem reads_serverInputs (reads : List Bytes) (eof : Bool) :
    ∀ i ∈ serverInputs reads eof, i.reads = true := by
  intro i hi
  rcases List.mem_append.mp hi with hi | hi
  · obtain ⟨r, _, rfl⟩ := List.mem_map.mp hi
    rfl
  · cases eof with
    | false => cases hi
    | true =>
      rw [List.mem_singleton.mp hi]
      rfl

/-- The run fails no check of the frame reader or its callers. -/
def Calm (env : Env) (inputs : List Input) (s : Session) : Prop :=
  wp (run env inputs) (fun _ _ => True) (fun e _ => Mild e) s

private theorem not_calm_iff {inputs : List Input} :
    ¬ Calm env inputs s ↔
      ∃ trap t, run env inputs s = .error trap t ∧ trap.readerCheck = true := by
  rw [Calm, wp]
  cases h : run env inputs s with
  | ok a t => simp
  | error e t =>
    change ¬ e.readerCheck = false ↔ _
    rw [Bool.not_eq_false]
    constructor
    · exact fun he => ⟨e, t, rfl, he⟩
    · rintro ⟨trap, t', heq, htrap⟩
      cases heq
      exact htrap

/-- A read that does not complete the reply leaves the rest to the reads behind it. -/
theorem readReply_cons_needMore {sha1 : Bytes → Bytes} {h : Handshake} {input r : Bytes}
    {rs : List Bytes} (hr : (readServerHandshakeReply sha1 h (input ++ r)).1 = .needMore) :
    readReply sha1 h input (r :: rs) =
      readReply sha1 (readServerHandshakeReply sha1 h (input ++ r)).2.1
        (readServerHandshakeReply sha1 h (input ++ r)).2.2 rs := by
  rw [readReply]
  split
  · rename_i heq
    rw [heq]
  · rename_i hne heq
    rw [heq] at hr
    exact absurd hr hne

private theorem readReply_cons_result {sha1 : Bytes → Bytes} {h : Handshake} {input r : Bytes}
    {rs : List Bytes} (hr : (readServerHandshakeReply sha1 h (input ++ r)).1 ≠ .needMore) :
    (readReply sha1 h input (r :: rs)).1 = (readServerHandshakeReply sha1 h (input ++ r)).1 := by
  rw [readReply]
  split
  · rename_i heq
    rw [heq] at hr
    exact absurd rfl hr
  · rename_i heq
    rw [heq]

/-- A reply that is not complete leaves the session waiting. -/
theorem step_read_waiting {b : Bufferevent} {bytes : Bytes} (hb : s.Reading b)
    (hc : s.hs.connectState ≠ .handshakeComplete) (hr : (s.reply env b bytes).1 = .needMore) :
    step env (.read bytes) s = .ok ⟨⟩ (s.replied env b bytes) := by
  apply eq_ok_of_wp
  rw [step, wp_bind, wp_get]
  simp only [hb.1]
  rw [if_pos hb.2, wp_bind, wp_modify, onRead, wp_bind, wp_get]
  dsimp only
  rw [if_pos hc, wp_bind, wp_modify]
  rw [Session.reply] at hr
  simp only [hr]
  exact ⟨trivial, rfl⟩

/-- A refused reply ends in the frame reader without a bufferevent. -/
theorem step_read_refused {b : Bufferevent} {bytes : Bytes} (hb : s.Reading b)
    (hc : s.hs.connectState ≠ .handshakeComplete) (hr : (s.reply env b bytes).1 = .error) :
    wp (step env (.read bytes)) (fun _ _ => False)
      (fun e _ => e = .check .readWebsocketBev) s := by
  rw [step, wp_bind, wp_get]
  simp only [hb.1]
  rw [if_pos hb.2, wp_bind, wp_modify, onRead, wp_bind, wp_get]
  dsimp only
  rw [if_pos hc, wp_bind, wp_modify]
  rw [Session.reply] at hr
  simp only [hr]
  rfl

/-- No handshake is under way. -/
def Session.Settled (s : Session) : Prop :=
  ∀ b, s.Reading b → s.hs.connectState = .handshakeComplete

/-- Traffic starts no handshake. -/
theorem Served.settled {quiet : Prop} (h : Served keep quiet s₀ s₁) (h₀ : s₀.Settled) :
    s₁.Settled := by
  intro b hb
  obtain ⟨b₀, hb₀, hr⟩ := h.bev b hb.1
  rw [h.hs]
  exact h₀ b₀ ⟨hb₀, hr.symm.trans hb.2⟩

/-- Nor does the end of an input. -/
theorem Session.Settled.finish (h : s.Settled) (i : Input) : (i.finish s).Settled := by
  cases i with
  | eof => exact fun b hb => by cases hb.1
  | _ => exact h

/-- Without a handshake under way, reads stay without one. -/
theorem Stepped.settled (h : Stepped env keep s i s') (hi : i.reads = true) (hs : s.Settled) :
    s'.Settled := by
  rcases h with h | ⟨s₀, s₁, hb, _, hserved, rfl⟩
  · cases h with
    | idle => exact hs
    | opened | requested | notRequested | timerFired | timedOut => cases hi
    | waiting hb hc => exact absurd (hs _ hb) hc
    | ended => exact fun b hb => by cases hb.1
  · refine (hserved.settled ?_).finish i
    cases hb with
    | closing | sending => cases hi
    | received hb hc => exact fun _ _ => hc
    | announced hb hc => exact absurd (hs _ hb) hc
    | leftover => exact hs

/-- An accepted reply completes the handshake. -/
theorem Stepped.settled_of_success {b : Bufferevent} {bytes : Bytes}
    (h : Stepped env keep s (.read bytes) s') (hb : s.Reading b)
    (hc : s.hs.connectState ≠ .handshakeComplete) (hr : (s.reply env b bytes).1 = .success) :
    s'.Settled := by
  rcases h with h | ⟨s₀, s₁, hbeg, _, hserved, rfl⟩
  · cases h with
    | idle h => exact absurd hb (h rfl b)
    | waiting hb' _ hr' =>
      rw [hb'.unique hb, hr] at hr'
      cases hr'
  · refine hserved.settled ?_
    cases hbeg with
    | received _ hc' => exact absurd hc' hc
    | announced _ _ hr' => exact fun _ _ => (s.reply_agrees env _ _).success hr'

private theorem Refused.not_settled (h : Refused env s i) : ¬ s.Settled := by
  cases i with
  | read bytes =>
    obtain ⟨b, hb, hc, _⟩ := h
    exact fun hs => hc (hs b hb)
  | _ => exact h.elim

/-- Without a handshake under way, no read fails a check of the frame reader. -/
theorem calm_of_settled (hf : env.NoFault) (ht : s.Tidy) (hs : s.Settled) {inputs : List Input}
    (hi : ∀ i ∈ inputs, i.reads = true) : Calm env inputs s := by
  have hC : Along (fun i _ => i.reads = true) (step env) inputs s := by
    clear hs ht
    induction inputs generalizing s with
    | nil => trivial
    | cons i is ih =>
      exact ⟨hi i List.mem_cons_self, fun s' _ => ih fun j hj => hi j (List.mem_cons_of_mem _ hj)⟩
  refine wp_mono (wp_run (I := Session.Settled) (E := fun e _ => Mild e)
    (fun _ : True => hf) ?_ ?_ ht hs hC) (fun _ _ _ => trivial) (fun _ _ h => h)
  · exact fun _ hs hi h => h.settled hi hs
  · rintro i s e s' _ hs _ (⟨_, hm⟩ | ⟨_, _, _, _, hm⟩ | ⟨hr, _⟩)
    · exact hm
    · exact hm trivial
    · exact absurd hs hr.not_settled

/-- While the handshake is under way, a run is calm exactly when the reply is not refused. -/
theorem calm_iff (hf : env.NoFault) (ht : s.Tidy) {b : Bufferevent} (hb : s.Reading b)
    (hc : s.hs.connectState ≠ .handshakeComplete) (reads : List Bytes) (eof : Bool) :
    Calm env (serverInputs reads eof) s ↔ (readReply env.sha1 s.hs b.input reads).1 ≠ .error := by
  induction reads generalizing s b with
  | nil =>
    refine iff_of_true ?_ (by simp [readReply])
    cases eof with
    | false => trivial
    | true =>
      change wp (step env .eof >>= fun _ => runAll (step env) []) _ _ s
      rw [wp_bind]
      refine wp_mono (step_listed (fun _ : True => hf) ht .eof) (fun _ _ _ => trivial) ?_
      rintro e t (⟨_, hm⟩ | ⟨_, _, _, _, hm⟩ | ⟨hr, _⟩)
      · exact hm
      · exact hm trivial
      · exact hr.elim
  | cons r rs ih =>
    have hsplit : Calm env (serverInputs (r :: rs) eof) s ↔ wp (step env (.read r))
        (fun _ t => Calm env (serverInputs rs eof) t) (fun e _ => Mild e) s := by
      rw [Calm, serverInputs, List.map_cons, List.cons_append, run, runAll_cons, wp_bind]
      rfl
    rw [hsplit]
    cases hr : (s.reply env b r).1 with
    | needMore =>
      rw [wp_of_eq_ok (step_read_waiting hb hc hr), readReply_cons_needMore hr]
      have hnext : (s.replied env b r).Tidy := ht.settles (.waiting hb hc hr)
      exact ih hnext ⟨rfl, hb.2⟩ ((s.reply_agrees env b r).needMore hr)
    | success =>
      refine iff_of_true ?_ ?_
      · refine wp_mono (step_listed (fun _ : True => hf) ht (.read r)) (fun _ t h => ?_) ?_
        · exact calm_of_settled hf (h.tidy ht) (h.settled_of_success hb hc hr)
            (reads_serverInputs rs eof)
        · rintro e t (⟨_, hm⟩ | ⟨_, _, _, _, hm⟩ | ⟨⟨b', hb', _, hr'⟩, _⟩)
          · exact hm
          · exact hm trivial
          · rw [hb'.unique hb, hr] at hr'
            cases hr'
      · rw [readReply_cons_result (by rw [← Session.reply, hr]; decide), ← Session.reply, hr]
        decide
    | error =>
      refine iff_of_false (fun h => ?_) ?_
      · have hand := wp_and h (step_read_refused hb hc hr)
        rw [wp] at hand
        cases hstep : step env (.read r) s with
        | ok a t =>
          rw [hstep] at hand
          exact hand.2
        | error e t =>
          rw [hstep] at hand
          rw [hand.2] at hand
          exact absurd hand.1 (by decide)
      · rw [not_not, readReply_cons_result (by rw [← Session.reply, hr]; decide),
          ← Session.reply, hr]
    | userAbort => exact absurd hr (s.reply_agrees env b r).ne_userAbort

/-- On a connection whose handshake is under way, a run of reads and perhaps the end of the
stream fails a check of the frame reader or its callers exactly when the reply is refused. -/
theorem readerCheck_fails_iff (hf : env.NoFault) (h0 : doInit env {} = .ok 0 s₀)
    {before : List Input} (h : run env before s₀ = .ok ⟨⟩ s) {b : Bufferevent} (hb : s.Reading b)
    (hc : s.hs.connectState = .sentReq) (reads : List Bytes) (eof : Bool) :
    (∃ trap t, run env (serverInputs reads eof) s = .error trap t ∧ trap.readerCheck = true) ↔
      (readReply env.sha1 s.hs b.input reads).1 = .error := by
  have ht : s.Tidy := tidy_run h0 h
  rw [← not_calm_iff, calm_iff hf ht hb (by simp [hc]), not_not]

/-- A session on which the upgrade request has been sent. -/
def requestSent : Session := finalState (run {} [.connect, .connected] Session.initialised)

/-- A reply with another status kills the process. -/
theorem readerCheck_fails_on_refusal :
    ¬ ∀ (env : Env) (s₀ s : Session) (before : List Input) (b : Bufferevent) (reads : List Bytes)
      (eof : Bool), env.NoFault → doInit env {} = .ok 0 s₀ → run env before s₀ = .ok ⟨⟩ s →
      s.Reading b → s.hs.connectState = .sentReq →
      ¬ ∃ trap t, run env (serverInputs reads eof) s = .error trap t ∧
        trap.readerCheck = true := by
  intro h
  refine h {} Session.initialised requestSent [.connect, .connected] ⟨[], true⟩
    [ascii "HTTP/1.1 404 Not Found\r\n"] false (fun _ => rfl) rfl
    (eq_ok_of_failure (by decide +kernel)) ⟨by decide +kernel, rfl⟩ (by decide +kernel) ?_
  exact ⟨.check .readWebsocketBev, _, eq_error_of_failure (by decide +kernel), rfl⟩

/-- A good reply, a message and the end of the stream pass every check. -/
theorem readerCheck_holds_on_sample :
    ¬ ∃ trap t, run {} (serverInputs [plainReply, [0x81, 0x01, 0x41]] true) requestSent =
      .error trap t ∧ trap.readerCheck = true := by
  have h0 : doInit {} {} = .ok 0 Session.initialised := rfl
  have hrun : run {} [.connect, .connected] Session.initialised = .ok ⟨⟩ requestSent :=
    eq_ok_of_failure (by decide +kernel)
  have hb : requestSent.Reading ⟨[], true⟩ := ⟨by decide +kernel, rfl⟩
  have hiff := readerCheck_fails_iff (fun _ => rfl) h0 hrun hb (by decide +kernel)
    [plainReply, [0x81, 0x01, 0x41]] true
  exact fun h => absurd (hiff.mp h) (by decide +kernel)

/-! ## Back to a closed state -/

/-- No frame can begin with the bytes that are still in the input buffer. -/
def Session.NoFramePending (env : Env) (s : Session) (b : Bufferevent) : Prop :=
  b.input = [] ∨ s.rx.hasHeader = false ∧
    headerState (unpackHeader (headerBuf env s b.input) (min WS_HDR_MAX_SIZE b.input.length))
      s.rx.inMsgFlag ≠ .success

instance (env : Env) (s : Session) (b : Bufferevent) : Decidable (s.NoFramePending env b) :=
  inferInstanceAs (Decidable (_ ∨ _ ∧ _))

/-- The inputs that bring the session back to a closed state: `DoClose` needs a connection, the
close timer must not fire, and at the end of the stream no Close frame has been received or is
about to be. -/
def Returns (env : Env) : Input → Session → Prop
  | .close, s => s.bev ≠ none
  | .closeTimeout, s => s.cl.closeTimeoutEvent ≠ .pending
  | .eof, s => ∀ b ∈ s.bev, s.cl.receivedCloseFlag = false ∧ s.NoFramePending env b
  | _, _ => True

instance (env : Env) : ∀ i s, Decidable (Returns env i s)
  | .close, s => inferInstanceAs (Decidable (s.bev ≠ none))
  | .closeTimeout, s => inferInstanceAs (Decidable (s.cl.closeTimeoutEvent ≠ .pending))
  | .eof, s => inferInstanceAs
      (Decidable (∀ b ∈ s.bev, s.cl.receivedCloseFlag = false ∧ s.NoFramePending env b))
  | .connect, _ | .send _, _ | .connected, _ | .read _, _ | .error, _ | .connectTimeout, _ =>
    isTrue trivial

/-- Without a header to accept, the frame reader receives nothing. -/
theorem serves_readWebsocket_noFrame (hk : keep → env.NoFault) {b : Bufferevent}
    (hb : s.Reading b) (hn : s.NoFramePending env b) :
    Moves (Serves keep True) Mild (readWebsocket env) s := by
  rw [readWebsocket]
  refine moves_get_bind ?_
  simp only [hb.1]
  rw [readLoop]
  refine moves_get_bind ?_
  rw [if_neg (hb.not_freed env), hb.inBuf]
  refine moves_ite (fun _ => moves_pure Serves.refl _ _) fun hi => ?_
  obtain ⟨hh, hst⟩ := hn.resolve_left hi
  have hread : wp (needHeader env b.input)
      (fun goOn t => goOn = false ∧ Serves keep True s t)
      (fun e t => Serves keep True s t ∧ Mild e) s := by
    simp only [needHeader, readHeader, wp_bind, wp_get, wp_ite, hh, wp_modify]
    rw [if_neg (by simp), if_neg (unpackHeader_ne_userAbort _ _)]
    have hstep (h : WSHeader) (n : Nat) :
        Serves keep True s { s with wsHeader := h, io.scratchPos := n } := fun hs =>
      { Served.refl keep True hs with sane := { hs with } }
    split
    · rename_i h
      exact absurd h hst
    · exact ⟨rfl, hstep _ _⟩
    · have hclose (t : Session) :
          Moves (Serves keep True) Mild (closeWithStatus env .protocolErr1002) t :=
        serves_closeWithStatus hk (by decide) t
      rw [wp_bind]
      exact wp_mono ((hclose _).after Serves.trans (hstep _ _)) (fun _ _ h => ⟨rfl, h⟩)
        (fun _ _ h => h)
    · rename_i h
      exact absurd h (headerState_ne_userAbort _ _ _)
  rw [Moves, wp_bind]
  refine wp_mono hread (fun goOn t h => ?_) (fun e t h => h)
  rw [h.1]
  exact h.2

/-- No bufferevent is held only in a closed state. -/
def Session.HeldOpen (s : Session) : Prop := s.bev = none → s.Closed

private theorem closed_ended (h : s.cl.receivedCloseFlag = false) : s.ended.Closed := by
  right
  simp [Session.ended, h]

/-- At the end of the stream the session is marked as closed. -/
theorem heldOpen_eof (hk : keep → env.NoFault) (ht : s.Tidy) (hh : s.HeldOpen)
    (hr : Returns env .eof s) :
    wp (step env .eof) (fun _ t => t.HeldOpen) (fun _ _ => True) s := by
  rw [step, wp_bind, wp_get]
  cases hb : s.bev with
  | none => exact hh
  | some b =>
    obtain ⟨hrecv, hn⟩ := hr b hb
    dsimp only
    rw [wp_ite]
    split
    · rename_i henabled
      rw [onEofEvent, wp_bind, wp_get]
      simp only [hb]
      rw [wp_bind, readLeftover]
      simp only [wp_ended, wp_ite]
      split
      · exact fun _ => closed_ended hrecv
      · refine wp_mono (serves_readWebsocket_noFrame hk ⟨hb, henabled⟩ hn) (fun _ t h _ => ?_)
          (fun _ _ _ => trivial)
        refine closed_ended ?_
        rw [((h (ht.sane_of_bev hb)).rx trivial).2, hrecv]
    · exact hh

private theorem Stepped.heldOpen (h : Stepped env True s i s') (hi : i ≠ .eof) (hh : s.HeldOpen)
    (hr : Returns env i s) : s'.HeldOpen := by
  rcases h with h | ⟨s₀, s₁, hb, hs, hserved, rfl⟩
  · cases h with
    | idle => exact hh
    | opened => rintro ⟨⟩
    | requested => rintro ⟨⟩
    | notRequested => rintro ⟨⟩
    | waiting => rintro ⟨⟩
    | ended => exact absurd rfl hi
    | timerFired hp => exact absurd hp hr
    | timedOut hp => exact absurd hp hr
  · have hlive : s₀.bev ≠ none := by
      cases hb with
      | closing => exact hr
      | sending => exact fun hn => hs.not_closed (hh hn)
      | received => simp [Session.received]
      | announced => simp [Session.announced, Session.replied]
      | leftover => exact absurd rfl hi
    have hfin : i.finish s₁ = s₁ := by
      cases i with
      | eof => exact absurd rfl hi
      | _ => rfl
    rw [hfin]
    exact fun hn => absurd hn (hserved.live trivial hlive)

/-- In every run in which no library call fails and whose inputs are all such that they return,
the session holds a bufferevent unless it is closed. -/
theorem closed_of_no_bufferevent (hf : env.NoFault) (h0 : doInit env {} = .ok 0 s₀)
    {inputs : List Input} (hC : Along (Returns env) (step env) inputs s₀)
    (h : run env inputs s₀ = .ok ⟨⟩ s) (hb : s.bev = none) :
    s.cl.state = .closedCleanly ∨ s.cl.state = .closedUncleanly := by
  rw [eq_initialised h0] at hC h
  have hrun : wp (run env inputs) (fun _ t => t.Tidy ∧ t.HeldOpen) (fun _ _ => True)
      Session.initialised := by
    refine wp_runAll (C := Returns env) (fun i t ht hr => ?_)
      ⟨tidy_initialised, fun _ => Or.inl rfl⟩ hC
    have hstep := step_listed (fun _ : True => hf) ht.1 i
    by_cases hi : i = .eof
    · subst hi
      have heof := heldOpen_eof (fun _ : True => hf) ht.1 ht.2 hr
      exact wp_mono (wp_and hstep heof) (fun _ t' h' => ⟨h'.1.tidy ht.1, h'.2⟩)
        (fun _ _ _ => trivial)
    · exact wp_mono hstep (fun _ t' h' => ⟨h'.tidy ht.1, h'.heldOpen hi ht.2 hr⟩)
        (fun _ _ _ => trivial)
  rw [wp, h] at hrun
  exact hrun.2 hb

/-- Closing a session that was never connected leaves it neither connected nor closed. -/
theorem not_closed_after_close :
    ¬ ∀ (env : Env) (s₀ s : Session) (inputs : List Input), env.NoFault →
      doInit env {} = .ok 0 s₀ → run env inputs s₀ = .ok ⟨⟩ s → s.bev = none →
      s.cl.state = .closedCleanly ∨ s.cl.state = .closedUncleanly := by
  intro h
  have hc := h {} Session.initialised (finalState (run {} [.close] Session.initialised)) [.close]
    (fun _ => rfl) rfl (eq_ok_of_failure (by decide +kernel)) (by decide +kernel)
  exact absurd hc (by decide +kernel)

/-- A connection that the server ends after its reply can be followed by another. -/
theorem closed_after_eof :
    ∃ s, run {} (replyThen [] ++ [.eof]) Session.initialised = .ok ⟨⟩ s ∧ s.bev = none ∧
      (s.cl.state = .closedCleanly ∨ s.cl.state = .closedUncleanly) := by
  have hC : Along (Returns {}) (step {}) (replyThen [] ++ [.eof]) Session.initialised := by
    decide +kernel
  have hb : (finalState (run {} (replyThen [] ++ [.eof]) Session.initialised)).bev = none := by
    decide +kernel
  have hok := eq_ok_of_failure (by decide +kernel :
    failure (run {} (replyThen [] ++ [.eof]) Session.initialised) = none)
  exact ⟨_, hok, hb, closed_of_no_bufferevent (fun _ => rfl) rfl hC hok hb⟩

end CppImprovement.Ws

import CppImprovement.Net.Ws.ReadBoundaries
import CppImprovement.Net.Ws.Reconnect
import CppImprovement.Net.Ws.Rounds
import CppImprovement.Net.Ws.Upgrade

/-!
# A frame or a timer left behind

A session that was cut off inside a frame takes the first octets of its next
connection for the rest of that frame, and a close timer left behind ends the next
connection on a failed check. For an application that hears messages there is then
a server whose connection does not go as it would on a new session.
-/

namespace CppImprovement.Ws

variable {env : Env} {s t : Session}

/-! ## The start of a connection -/

/-- The application hears messages and makes no call when it is connected, and the digests have
the length of a digest. -/
structure Env.Listens (env : Env) : Prop where
  onMessage : env.app.onMessage ≠ none
  onConnect : ∀ handler, env.app.onConnect = some handler → ∀ trace, handler trace = []
  digest : ∀ b, (env.sha1 b).length = 20

/-- The session that has sent its upgrade request. -/
def Session.awaiting (env : Env) (s : Session) : Session := s.opened.requested env {}

/-- The reply that the session accepts. -/
def Session.accepting (env : Env) (s : Session) : Bytes :=
  upgradeReply (calculateKeyHash env.sha1 (s.awaiting env).hs.handshakeKeyBase64)

/-- The session `u` is what a server that accepts the upgrade makes of `s`. -/
structure Linked (env : Env) (s u : Session) : Prop where
  bev : u.bev = some { input := [], readEnabled := true }
  complete : u.hs.connectState = .handshakeComplete
  header : u.wsHeader = s.wsHeader
  rx : u.rx = { s.rx with inMsgFlag := false }
  tx : u.tx = s.tx
  cl : u.cl = { s.cl with receivedCloseFlag := false, sentCloseFlag := false, state := .connected }
  trace : u.io.trace = (s.awaiting env).io.trace ++ [.onConnect]

theorem Env.Listens.onConnectCalls (hl : env.Listens) (trace : List Event) (u : Session) :
    (match env.app.onConnect with
      | none => pure ()
      | some handler => runCalls env (handler trace) : M Unit) u = .ok () u := by
  cases h : env.app.onConnect with
  | none => rfl
  | some handler =>
    dsimp only
    rw [hl.onConnect handler h]
    rfl

/-- A read whose bytes complete the reply. -/
theorem step_read_success {b : Bufferevent} {bytes rest : Bytes} {g : Handshake}
    (hb : s.Reading b) (hc : s.hs.connectState ≠ .handshakeComplete)
    (hr : s.reply env b bytes = (.success, g, rest)) :
    step env (.read bytes) s = (do callOnConnect env; readWebsocket env)
      { s with
        hs := g, bev := some { input := rest, readEnabled := true }, cl.state := .connected } := by
  rw [Session.reply] at hr
  refine eq_of_wp fun Q E hw => ?_
  simp only [step, onRead, wp_bind, wp_get, hb.1, hb.2, if_true, wp_modify, ne_eq, hc,
    not_false_eq_true, hr] at hw
  rw [wp_bind]
  exact hw

/-- The handshake parser accepts the reply. -/
theorem awaiting_reply_accepted (hl : env.Listens) (s : Session) :
    ∃ header, (s.awaiting env).reply env ⟨[], true⟩ (s.accepting env) =
      (.success, { (s.awaiting env).hs with
                    header := header, httpHeaderFlags := 7,
                    connectState := .handshakeComplete }, []) := by
  have hsent : (s.awaiting env).hs.connectState = .sentReq := rfl
  have hreply := readServerHandshakeReply_upgradeReply hl.digest hsent []
  rwa [List.append_nil] at hreply

/-- A read that completes the reply with nothing behind it announces the connection. -/
theorem step_read_upgraded (hl : env.Listens) {b : Bufferevent} {bytes : Bytes} {g : Handshake}
    (hb : s.Reading b) (hc : s.hs.connectState ≠ .handshakeComplete)
    (hr : s.reply env b bytes = (.success, g, [])) :
    step env (.read bytes) s = .ok ()
      { s with
        hs := g, bev := some { input := [], readEnabled := true }, cl.state := .connected,
        io.trace := s.io.trace ++ [.onConnect] } := by
  apply eq_ok_of_wp
  rw [wp_congr (step_read_success hb hc hr), wp_bind, callOnConnect, wp_bind, emit, wp_modify,
    wp_bind, wp_get]
  refine (wp_of_eq_ok (hl.onConnectCalls _ _)).mpr ?_
  rw [readWebsocket, wp_bind, wp_get]
  exact (wp_of_eq_ok (readLoop_nil ⟨rfl, rfl⟩ rfl _)).mpr ⟨rfl, rfl⟩

/-- A server accepts the upgrade. -/
theorem linked_run (hf : env.NoFault) (hl : env.Listens) (hc : s.Closed) :
    ∃ u, run env [.connect, .connected, .read (s.accepting env)] s = .ok ⟨⟩ u ∧ Linked env s u := by
  obtain ⟨header, hr⟩ := awaiting_reply_accepted hl s
  have hconnected : step env .connected s.opened = .ok () (s.awaiting env) :=
    step_connected_ok hf rfl rfl
  have hread := step_read_upgraded hl (s := s.awaiting env) ⟨rfl, rfl⟩ nofun hr
  rw [run, runAll_cons, bind_eq_of_ok (step_connect_ok hf hc), runAll_cons,
    bind_eq_of_ok hconnected, runAll_cons, bind_eq_of_ok hread]
  exact ⟨_, rfl, rfl, rfl, rfl, rfl, rfl, rfl, rfl⟩

/-! ## The first thing that happens -/

/-- The code shows the event `e` before anything else, however it ends. -/
def Shows {α : Type} (e : Event) (m : M α) (s : Session) : Prop :=
  wp m (fun _ s' => s'.Sane ∧ s.io.trace ++ [e] <+: s'.io.trace)
    (fun _ s' => s.io.trace ++ [e] <+: s'.io.trace) s

/-- What the code under a read has shown it does not take back. -/
theorem Shows.bind {α β : Type} {e : Event} {m : M α} {f : α → M β} (h : Shows e m s)
    (hf : ∀ a u, Moves (Serves False False) Mild (f a) u) : Shows e (m >>= f) s := by
  have hgrows : ∀ {u v : Session}, u.Sane → Serves False False u v →
      s.io.trace ++ [e] <+: u.io.trace → v.Sane ∧ s.io.trace ++ [e] <+: v.io.trace := by
    intro u v hu hs hpre
    obtain ⟨evs, he, _⟩ := (hs hu).trace
    exact ⟨(hs hu).sane, hpre.trans ⟨evs, he.symm⟩⟩
  rw [Shows, wp_bind]
  refine wp_mono h (fun a u hu => ?_) fun _ _ h => h
  exact wp_mono (hf a u) (fun _ v hv => hgrows hu.1 hv hu.2)
    fun _ v hv => (hgrows hu.1 hv.1 hu.2).2

/-- What is shown first is shown in the end. -/
theorem Shows.final {α : Type} {e : Event} {m : M α} (h : Shows e m s) :
    s.io.trace ++ [e] <+: (finalState (m s)).io.trace :=
  wp_final (I := fun u => s.io.trace ++ [e] <+: u.io.trace) |>.mp
    (wp_mono h (fun _ _ h => h.2) fun _ _ h => h)

/-- A session shows only one event first. -/
theorem Shows.unique {α : Type} {e e' : Event} {m : M α} (h : Shows e m s)
    (h' : s.io.trace ++ [e'] <+: (finalState (m s)).io.trace) : e = e' := by
  have heq := List.prefix_of_prefix_length_le h.final h' (by simp)
  simpa using heq.eq_of_length (by simp)

private theorem shows_emit (hs : s.Sane) (e : Event) : Shows e (emit e) s := by
  rw [Shows, emit, wp_modify]
  exact ⟨{ hs with }, List.prefix_rfl⟩

private theorem shows_callOnMessage (hl : env.Listens) (hs : s.Sane) (hc : s.cl.state ≠ .closing)
    (payload : Bytes) :
    Shows (.onMessage payload s.rx.msgIsBinary_) (callOnMessage env payload) s := by
  obtain ⟨handler, hh⟩ := Option.ne_none_iff_exists'.mp hl.onMessage
  rw [Shows, callOnMessage, wp_bind, wp_get]
  simp only [hh]
  rw [if_neg hc]
  exact (shows_emit hs _).bind fun _ u => moves_get_bind (serves_runCalls False.elim _ u)

private theorem serves_messageEnded (s : Session) :
    Moves (Serves False False) Mild (modify Session.messageEnded) s := fun hs =>
  { Served.refl _ _ hs with sane := { hs with }, rx := False.elim, held := False.elim }

/-- A message that ends is the first thing the application hears of. -/
theorem shows_endOfMessage (hl : env.Listens) (hs : s.Sane) (hc : s.cl.state ≠ .closing)
    (p : Bytes) : Shows (.onMessage p s.rx.msgIsBinary_) (endOfMessage env p) s :=
  (shows_callOnMessage hl hs hc p).bind fun _ u => serves_messageEnded u

/-- Code that runs alike shows the same. -/
theorem Shows.of_eq {α : Type} {e : Event} {m m' : M α} {u : Session} (h : Shows e m' u)
    (heq : m s = m' u) (ht : s.io.trace = u.io.trace) : Shows e m s := by
  rw [Shows, wp_congr heq, ht]
  exact h

private theorem Frame.bytes_ne_nil (f : Frame) : f.bytes ≠ [] := by
  have hlen := f.two_le_length_header
  rw [Frame.bytes]
  intro h0
  rw [(List.append_eq_nil_iff.mp h0).1] at hlen
  simp at hlen

/-- A server that sends the text `p` in one frame has it delivered. -/
theorem shows_text (hf : env.NoFault) (hl : env.Listens) {b : Bufferevent} (hr : s.Receiving b)
    (hb : s.Between) (hc : s.cl.state ≠ .closing) {p : Bytes} (hw : (Frame.text p).Whole)
    (hin : b.input = (Frame.text p).bytes) (n : Nat) :
    Shows (.onMessage p false) (readLoop env (n + 1)) s := by
  have hst : b.input ++ [] = stream [Frame.text p] := by
    rw [hin, stream, List.flatMap_singleton, List.append_nil]
  obtain ⟨u, b', hround, hu, hru, -, -⟩ := (Session.Awaits.between hb hst).delivers hf hr hw
    (hin ▸ Frame.bytes_ne_nil _) le_rfl n
  have hcu : u.cl.state ≠ .closing := hu.line.state ▸ hc
  have hshows : Shows _ (endOfMessage env p >>= fun _ => readLoop env n) u :=
    (shows_endOfMessage hl hru.sane hcu p).bind fun _ v => serves_readLoop False.elim n v
  rw [hu.kind] at hshows
  exact hshows.of_eq hround hu.line.trace.symm

/-! ## Inside an old frame -/

/-- The event `e` has not been shown. -/
def Missed (e : Event) (s s' : Session) : Prop :=
  ∃ evs, s'.io.trace = s.io.trace ++ evs ∧ e ∉ evs

/-- What is missed twice is missed. -/
theorem Missed.trans {e : Event} {s₁ s₂ : Session} (h : Missed e s s₁) (h' : Missed e s₁ s₂) :
    Missed e s s₂ := by
  obtain ⟨evs, he, hn⟩ := h
  obtain ⟨evs', he', hn'⟩ := h'
  exact ⟨evs ++ evs', by rw [he', he, List.append_assoc], by simp [hn, hn']⟩

private theorem Missed.not_shown {e : Event} {s' : Session} (h : Missed e s s') :
    ¬ s.io.trace ++ [e] <+: s'.io.trace := by
  obtain ⟨evs, he, hn⟩ := h
  rw [he, List.prefix_append_right_inj]
  intro hpre
  exact hn (hpre.subset List.mem_cons_self)

private theorem Tacit.missed {s' : Session} (h : Tacit s s') (p : Bytes) (binary : Bool) :
    Missed (.onMessage p binary) s s' := by
  obtain ⟨evs, he, hn⟩ := h
  exact ⟨evs, he, fun hmem => absurd (hn _ hmem) (by simp [Event.isMessage])⟩

/-- Doing nothing shows nothing. -/
theorem Missed.refl (p : Bytes) (binary : Bool) (s : Session) :
    Missed (.onMessage p binary) s s := (Tacit.refl s).missed p binary

/-- A control frame that ends closes the session or traps, and delivers nothing. -/
theorem wp_handleControlFrame_tacit (hctl : isControlOpcode s.wsHeader.opcode = true)
    (hr : isReservedOpcode s.wsHeader.opcode = false) :
    wp (handleControlFrame env) (fun _ s' => Tacit s s' ∧ s'.cl.state = .closing)
      (fun _ s' => Tacit s s') s := by
  have hclose : wp (handleCloseFrame env) (fun _ s' => Tacit s s' ∧ s'.cl.state = .closing)
      (fun _ s' => Tacit s s') s :=
    wp_tacit_of_closing (s := { s with cl.state := .closing }) rfl (steadies_handleCloseFrame _)
  rw [handleControlFrame, wp_bind, wp_get, if_neg (by simp [hctl])]
  rcases isReservedOpcode_eq_false hr with hop | hop | hop | hop | hop | hop
  · exact absurd hctl (by rw [hop]; decide)
  · exact absurd hctl (by rw [hop]; decide)
  · exact absurd hctl (by rw [hop]; decide)
  · rw [hop]
    exact hclose
  · rw [hop]
    exact Tacit.refl s
  · rw [hop]
    exact Tacit.refl s

private theorem endFrame_no_buffer (hctl : isControlOpcode s.wsHeader.opcode = false)
    (hn : s.rx.msg = none ∨ s.rx.frameData = none) :
    endFrame env s = .error .nullBuffer s := by
  apply eq_error_of_wp
  rcases hn with hn | hn
  · cases hframe : s.rx.frameData <;>
      simp [endFrame, handleFrameEnd, hctl, onMsgFrameEnd, hn, hframe]
  · simp [endFrame, handleFrameEnd, hctl, onMsgFrameEnd, hn]

/-- What is held of a message. -/
def Session.held (s : Session) : Bytes := s.rx.msg.getD [] ++ s.rx.frameData.getD []

/-- An old frame that has nothing to come is ended first, and no other message than the one it
ends is heard first. -/
theorem not_shown_of_complete (hl : env.Listens) (hs : s.Sane) (hc : s.cl.state ≠ .closing)
    (h : s.Ajar) (hh : s.rx.hasHeader = true)
    (hrem : s.remaining = 0) {p : Bytes}
    (hp : p ≠ s.held) (n : Nat) :
    ¬ s.io.trace ++ [.onMessage p false] <+:
      (finalState ((endFrame env >>= fun _ => readLoop env n) s)).io.trace := by
  cases hctl : isControlOpcode s.wsHeader.opcode with
  | true =>
    refine Missed.not_shown ?_
    refine wp_final (I := Missed (.onMessage p false) s) |>.mp ?_
    have hend : wp (endFrame env) (fun _ s' => Tacit s s' ∧ s'.cl.state = .closing)
        (fun _ s' => Tacit s s') s := by
      rw [endFrame, wp_bind, handleFrameEnd, wp_bind, wp_get, if_pos hctl, wp_bind, wp_modify]
      exact wp_handleControlFrame_tacit (s := { s with rx.hasHeader := false }) hctl (h.opcode hh)
    rw [wp_bind]
    refine wp_mono hend (fun _ u hu => ?_) fun _ _ hu => hu.missed p false
    exact wp_mono (wp_tacit_of_closing hu.2 ((steadies_rules env).readLoop n u))
      (fun _ _ hv => (hu.1.trans hv.1).missed p false) fun _ _ hv => (hu.1.trans hv).missed p false
  | false =>
    have hfin : s.wsHeader.fin = true := by
      by_contra hf
      have hf' := eq_false_of_ne_true hf
      have hle := h.room hh hf'
      rw [Session.remaining, remainingLen_of_le s.wsHeader.payloadLen.isLt hle] at hrem
      exact h.short hh hf' (by omega)
    cases hmsg : s.rx.msg with
    | none =>
      rw [bind_eq_of_error (endFrame_no_buffer hctl (Or.inl hmsg))]
      exact (Missed.refl p false s).not_shown
    | some msg =>
      cases hframe : s.rx.frameData with
      | none =>
        rw [bind_eq_of_error (endFrame_no_buffer hctl (Or.inr hframe))]
        exact (Missed.refl p false s).not_shown
      | some frame =>
        have hshows := (shows_endOfMessage (s := s.gathered (msg ++ frame)) hl { hs with } hc
          (msg ++ frame)).bind (f := fun _ => readLoop env n) fun _ v =>
            serves_readLoop False.elim n v
        rw [bind_eq_of_eq (endFrame_message hctl hfin hmsg hframe)]
        intro hpre
        have heq := hshows.unique hpre
        rw [Event.onMessage.injEq] at heq
        exact hp (by rw [← heq.1, Session.held, hmsg, hframe]; rfl)

/-! ## The rest of an old frame -/

/-- The empty message, as a text. -/
abbrev Event.blank : Event := .onMessage [] false

/-- What is held of the frame being received is not the empty text. -/
def Session.FrameHeld (s : Session) : Prop :=
  s.cl.state = .closing ∨ isControlOpcode s.wsHeader.opcode = true ∨ s.rx.frameData ≠ some []

private theorem wp_tacit_of_steadies {α : Type} {m : M α} (hc : ¬ s.Closed)
    (hm : Moves (Steadies True) AnyTrap m s) :
    wp m (fun _ s' => Steady True s s' ∧ Missed .blank s s') (fun _ s' => Missed .blank s s') s :=
  wp_mono hm (fun _ _ h => ⟨h hc, ((h hc).tacit (Or.inl trivial)).missed _ _⟩)
    fun _ _ h => ((h.1 hc).tacit (Or.inl trivial)).missed _ _

private theorem wp_missed_of_closing {α : Type} {m : M α} (hc : s.cl.state = .closing)
    (hm : Moves (Steadies False) AnyTrap m s) :
    wp m (fun _ s' => Missed .blank s s' ∧ s'.cl.state = .closing)
      (fun _ s' => Missed .blank s s') s :=
  wp_mono (wp_tacit_of_closing hc hm) (fun _ _ h => ⟨h.1.missed _ _, h.2⟩) fun _ _ h => h.missed _ _

private theorem wp_callOnMessage_missed (hc : ¬ s.Closed) {p : Bytes} (hp : p ≠ []) :
    wp (callOnMessage env p) (fun _ s' => Missed .blank s s')
      (fun _ s' => Missed .blank s s') s := by
  rw [callOnMessage, wp_bind, wp_get]
  cases env.app.onMessage with
  | none => exact Missed.refl _ _ s
  | some handler =>
    dsimp only
    rw [wp_ite]
    split
    · exact Missed.refl _ _ s
    · let u : Session := { s with io.trace := s.io.trace ++ [.onMessage p s.rx.msgIsBinary_] }
      have hemit : Missed .blank s u := ⟨[.onMessage p s.rx.msgIsBinary_], rfl, by simp [hp.symm]⟩
      rw [wp_bind, emit, wp_modify, wp_bind, wp_get]
      exact wp_mono (wp_tacit_of_steadies (s := u) hc (steadies_runCalls _ _))
        (fun _ _ h => hemit.trans h.2) fun _ _ h => hemit.trans h

/-- A message with something in it is not the empty one. -/
theorem wp_endOfMessage_missed (hc : ¬ s.Closed) {p : Bytes} (hp : p ≠ []) :
    wp (endOfMessage env p) (fun _ s' => Missed .blank s s')
      (fun _ s' => Missed .blank s s') s := by
  rw [endOfMessage, wp_bind]
  exact wp_mono (wp_callOnMessage_missed hc hp) (fun _ _ h => h) fun _ _ h => h

/-- A frame with something in it does not end the empty message. -/
theorem wp_endFrame_missed (hc : ¬ s.Closed) (h : s.FrameHeld) :
    wp (endFrame env) (fun _ s' => Missed .blank s s') (fun _ s' => Missed .blank s s') s := by
  cases hctl : isControlOpcode s.wsHeader.opcode with
  | true =>
    rw [endFrame, wp_bind, handleFrameEnd, wp_bind, wp_get, if_pos hctl, wp_bind, wp_modify]
    exact wp_mono (wp_tacit_of_steadies (s := { s with rx.hasHeader := false }) hc
      (steadies_handleControlFrame _)) (fun _ _ h => h.2) fun _ _ h => h
  | false =>
    rcases h with h | h | h
    · exact wp_mono (wp_missed_of_closing h ((steadies_rules env).endFrame s)) (fun _ _ h => h.1)
        fun _ _ h => h
    · rw [h] at hctl
      cases hctl
    · by_cases hn : s.rx.msg = none ∨ s.rx.frameData = none
      · rw [wp_of_eq_error (endFrame_no_buffer hctl hn)]
        exact Missed.refl _ _ s
      · rw [not_or] at hn
        obtain ⟨msg, hmsg⟩ := Option.ne_none_iff_exists'.mp hn.1
        obtain ⟨frame, hframe⟩ := Option.ne_none_iff_exists'.mp hn.2
        have hne : msg ++ frame ≠ [] := by
          intro h0
          rw [hframe, (List.append_eq_nil_iff.mp h0).2] at h
          exact h rfl
        cases hfin : s.wsHeader.fin with
        | true =>
          rw [wp_congr (endFrame_message hctl hfin hmsg hframe)]
          exact wp_endOfMessage_missed (s := s.gathered (msg ++ frame)) hc hne
        | false =>
          simp only [endFrame, handleFrameEnd, hctl, onMsgFrameEnd, hframe, hmsg, endMessage, hfin,
            wp_bind, wp_get, wp_modify, wp_pure, Bool.false_eq_true, if_false]
          exact Missed.refl _ _ s

/-- Data is stored, or the session is closing. -/
theorem wp_handleFrameData_held {buf : Bytes} (hbuf : buf ≠ []) :
    wp (handleFrameData env buf) (fun _ s' => s'.FrameHeld) (fun _ _ => True) s := by
  rw [handleFrameData, wp_bind, wp_get, wp_ite]
  split
  · rename_i hctl
    rw [wp_ite]
    split
    · rw [wp_bind]
      refine wp_mono (wp_missed_of_closing (s := { s with cl.state := .closing }) rfl
        (steadies_closeWithStatusReason .protocolErr1002 [] _)) (fun _ u hu => ?_)
        fun _ _ _ => trivial
      exact Or.inl hu.2
    · exact Or.inr (Or.inl hctl)
  · split
    · trivial
    · exact Or.inr (Or.inr (by simp [hbuf]))

private theorem unmaskChunk_ne_nil {h : WSHeader} {chunk : Bytes} (hc : chunk ≠ []) :
    unmaskChunk h chunk ≠ [] := by
  rw [unmaskChunk]
  split
  · rw [unmaskPayload, maskPayload, ne_eq, List.mapIdx_eq_nil_iff]
    exact hc
  · exact hc

/-- A round inside an old frame. -/
theorem wp_readPayload_missed (hc : ¬ s.Closed) (hin : s.inBuf ≠ [])
    (h : s.FrameHeld ∨ s.remaining ≠ 0) :
    wp (readPayload env) (fun _ s' => Missed .blank s s' ∧ (s'.rx.hasHeader = true → s'.FrameHeld))
      (fun _ s' => Missed .blank s s') s := by
  have hend : ∀ {u : Session}, ¬ u.Closed → u.FrameHeld → Missed .blank s u →
      wp (endFrame env) (fun _ s' => Missed .blank s s' ∧ (s'.rx.hasHeader = true → s'.FrameHeld))
        (fun _ s' => Missed .blank s s') u := by
    intro u hu hheld hmiss
    refine wp_mono (wp_and (wp_endFrame_missed hu hheld) (wp_endFrame_outside hu))
      (fun _ v hv => ?_) fun _ _ hv => hmiss.trans hv.1
    exact ⟨hmiss.trans hv.1, fun hh => absurd hh (by simp [hv.2])⟩
  by_cases hrem : s.remaining = 0
  · rw [wp_congr (readPayload_ended hrem)]
    exact hend hc (h.resolve_right fun hne => hne hrem) (Missed.refl _ _ s)
  · have hchunk : s.chunk ≠ [] := by
      rw [Session.chunk, ne_eq, List.take_eq_nil_iff, not_or]
      exact ⟨hrem, hin⟩
    obtain ⟨bev, detached, heq, -⟩ := s.drain_eq s.remaining
    rw [wp_congr (readPayload_takes hrem), heq, handleChunk, wp_bind]
    refine wp_mono (wp_tacit_of_steadies (s := Session.counted s.chunk.length
      { s with bev := bev, detached := detached }) hc (steadies_checkUtf8 _ _))
      (fun _ u hu => ?_) fun _ _ h => h
    rw [wp_bind]
    refine wp_mono (wp_and (wp_tacit_of_steadies hu.1.live (steadies_handleFrameData _ u))
      (wp_handleFrameData_held (unmaskChunk_ne_nil hchunk))) (fun rc v hv => ?_)
      fun _ _ hv => hu.2.trans hv.1
    have hmiss : Missed .blank s v := hu.2.trans hv.1.2
    rw [wp_bind, wp_get, wp_ite]
    split
    · exact hend hv.1.1.live hv.2 hmiss
    · exact ⟨hmiss, fun _ => hv.2⟩

/-- A round takes what it can of the rest of the frame off the input. -/
theorem wp_readPayload_takes (hrem : s.remaining ≠ 0) :
    wp (readPayload env) (fun _ s' => s'.inBuf.length ≤ s.inBuf.length - 1)
      (fun _ _ => True) s := by
  rw [wp_congr (readPayload_takes hrem)]
  refine wp_mono ((shrinks_rules env).handleChunk _ _) (fun _ u hu => ?_) fun _ _ _ => trivial
  have hle : u.inBuf.length ≤ (s.drain s.remaining).inBuf.length := hu.inBuf.length_le
  rw [Session.inBuf_drain, List.length_drop] at hle
  omega

/-- A header is not made of one octet. -/
theorem readHeader_short {input : Bytes} (h : input.length ≤ 1) :
    readHeader env input s = .ok false (s.headed (s.unpacked env input).header) := by
  refine readHeader_waits ?_
  have hlen : min WS_HDR_MAX_SIZE input.length < WS_HDR_MIN_SIZE :=
    Nat.lt_of_le_of_lt (Nat.min_le_right _ _) (Nat.lt_of_le_of_lt h (by decide))
  rw [Session.unpacked, unpackHeader, if_pos hlen]
  rfl

/-- The rounds that follow, with at most one octet left. -/
theorem wp_readLoop_missed (n : Nat) (hc : ¬ s.Closed)
    (h : s.rx.hasHeader = true → s.FrameHeld) (hin : s.inBuf.length ≤ 1) :
    wp (readLoop env n) (fun _ s' => Missed .blank s s') (fun _ s' => Missed .blank s s') s := by
  induction n generalizing s with
  | zero => exact Missed.refl _ _ s
  | succ n ih =>
    rw [readLoop, wp_bind, wp_get, wp_ite]
    split
    · exact Missed.refl _ _ s
    rw [wp_ite]
    split
    · exact Missed.refl _ _ s
    rename_i hne
    rw [wp_bind]
    cases hh : s.rx.hasHeader with
    | true =>
      rw [wp_of_eq_ok (needHeader_inside hh _), if_pos rfl, wp_bind]
      have hsteady : Moves (Steadies False) AnyTrap (readPayload env) s :=
        (steadies_rules env).readPayload s
      have hshrinks := (shrinks_rules env).readPayload s
      refine wp_mono (wp_and (wp_and hsteady hshrinks)
        (wp_readPayload_missed hc hne (Or.inl (h hh)))) (fun _ u hu => ?_) fun _ _ hu => hu.2
      have hu' : u.inBuf.length ≤ 1 := hu.1.2.inBuf.length_le.trans hin
      exact wp_mono (ih (hu.1.1 hc).live hu.2.2 hu') (fun _ _ hv => hu.2.1.trans hv)
        fun _ _ hv => hu.2.1.trans hv
    | false =>
      rw [wp, needHeader_outside hh, readHeader_short hin]
      exact Missed.refl _ _ s

/-! ## The next connection -/

private theorem awaiting_renewed (h : s.subprotocols = []) :
    (s.renewed.awaiting env).io.trace = (s.awaiting env).io.trace := by
  simp only [Session.awaiting, Session.requested, Session.opened, Session.connecting,
    Session.renewed, handshakeRequest, h]
  rfl

/-- The new connection can be used. -/
theorem Linked.sane {u : Session} (h : Linked env s u) (ht : s.Tidy) : u.Sane where
  notClosedCleanly := by rw [h.cl]; exact nofun
  notClosedUncleanly := by rw [h.cl]; exact nofun
  sendState := h.tx ▸ ht.sendState
  ctrlLen := by rw [h.rx]; exact ht.ctrlLen
  reasonLen := by rw [h.cl]; exact ht.reasonLen

/-- The new connection receives, with an empty buffer. -/
theorem Linked.receiving {u : Session} (h : Linked env s u) (ht : s.Tidy)
    (hb : s.rx.msgIsBinary = false) : u.Receiving { input := [], readEnabled := true } :=
  ⟨h.bev, rfl, h.complete, h.sane ht, by rw [h.rx]; exact hb⟩

/-- A session inside an old frame that has something to come does not hear the empty text first. -/
theorem not_shown_of_partial (hs : s.Sane) (hh : s.rx.hasHeader = true)
    (hrem : s.remaining ≠ 0) {b : Bufferevent}
    (hb : s.Reading b) (hin : b.input = (Frame.text []).bytes) (n : Nat) :
    ¬ s.io.trace ++ [.blank] <+: (finalState (readLoop env (n + 1) s)).io.trace := by
  have hlive := hs.not_closed
  have hne : b.input ≠ [] := hin ▸ Frame.bytes_ne_nil _
  have hsteady : Moves (Steadies False) AnyTrap (readPayload env) s :=
    (steadies_rules env).readPayload s
  refine Missed.not_shown (wp_final (I := Missed .blank s) |>.mp ?_)
  rw [wp_congr (readLoop_round hb hne (needHeader_inside hh _) n), wp_bind]
  have hbuf := hb.inBuf
  refine wp_mono (wp_and hsteady (wp_and (wp_readPayload_missed hlive (hbuf ▸ hne) (Or.inr hrem))
    (wp_readPayload_takes hrem))) (fun _ u hu => ?_) fun _ _ hu => hu.2.1
  obtain ⟨hsteady, ⟨hmiss, hheld⟩, hshort⟩ := hu
  rw [hbuf, hin] at hshort
  exact wp_mono (wp_readLoop_missed n (hsteady hlive).live hheld hshort)
    (fun _ _ hv => hmiss.trans hv) fun _ _ hv => hmiss.trans hv

/-- There is a text that a session inside an old frame does not hear first. -/
theorem not_shown_of_hasHeader (hl : env.Listens) (hs : s.Sane) (hc : s.cl.state ≠ .closing)
    (h : s.Ajar) (hh : s.rx.hasHeader = true) :
    ∃ p, (Frame.text p).Whole ∧ ∀ b n, b.readEnabled = true → b.input = (Frame.text p).bytes →
      ¬ s.io.trace ++ [.onMessage p false] <+:
        (finalState (readLoop env (n + 1) { s with bev := some b })).io.trace := by
  have hblank : (Frame.text []).Whole := Frame.text_whole (by decide) ⟨[], rfl⟩
  by_cases hrem : s.remaining = 0
  · obtain ⟨p, hp, hw⟩ : ∃ p, p ≠ s.held ∧ (Frame.text p).Whole := by
      by_cases h0 : s.held = []
      · exact ⟨[0x61], by simp [h0], Frame.text_whole (by decide) ⟨['a'], rfl⟩⟩
      · exact ⟨[], fun he => h0 he.symm, hblank⟩
    refine ⟨p, hw, fun b n hr hin => ?_⟩
    let u : Session := { s with bev := some b }
    have hend : readPayload env u = endFrame env u := readPayload_ended hrem
    have hinside : needHeader env b.input u = .ok true u :=
      needHeader_inside (s := u) hh _
    rw [readLoop_round (s := u) ⟨rfl, hr⟩ (hin ▸ Frame.bytes_ne_nil _) hinside n,
      bind_eq_of_eq hend]
    exact not_shown_of_complete (s := u) hl { hs with } hc { h with } hh hrem hp n
  · refine ⟨[], hblank, fun b n hr hin => ?_⟩
    exact not_shown_of_partial (s := { s with bev := some b }) { hs with } hh hrem ⟨rfl, hr⟩ hin n

/-- The run of a connection on which the server accepts the upgrade, the close timer has its
chance, and the text `p` arrives. -/
def probe (env : Env) (s : Session) (p : Bytes) : List Input :=
  [.connected, .read (s.accepting env), .closeTimeout, .read (Frame.text p).bytes]

private theorem probe_renewed (s : Session) (p : Bytes) :
    probe env s.renewed p = probe env s p := rfl

private theorem finalState_run_one (i : Input) (s : Session) :
    finalState (run env [i] s) = finalState (step env i s) := by
  rw [run, runAll_cons]
  cases h : step env i s with
  | ok a u => rw [bind_eq_of_ok h]; rfl
  | error e u => rw [bind_eq_of_error h]

private theorem run_probe (hf : env.NoFault) (hl : env.Listens) (hc : s.Closed) :
    ∃ u, Linked env s u ∧ ∀ p, run env (.connect :: probe env s p) s =
      run env [.closeTimeout, .read (Frame.text p).bytes] u := by
  obtain ⟨u, hu, hlinked⟩ := linked_run hf hl hc
  refine ⟨u, hlinked, fun p => ?_⟩
  change runAll (step env) ([.connect, .connected, .read (s.accepting env)] ++
    [.closeTimeout, .read (Frame.text p).bytes]) s = _
  rw [runAll_append]
  exact bind_eq_of_ok hu

/-- Without a close timer the text goes to the frame reader. -/
theorem Linked.run_text {u : Session} (h : Linked env s u) (ht : s.Tidy)
    (hb : s.rx.msgIsBinary = false) (hp : s.cl.closeTimeoutEvent ≠ .pending) (p : Bytes) :
    finalState (run env [.closeTimeout, .read (Frame.text p).bytes] u) =
      finalState (readLoop env (2 * (Frame.text p).bytes.length + 1 + 1)
        (u.received { input := [], readEnabled := true } (Frame.text p).bytes)) := by
  have hidle : step env .closeTimeout u = .ok () u := by
    apply eq_ok_of_wp
    simp [step, h.cl, hp]
  rw [run, runAll_cons, bind_eq_of_ok hidle, ← run, finalState_run_one,
    step_read_receiving (h.receiving ht hb)]
  rfl

/-- A new session hears the text. -/
theorem renewed_hears (hf : env.NoFault) (hl : env.Listens) (hk : s.subprotocols = []) {p : Bytes}
    (hw : (Frame.text p).Whole) :
    (s.awaiting env).io.trace ++ [.onConnect] ++ [.onMessage p false] <+:
      (finalState (run env (.connect :: probe env s p) s.renewed)).io.trace := by
  have ht : s.renewed.Tidy := ⟨rfl, Nat.zero_le _, Nat.le_of_ble_eq_true rfl, fun _ => rfl⟩
  obtain ⟨u, hu, hrun⟩ := run_probe (s := s.renewed) hf hl (Or.inl rfl)
  rw [← probe_renewed, hrun, hu.run_text ht rfl (by rintro ⟨⟩), ← awaiting_renewed hk, ← hu.trace]
  have hreceiving := (hu.receiving ht rfl).received (Frame.text p).bytes
  have hbetween :
      (u.received { input := [], readEnabled := true } (Frame.text p).bytes).Between := by
    have hrx := hu.rx
    exact ⟨by rw [Session.received, hrx]; rfl, by rw [Session.received, hrx]⟩
  have hopen : u.cl.state ≠ .closing := by
    rw [hu.cl]
    rintro ⟨⟩
  exact (shows_text hf hl hreceiving hbetween hopen hw rfl _).final

/-- A session with something left behind does not. -/
theorem stale_misses (hf : env.NoFault) (hl : env.Listens) (hc : s.Closed) (ht : s.Tidy)
    (hk : s.Kept) (hstale : s.rx.hasHeader = true ∨ s.cl.closeTimeoutEvent = .pending) :
    ∃ p, (Frame.text p).Whole ∧
      ¬ (s.awaiting env).io.trace ++ [.onConnect] ++ [.onMessage p false] <+:
        (finalState (run env (.connect :: probe env s p) s)).io.trace := by
  obtain ⟨u, hu, hrun⟩ := run_probe hf hl hc
  by_cases hp : s.cl.closeTimeoutEvent = .pending
  · refine ⟨[], Frame.text_whole (by decide) ⟨[], rfl⟩, ?_⟩
    have htrap : (step env .closeTimeout u) = .error (.check .closeTimeoutSent)
        { u with cl.closeTimeoutEvent := .fired } := by
      apply eq_error_of_wp
      simp [step, onCloseTimeout, hu.cl, hp]
    rw [hrun, run, runAll_cons, bind_eq_of_error htrap, ← hu.trace]
    exact (Missed.refl [] false u).not_shown
  · have hh : u.rx.hasHeader = true := by
      rw [hu.rx]
      exact hstale.resolve_right hp
    have hopen : u.cl.state ≠ .closing := by
      rw [hu.cl]
      rintro ⟨⟩
    have hajar : u.Ajar :=
      hk.ajar.congr (by rw [hu.rx]) (by rw [hu.rx]) hu.header
    obtain ⟨p, hw, hmiss⟩ := not_shown_of_hasHeader hl (hu.sane ht) hopen hajar hh
    refine ⟨p, hw, ?_⟩
    rw [hrun, hu.run_text ht hk.binary hp, ← hu.trace]
    exact hmiss _ _ rfl rfl

/-- The next connection on a session goes as on a new one when no frame and no close timer were
left behind. To an application that hears messages it goes so only then. -/
theorem next_connection_fresh_iff (hf : env.NoFault) (h0 : doInit env {} = .ok 0 t)
    {earlier : List Input} (h : run env earlier t = .ok ⟨⟩ s)
    (hc : s.cl.state = .closedUncleanly) :
    (s.rx.hasHeader = false ∧ s.cl.closeTimeoutEvent ≠ .pending →
      ∀ next : List Input, (∀ i ∈ next, ¬ i.IsCall) →
        (finalState (run env (.connect :: next) s)).io.trace =
          (finalState (run env (.connect :: next) s.renewed)).io.trace) ∧
    (env.Listens →
      (∀ next : List Input, (∀ i ∈ next, ¬ i.IsCall) →
        (finalState (run env (.connect :: next) s)).io.trace =
          (finalState (run env (.connect :: next) s.renewed)).io.trace) →
      s.rx.hasHeader = false ∧ s.cl.closeTimeoutEvent ≠ .pending) := by
  obtain ⟨ht, hk⟩ := kept_run hf h0 h
  refine ⟨fun hclean next hn => next_connection_fresh hf h0 h hc hclean.1 hclean.2 hn,
    fun hl heq => ?_⟩
  by_contra hstale
  rw [not_and_or, not_not, Bool.not_eq_false] at hstale
  obtain ⟨p, hw, hmiss⟩ := stale_misses hf hl (Or.inr hc) ht hk hstale
  refine hmiss ?_
  rw [heq (probe env s p) ?_]
  · exact renewed_hears hf hl hk.subprotocols hw
  · simp [probe, Input.IsCall]

/-- A connection that ends between two frames, and the next one on which a text arrives. -/
theorem next_connection_fresh_sample :
    ∃ s, run listener (replyThen [0x81, 0x01, 0x41] ++ [.eof]) Session.initialised = .ok ⟨⟩ s ∧
      s.cl.state = .closedUncleanly ∧
      (finalState (run listener [.connect, .connected, .read (plainReply ++ [0x81, 0x00])]
          s)).io.trace =
        (finalState (run listener [.connect, .connected, .read (plainReply ++ [0x81, 0x00])]
          s.renewed)).io.trace := by
  have hrun : run listener (replyThen [0x81, 0x01, 0x41] ++ [.eof]) Session.initialised =
      .ok ⟨⟩ (finalState (run listener (replyThen [0x81, 0x01, 0x41] ++ [.eof])
        Session.initialised)) := eq_ok_of_failure (by decide +kernel)
  have hc : (finalState (run listener (replyThen [0x81, 0x01, 0x41] ++ [.eof])
      Session.initialised)).cl.state = .closedUncleanly := by decide +kernel
  refine ⟨_, hrun, hc, ?_⟩
  exact (next_connection_fresh_iff (fun _ => rfl) rfl hrun hc).1 (by decide +kernel)
    [.connected, .read (plainReply ++ [0x81, 0x00])] (by simp [Input.IsCall])

/-- A connection that ends one octet into a frame of five: on the next one the header and the
text of the first frame are taken for the rest of the old frame. -/
theorem next_connection_stale_frame :
    ¬ ∀ (env : Env) (t s : Session) (earlier next : List Input), env.NoFault →
      doInit env {} = .ok 0 t → run env earlier t = .ok ⟨⟩ s → s.cl.state = .closedUncleanly →
      (∀ i ∈ next, ¬ i.IsCall) →
      (finalState (run env (.connect :: next) s)).io.trace =
        (finalState (run env (.connect :: next) s.renewed)).io.trace := by
  intro h
  have hrun : run listener (replyThen [0x81, 0x05, 0x41] ++ [.eof]) Session.initialised =
      .ok ⟨⟩ (finalState (run listener (replyThen [0x81, 0x05, 0x41] ++ [.eof])
        Session.initialised)) := eq_ok_of_failure (by decide +kernel)
  have heq := h listener _ _ _ [.connected, .read (plainReply ++ [0x81, 0x00])] (fun _ => rfl) rfl
    hrun (by decide +kernel) (by simp [Input.IsCall])
  revert heq
  decide +kernel

end CppImprovement.Ws

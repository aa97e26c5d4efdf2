import CppImprovement.Net.Ws.CloseRecord
import CppImprovement.Net.Ws.Discipline

/-!
# Pings and Pongs

A Ping is to be answered with a Pong of the same payload, and a Pong is to be ignored. The
callbacks of the session for both are null and cannot be set, so the end of either frame is a
call through a null callback. Nothing in the session writes a Pong: no run does, whatever is
read. A stream of text frames on which the receiver keeps the step is answered as it should be
exactly when it holds neither a Ping nor a Pong.
-/

namespace CppImprovement.Ws

variable {env : Env} {s s' : Session} {b : Bufferevent} {f c : Frame} {fs ts post : List Frame}
  {z : Bytes}

/-! ## Answers -/

/-- The Pong frames among the writes, each with its header and its data. -/
def pongFrames : List Event → List (Bytes × Bytes)
  | [] => []
  | .sent false hdr :: .sent true data :: es =>
    if (Event.sent false hdr).frameOpcode = some .pong then (hdr, data) :: pongFrames es
    else pongFrames es
  | _ :: es => pongFrames es

/-- The frame is a masked Pong with the payload `p`. -/
def IsPong (p : Bytes) (w : Bytes × Bytes) : Prop :=
  ∃ key : Mask,
    w = (wireHeader true false false false .pong (some key) .short p.length, maskPayload key p)

/-- The payloads of the Pings, in order. -/
def pings (fs : List Frame) : List Bytes := (fs.filter (·.opcode = .ping)).map Frame.payload

/-- The frames arrive in the reads: each Ping is answered with a Pong, in order, the session does
what it does in some reads of the stream without the Pongs, and no null callback is called. -/
structure PingsAnswered (env : Env) (fs : List Frame) (reads : List Bytes) (s : Session) :
    Prop where
  answered : ∃ evs, traceAfter env (reads.map .read) s = s.io.trace ++ evs ∧
    List.Forall₂ IsPong (pings fs) (pongFrames evs)
  ignored : ∃ reads' : List Bytes, reads'.flatten = stream (fs.filter (·.opcode ≠ .pong)) ∧
    traceAfter env (reads'.map .read) s = traceAfter env (reads.map .read) s
  called : failure (run env (reads.map .read) s) ≠ some .nullCall

/-- A Ping or a Pong as a server sends it. -/
structure Frame.Beats (f : Frame) : Prop where
  opcode : f.opcode = .ping ∨ f.opcode = .pong
  fin : f.fin = true
  rsv : f.rsv1 = false ∧ f.rsv2 = false ∧ f.rsv3 = false
  form : f.form.Fits f.payload.length
  short : f.payload.length ≤ 125

/-- A final text frame, with any payload. -/
structure Frame.FinalText (f : Frame) : Prop where
  opcode : f.opcode = .text
  fin : f.fin = true
  form : f.form.Fits f.payload.length

namespace Frame.Beats

/-- A Ping or a Pong fits the length field. -/
theorem fits (h : f.Beats) : f.Fits := ⟨h.form, Nat.lt_of_le_of_lt h.short (by decide)⟩

/-- Both are control frames. -/
theorem control (h : f.Beats) : isControlOpcode f.opcode = true := by
  rcases h.opcode with hop | hop <;> rw [hop] <;> rfl

private theorem notReserved (h : f.Beats) : isReservedOpcode f.opcode = false := by
  rcases h.opcode with hop | hop <;> rw [hop] <;> rfl

private theorem notClose (h : f.Beats) : f.opcode ≠ .close := by
  rcases h.opcode with hop | hop <;> rw [hop] <;> decide

/-- Their headers are valid, also inside a message. -/
theorem valid (h : f.Beats) (inMsgFlag : Bool) : validateHeader f.fields inMsgFlag = 0 := by
  obtain ⟨h₁, h₂, h₃⟩ := h.rsv
  have hne : f.opcode ≠ .continuation := by
    rcases h.opcode with hop | hop <;> rw [hop] <;> decide
  simp [validateHeader, Frame.fields, wireFields, h₁, h₂, h₃, h.fin, h.control, h.notReserved, hne]

end Frame.Beats

/-! ## No run writes a Pong -/

/-- No header of a Pong frame was written between `s` and `s'`. -/
def Pongless (s s' : Session) : Prop :=
  ∃ evs, s'.io.trace = s.io.trace ++ evs ∧ ∀ e ∈ evs, e.frameOpcode ≠ some .pong

namespace Pongless

/-- What writes nothing writes no Pong. -/
theorem of_silent (h : s'.io.trace = s.io.trace) : Pongless s s' :=
  ⟨[], by rw [h, List.append_nil], by simp⟩

/-- Doing nothing writes no Pong. -/
theorem refl (s : Session) : Pongless s s := of_silent rfl

/-- No Pong now and none later are none at all. -/
theorem trans (a b c : Session) (h : Pongless a b) (h' : Pongless b c) : Pongless a c := by
  obtain ⟨evs, he, hn⟩ := h
  obtain ⟨evs', he', hn'⟩ := h'
  exact ⟨evs ++ evs', by rw [he', he, List.append_assoc], List.forall_mem_append.mpr ⟨hn, hn'⟩⟩

/-- One event that is no header was added. -/
theorem of_event {e : Event} (h : s'.io.trace = s.io.trace ++ [e]) (he : e.frameOpcode = none) :
    Pongless s s' :=
  ⟨[e], h, by simp [he]⟩

/-- Closing writes no Pong. -/
theorem close (status : WSCloseStatus) (reason : Bytes) (s : Session) :
    Moves Pongless AnyTrap (closeWithStatusReason env status reason) s := by
  refine wp_mono (wp_closeWithStatusReason_mute status reason s) (fun _ u hu => ?_)
    fun _ _ hu => hu.elim
  obtain ⟨-, -, evs, htr, hw, -⟩ := hu
  exact ⟨evs, htr, hw.frameOpcode_ne (by decide)⟩

/-- The connection timeout writes no Pong. -/
theorem setupConnectionTimeout (s : Session) :
    Moves Pongless AnyTrap (setupConnectionTimeout env) s := by
  simp only [Moves, Ws.setupConnectionTimeout, callFails, wp_bind, wp_modify, wp_modifyGet, wp_ite,
    wp_pure]
  repeat' split
  all_goals exact of_silent rfl

/-- No call of the application writes a Pong. -/
theorem call (call : AppCall) (s : Session) : Moves Pongless AnyTrap (runCall env call) s := by
  cases call with
  | send msg =>
    refine moves_bind trans ?_ fun _ _ _ => moves_pure refl _ _
    refine wp_mono (wp_doSendMsg_writes msg s) (fun _ u hu => ?_) fun _ u hu => ?_
    · obtain ⟨-, h, io, evs, rfl, htr, hw, -⟩ := hu
      exact ⟨evs, htr, hw.frameOpcode_ne (by decide)⟩
    · cases hu
      exact ⟨refl s, trivial⟩
  | close => exact moves_bind trans (close _ _ s) fun _ _ _ => moves_pure refl _ _
  | connect =>
    refine moves_bind trans (moves_get_bind ?_) fun _ _ _ => moves_pure refl _ _
    refine moves_ite (fun _ => moves_pure refl _ _) fun _ => ?_
    refine moves_modify_bind trans (of_silent rfl) ?_
    refine moves_bind trans (of_event rfl rfl : Pongless _ _) fun _ u _ => ?_
    refine moves_bind trans (setupConnectionTimeout u) fun _ v _ => ?_
    exact moves_ite (fun _ => moves_pure refl _ _) fun _ => moves_pure refl _ _

/-- What the read loop is made of writes no Pong. -/
theorem rules (env : Env) : Rules env Pongless where
  refl := refl
  trans := trans
  turns := fun _ _ h => of_silent h.trace
  close := close
  closeFrame := moves_handleCloseFrame refl trans (fun _ => of_silent rfl)
    (fun _ _ _ _ _ _ => of_silent rfl) close
  message := fun _ _ _ => of_event rfl rfl
  call := call

/-- The upgrade request is no Pong. -/
theorem sendHandshake (s : Session) : Moves Pongless AnyTrap (sendHandshake env) s := by
  have hkey : Moves Pongless AnyTrap (generateHandshakeKey env) s := by
    refine moves_bind trans ?_ fun key u _ => ?_
    · refine wp_mono (wp_getRandomMask_writes 16 s) (fun _ u hu => ?_) fun _ _ hu => hu.elim
      obtain ⟨io, rfl, hio⟩ := hu
      exact of_silent hio
    · cases key with
      | none => exact moves_pure refl _ _
      | some key =>
        refine moves_modify_bind trans (of_silent rfl) ?_
        exact moves_ite (fun _ => moves_pure refl _ _) fun _ => moves_pure refl _ _
  refine moves_bind trans hkey fun _ u _ => ?_
  refine moves_ite (fun _ => moves_pure refl _ _) fun _ => moves_get_bind ?_
  refine moves_bind trans (of_event rfl rfl : Pongless _ _) fun _ v _ => ?_
  exact moves_modify_bind trans (of_silent rfl) (moves_pure refl _ _)

/-- `OnRead` writes no Pong. -/
theorem onRead (s : Session) : Moves Pongless AnyTrap (onRead env) s := by
  refine moves_get_bind ?_
  split
  · exact moves_pure refl _ _
  · refine moves_ite (fun _ => ?_) fun _ => (rules env).readWebsocket s
    refine moves_modify_bind trans (of_silent rfl) ?_
    split
    · exact moves_modify_bind trans (of_silent rfl) ((rules env).readWebsocket _)
    · exact moves_pure refl _ _
    · refine moves_modify_bind trans (of_silent rfl) ?_
      refine moves_bind trans ?_ fun _ u _ => (rules env).readWebsocket u
      refine moves_bind trans (of_event rfl rfl : Pongless _ _) fun _ u _ => moves_get_bind ?_
      exact (rules env).onConnectCalls _ u
    · exact (rules env).readWebsocket _

/-- `OnEofEvent` writes no Pong. -/
theorem onEofEvent (s : Session) : Moves Pongless AnyTrap (onEofEvent env) s := by
  refine moves_get_bind ?_
  split
  · exact moves_pure refl _ _
  · refine moves_bind trans ((rules env).readLeftover _ s) fun _ u _ => ?_
    refine moves_modify_bind trans (of_silent rfl) (moves_get_bind ?_)
    exact moves_ite (fun _ => moves_pure refl _ _) fun _ => of_silent rfl

/-- No input makes a session write a Pong. -/
theorem step (i : Input) (s : Session) : Moves Pongless AnyTrap (step env i) s := by
  cases i with
  | connect => exact call .connect s
  | close => exact call .close s
  | send msg => exact call (.send msg) s
  | connected =>
    refine moves_get_bind ?_
    split
    · refine moves_ite (fun _ => moves_pure refl _ _) fun _ => ?_
      refine moves_modify_bind trans (of_silent rfl) ?_
      exact moves_bind trans (sendHandshake _) fun _ _ _ => moves_pure refl _ _
    · exact moves_pure refl _ _
  | read bytes =>
    refine moves_get_bind ?_
    split
    · refine moves_ite (fun _ => ?_) fun _ => moves_pure refl _ _
      exact moves_modify_bind trans (of_silent rfl) (onRead _)
    · exact moves_pure refl _ _
  | eof =>
    refine moves_get_bind ?_
    split
    · exact moves_ite (fun _ => onEofEvent s) fun _ => moves_pure refl _ _
    · exact moves_pure refl _ _
  | error => exact moves_pure refl _ _
  | closeTimeout =>
    refine moves_get_bind (moves_ite (fun _ => ?_) fun _ => moves_pure refl _ _)
    refine moves_modify_bind trans (of_silent rfl) (moves_get_bind ?_)
    exact moves_ite (fun _ => moves_throw refl trivial _) fun _ => of_silent rfl
  | connectTimeout => exact moves_pure refl _ _

/-- No run makes a session write a Pong. -/
theorem run (inputs : List Input) (s : Session) : Moves Pongless AnyTrap (run env inputs) s :=
  moves_runAll refl trans step inputs s

end Pongless

private theorem pongFrames_eq_nil {evs : List Event} (h : ∀ e ∈ evs, e.frameOpcode ≠ some .pong) :
    pongFrames evs = [] := by
  fun_induction pongFrames evs with
  | case1 => rfl
  | case2 hdr data es hp => exact absurd hp (h _ List.mem_cons_self)
  | case3 hdr data es hp ih =>
    exact ih fun e he => h e (List.mem_cons_of_mem _ (List.mem_cons_of_mem _ he))
  | case4 e es _ ih => exact ih fun e' he => h e' (List.mem_cons_of_mem _ he)

/-- The session has gone on after any run, with no Pong frame among its writes. -/
theorem traceAfter_pongless (env : Env) (inputs : List Input) (s : Session) :
    ∃ evs, traceAfter env inputs s = s.io.trace ++ evs ∧ pongFrames evs = [] := by
  obtain ⟨evs, he, hn⟩ : Pongless s (finalState (run env inputs s)) :=
    wp_final.mp (wp_mono (Pongless.run inputs s) (fun _ _ h => h) fun _ _ h => h.1)
  exact ⟨evs, he, pongFrames_eq_nil hn⟩

private theorem not_answered_of_ping {reads : List Bytes} (h : PingsAnswered env fs reads s)
    (hmem : f ∈ fs) : f.opcode ≠ .ping := by
  intro hop
  obtain ⟨evs, he, hall⟩ := h.answered
  obtain ⟨evs', he', hnil⟩ := traceAfter_pongless env (reads.map .read) s
  have hevs : evs = evs' := List.append_cancel_left (he.symm.trans he')
  rw [hevs, hnil] at hall
  have hnone : pings fs = [] := by
    generalize pings fs = ps at hall
    cases hall
    rfl
  exact List.filter_eq_nil_iff.mp (List.map_eq_nil_iff.mp hnone) f hmem (by simp [hop])

/-! ## Handlers that do not send after closing -/

/-- No message is sent behind a close. -/
def CarefulCalls : List AppCall → Prop
  | [] => True
  | .close :: calls => ∀ msg, .send msg ∉ calls
  | _ :: calls => CarefulCalls calls

/-- The message handler sends nothing after it has closed. -/
def App.Careful (app : App) : Prop :=
  ∀ handler, app.onMessage = some handler → ∀ trace, CarefulCalls (handler trace)

/-- The connection is there, and closing has begun. -/
structure Session.Shutting (s : Session) : Prop where
  bev : s.bev ≠ none
  state : s.cl.state = .closing
  sendState : s.tx.sendState = .none

/-- The connection is there, open or closing. -/
def Session.Usable (s : Session) : Prop := s.Open ∨ s.Shutting

/-- What sending looks at decides whether the connection can be used. -/
theorem Session.Usable.of_line (h : s'.Usable) (hl : Line False False s s') : s.Usable :=
  h.imp (fun ho => ho.of_line hl) fun hs =>
    ⟨fun hn => hs.bev (hl.bev.mp hn), hl.state.trans hs.state, by rw [hl.tx, hs.sendState]⟩

private theorem wp_closeCall_shutting (hf : env.NoFault) (hb : s.bev ≠ none)
    (hs : s.tx.sendState = .none) :
    wp (runCall env .close) (fun _ s' => s'.Shutting) (fun _ _ => False) s := by
  have hclose := closeWithStatus_ok hf hb hs
    (show WSCloseStatus.normal1000.notUsed = false from by decide)
  rw [runCall, wp_bind]
  refine (wp_of_eq_ok hclose).mpr ⟨?_, rfl, ?_⟩
  · rw [Session.closeStarted_bev]
    exact hb
  · rw [Session.closeStarted, Session.closeFrameSent]
    split <;> exact hs

private theorem wp_runCalls_shutting (hf : env.NoFault) (h : s.Shutting) {calls : List AppCall}
    (hc : ∀ msg, .send msg ∉ calls) :
    wp (runCalls env calls) (fun _ s' => s'.Shutting) (fun _ _ => False) s := by
  induction calls generalizing s with
  | nil => exact h
  | cons call calls ih =>
    have hstep : wp (runCall env call) (fun _ s' => s'.Shutting) (fun _ _ => False) s := by
      cases call with
      | send msg => exact absurd List.mem_cons_self (hc msg)
      | close => exact wp_closeCall_shutting hf h.bev h.sendState
      | connect => simpa [runCall, doConnect, h.state] using h
    rw [runCalls, runAll_cons, wp_bind]
    exact wp_mono hstep (fun _ _ h' => ih h' fun msg hmem => hc msg (List.mem_cons_of_mem _ hmem))
      fun _ _ hn => hn

private theorem wp_runCalls_careful (hf : env.NoFault) (h : s.Open) {calls : List AppCall}
    (hc : CarefulCalls calls) :
    wp (runCalls env calls) (fun _ s' => s'.Usable) (fun _ _ => False) s := by
  induction calls generalizing s with
  | nil => exact Or.inl h
  | cons call calls ih =>
    rw [runCalls, runAll_cons, wp_bind]
    by_cases hcall : call = .close
    · subst hcall
      refine wp_mono (wp_closeCall_shutting hf h.bev h.sendState) (fun _ _ h' => ?_)
        fun _ _ hn => hn
      exact wp_mono (wp_runCalls_shutting hf h' hc) (fun _ _ h'' => Or.inr h'') fun _ _ hn => hn
    · have hc' : CarefulCalls calls := by
        cases call with
        | close => exact absurd rfl hcall
        | send msg => exact hc
        | connect => exact hc
      exact wp_mono (wp_runCall_told hf h hcall) (fun _ _ h' => ih h'.stays hc') fun _ _ hn => hn

/-- A careful handler ends, and leaves the connection there. -/
theorem wp_endOfMessage_careful (hf : env.NoFault) (hq : env.app.Careful) (h : s.Usable)
    (p : Bytes) :
    wp (endOfMessage env p) (fun _ s' => s'.Usable) (fun _ _ => False) s := by
  have hcalled : wp (callOnMessage env p) (fun _ s' => s'.Usable) (fun _ _ => False) s := by
    rw [callOnMessage, wp_bind, wp_get]
    cases ha : env.app.onMessage with
    | none => exact h
    | some handler =>
      simp only [wp_ite]
      split
      · exact h
      · rename_i hst
        have ho : s.Open := h.resolve_right fun hs => hst hs.state
        simp only [wp_bind, emit, wp_modify, wp_get]
        refine wp_runCalls_careful hf ?_ (hq handler ha _)
        exact { ho with }
  rw [endOfMessage, wp_bind]
  refine wp_mono hcalled (fun _ s' h' => ?_) fun _ _ hn => hn
  exact h'.imp (fun ho => { ho with }) fun hs => { hs with }

private theorem wp_deliver_careful (hf : env.NoFault) (hq : env.app.Careful) (h : s.Usable)
    (fs : List Frame) :
    wp (runAll (deliver env) fs) (fun _ s' => s'.Usable) (fun _ _ => False) s := by
  induction fs generalizing s with
  | nil => exact h
  | cons f fs ih =>
    rw [runAll_cons, wp_bind, deliver, wp_bind, wp_modify]
    refine wp_mono (wp_endOfMessage_careful hf hq ?_ f.payload) (fun _ _ h' => ih h')
      fun _ _ hn => hn
    exact h.imp (fun ho => { ho with }) fun hs => { hs with }

/-! ## The receiver before the first Ping or Pong -/

/-- The session goes on receiving on the same connection. -/
theorem Session.Receiving.of_bev {b' : Bufferevent} (h : s.Receiving b) (hb : s'.bev = some b')
    (hen : b'.readEnabled = b.readEnabled) (hhs : s'.hs = s.hs) (hs : s'.Sane)
    (hch : s'.rx.msgIsBinary = s.rx.msgIsBinary) : s'.Receiving b' :=
  ⟨hb, hen.trans h.enabled, by rw [hhs]; exact h.complete, hs, hch.trans h.checked⟩

/-- The receiver expects the frames `fs`, of which the buffer holds the beginning and `z` is still
to come; it may be inside the first of them, which may be a control frame. -/
inductive Session.Faces (s : Session) (b : Bufferevent) : List Frame → Bytes → Prop
  | data {fs : List Frame} {z : Bytes} (h : s.Awaits b fs z)
    (hd : s.rx.hasHeader = true → isControlOpcode s.wsHeader.opcode = false) : Faces s b fs z
  | control {f : Frame} {fs : List Frame} {k : Nat} {z : Bytes} (h : s.InControl f k)
    (hctl : isControlOpcode f.opcode = true) (hk : k < f.payload.length)
    (hin : b.input ++ z = f.payload.drop k ++ stream fs) : Faces s b (f :: fs) z

namespace Session.Faces

/-- The input and what is to come are no longer than the frames. -/
theorem length_le (h : s.Faces b fs z) : b.input.length + z.length ≤ (stream fs).length := by
  have hinside : ∀ {f : Frame} {fs : List Frame} {k : Nat} {z : Bytes},
      b.input ++ z = f.payload.drop k ++ stream fs →
      b.input.length + z.length ≤ (stream (f :: fs)).length := by
    intro f fs k z hin
    have hlen := congrArg List.length hin
    rw [List.length_append, List.length_append, List.length_drop] at hlen
    rw [stream_cons, List.length_append, Frame.length_bytes]
    omega
  cases h with
  | data h hd =>
    cases h with
    | between h hin => rw [← hin, List.length_append]
    | inside h hk hp hin => exact hinside hin
  | control h hctl hk hin => exact hinside hin

/-- With nothing in the buffer, a part of the next frame is still to come. -/
theorem lt_length (h : s.Faces b (f :: fs) z) (hin : b.input = []) :
    (stream fs).length < z.length := by
  have hinside : ∀ {k : Nat}, k < f.payload.length → b.input ++ z = f.payload.drop k ++ stream fs →
      (stream fs).length < z.length := by
    intro k hk hst
    have hlen := congrArg List.length hst
    rw [hin, List.nil_append, List.length_append, List.length_drop] at hlen
    omega
  cases h with
  | data h hd =>
    cases h with
    | between h hst =>
      have := f.two_le_length_header
      rw [hin, List.nil_append] at hst
      rw [hst, stream_cons, List.length_append, Frame.length_bytes]
      omega
    | inside h hk hp hst => exact hinside hk hst
  | control h hctl hk hst => exact hinside hk hst

/-- A receiver between frames faces those that come. -/
theorem between (h : s.Between) (hin : b.input ++ z = stream fs) : s.Faces b fs z :=
  .data (.between h hin) fun hh => absurd (h.hasHeader.symm.trans hh) (by decide)

/-- In front of a data frame. -/
theorem awaits (h : s.Faces b (f :: fs) z) (hd : isControlOpcode f.opcode = false) :
    s.Awaits b (f :: fs) z := by
  cases h with
  | data h _ => exact h
  | control h hctl hk hin => exact absurd (hd.symm.trans hctl) (by decide)

private theorem of_awaits (h : s.Awaits b (f :: fs) z) (hd : isControlOpcode f.opcode = false) :
    s.Faces b (f :: fs) z := by
  refine .data h fun hh => ?_
  cases h with
  | between h _ => exact absurd (h.hasHeader.symm.trans hh) (by decide)
  | inside h _ _ _ =>
    rw [h.header]
    exact hd

/-- A read moves octets from what is to come into the buffer. -/
theorem received {r : Bytes} (h : s.Faces b fs (r ++ z)) :
    (s.received b r).Faces { b with input := b.input ++ r } fs z := by
  cases h with
  | data h hd => exact .data h.received hd
  | control h hctl hk hin =>
    exact .control { h with } hctl hk (by rw [← hin, List.append_assoc])

end Session.Faces

/-- The receiver is inside the control frame `f` of the stream after the header part of a round. -/
structure EnteredControl (env : Env) (s : Session) (f : Frame) (fs : List Frame) (z : Bytes)
    (s₁ : Session) (b₁ : Bufferevent) (k : Nat) : Prop where
  round : ∀ n, readLoop env (n + 1) s = (readPayload env >>= fun _ => readLoop env n) s₁
  inControl : s₁.InControl f k
  le : k ≤ f.payload.length
  receiving : s₁.Receiving b₁
  input : b₁.input ++ z = f.payload.drop k ++ stream fs
  line : Line False False s₁ s

/-- A round reads the header of a Ping or Pong or finds itself inside it, unless a part of the
header is missing. -/
theorem Session.Faces.enters (env : Env) (h : s.Faces b (f :: fs) z) (hr : s.Receiving b)
    (hb : f.Beats) (hin : b.input ≠ []) :
    (s.Between ∧ b.input ++ z = stream (f :: fs) ∧ ∃ d, b.input ++ d = f.header ∧ d ≠ []) ∨
      ∃ s₁ b₁ k, EnteredControl env s f fs z s₁ b₁ k := by
  cases h with
  | data h hd =>
    cases h with
    | between h hst =>
      rcases header_or_rest hst with hpart | ⟨x, hx, hxz⟩
      · exact Or.inl ⟨h, hst, hpart⟩
      · have hneed := needHeader_control (f := f) env hb.fits hb.control (hb.valid _) hr.reading hx
          h.hasHeader
        refine Or.inr ⟨s.ctrlBegun b f x, { b with input := x }, 0, ?_⟩
        exact
          { round := readLoop_round hr.reading hin hneed
            inControl := ⟨rfl, rfl, rfl, rfl⟩
            le := Nat.zero_le _
            receiving := hr.of_bev rfl rfl rfl { hr.sane with ctrlLen := Nat.zero_le _ } rfl
            input := hxz
            line :=
              { Line.refl False False s with
                bev := by simp [Session.ctrlBegun, hr.bev]
                header := False.elim
                scratchPos := False.elim } }
    | inside h hk hp hst =>
      have hctl := hd h.hasHeader
      rw [h.header] at hctl
      exact absurd (hb.control.symm.trans hctl) (by decide)
  | @control _ _ k _ h hctl hk hst =>
    refine Or.inr ⟨s, b, k, ?_⟩
    exact
      { round := readLoop_round hr.reading hin (needHeader_inside h.hasHeader _)
        inControl := h
        le := hk.le
        receiving := hr
        input := hst
        line := Line.refl _ _ s }

/-- With the rest of a Ping or Pong in the buffer the payload part calls a null callback. -/
theorem EnteredControl.dies {s₁ : Session} {b₁ : Bufferevent} {k : Nat}
    (h : EnteredControl env s f fs z s₁ b₁ k) (hb : f.Beats)
    (hz : z.length ≤ (stream fs).length) :
    wp (readPayload env) (fun _ _ => False) (fun e _ => e = .nullCall) s₁ := by
  have hdies : ∀ {u : Session}, u.wsHeader = f.fields →
      wp (endFrame env) (fun _ _ => False) (fun e _ => e = .nullCall) u := fun hw =>
    wp_mono (wp_endFrame_control (f := f) hw hb.control hb.notReserved hb.notClose)
      (fun _ _ hn => hn) fun _ _ he => he.1
  obtain ⟨x, hx, -⟩ := exists_of_append_eq h.input hz
  rcases h.le.lt_or_eq with hlt | rfl
  · have hend : k + (f.payload.drop k).length = f.payload.length := by
      rw [List.length_drop]
      omega
    have hread : readPayload env s₁ = _ := readPayload_ctrlTook h.inControl hb.fits hb.control
      hb.short h.receiving.reading (List.append_nil _).symm hx (Or.inl rfl) hlt
    rw [wp_congr (hread.trans (congrFun (if_pos hend) _))]
    exact hdies h.inControl.header
  · rw [wp_congr (readPayload_done h.inControl.header h.inControl.recvFrameLen hb.fits)]
    exact hdies h.inControl.header

/-- A round with a part of a Ping or Pong in the buffer stores it. -/
theorem Session.Faces.stores (h : s.Faces b (f :: fs) z) (hr : s.Receiving b) (hb : f.Beats)
    (hin : b.input ≠ []) (hz : (stream fs).length < z.length) (n : Nat) :
    ∃ u b', readLoop env (n + 1) s = .ok () u ∧ Line False False u s ∧ u.Receiving b' ∧
      u.Faces b' (f :: fs) z := by
  rcases h.enters env hr hb hin with ⟨hbt, hst, d, hd, hne⟩ | ⟨s₁, b₁, k, he⟩
  · obtain ⟨hdr, hwait⟩ := needHeader_waits env hd hne hbt.hasHeader
    refine ⟨_, b, readLoop_stop hr.reading hin hwait n, ?_, hr.headed hdr, .between ?_ hst⟩
    · exact { Line.refl False False s with header := False.elim, scratchPos := False.elim }
    · exact ⟨hbt.hasHeader, hbt.inMsgFlag⟩
  · obtain ⟨d, hd, hdz, hlen, hlt⟩ := payload_part he.input he.le hz
    have hread : readPayload env s₁ = .ok () (s₁.ctrlTook b₁ b₁.input []) := by
      refine (readPayload_ctrlTook he.inControl hb.fits hb.control hb.short he.receiving.reading hd
        (List.append_nil _).symm (Or.inr rfl) (show k < f.payload.length by omega)).trans ?_
      exact congrFun (if_neg hlt.ne) _
    have htook := he.inControl.ctrlTook b₁ b₁.input []
    have hr' : (s₁.ctrlTook b₁ b₁.input []).Receiving { b₁ with input := [] } := by
      refine he.receiving.of_bev rfl rfl rfl { he.receiving.sane with ctrlLen := ?_ } rfl
      rw [htook.ctrlLen]
      exact hlt.le.trans hb.short
    refine ⟨_, { b₁ with input := [] }, ?_, ?_, hr', .control htook hb.control hlt ?_⟩
    · rw [he.round n, bind_eq_of_ok hread]
      exact readLoop_nil hr'.reading rfl n
    · refine Line.trans ?_ he.line
      exact { Line.refl False False s₁ with bev := by simp [Session.ctrlTook, he.receiving.bev] }
    · rw [← List.drop_drop, hd, List.drop_left]
      exact hdz

/-! ## The loop before the first Ping or Pong -/

/-- A message is delivered to a careful handler, and the loop goes on. -/
theorem Session.Awaits.delivers_careful (hf : env.NoFault) (hq : env.app.Careful) {n : Nat}
    {Q : Unit → Session → Prop} {E : Trap → Session → Prop} (h : s.Awaits b (f :: fs) z)
    (hr : s.Receiving b) (hu : s.Usable) (hw : f.Whole) (hin : b.input ≠ [])
    (hz : z.length ≤ (stream fs).length)
    (hrest : ∀ s₁ b₁, s₁.Receiving b₁ → s₁.Usable → s₁.Faces b₁ fs z →
      b₁.input.length < b.input.length → wp (readLoop env n) Q E s₁) :
    wp (readLoop env (n + 1)) Q E s := by
  obtain ⟨u, b', hround, hu', hr', hst, hlt⟩ := h.delivers hf hr hw hin hz n
  rw [wp_congr hround, wp_bind]
  have hends := wp_endOfMessage_careful hf hq (hu.of_line hu'.line) f.payload
  refine wp_mono (wp_and hends (wp_endOfMessage_receiving hf hr' f.payload)) (fun _ s₁ h₁ => ?_)
    fun _ _ h₁ => h₁.1.elim
  obtain ⟨hus, hr₁, hb₁, -⟩ := h₁
  exact hrest s₁ b' hr₁ hus (.between hb₁ hst) hlt

private theorem length_stream_post (ts : List Frame) (c : Frame) (post : List Frame) :
    (stream post).length ≤ (stream (ts ++ c :: post)).length :=
  length_stream_suffix ((List.suffix_cons c post).trans (List.suffix_append ts (c :: post)))

/-- The loop comes to the end of the first Ping or Pong, and calls a null callback. -/
theorem wp_readLoop_dies (hf : env.NoFault) (hq : env.app.Careful) {n : Nat} (hr : s.Receiving b)
    (hu : s.Usable) (h : s.Faces b (ts ++ c :: post) z) (hts : ∀ f ∈ ts, f.Whole) (hc : c.Beats)
    (hz : z.length ≤ (stream post).length) (hn : b.input.length < n) :
    wp (readLoop env n) (fun _ _ => False) (fun e _ => e = .nullCall) s := by
  induction n generalizing s b ts with
  | zero => omega
  | succ n ih =>
    cases ts with
    | nil =>
      have hin : b.input ≠ [] := fun hnil => absurd (h.lt_length hnil) (by omega)
      rcases h.enters env hr hc hin with ⟨-, hst, d, hd, hne⟩ | ⟨s₁, b₁, k, he⟩
      · have hlen := congrArg List.length hst
        have hlen' := congrArg List.length hd
        have hpos := List.length_pos_iff.mpr hne
        simp only [stream_cons, List.length_append, Frame.length_bytes] at hlen hlen'
        omega
      · rw [wp_congr (he.round n), wp_bind]
        exact wp_mono (he.dies hc hz) (fun _ _ hn => hn.elim) fun _ _ he => he
    | cons t ts =>
      rw [List.cons_append] at h
      obtain ⟨hwt, hws⟩ := List.forall_mem_cons.mp hts
      have hlen := length_stream_post ts c post
      have hin : b.input ≠ [] := fun hnil => absurd (h.lt_length hnil) (by omega)
      exact (h.awaits hwt.begins.not_control).delivers_careful hf hq hr hu hwt hin (by omega)
        fun s₁ b₁ hr₁ hu₁ h₁ hlt => ih hr₁ hu₁ h₁ hws (by omega)

/-- The session has come on in the stream, to a part of the texts and the first Ping or Pong. -/
def Session.ComesTo (s : Session) (ts : List Frame) (c : Frame) (post : List Frame) (z : Bytes) :
    Prop :=
  ∃ ts' b, ts' <:+ ts ∧ s.Receiving b ∧ s.Usable ∧ s.Faces b (ts' ++ c :: post) z

/-- The loop delivers the messages that are complete, as long as the first Ping or Pong is not. -/
theorem wp_readLoop_comesTo (hf : env.NoFault) (hq : env.app.Careful) {n : Nat}
    (hr : s.Receiving b) (hu : s.Usable) (h : s.Faces b (ts ++ c :: post) z)
    (hts : ∀ f ∈ ts, f.Whole) (hc : c.Beats) (hz : (stream post).length < z.length)
    (hp : CutPasses (ts ++ c :: post) z.length) (hn : b.input.length < n) :
    wp (readLoop env n) (fun _ s' => s'.ComesTo ts c post z) (fun _ _ => False) s := by
  induction n generalizing s b ts with
  | zero => omega
  | succ n ih =>
    by_cases hin : b.input = []
    · rw [wp_of_eq_ok (readLoop_nil hr.reading hin _)]
      exact ⟨ts, b, List.suffix_rfl, hr, hu, h⟩
    cases ts with
    | nil =>
      obtain ⟨u, b', hround, hl, hr', h'⟩ := h.stores hr hc hin hz n
      rw [wp_of_eq_ok hround]
      exact ⟨[], b', List.suffix_rfl, hr', hu.of_line hl, h'⟩
    | cons t ts =>
      rw [List.cons_append] at h hp
      rw [CutPasses] at hp
      obtain ⟨hwt, hws⟩ := List.forall_mem_cons.mp hts
      have ha := h.awaits hwt.begins.not_control
      by_cases hzt : z.length ≤ (stream (ts ++ c :: post)).length
      · rw [if_pos hzt] at hp
        refine ha.delivers_careful hf hq hr hu hwt hin hzt fun s₁ b₁ hr₁ hu₁ h₁ hlt => ?_
        refine wp_mono (ih hr₁ hu₁ h₁ hws hp (by omega)) (fun _ s' h' => ?_) fun _ _ hn => hn
        obtain ⟨ts', b', hsub, h'⟩ := h'
        exact ⟨ts', b', hsub.trans (List.suffix_cons t ts), h'⟩
      · rw [if_neg hzt] at hp
        obtain ⟨u, b', hround, hl, hr', ha', -⟩ := ha.stores hf hr hwt hin (not_le.mp hzt) hp n
        rw [wp_of_eq_ok hround]
        exact ⟨t :: ts, b', List.suffix_rfl, hr', hu.of_line hl,
          .of_awaits ha' hwt.begins.not_control⟩

/-! ## Reads -/

/-- What passes of the stream passes of its last frames. -/
theorem CutPasses.of_suffix {all : List Frame} {m : Nat} (hp : CutPasses all m) (h : fs <:+ all)
    (hm : m ≤ (stream fs).length) : CutPasses fs m := by
  induction all with
  | nil =>
    rw [List.suffix_nil.mp h]
    trivial
  | cons g gs ih =>
    rcases List.suffix_cons_iff.mp h with rfl | hsub
    · exact hp
    · rw [CutPasses, if_pos (hm.trans (length_stream_suffix hsub))] at hp
      exact ih hp hsub

/-- Reads that bring the first Ping or Pong to its end make the session call a null callback. -/
theorem wp_reads_die (hf : env.NoFault) (hq : env.app.Careful) {reads : List Bytes}
    (hr : s.Receiving b) (hu : s.Usable) (h : s.Faces b (ts ++ c :: post) reads.flatten)
    (hts : ∀ f ∈ ts, f.Whole) (hc : c.Beats) (hlt : (stream post).length < reads.flatten.length)
    (hp : ∀ r later, r :: later <:+ reads → (stream post).length < later.flatten.length →
      CutPasses (ts ++ c :: post) later.flatten.length) :
    wp (run env (reads.map .read)) (fun _ _ => False) (fun e _ => e = .nullCall) s := by
  induction reads generalizing s b ts with
  | nil => exact absurd hlt (Nat.not_lt_zero _)
  | cons r reads ih =>
    have hn : (b.input ++ r).length < 2 * (b.input ++ r).length + 2 := by omega
    have hu' : (s.received b r).Usable := hu.of_line (Session.received_line hr.bev r)
    rw [List.map_cons, run, runAll_cons, wp_bind, wp_congr (step_read_receiving hr r)]
    by_cases hz : reads.flatten.length ≤ (stream post).length
    · exact wp_mono (wp_readLoop_dies hf hq (hr.received r) hu' h.received hts hc hz hn)
        (fun _ _ hn => hn.elim) fun _ _ he => he
    · have hcut := hp r reads List.suffix_rfl (not_le.mp hz)
      refine wp_mono (wp_readLoop_comesTo hf hq (hr.received r) hu' h.received hts hc (not_le.mp hz)
        hcut hn) (fun _ s₁ h₁ => ?_) fun _ _ hn => hn.elim
      obtain ⟨ts', b₁, hsub, hr₁, hu₁, h₁⟩ := h₁
      refine ih hr₁ hu₁ h₁ (fun f hmem => hts f (hsub.mem hmem)) (not_le.mp hz)
        fun r' later hlater hlt' => ?_
      have hle : later.flatten.length ≤ reads.flatten.length := by
        obtain ⟨before, rfl⟩ := hlater
        simp only [List.flatten_append, List.flatten_cons, List.length_append]
        omega
      have hsub' : ts' ++ c :: post <:+ ts ++ c :: post := by
        obtain ⟨before, rfl⟩ := hsub
        exact ⟨before, by rw [List.append_assoc]⟩
      exact (hp r' later (hlater.trans (List.suffix_cons r reads)) hlt').of_suffix hsub'
        (hle.trans (by have := h₁.length_le; omega))

/-! ## Streams of text, Pings and Pongs -/

/-- The text frames before the first frame of another kind. -/
def leadingTexts (fs : List Frame) : List Frame := fs.takeWhile (·.opcode = .text)

/-- The receiver keeps the step on the text frames before the first frame of another kind: they
are valid text whose length fits the header field, and no read ends inside a character. -/
structure Kept (fs : List Frame) (reads : List Bytes) : Prop where
  whole : ∀ f ∈ leadingTexts fs, f.Whole
  cuts : ∀ earlier, earlier <+: reads → CutPasses (leadingTexts fs)
    ((stream (leadingTexts fs)).length - earlier.flatten.length)

private theorem cutPasses_append (hc : isControlOpcode c.opcode = true) {m : Nat}
    (hm : (stream post).length < m) (hp : CutPasses ts (m - (stream (c :: post)).length)) :
    CutPasses (ts ++ c :: post) m := by
  induction ts with
  | nil =>
    rw [List.nil_append, CutPasses, if_neg (by omega)]
    exact fun hn => absurd (hn.symm.trans hc) (by decide)
  | cons t ts ih =>
    have hlen : (stream (ts ++ c :: post)).length =
        (stream ts).length + (stream (c :: post)).length := by
      rw [stream_append, List.length_append]
    rw [CutPasses] at hp
    rw [List.cons_append, CutPasses]
    by_cases hle : m - (stream (c :: post)).length ≤ (stream ts).length
    · rw [if_pos hle] at hp
      rw [if_pos (by omega)]
      exact ih hp
    · rw [if_neg hle] at hp
      rw [if_neg (by omega)]
      rwa [show t.payload.length + (stream (ts ++ c :: post)).length - m =
        t.payload.length + (stream ts).length - (m - (stream (c :: post)).length) from by omega]

/-- A stream that is not all text has a first frame of another kind. -/
theorem exists_first (h : ¬ ∀ f ∈ fs, f.opcode = .text) :
    ∃ c post, fs = leadingTexts fs ++ c :: post ∧ c.opcode ≠ .text := by
  induction fs with
  | nil => exact absurd (by simp) h
  | cons f fs ih =>
    by_cases hf : f.opcode = .text
    · have hrest : ¬ ∀ f ∈ fs, f.opcode = .text := fun hall =>
        h (List.forall_mem_cons.mpr ⟨hf, hall⟩)
      obtain ⟨c, post, heq, hc⟩ := ih hrest
      refine ⟨c, post, ?_, hc⟩
      rw [leadingTexts, List.takeWhile_cons_of_pos (by simpa using hf), List.cons_append]
      exact congrArg (f :: ·) heq
    · refine ⟨f, fs, ?_, hf⟩
      rw [leadingTexts, List.takeWhile_cons_of_neg (by simpa using hf), List.nil_append]

private theorem leadingTexts_eq_self (h : ∀ f ∈ fs, f.opcode = .text) : leadingTexts fs = fs :=
  List.takeWhile_eq_self_iff.mpr fun f hf => decide_eq_true (h f hf)

/-- The first Ping or Pong kills the process. -/
theorem Kept.dies (hf : env.NoFault) (hq : env.app.Careful) (hs : s.Fresh) {reads : List Bytes}
    (hk : Kept fs reads) (hreads : reads.flatten = stream fs)
    (hfs : fs = leadingTexts fs ++ c :: post) (hc : c.Beats) :
    failure (run env (reads.map .read) s) = some .nullCall := by
  obtain ⟨hwhole, hcuts⟩ := hk
  generalize leadingTexts fs = ts at hfs hwhole hcuts
  subst hfs
  have hlen : reads.flatten.length = (stream ts).length + (stream (c :: post)).length := by
    rw [hreads, stream_append, List.length_append]
  have hpost : (stream post).length < (stream (c :: post)).length := by
    have := c.two_le_length_header
    rw [stream_cons, List.length_append, Frame.length_bytes]
    omega
  have hfaces : s.Faces { input := [], readEnabled := true } (ts ++ c :: post) reads.flatten :=
    .between hs.between hreads
  have hdies := wp_reads_die hf hq hs.receiving (Or.inl hs.isOpen) hfaces hwhole hc (by omega)
    fun r later hlater hlt => by
      obtain ⟨before, rfl⟩ := hlater
      have hcut := hcuts (before ++ [r]) ⟨later, by simp⟩
      refine cutPasses_append hc.control hlt ?_
      simp only [List.flatten_append, List.flatten_cons, List.flatten_nil, List.append_nil,
        List.length_append] at hlen hcut
      rwa [show later.flatten.length - (stream (c :: post)).length =
        (stream ts).length - (before.flatten.length + r.length) from by omega]
  obtain ⟨e, t, hrun, rfl⟩ := exists_error_of_wp hdies
  rw [hrun]
  rfl

/-- Text frames alone on which the receiver keeps the step call no null callback. -/
theorem Kept.lives (hf : env.NoFault) (hq : env.app.Careful) (hs : s.Fresh) {reads : List Bytes}
    (hk : Kept fs reads) (hreads : reads.flatten = stream fs)
    (hfs : ∀ f ∈ fs, f.opcode = .text) : failure (run env (reads.map .read) s) = none := by
  obtain ⟨hwhole, hcuts⟩ := hk
  rw [leadingTexts_eq_self hfs] at hwhole hcuts
  have ha := hs.awaits fs
  rw [← hreads] at ha
  have hpass : ReadsPass fs reads := by
    rw [readsPass_iff_earlier, hreads]
    exact fun earlier hpre _ => hcuts earlier hpre
  have hsim := sim_reads hf hs.receiving ha (ha.waits rfl).2 hwhole hpass (Line.refl _ _ s)
  obtain ⟨_, t, hrun, -⟩ := exists_ok_of_wp
    (hsim.wp_left (wp_deliver_careful hf hq (Or.inl hs.isOpen) fs))
  rw [hrun]
  rfl

/-- For every stream of Pings, Pongs and final text frames and every partition into reads: the
Pings are not answered if there is one, and as long as the receiver keeps the step on the texts,
all is as it should be exactly when there is neither a Ping nor a Pong. -/
theorem pingsAnswered_iff (hf : env.NoFault) (hq : env.app.Careful) (hs : s.Fresh)
    {reads : List Bytes} (hfs : ∀ f ∈ fs, f.Beats ∨ f.FinalText)
    (hreads : reads.flatten = stream fs) :
    (PingsAnswered env fs reads s → ∀ f ∈ fs, f.opcode ≠ .ping) ∧
      (Kept fs reads → (PingsAnswered env fs reads s ↔ ∀ f ∈ fs, f.opcode = .text)) := by
  refine ⟨fun h f hmem => not_answered_of_ping h hmem, fun hk => ⟨fun h => ?_, fun htext => ?_⟩⟩
  · by_contra hall
    obtain ⟨c, post, heq, hc⟩ := exists_first hall
    have hmem : c ∈ fs := by
      rw [heq]
      simp
    have hbeats : c.Beats := (hfs c hmem).resolve_right fun ht => hc ht.opcode
    exact h.called (hk.dies hf hq hs hreads heq hbeats)
  · obtain ⟨evs, he, hnil⟩ := traceAfter_pongless env (reads.map .read) s
    have hnoping : pings fs = [] := by
      rw [pings, List.map_eq_nil_iff, List.filter_eq_nil_iff]
      exact fun f hmem => by simp [htext f hmem]
    have hnopong : fs.filter (·.opcode ≠ .pong) = fs :=
      List.filter_eq_self.mpr fun f hmem => by simp [htext f hmem]
    refine ⟨⟨evs, he, ?_⟩, ⟨reads, by rw [hnopong, hreads], rfl⟩, ?_⟩
    · rw [hnoping, hnil]
      exact .nil
    · rw [hk.lives hf hq hs hreads htext]
      exact nofun

/-- A text frame in two reads is kept, and all is as it should be. -/
theorem pingsAnswered_text :
    PingsAnswered listener [.text [0x41, 0x42]] [[0x81, 0x02, 0x41], [0x42]] justOpened := by
  have hvalid : ValidUtf8 [0x41, 0x42] := ⟨['A', 'B'], by decide⟩
  have hkept : Kept [.text [0x41, 0x42]] [[0x81, 0x02, 0x41], [0x42]] := by
    refine ⟨fun f hf => ?_, fun earlier h => ?_⟩
    · obtain rfl := List.mem_singleton.mp hf
      exact Frame.text_whole (by decide) hvalid
    · rcases List.prefix_cons_iff.mp h with rfl | ⟨e, rfl, he⟩
      · exact Frame.passes_zero _
      · rcases List.prefix_cons_iff.mp he with rfl | ⟨e', rfl, he'⟩
        · exact fun _ => by decide
        · rw [List.prefix_nil.mp he']
          trivial
  refine ((pingsAnswered_iff (fun _ => rfl) ?_ justOpened_fresh ?_ (by decide)).2 hkept).mpr ?_
  · intro handler hh trace
    cases hh
    trivial
  · intro f hf
    obtain rfl := List.mem_singleton.mp hf
    exact Or.inr ⟨rfl, rfl, (Frame.plain_fits (by decide)).form⟩
  · simp [Frame.text, Frame.plain]

/-- An empty Ping kills the process. -/
theorem ping_not_answered :
    ¬ ∀ (env : Env) (s : Session) (fs : List Frame) (reads : List Bytes), env.NoFault →
      env.app.Careful → s.Fresh → (∀ f ∈ fs, f.Beats ∨ f.FinalText) →
      reads.flatten = stream fs → PingsAnswered env fs reads s := by
  intro h
  have hping : (Frame.plain true .ping []).Beats :=
    ⟨Or.inl rfl, rfl, ⟨rfl, rfl, rfl⟩, (Frame.plain_fits (by decide)).form, by decide⟩
  have hdies : failure (run listener ([[0x89, 0x00]].map .read) justOpened) = some .nullCall := by
    decide +kernel
  refine (h listener justOpened [.plain true .ping []] [[0x89, 0x00]] (fun _ => rfl) ?_
    justOpened_fresh ?_ (by decide)).called hdies
  · intro handler hh trace
    cases hh
    trivial
  · intro f hf
    obtain rfl := List.mem_singleton.mp hf
    exact Or.inl hping

end CppImprovement.Ws

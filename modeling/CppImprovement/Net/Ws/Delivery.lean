import CppImprovement.Net.Ws.Frames
import CppImprovement.Net.Ws.Steps

/-!
# Delivering messages

What the application's message handler does to a session: it leaves the receiver
alone, and a handler that does not close only sends. What a session has written is
read off its trace; a Close frame is known by the first byte of its header.
-/

namespace CppImprovement.Ws

variable {env : Env} {s t : Session} {b : Bufferevent} {f : Frame}

/-! ## The receiver under a handler -/

/-- The session receives frames on a live connection. -/
structure Session.Receiving (s : Session) (b : Bufferevent) : Prop where
  bev : s.bev = some b
  enabled : b.readEnabled = true
  complete : s.hs.connectState = .handshakeComplete
  sane : s.Sane
  checked : s.rx.msgIsBinary = false

/-- A session that receives reads from its bufferevent. -/
theorem Session.Receiving.reading (h : s.Receiving b) : s.Reading b := ⟨h.bev, h.enabled⟩

/-- The receiver is between two messages. -/
structure Session.Between (s : Session) : Prop where
  hasHeader : s.rx.hasHeader = false
  inMsgFlag : s.rx.inMsgFlag = false

/-- Deliver a message: its handler, called with the message's kind. -/
def deliver (env : Env) (f : Frame) : M Unit := do
  modify fun s => { s with rx.msgIsBinary_ := decide (f.opcode = .binary) }
  endOfMessage env f.payload

/-- No Close frame has been handled between `s` and `s'`. -/
structure SameCloses (s s' : Session) : Prop where
  received : s'.cl.receivedCloseFlag = s.cl.receivedCloseFlag
  entries : s'.rx.closeEntries = s.rx.closeEntries

/-- Nothing was closed. -/
theorem SameCloses.refl (s : Session) : SameCloses s s := ⟨rfl, rfl⟩

/-- A quiet service handles no Close frame. -/
theorem Served.sameCloses {keep : Prop} {s s' : Session} (h : Served keep True s s') :
    SameCloses s s' := by
  obtain ⟨hrx, hrec⟩ := h.rx trivial
  exact ⟨hrec, by rw [hrx]⟩

/-- A message handler leaves the receiver and the connection alone. -/
theorem wp_callOnMessage_receiving (hf : env.NoFault) (hr : s.Receiving b) (p : Bytes) :
    wp (callOnMessage env p) (fun _ s' => s'.Receiving b ∧ SameCloses s s')
      (fun _ s' => SameCloses s s') s := by
  simp only [callOnMessage, wp_bind, wp_get]
  cases env.app.onMessage with
  | none => exact ⟨hr, .refl s⟩
  | some handler =>
    simp only [wp_ite, emit, wp_bind, wp_modify, wp_get]
    split
    · exact ⟨hr, .refl s⟩
    · have hcalls : ∀ calls u, Moves (Serves True True) Mild (runCalls env calls) u :=
        serves_runCalls fun _ => hf
      refine wp_mono (hcalls _ _) (fun _ s' hs => ?_) fun _ s' hs => ?_
      · have hv := hs { hr.sane with }
        have hb : s'.bev = some b := by
          rcases hv.held trivial with hn | hn
          · exact absurd hn (hv.live trivial (by simp [hr.bev]))
          · exact hn.trans hr.bev
        exact ⟨⟨hb, hr.enabled, by rw [hv.hs]; exact hr.complete, hv.sane,
          by rw [hv.binary]; exact hr.checked⟩, { hv.sameCloses with }⟩
      · exact { (hs.1 { hr.sane with }).sameCloses with }

/-- After the end of a message the receiver is between two messages. -/
theorem wp_endOfMessage_receiving (hf : env.NoFault) (hr : s.Receiving b) (p : Bytes) :
    wp (endOfMessage env p) (fun _ s' => s'.Receiving b ∧ s'.Between ∧ SameCloses s s')
      (fun _ s' => SameCloses s s') s := by
  rw [endOfMessage, wp_bind]
  refine wp_mono (wp_callOnMessage_receiving hf hr p) (fun _ s' h' => ?_) fun _ _ h' => h'
  obtain ⟨hr', hc⟩ := h'
  exact ⟨⟨hr'.bev, hr'.enabled, hr'.complete, { hr'.sane with }, hr'.checked⟩, ⟨rfl, rfl⟩,
    { hc with }⟩

/-! ## What is written -/

/-- The event is the header of a Close frame. -/
def Event.isCloseFrame : Event → Bool
  | .sent false (x :: _) => x == 0x88
  | _ => false

/-- The headers the session sends are told apart by their first byte. -/
theorem isCloseFrame_sentHeader (pos : Nat) (opcode : WSOpcode) (len : Nat) :
    (Event.sent false (packHeader (sentHeader env pos opcode len)).1).isCloseFrame =
      decide (opcode = .close) := by
  change (firstByte true false false false opcode == 0x88) = _
  cases opcode <;> decide

/-- The session has gone on from `s` to `s'`. -/
def Session.Extends (s s' : Session) : Prop := ∃ evs, s'.io.trace = s.io.trace ++ evs

/-- A session that goes on goes on from where it was. -/
theorem Session.Extends.trans {s₁ s₂ : Session} (h : s.Extends s₁) (h' : s₁.Extends s₂) :
    s.Extends s₂ := by
  obtain ⟨evs, he⟩ := h
  obtain ⟨evs', he'⟩ := h'
  exact ⟨evs ++ evs', by rw [he', he, List.append_assoc]⟩

/-- A Close frame was written between `s` and `s'`. -/
def Session.CloseWritten (s s' : Session) : Prop :=
  ∃ evs, s'.io.trace = s.io.trace ++ evs ∧ ∃ e ∈ evs, e.isCloseFrame = true

/-- A Close frame stays written. -/
theorem Session.CloseWritten.extends {s₁ s₂ : Session} (h : s.CloseWritten s₁)
    (h' : s₁.Extends s₂) : s.CloseWritten s₂ := by
  obtain ⟨evs, he, e, hmem, hc⟩ := h
  obtain ⟨evs', he'⟩ := h'
  exact ⟨evs ++ evs', by rw [he', he, List.append_assoc], e, List.mem_append_left _ hmem, hc⟩

/-- A Close frame that is written later is written. -/
theorem Session.Extends.closeWritten {s₁ s₂ : Session} (h : s.Extends s₁)
    (h' : s₁.CloseWritten s₂) : s.CloseWritten s₂ := by
  obtain ⟨evs, he⟩ := h
  obtain ⟨evs', he', e, hmem, hc⟩ := h'
  exact ⟨evs ++ evs', by rw [he', he, List.append_assoc], e, List.mem_append_right _ hmem, hc⟩

/-- The Close frame is written for every session that sends alike. -/
theorem Session.CloseWritten.of_line {s' : Session} {hdr scr : Prop} (h : s.CloseWritten s')
    (hl : Line hdr scr s t) : t.CloseWritten s' := by
  rw [Session.CloseWritten, ← hl.trace]
  exact h

/-- Whatever the reader goes on to do, the Close frame stays written. -/
theorem Session.CloseWritten.after {α : Type} {keep quiet : Prop} {s₁ : Session}
    {m : M α} {T : Trap → Prop} (h : s.CloseWritten s₁) (hs : s₁.Sane)
    (hm : Moves (Serves keep quiet) T m s₁) :
    wp m (fun _ => s.CloseWritten) (fun _ => s.CloseWritten) s₁ := by
  have hext : ∀ s₂, Serves keep quiet s₁ s₂ → s.CloseWritten s₂ := by
    intro s₂ hs₂
    obtain ⟨evs, he, -⟩ := (hs₂ hs).trace
    exact h.extends ⟨evs, he⟩
  exact wp_mono hm (fun _ s₂ h₂ => hext s₂ h₂) (fun _ s₂ h₂ => hext s₂ h₂.1)

/-- Closing a session that has sent no Close frame writes one. -/
theorem closeWritten_closeStarted (env : Env) (hc : s.cl.sentCloseFlag = false)
    (status : WSCloseStatus) (reason : Bytes) :
    s.CloseWritten (s.closeStarted env status reason) := by
  refine ⟨sentEvents env s.io.randPos .close (closePayload status reason), ?_,
    _, List.mem_cons_self, isCloseFrame_sentHeader _ _ _⟩
  rw [Session.closeStarted, Session.closeFrameSent, if_neg (by rw [hc]; decide)]
  rfl

/-! ## Handlers that do not close -/

/-- The message handler never closes the connection. -/
def App.NeverCloses (app : App) : Prop :=
  ∀ handler, app.onMessage = some handler → ∀ trace, AppCall.close ∉ handler trace

/-- The connection is open, and nothing has been done to close it. -/
structure Session.Open (s : Session) : Prop where
  bev : s.bev ≠ none
  state : s.cl.state = .connected
  sentClose : s.cl.sentCloseFlag = false
  sendState : s.tx.sendState = .none
  maxFrameSize : s.tx.maxFrameSize = 0

/-- The session has gone on from `s` to `s'` with the messages `ms` and no Close frame, and is
still open. -/
structure Session.Told (ms : List Event) (s s' : Session) : Prop where
  stays : s'.Open
  trace : ∃ evs, s'.io.trace = s.io.trace ++ evs ∧ evs.filter Event.isMessage = ms ∧
    ∀ e ∈ evs, e.isCloseFrame = false

/-- A session that has been told messages has gone on. -/
theorem Session.Told.extends {ms : List Event} {s' : Session} (h : s.Told ms s') :
    s.Extends s' := by
  obtain ⟨evs, he, -⟩ := h.trace
  exact ⟨evs, he⟩

/-- An open session has been told nothing yet. -/
theorem Session.Open.told_refl (h : s.Open) : s.Told [] s :=
  ⟨h, [], (List.append_nil _).symm, rfl, by simp⟩

/-- The messages are told one after the other. -/
theorem Session.Told.trans {ms ms' : List Event} {s₁ s₂ : Session} (h : s.Told ms s₁)
    (h' : s₁.Told ms' s₂) : s.Told (ms ++ ms') s₂ := by
  obtain ⟨-, evs, he, hm, hc⟩ := h
  obtain ⟨ho, evs', he', hm', hc'⟩ := h'
  refine ⟨ho, evs ++ evs', by rw [he', he, List.append_assoc], ?_, ?_⟩
  · rw [List.filter_append, hm, hm']
  · intro e hmem
    exact (List.mem_append.mp hmem).elim (hc e) (hc' e)

/-- A message of the application is sent, and nothing is told. -/
theorem wp_sendCall_told (hf : env.NoFault) (h : s.Open) (msg : Bytes) :
    wp (runCall env (.send msg)) (fun _ => s.Told []) (fun _ _ => False) s := by
  rw [runCall, wp_bind]
  by_cases hlen : msg.length ≤ WS_MAX_PAYLOAD_LEN
  · refine (wp_of_eq_ok (doSendMsg_ok hf h.bev h.sendState h.maxFrameSize h.state hlen)).mpr ?_
    refine ⟨{ h with }, sentEvents env s.io.randPos .text msg, rfl, rfl, ?_⟩
    simp only [sentEvents, List.mem_cons, List.not_mem_nil, or_false]
    rintro e (rfl | rfl)
    · exact isCloseFrame_sentHeader _ _ _
    · rfl
  · have hlong : WS_MAX_PAYLOAD_LEN < msg.length := not_le.mp hlen
    have htold : s.Told []
        { s with wsHeader := { WSHeader.zero with fin := true, opcode := .text } } :=
      ⟨{ h with }, [], (List.append_nil _).symm, rfl, by simp⟩
    exact (wp_of_eq_ok ((sendMsgEx_whole h.state false (Or.inr h.maxFrameSize)).trans
      (sendFrameRaw_tooLong h.sendState rfl hlong))).mpr htold

/-- A call other than closing keeps the connection open. -/
theorem wp_runCall_told (hf : env.NoFault) (h : s.Open) {call : AppCall} (hc : call ≠ .close) :
    wp (runCall env call) (fun _ => s.Told []) (fun _ _ => False) s := by
  cases call with
  | send msg => exact wp_sendCall_told hf h msg
  | close => exact absurd rfl hc
  | connect => simpa [runCall, doConnect, h.state] using h.told_refl

/-- Calls other than to close leave the connection open, and nothing is told. -/
theorem wp_runCalls_told (hf : env.NoFault) (h : s.Open) {calls : List AppCall}
    (hc : AppCall.close ∉ calls) :
    wp (runCalls env calls) (fun _ => s.Told []) (fun _ _ => False) s := by
  induction calls generalizing s with
  | nil => exact h.told_refl
  | cons call calls ih =>
    rw [List.mem_cons, not_or] at hc
    rw [runCalls, runAll_cons, wp_bind]
    refine wp_mono (wp_runCall_told hf h (Ne.symm hc.1)) (fun _ s₁ h₁ => ?_) fun _ _ hn => hn
    exact wp_mono (ih h₁.stays hc.2) (fun _ s₂ h₂ => h₁.trans h₂) fun _ _ hn => hn

/-- The calls of the message handler for a message, as the trace shows them. -/
def handled (env : Env) (p : Bytes) (binary : Bool) : List Event :=
  match env.app.onMessage with
  | none => []
  | some _ => [.onMessage p binary]

/-- A handler that does not close is called once for a message. -/
theorem wp_endOfMessage_told (hf : env.NoFault) (hq : env.app.NeverCloses) (h : s.Open)
    (p : Bytes) :
    wp (endOfMessage env p) (fun _ => s.Told (handled env p s.rx.msgIsBinary_))
      (fun _ _ => False) s := by
  rw [endOfMessage, wp_bind, callOnMessage, wp_bind, wp_get, handled]
  cases ha : env.app.onMessage with
  | none =>
    have ho : s.messageEnded.Open := { h with }
    exact ⟨ho, h.told_refl.trace⟩
  | some handler =>
    have hst : ¬ s.cl.state = .closing := by
      rw [h.state]
      decide
    simp only [hst, if_false, wp_bind, emit, wp_modify, wp_get]
    refine wp_mono (wp_runCalls_told hf ?_ (hq handler ha _)) (fun _ s₁ h₁ => ?_) fun _ _ hn => hn
    · exact { h with }
    · obtain ⟨evs, he, hm, hc⟩ := h₁.trace
      refine ⟨{ h₁.stays with }, .onMessage p s.rx.msgIsBinary_ :: evs, ?_, ?_, ?_⟩
      · exact he.trans (List.append_assoc _ _ _)
      · rw [List.filter_cons_of_pos rfl, hm]
      · exact List.forall_mem_cons.mpr ⟨rfl, hc⟩

/-- The messages of a list of frames, as the trace shows them. -/
def messages (env : Env) (fs : List Frame) : List Event :=
  fs.flatMap fun f => handled env f.payload (decide (f.opcode = .binary))

/-- Delivering messages to a handler that does not close. -/
theorem wp_deliver_told (hf : env.NoFault) (hq : env.app.NeverCloses) (h : s.Open)
    (fs : List Frame) :
    wp (runAll (deliver env) fs) (fun _ => s.Told (messages env fs)) (fun _ _ => False) s := by
  induction fs generalizing s with
  | nil => exact h.told_refl
  | cons f fs ih =>
    rw [runAll_cons, wp_bind, deliver, wp_bind, wp_modify]
    refine wp_mono (wp_endOfMessage_told hf hq ?_ f.payload) (fun _ s₁ h₁ => ?_) fun _ _ hn => hn
    · exact { h with }
    · refine wp_mono (ih h₁.stays) (fun _ s₂ h₂ => ?_) fun _ _ hn => hn
      exact Session.Told.trans ⟨h₁.stays, h₁.trace⟩ h₂

end CppImprovement.Ws

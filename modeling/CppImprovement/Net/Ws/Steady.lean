import CppImprovement.Net.Ws.Rules
import CppImprovement.Net.Ws.Steps

/-!
# What a connection leaves alone

Sending touches nothing but the shared header and the session's past. The code
under a read leaves the subprotocols alone, changes the life cycle only by closing,
records nothing about the peer's close but on a Close frame, and is silent once the
session has sent its own Close frame.
-/

namespace CppImprovement.Ws

variable {env : Env} {s t : Session}

/-! ## Sending -/

/-- The header is what it was, or that of a frame the session sends. -/
def HeaderKept (h h' : WSHeader) : Prop :=
  h' = h ∨ h'.fin = true ∧ isReservedOpcode h'.opcode = false

/-- Headers are kept through any number of changes. -/
theorem HeaderKept.trans {h h' h'' : WSHeader} (hh : HeaderKept h h') (hh' : HeaderKept h' h'') :
    HeaderKept h h'' := by
  rcases hh' with rfl | hh'
  · exact hh
  · exact Or.inr hh'

/-- No message has been delivered. -/
def Tacit (s s' : Session) : Prop :=
  ∃ evs, s'.io.trace = s.io.trace ++ evs ∧ ∀ e ∈ evs, e.isMessage = false

/-- Saying nothing is tacit. -/
theorem Tacit.refl (s : Session) : Tacit s s := ⟨[], (List.append_nil _).symm, nofun⟩

/-- Tacit changes one after the other are tacit. -/
theorem Tacit.trans {s₁ s₂ : Session} (h : Tacit s s₁) (h' : Tacit s₁ s₂) : Tacit s s₂ := by
  obtain ⟨evs, he, hn⟩ := h
  obtain ⟨evs', he', hn'⟩ := h'
  refine ⟨evs ++ evs', by rw [he', he, List.append_assoc], fun e hmem => ?_⟩
  exact (List.mem_append.mp hmem).elim (hn e) (hn' e)

/-- Only the header and the session's past have changed. -/
def Sends (s s' : Session) : Prop :=
  ∃ h io, s' = { s with wsHeader := h, io := io } ∧ HeaderKept s.wsHeader h ∧ Tacit s s'

/-- Doing nothing is a way of sending. -/
theorem Sends.refl (s : Session) : Sends s s := ⟨s.wsHeader, s.io, rfl, Or.inl rfl, .refl s⟩

/-- One sending after another is a sending. -/
theorem Sends.trans (a b c : Session) (h : Sends a b) (h' : Sends b c) : Sends a c := by
  obtain ⟨h₁, io₁, rfl, hk, ht⟩ := h
  obtain ⟨h₂, io₂, rfl, hk', ht'⟩ := h'
  exact ⟨h₂, io₂, rfl, hk.trans hk', ht.trans ht'⟩

variable {T : Trap → Prop}

private theorem sends_callFails (s : Session) : Moves Sends T (callFails env) s :=
  ⟨s.wsHeader, _, rfl, Or.inl rfl, .refl s⟩

private theorem sends_sendData (msg : Bytes) (noCopy : Bool) (s : Session) :
    Moves Sends T (sendData env msg noCopy) s := by
  refine moves_get_bind (moves_ite (fun _ => moves_pure Sends.refl _ _) fun _ => ?_)
  refine moves_bind Sends.trans (sends_callFails s) fun failed s' _ => ?_
  refine moves_ite (fun _ => moves_pure Sends.refl _ _) fun _ => ?_
  have hemit : Moves Sends T (emit (.sent noCopy msg)) s' :=
    ⟨s'.wsHeader, _, rfl, Or.inl rfl, [.sent noCopy msg], rfl, by simp [Event.isMessage]⟩
  exact moves_bind Sends.trans hemit fun _ _ _ => moves_pure Sends.refl _ _

private theorem sends_getRandomMask (len : Nat) (s : Session) :
    Moves Sends T (getRandomMask env len) s := by
  refine moves_bind Sends.trans (sends_callFails s) fun failed s' _ => ?_
  refine moves_ite (fun _ => moves_pure Sends.refl _ _) fun _ => ?_
  exact ⟨s'.wsHeader, _, rfl, Or.inl rfl, .refl s'⟩

/-- A frame with an opcode in use leaves its own header behind, if it leaves any. -/
theorem sends_sendFrameRaw {opcode : WSOpcode} (hop : isReservedOpcode opcode = false)
    (data : Bytes) (s : Session) : Moves Sends T (sendFrameRaw env opcode data) s := by
  refine moves_get_bind (moves_ite (fun _ => moves_pure Sends.refl _ _) fun _ => ?_)
  refine moves_ite (fun _ => moves_pure Sends.refl _ _) fun _ => ?_
  refine moves_modify_bind Sends.trans ⟨_, s.io, rfl, Or.inr ⟨rfl, hop⟩, .refl s⟩ ?_
  refine moves_ite (fun _ => moves_pure Sends.refl _ _) fun _ => ?_
  refine moves_modify_bind Sends.trans ⟨_, s.io, rfl, Or.inr ⟨rfl, hop⟩, .refl s⟩ ?_
  refine moves_bind Sends.trans (sends_getRandomMask 4 _) fun key s₁ h₁ => ?_
  obtain ⟨h, io, rfl, hk, _⟩ := h₁
  have hsent : h.fin = true ∧ isReservedOpcode h.opcode = false := by
    rcases hk with rfl | hk
    · exact ⟨rfl, hop⟩
    · exact hk
  cases key with
  | none => exact moves_pure Sends.refl _ _
  | some key =>
    refine moves_modify_bind Sends.trans ⟨_, io, rfl, Or.inr hsent, .refl _⟩ (moves_get_bind ?_)
    refine moves_bind Sends.trans (sends_sendData _ _ _) fun rc s₂ _ => ?_
    refine moves_ite (fun _ => moves_pure Sends.refl _ _) fun _ => ?_
    refine moves_bind Sends.trans (sends_sendData _ _ _) fun rc s₃ _ => ?_
    exact moves_ite (fun _ => moves_pure Sends.refl _ _) fun _ => moves_pure Sends.refl _ _

/-- `SendClose` sends. -/
theorem sends_sendClose (status : WSCloseStatus) (reason : Bytes) (s : Session) :
    Moves Sends T (sendClose env status reason) s := by
  refine moves_ite (fun _ => moves_pure Sends.refl _ _) fun _ => ?_
  refine moves_ite (fun _ => moves_pure Sends.refl _ _) fun _ => ?_
  refine moves_bind Sends.trans (sends_sendFrameRaw rfl _ _) fun r s₁ _ => ?_
  exact moves_ite (fun _ => moves_pure Sends.refl _ _) fun _ => moves_pure Sends.refl _ _

/-- `DoSendMsg` sends. -/
theorem sends_doSendMsg (msg : Bytes) (s : Session) :
    Moves Sends AnyTrap (doSendMsg env msg) s := by
  refine moves_get_bind (moves_ite (fun _ => moves_throw Sends.refl trivial _) fun hc => ?_)
  refine moves_ite (fun _ => sends_sendFrameRaw rfl _ _) fun _ => ?_
  rw [not_not] at hc
  rw [Moves, wp_bind, wp_of_eq_error (onSendMsgBegin_connected hc false)]
  exact ⟨Sends.refl s, trivial⟩

/-! ## The relation -/

/-- The session has sent its Close frame on the connection. -/
def Session.Hushed (s : Session) : Prop := s.cl.state = .closing ∧ s.cl.sentCloseFlag = true

/-- What a Close frame of the peer puts on record. -/
def Closing.record (cl : Closing) : WSCloseStatus × ServerReason × Nat :=
  (cl.serverCloseStatus, cl.serverReason, cl.serverReasonLen)

/-- What the code under a read leaves alone between `s` and `s'`; with `framed` it begins no
frame, takes nothing off one and delivers no message. -/
structure Steady (framed : Prop) (s s' : Session) : Prop where
  live : ¬ s'.Closed
  hs : s'.hs = s.hs
  bev : ∀ b', s'.bev = some b' → ∃ b, s.bev = some b ∧ b'.readEnabled = b.readEnabled ∧
    b'.input.length ≤ b.input.length
  subprotocols : s'.subprotocols = s.subprotocols
  tx : s'.tx = s.tx
  binary : s'.rx.msgIsBinary = s.rx.msgIsBinary
  recorded : s'.cl.receivedCloseFlag = false →
    s.cl.receivedCloseFlag = false ∧ s'.cl.record = s.cl.record
  hushed : s.Hushed → s'.Hushed ∧ s'.io.trace = s.io.trace
  life : s'.cl = s.cl ∨ s'.cl.state = .closing
  tacit : framed ∨ s.cl.state = .closing → Tacit s s'
  header : framed → HeaderKept s.wsHeader s'.wsHeader
  frame : framed → s'.rx.hasHeader = true →
    s.rx.hasHeader = true ∧ s'.rx.recvFrameLen = s.rx.recvFrameLen

/-- A session that is left alone is steady. -/
theorem Steady.refl (framed : Prop) (h : ¬ s.Closed) : Steady framed s s where
  live := h
  hs := rfl
  bev := fun b hb => ⟨b, hb, rfl, le_rfl⟩
  subprotocols := rfl
  tx := rfl
  binary := rfl
  recorded := fun hr => ⟨hr, rfl⟩
  hushed := fun hh => ⟨hh, rfl⟩
  life := Or.inl rfl
  tacit := fun _ => .refl s
  header := fun _ => Or.inl rfl
  frame := fun _ hh => ⟨hh, rfl⟩

/-- A session that is closing goes on closing. -/
theorem Steady.closing {framed : Prop} {s' : Session} (h : Steady framed s s')
    (hc : s.cl.state = .closing) : s'.cl.state = .closing := by
  rcases h.life with hl | hl
  · rw [hl]
    exact hc
  · exact hl

/-- Steady changes one after the other are steady. -/
theorem Steady.trans {framed : Prop} {s₁ s₂ : Session} (h : Steady framed s s₁)
    (h' : Steady framed s₁ s₂) : Steady framed s s₂ where
  live := h'.live
  hs := h'.hs.trans h.hs
  bev := by
    intro b₂ hb₂
    obtain ⟨b₁, hb₁, hr₁, hl₁⟩ := h'.bev b₂ hb₂
    obtain ⟨b, hb, hr, hl⟩ := h.bev b₁ hb₁
    exact ⟨b, hb, hr₁.trans hr, hl₁.trans hl⟩
  subprotocols := h'.subprotocols.trans h.subprotocols
  tx := h'.tx.trans h.tx
  binary := h'.binary.trans h.binary
  recorded := fun hr =>
    ⟨(h.recorded (h'.recorded hr).1).1, (h'.recorded hr).2.trans (h.recorded (h'.recorded hr).1).2⟩
  hushed := fun hh => ⟨(h'.hushed (h.hushed hh).1).1,
    (h'.hushed (h.hushed hh).1).2.trans (h.hushed hh).2⟩
  life := by
    rcases h'.life with hl | hl
    · rw [hl]
      exact h.life
    · exact Or.inr hl
  tacit := fun hf => (h.tacit hf).trans (h'.tacit (hf.imp_right h.closing))
  header := fun hf => (h.header hf).trans (h'.header hf)
  frame := fun hf hh => ⟨(h.frame hf (h'.frame hf hh).1).1,
    (h'.frame hf hh).2.trans (h.frame hf (h'.frame hf hh).1).2⟩

/-- The relation as a progress relation: what it says is said of sessions that are not closed. -/
def Steadies (framed : Prop) (s s' : Session) : Prop := ¬ s.Closed → Steady framed s s'

variable {framed : Prop}

/-- A session that is left alone is steady. -/
theorem Steadies.refl (s : Session) : Steadies framed s s := fun h => Steady.refl _ h

/-- Steady changes one after the other are steady. -/
theorem Steadies.trans (a b c : Session) (h : Steadies framed a b) (h' : Steadies framed b c) :
    Steadies framed a c := fun ha => (h ha).trans (h' (h ha).live)

/-- Nothing is said of the progress of a closed session. -/
theorem moves_of_closed {α : Type} (h : s.Closed) (m : M α) :
    Moves (Steadies framed) AnyTrap m s := by
  rw [Moves, wp]
  cases m s with
  | ok a s' => exact fun hc => absurd h hc
  | error e s' => exact ⟨fun hc => absurd h hc, trivial⟩

/-! ## Closing -/

/-- Sending is steady as long as the Close frame has not been sent. -/
theorem Sends.steady {s' : Session} (h : Sends s s') (hc : ¬ s.Closed) (hh : ¬ s.Hushed) :
    Steady framed s s' := by
  obtain ⟨h', io, rfl, hk, ht⟩ := h
  exact { Steady.refl framed hc with
    hushed := fun h => absurd h hh, tacit := fun _ => ht, header := fun _ => hk }

private theorem steadies_callFails (s : Session) :
    Moves (Steadies framed) AnyTrap (callFails env) s :=
  fun h => { Steady.refl framed h with }

private theorem steadies_closeFail (hc : s.cl.state = .closing) :
    Moves (Steadies framed) AnyTrap closeFail s := by
  intro h
  exact { Steady.refl framed h with bev := nofun, life := Or.inr hc }

/-- A Close frame is sent only by a session that has sent none. -/
theorem steadies_sendCloseOnce (status : WSCloseStatus) (reason : Bytes) (s : Session) :
    Moves (Steadies framed) AnyTrap (sendCloseOnce env status reason) s := by
  refine moves_get_bind (moves_ite (fun _ => moves_pure Steadies.refl _ _) fun hc => ?_)
  have hh : ¬ s.Hushed := fun h => hc h.2
  exact wp_mono (sends_sendClose status reason s) (fun _ _ h hs => h.steady hs hh)
    (fun _ _ h => ⟨fun hs => h.1.steady hs hh, h.2⟩)

/-- A session that is closing is not closed. -/
theorem Session.not_closed_of_closing (h : s.cl.state = .closing) : ¬ s.Closed := by
  simp [Session.Closed, h]

/-- A session that is closing goes on closing. -/
theorem Steadies.closing {s' : Session} (h : Steadies framed s s') (hc : s.cl.state = .closing) :
    s'.cl.state = .closing := (h (Session.not_closed_of_closing hc)).closing hc

/-- `CloseWithStatusReason` is steady. -/
theorem steadies_closeWithStatusReason (status : WSCloseStatus) (reason : Bytes) (s : Session) :
    Moves (Steadies framed) AnyTrap (closeWithStatusReason env status reason) s := by
  have hclosing : Steadies framed s { s with cl.state := .closing } := fun h =>
    { Steady.refl framed h with
      live := Session.not_closed_of_closing rfl
      hushed := fun hh => ⟨⟨rfl, hh.2⟩, rfl⟩
      life := Or.inr rfl }
  refine moves_modify_bind Steadies.trans hclosing ?_
  refine moves_bind Steadies.trans (steadies_sendCloseOnce status reason _) fun rc s₁ h₁ => ?_
  have hc₁ : s₁.cl.state = .closing := h₁.closing rfl
  refine moves_ite (fun _ => steadies_closeFail hc₁) fun _ => ?_
  refine moves_modify_bind Steadies.trans (fun h => { Steady.refl framed h with
    hushed := fun hh => ⟨⟨hh.1, rfl⟩, rfl⟩, life := Or.inr hc₁ }) ?_
  refine moves_bind Steadies.trans (steadies_callFails _) fun failed s₂ h₂ => ?_
  refine moves_ite (fun _ => steadies_closeFail (h₂.closing hc₁)) fun _ => ?_
  refine moves_bind Steadies.trans (steadies_callFails _) fun failed s₃ h₃ => ?_
  refine moves_ite (fun _ => steadies_closeFail (h₃.closing (h₂.closing hc₁))) fun _ => ?_
  exact fun h => { Steady.refl framed h with life := Or.inr (h₃.closing (h₂.closing hc₁)) }

/-- Closing, with its result thrown away. -/
theorem steadies_closed {α : Type} (status : WSCloseStatus) (a : α) (s : Session) :
    Moves (Steadies framed) AnyTrap
      (do let _ ← closeWithStatus env status
          pure a) s :=
  moves_bind Steadies.trans (steadies_closeWithStatusReason status [] s) fun _ _ _ =>
    moves_pure Steadies.refl _ _

/-! ## Calls by the application -/

/-- A call of the application is steady. -/
theorem steadies_runCall (call : AppCall) (s : Session) :
    Moves (Steadies framed) AnyTrap (runCall env call) s := by
  cases call with
  | send msg =>
    refine moves_bind Steadies.trans ?_ fun _ _ _ => moves_pure Steadies.refl _ _
    by_cases hh : s.Hushed
    · have hn : s.cl.state ≠ .connected := by simp [hh.1]
      rw [Moves, doSendMsg, sendMsgEx, wp_bind, wp_get, if_pos hn]
      exact ⟨Steadies.refl s, trivial⟩
    · exact wp_mono (sends_doSendMsg msg s) (fun _ _ h hs => h.steady hs hh)
        (fun _ _ h => ⟨fun hs => h.1.steady hs hh, h.2⟩)
  | close =>
    exact moves_bind Steadies.trans (steadies_closeWithStatusReason _ _ s) fun _ _ _ =>
      moves_pure Steadies.refl _ _
  | connect =>
    refine moves_bind Steadies.trans ?_ fun _ _ _ => moves_pure Steadies.refl _ _
    by_cases hc : s.Closed
    · exact moves_of_closed hc _
    · have hst : s.cl.state ≠ .closedCleanly ∧ s.cl.state ≠ .closedUncleanly :=
        ⟨fun h => hc (Or.inl h), fun h => hc (Or.inr h)⟩
      refine moves_get_bind ?_
      rw [if_pos hst]
      exact moves_pure Steadies.refl _ _

/-- The calls of a handler are steady. -/
theorem steadies_runCalls (calls : List AppCall) (s : Session) :
    Moves (Steadies framed) AnyTrap (runCalls env calls) s :=
  moves_runAll Steadies.refl Steadies.trans steadies_runCall calls s

/-- The calls of `onConnect_`. -/
theorem steadies_onConnectCalls (trace : List Event) (s : Session) :
    Moves (Steadies framed) AnyTrap
      (match env.app.onConnect with
      | none => pure ()
      | some handler => runCalls env (handler trace)) s := by
  split
  · exact moves_pure Steadies.refl _ _
  · exact steadies_runCalls _ _

/-! ## Control frames -/

private theorem steadies_echoClose (s : Session) :
    Moves (Steadies framed) AnyTrap (echoClose env) s := by
  refine moves_get_bind (moves_ite (fun _ => moves_pure Steadies.refl _ _) fun _ => ?_)
  exact steadies_closeWithStatusReason _ _ s

/-- `HandleCloseFrame` is steady: it only closes. -/
theorem steadies_handleCloseFrame (s : Session) :
    Moves (Steadies framed) AnyTrap (handleCloseFrame env) s := by
  have hreceived : Steadies framed s s.closeReceived := fun h =>
    { Steady.refl framed h with
      live := Session.not_closed_of_closing rfl
      recorded := fun hr => absurd hr (by simp [Session.closeReceived])
      hushed := fun hh => ⟨⟨rfl, hh.2⟩, rfl⟩
      life := Or.inr rfl }
  refine moves_modify_bind Steadies.trans hreceived (moves_get_bind ?_)
  refine moves_ite (fun _ => steadies_echoClose _) fun _ => ?_
  refine moves_ite (fun _ => ?_) fun _ => ?_
  · refine moves_modify_bind Steadies.trans (fun h => ?_) (steadies_closed _ _ _)
    exact { Steady.refl framed h with
      recorded := fun hr => absurd hr (by simp [Session.closeReceived])
      life := Or.inr rfl }
  · refine moves_modify_bind Steadies.trans (fun h => ?_) (moves_get_bind ?_)
    · exact { Steady.refl framed h with
        recorded := fun hr => absurd hr (by simp [Session.closeReceived, Session.closeStatusRead])
        life := Or.inr rfl }
    · refine moves_ite (fun _ => steadies_closed _ _ _) fun _ => ?_
      refine moves_modify_bind Steadies.trans (fun h => { Steady.refl framed h with })
        (moves_get_bind ?_)
      exact moves_ite (fun _ => steadies_closed _ _ _) fun _ => steadies_echoClose _

/-- `HandleControlFrame` is steady, for every opcode. -/
theorem steadies_handleControlFrame (s : Session) :
    Moves (Steadies framed) AnyTrap (handleControlFrame env) s := by
  refine moves_get_bind (moves_ite (fun _ => moves_throw Steadies.refl trivial _) fun _ => ?_)
  split
  · exact steadies_handleCloseFrame s
  · exact moves_throw Steadies.refl trivial _
  · exact moves_throw Steadies.refl trivial _
  · exact moves_pure Steadies.refl _ _

/-! ## Frame data -/

/-- `HandleFrameData` is steady: it appends to the frame, or closes. -/
theorem steadies_handleFrameData (buf : Bytes) (s : Session) :
    Moves (Steadies framed) AnyTrap (handleFrameData env buf) s := by
  refine moves_get_bind (moves_ite (fun _ => moves_ite (fun _ => ?_) fun _ => ?_) fun _ => ?_)
  · refine moves_bind Steadies.trans (steadies_closeWithStatusReason _ [] s) fun _ s₁ _ => ?_
    exact moves_modify_bind Steadies.trans (fun h => { Steady.refl framed h with })
      (moves_pure Steadies.refl _ _)
  · exact moves_modify_bind Steadies.trans (fun h => { Steady.refl framed h with })
      (moves_pure Steadies.refl _ _)
  · split
    · exact moves_throw Steadies.refl trivial _
    · exact moves_modify_bind Steadies.trans (fun h => { Steady.refl framed h with })
        (moves_pure Steadies.refl _ _)

/-- The text check is steady, also where it closes. -/
theorem steadies_checkUtf8 (buf : Bytes) (s : Session) :
    Moves (Steadies framed) AnyTrap (checkUtf8 env buf) s := by
  refine moves_get_bind (moves_ite (fun _ => ?_) fun _ => moves_pure Steadies.refl _ _)
  refine moves_modify_bind Steadies.trans (fun h => { Steady.refl framed h with })
    (moves_get_bind (moves_ite (fun _ => ?_) fun _ => moves_pure Steadies.refl _ _))
  exact steadies_closed _ _ _

/-! ## The read loop -/

/-- What the receive loop turns by itself is steady. -/
theorem Steady.turns {s' : Session} (h : Turns s s') (hc : ¬ s.Closed) : Steady False s s' where
  live := by
    rw [Session.Closed, h.cl]
    exact hc
  hs := h.hs
  bev := fun _ hb => h.of_bev hb
  subprotocols := by rw [h.rest]
  tx := by rw [h.rest]
  binary := h.binary
  recorded := by
    rw [h.cl]
    exact fun hr => ⟨hr, rfl⟩
  hushed := fun hh => ⟨by rw [Session.Hushed, h.cl]; exact hh, h.trace⟩
  life := Or.inl h.cl
  tacit := fun _ => ⟨[], by rw [h.trace, List.append_nil], nofun⟩
  header := False.elim
  frame := False.elim

/-- A message is delivered only by a session that is not closing. -/
theorem steadies_rules (env : Env) : Rules env (Steadies False) where
  refl := Steadies.refl
  trans := Steadies.trans
  turns := fun _ _ h => Steady.turns h
  close := steadies_closeWithStatusReason
  closeFrame := steadies_handleCloseFrame
  message := fun _ _ hc h =>
    { Steady.refl False h with
      hushed := fun hh => absurd hh.1 hc, tacit := fun hf => absurd (hf.resolve_left id) hc }
  call := steadies_runCall

/-- The code under a read delivers nothing on a session that is closing. -/
theorem wp_tacit_of_closing {α : Type} {m : M α} (hc : s.cl.state = .closing)
    (hm : Moves (Steadies False) AnyTrap m s) :
    wp m (fun _ s' => Tacit s s' ∧ s'.cl.state = .closing) (fun _ s' => Tacit s s') s := by
  have hlive := Session.not_closed_of_closing hc
  exact wp_mono hm
    (fun _ _ h => ⟨(h hlive).tacit (Or.inr hc), (h hlive).closing hc⟩)
    fun _ _ h => (h.1 hlive).tacit (Or.inr hc)

end CppImprovement.Ws

import CppImprovement.Net.Ws.Frames

/-!
# Rules for the code under a read

Most of what the read loop does is turning: it advances the receiver and the input
buffer and touches nothing else. A relation that turning respects is a progress
relation of the whole loop as soon as closing, the handling of a Close frame, the
delivery of a message and the application's calls move within it. The loop is walked
through once, here; an invariant is then a choice of the relation.
-/

namespace CppImprovement.Ws

/-- No failure is ruled out. -/
def AnyTrap (_ : Trap) : Prop := True

/-- Only the receiver, the frame header and the positions in the environment's answers have
changed, input was taken at most, and no Close frame was handled. -/
structure Turns (s s' : Session) : Prop where
  rest : s' = { s with
    bev := s'.bev, detached := s'.detached, wsHeader := s'.wsHeader, rx := s'.rx, io := s'.io }
  bev : s'.bev = s.bev ∨
    ∃ b n, s.bev = some b ∧ s'.bev = some { b with input := b.input.drop n }
  inBuf : s'.inBuf <:+ s.inBuf
  trace : s'.io.trace = s.io.trace
  binary : s'.rx.msgIsBinary = s.rx.msgIsBinary
  closeEntries : s'.rx.closeEntries = s.rx.closeEntries

namespace Turns

variable {s s' : Session}

/-- The close fields are not turned. -/
theorem cl (h : Turns s s') : s'.cl = s.cl := by rw [h.rest]

/-- The handshake is not turned. -/
theorem hs (h : Turns s s') : s'.hs = s.hs := by rw [h.rest]

/-- The bufferevent stays, or stays away. -/
theorem bev_iff (h : Turns s s') : s'.bev = none ↔ s.bev = none := by
  rcases h.bev with hb | ⟨b, n, hb, hb'⟩
  · rw [hb]
  · simp [hb, hb']

/-- A bufferevent that is left comes from one that reads alike and held as much. -/
theorem of_bev (h : Turns s s') {b' : Bufferevent} (hb' : s'.bev = some b') :
    ∃ b, s.bev = some b ∧ b'.readEnabled = b.readEnabled ∧ b'.input.length ≤ b.input.length := by
  rcases h.bev with hb | ⟨b, n, hb, hn⟩
  · exact ⟨b', hb.symm.trans hb', rfl, le_rfl⟩
  · cases hb'.symm.trans hn
    exact ⟨b, hb, rfl, by simp⟩

/-- The input buffer was left alone. -/
theorem held
    (rest : s' = { s with wsHeader := s'.wsHeader, rx := s'.rx, io := s'.io })
    (trace : s'.io.trace = s.io.trace) (binary : s'.rx.msgIsBinary = s.rx.msgIsBinary)
    (closeEntries : s'.rx.closeEntries = s.rx.closeEntries) : Turns s s' := by
  have hbev : s'.bev = s.bev := by rw [rest]
  have hin : s'.inBuf = s.inBuf := by
    rw [rest]
    rfl
  refine ⟨?_, Or.inl hbev, hin ▸ List.suffix_rfl, trace, binary, closeEntries⟩
  rw [rest]

/-- Taking octets off the input buffer turns the receiver. -/
theorem drain (n : Nat) (s : Session) : Turns s (s.drain n) := by
  obtain ⟨bev, detached, heq, -⟩ := s.drain_eq n
  refine ⟨by rw [heq], ?_, ?_, by rw [heq], by rw [heq], by rw [heq]⟩
  · rw [Session.drain]
    split
    · exact Or.inl rfl
    · rename_i b hb
      split
      · exact Or.inr ⟨b, n, hb, rfl⟩
      · exact Or.inl rfl
  · rw [Session.inBuf_drain]
    exact List.drop_suffix _ _

end Turns

/-- The handling of a Close frame moves within a relation that closing moves within, and that
respects what is recorded of the frame. -/
theorem moves_handleCloseFrame {env : Env} {R : Session → Session → Prop} (refl : ∀ s, R s s)
    (trans : ∀ a b c, R a b → R b c → R a c) (received : ∀ s : Session, R s s.closeReceived)
    (recorded : ∀ (s : Session) (rx : Receiver) (cl : Closing),
      rx.hasHeader = s.rx.hasHeader ∧ rx.frameData = s.rx.frameData → cl.state = s.cl.state →
      cl.sentCloseFlag = s.cl.sentCloseFlag → R s { s with rx := rx, cl := cl })
    (close : ∀ status reason s, Moves R AnyTrap (closeWithStatusReason env status reason) s)
    (s : Session) : Moves R AnyTrap (handleCloseFrame env) s := by
  have hclosed : ∀ (status : WSCloseStatus) (a : Int) (t : Session),
      Moves R AnyTrap (closeWithStatus env status >>= fun _ => pure a) t := fun status a t =>
    moves_bind trans (close status [] t) fun _ _ _ => moves_pure refl _ _
  have hecho : ∀ t : Session, Moves R AnyTrap (echoClose env) t := fun t =>
    moves_get_bind (moves_ite (fun _ => moves_pure refl _ _) fun _ => close _ _ t)
  refine moves_modify_bind trans (received s) (moves_get_bind ?_)
  refine moves_ite (fun _ => hecho _) fun _ => moves_ite (fun _ => ?_) fun _ => ?_
  · exact moves_modify_bind trans (recorded _ _ _ ⟨rfl, rfl⟩ rfl rfl) (hclosed _ _ _)
  · refine moves_modify_bind trans (recorded _ _ _ ⟨rfl, rfl⟩ rfl rfl) (moves_get_bind ?_)
    refine moves_ite (fun _ => hclosed _ _ _) fun _ => ?_
    refine moves_modify_bind trans (recorded _ _ _ ⟨rfl, rfl⟩ rfl rfl) (moves_get_bind ?_)
    exact moves_ite (fun _ => hclosed _ _ _) fun _ => hecho _

/-- The relation is respected by everything that the loop is made of. -/
structure Rules (env : Env) (R : Session → Session → Prop) : Prop where
  refl : ∀ s, R s s
  trans : ∀ a b c, R a b → R b c → R a c
  turns : ∀ s s', Turns s s' → R s s'
  close : ∀ status reason s, Moves R AnyTrap (closeWithStatusReason env status reason) s
  closeFrame : ∀ s, Moves R AnyTrap (handleCloseFrame env) s
  message : ∀ p s, s.cl.state ≠ .closing →
    R s { s with io.trace := s.io.trace ++ [.onMessage p s.rx.msgIsBinary_] }
  call : ∀ call s, Moves R AnyTrap (runCall env call) s

namespace Rules

variable {env : Env} {R : Session → Session → Prop}

/-- A change of the receiver alone respects the relation. -/
theorem turn (h : Rules env R) {f : Session → Session} {s : Session} (hf : Turns s (f s)) :
    Moves R AnyTrap (modify f : M PUnit) s := h.turns _ _ hf

/-- A turn, and what follows it. -/
theorem turn_bind (h : Rules env R) {α : Type} {f : Session → Session} {k : PUnit → M α}
    {s : Session} (hf : Turns s (f s)) (hk : Moves R AnyTrap (k ⟨⟩) (f s)) :
    Moves R AnyTrap (modify f >>= k) s :=
  moves_modify_bind h.trans (h.turns _ _ hf) hk

/-- The calls a handler makes, one after the other, respect the relation. -/
theorem runCalls (h : Rules env R) (calls : List AppCall) (s : Session) :
    Moves R AnyTrap (runCalls env calls) s :=
  moves_runAll h.refl h.trans h.call calls s

/-- Asking whether a library call fails respects the relation. -/
theorem callFails (h : Rules env R) (s : Session) : Moves R AnyTrap (callFails env) s :=
  h.turns _ _ (.held rfl rfl rfl rfl)

/-- Closing, with its result thrown away. -/
theorem closed (h : Rules env R) {α : Type} (status : WSCloseStatus) (a : α) (s : Session) :
    Moves R AnyTrap
      (do let _ ← closeWithStatus env status
          pure a) s :=
  moves_bind h.trans (h.close status [] s) fun _ _ _ => moves_pure h.refl _ _

/-! ## Frame begin and end -/

/-- `HandleFrameBegin` respects the relation, whichever opcode begins. -/
theorem handleFrameBegin (h : Rules env R) (s : Session) :
    Moves R AnyTrap (handleFrameBegin env) s := by
  refine h.turn_bind (.held rfl rfl rfl rfl) (moves_get_bind ?_)
  refine moves_ite (fun _ => h.turn (.held rfl rfl rfl rfl)) fun _ => ?_
  refine moves_bind h.trans ?_ fun _ s₁ _ => ?_
  · refine moves_get_bind (moves_ite (fun _ => moves_pure h.refl _ _) fun _ => ?_)
    refine h.turn_bind (.held rfl rfl rfl rfl) ?_
    exact moves_bind h.trans (h.callFails _) fun _ _ _ => h.turn (.held rfl rfl rfl rfl)
  · exact moves_bind h.trans (h.callFails _) fun _ _ _ => h.turn (.held rfl rfl rfl rfl)

/-- `OnMsgFrameEnd` respects the relation: it only moves the frame to the message. -/
theorem onMsgFrameEnd (h : Rules env R) (s : Session) : Moves R AnyTrap onMsgFrameEnd s := by
  refine moves_get_bind ?_
  split
  · exact h.turn (.held rfl rfl rfl rfl)
  · exact moves_throw h.refl trivial _

/-- The message handler respects the relation, together with the calls it makes. -/
theorem callOnMessage (h : Rules env R) (payload : Bytes) (s : Session) :
    Moves R AnyTrap (callOnMessage env payload) s := by
  refine moves_get_bind ?_
  split
  · exact moves_pure h.refl _ _
  · refine moves_ite (fun _ => moves_pure h.refl _ _) fun hc => ?_
    exact moves_bind h.trans (h.message payload s hc) fun _ _ _ => moves_get_bind (h.runCalls _ _)

/-- The end of a message respects the relation, delivered or not. -/
theorem endMessage (h : Rules env R) (s : Session) : Moves R AnyTrap (endMessage env) s := by
  refine moves_get_bind (moves_ite (fun _ => ?_) fun _ => moves_pure h.refl _ _)
  refine moves_bind h.trans (moves_get_bind ?_) fun _ _ _ => h.turn (.held rfl rfl rfl rfl)
  split
  · exact moves_throw h.refl trivial _
  · exact moves_bind h.trans (h.callOnMessage _ _) fun _ _ _ => h.turn (.held rfl rfl rfl rfl)

/-- `HandleControlFrame` respects the relation: a Close frame is handed on, every other ends the
step. -/
theorem handleControlFrame (h : Rules env R) (s : Session) :
    Moves R AnyTrap (handleControlFrame env) s := by
  refine moves_get_bind (moves_ite (fun _ => moves_throw h.refl trivial _) fun _ => ?_)
  split
  · exact h.closeFrame s
  · exact moves_throw h.refl trivial _
  · exact moves_throw h.refl trivial _
  · exact moves_pure h.refl _ _

/-- The end of a data frame, behind the move of its data to the message. -/
theorem dataEnd (h : Rules env R) {α : Type} (a : α) (s : Session) :
    Moves R AnyTrap
      (do Ws.endMessage env
          modify fun s => { s with rx.hasHeader := false }
          pure a) s :=
  moves_bind h.trans (h.endMessage s) fun _ _ _ =>
    h.turn_bind (.held rfl rfl rfl rfl) (moves_pure h.refl _ _)

/-- The end of a frame respects the relation, of a control frame as of a fragment. -/
theorem endFrame (h : Rules env R) (s : Session) : Moves R AnyTrap (endFrame env) s := by
  refine moves_bind h.trans ?_ fun _ _ _ => moves_pure h.refl _ _
  refine moves_get_bind (moves_ite (fun _ => ?_) fun _ => ?_)
  · exact h.turn_bind (.held rfl rfl rfl rfl) (h.handleControlFrame _)
  · exact moves_bind h.trans (h.onMsgFrameEnd s) fun _ s₁ _ => h.dataEnd _ s₁

/-! ## Frame data -/

/-- `HandleFrameData` respects the relation, also where it closes on an oversized control frame. -/
theorem handleFrameData (h : Rules env R) (buf : Bytes) (s : Session) :
    Moves R AnyTrap (handleFrameData env buf) s := by
  refine moves_get_bind (moves_ite (fun _ => moves_ite (fun _ => ?_) fun _ => ?_) fun _ => ?_)
  · refine moves_bind h.trans (h.close _ [] s) fun _ s₁ _ => ?_
    exact h.turn_bind (.held rfl rfl rfl rfl) (moves_pure h.refl _ _)
  · exact h.turn_bind (.held rfl rfl rfl rfl) (moves_pure h.refl _ _)
  · split
    · exact moves_throw h.refl trivial _
    · exact h.turn_bind (.held rfl rfl rfl rfl) (moves_pure h.refl _ _)

/-- The text check respects the relation, also where it closes. -/
theorem checkUtf8 (h : Rules env R) (buf : Bytes) (s : Session) :
    Moves R AnyTrap (checkUtf8 env buf) s := by
  refine moves_get_bind (moves_ite (fun _ => ?_) fun _ => moves_pure h.refl _ _)
  refine h.turn_bind (.held rfl rfl rfl rfl) (moves_get_bind ?_)
  exact moves_ite (fun _ => h.closed _ _ _) fun _ => moves_pure h.refl _ _

/-- The rest of the payload part, behind the handling of a chunk. -/
theorem endChunk (h : Rules env R) (rc : Int) (s : Session) :
    Moves R AnyTrap
      (do let s ← get
          if rc = 0 ∧ s.rx.recvFrameLen = s.wsHeader.payloadLen then
            Ws.endFrame env
          else
            pure ()) s :=
  moves_get_bind (moves_ite (fun _ => h.endFrame s) fun _ => moves_pure h.refl _ _)

/-- The rest of the payload part, behind the text check of a chunk. -/
theorem storeChunk (h : Rules env R) (buf : Bytes) (s : Session) :
    Moves R AnyTrap
      (do let rc ← Ws.handleFrameData env buf
          let s ← get
          if rc = 0 ∧ s.rx.recvFrameLen = s.wsHeader.payloadLen then
            Ws.endFrame env
          else
            pure ()) s :=
  moves_bind h.trans (h.handleFrameData buf s) fun rc s₁ _ => h.endChunk rc s₁

/-- What the payload part does with a chunk. -/
theorem handleChunk (h : Rules env R) (buf : Bytes) (s : Session) :
    Moves R AnyTrap (handleChunk env buf) s :=
  moves_bind h.trans (h.checkUtf8 buf s) fun _ s₁ _ => h.storeChunk buf s₁

/-! ## The read loop -/

/-- The header part of a round respects the relation, also where the header is refused. -/
theorem readHeader (h : Rules env R) (input : Bytes) (s : Session) :
    Moves R AnyTrap (readHeader env input) s := by
  refine moves_get_bind (h.turn_bind (.held rfl rfl rfl rfl) ?_)
  refine moves_ite (fun _ => moves_throw h.refl trivial _) fun _ => ?_
  split
  · refine h.turn_bind (.held rfl rfl rfl rfl) (h.turn_bind (.drain _ _) ?_)
    exact moves_bind h.trans (h.handleFrameBegin _) fun _ _ _ => moves_pure h.refl _ _
  · exact moves_pure h.refl _ _
  · exact h.closed _ _ _
  · exact moves_bind h.trans (h.handleFrameBegin _) fun _ _ _ => moves_pure h.refl _ _

/-- The payload part of a round respects the relation. -/
theorem readPayload (h : Rules env R) (s : Session) : Moves R AnyTrap (readPayload env) s := by
  refine moves_get_bind (moves_ite (fun _ => h.endFrame s) fun _ => ?_)
  exact h.turn_bind (.drain _ _) (h.turn_bind (.held rfl rfl rfl rfl) (h.handleChunk _ _))

/-- The loop of `ReadWebsocket` respects the relation, by induction on its rounds. -/
theorem readLoop (h : Rules env R) (n : Nat) (s : Session) :
    Moves R AnyTrap (readLoop env n) s := by
  induction n generalizing s with
  | zero => exact moves_pure h.refl _ _
  | succ n ih =>
    refine moves_get_bind (moves_ite (fun _ => moves_throw h.refl trivial _) fun _ => ?_)
    refine moves_ite (fun _ => moves_pure h.refl _ _) fun _ => ?_
    refine moves_bind h.trans ?_ fun goOn s₁ _ => ?_
    · refine moves_get_bind (moves_ite (fun _ => moves_pure h.refl _ _) fun _ => ?_)
      exact h.readHeader _ s
    · refine moves_ite (fun _ => ?_) fun _ => moves_pure h.refl _ _
      exact moves_bind h.trans (h.readPayload s₁) fun _ s₂ _ => ih s₂

/-- `ReadWebsocket` respects the relation. -/
theorem readWebsocket (h : Rules env R) (s : Session) :
    Moves R AnyTrap (readWebsocket env) s := by
  refine moves_get_bind ?_
  split
  · exact moves_throw h.refl trivial _
  · exact h.readLoop _ s

/-- Reading what is left at the end of the stream respects the relation. -/
theorem readLeftover (h : Rules env R) (input : Bytes) (s : Session) :
    Moves R AnyTrap (readLeftover env input) s :=
  moves_ite (fun _ => moves_pure h.refl _ _) fun _ => h.readWebsocket s

/-- The calls of `onConnect_`. -/
theorem onConnectCalls (h : Rules env R) (trace : List Event) (s : Session) :
    Moves R AnyTrap
      (match env.app.onConnect with
      | none => pure ()
      | some handler => Ws.runCalls env (handler trace)) s := by
  split
  · exact moves_pure h.refl _ _
  · exact h.runCalls _ _

end Rules

end CppImprovement.Ws

import CppImprovement.Net.Ws.Rounds
import CppImprovement.Net.Ws.Steps

/-!
# The remaining length

`ReadWebsocket` subtracts the octets it has received of a frame from the length in the frame
header. The header is the one that sending uses too: a chunk that the text check refuses, or that
does not fit the control buffer, is answered with a Close frame, and the header of the Close frame
announces two octets. Where more than two octets of the frame have arrived, the subtraction wraps
in the next round, and the rest of the stream is one endless frame. It wraps in no other case.
-/

namespace CppImprovement.Ws

variable {env : Env} {s t u : Session} {b : Bufferevent} {c : Bytes}

/-! ## Chunks that are answered with a Close frame -/

/-- Inside a frame no more octets have been received than its header announces. -/
def Session.InCount (s : Session) : Prop :=
  s.rx.hasHeader = true → s.rx.recvFrameLen ≤ s.wsHeader.payloadLen

instance : DecidablePred Session.InCount := fun s =>
  inferInstanceAs (Decidable (s.rx.hasHeader = true → s.rx.recvFrameLen ≤ s.wsHeader.payloadLen))

/-- The text check refuses the octets. -/
def Session.RefusesText (s : Session) (c : Bytes) : Prop :=
  (s.rx.msgIsBinary = false ∧ isControlOpcode s.wsHeader.opcode = false) ∧
    (validateUtf8 s.rx.utf8State c = WS_UTF8_REJECT ∨
      validateUtf8 s.rx.utf8State c ≠ WS_UTF8_ACCEPT ∧ s.wsHeader.fin = true)

/-- The octets belong to a control frame and do not fit its buffer. -/
def Session.RefusesControl (s : Session) (c : Bytes) : Prop :=
  isControlOpcode s.wsHeader.opcode = true ∧ WS_CONTROL_MAX_PAYLOAD_LEN < s.rx.ctrlLen + c.length

/-- The octets are refused, and the Close frame for that is still to be sent. -/
def Session.Answers (s : Session) (c : Bytes) : Prop :=
  s.cl.sentCloseFlag = false ∧ (s.RefusesText c ∨ s.RefusesControl c)

/-- The next chunk is answered with a Close frame when more than two octets of its frame have
arrived with it. -/
def Session.Overshoots (s : Session) : Prop :=
  s.remaining ≠ 0 ∧ s.Answers (unmaskChunk s.wsHeader s.chunk) ∧
    2 < s.rx.recvFrameLen + s.chunk.length

/-- Closing without a reason replaces the header once. -/
theorem closeStarted_wsHeader (status : WSCloseStatus) (s : Session) :
    (s.closeStarted env status []).wsHeader =
      if s.cl.sentCloseFlag = true then s.wsHeader
      else sentHeader env s.io.randPos .close 2 := by
  have hlen : (closePayload status []).length = 2 := closePayload_length status []
  rw [Session.closeStarted, Session.closeFrameSent]
  split_ifs
  · rfl
  · rw [Session.sentFrame, hlen]

/-- Sending the Close frame leaves the receiver. -/
theorem closeStarted_rx (status : WSCloseStatus) (s : Session) :
    (s.closeStarted env status []).rx = s.rx := by
  rw [Session.closeStarted, Session.closeFrameSent]
  split_ifs <;> rfl

private theorem closeStarted_tx (status : WSCloseStatus) (s : Session) :
    (s.closeStarted env status []).tx = s.tx := by
  rw [Session.closeStarted, Session.closeFrameSent]
  split_ifs <;> rfl

/-- Closing leaves the receiver and the sender as they are. The header is that of the Close frame
if none was sent before, also where the bufferevent is gone and nothing can be written. -/
structure CloseTried (env : Env) (s t : Session) : Prop where
  rx : t.rx = s.rx
  tx : t.tx = s.tx
  sent : s.cl.sentCloseFlag = true → t.cl.sentCloseFlag = true ∧ t.wsHeader = s.wsHeader
  unsent : s.cl.sentCloseFlag = false → t.wsHeader = sentHeader env s.io.randPos .close 2

/-- The header is written before the bufferevent is looked for. -/
theorem wp_closeWithStatus_tried (hf : env.NoFault) (hs : s.tx.sendState = .none)
    {status : WSCloseStatus} (hst : status.notUsed = false) :
    wp (closeWithStatus env status) (fun _ => CloseTried env s) (fun _ _ => False) s := by
  by_cases hb : s.bev = none
  · by_cases hc : s.cl.sentCloseFlag = true
    · have htried : CloseTried env s
          { s with
            cl.state := .closing
            cl.closeTimeoutEvent := .pending
            io.callPos := s.io.callPos + 2 } :=
        ⟨rfl, rfl, fun h => ⟨h, rfl⟩, fun h => by simp [h] at hc⟩
      simpa [closeWithStatus, closeWithStatusReason, sendCloseOnce, callFails, hf _, hc]
        using htried
    · have hlen : (closePayload status []).length = 2 := closePayload_length status []
      have hfits : isControlOpcode .close = true → (closePayload status []).length ≤ 125 :=
        fun _ => by omega
      have hgone := sendFrameRaw_gone (s := { s with cl.state := .closing }) hf hb hs hfits
        (by rw [hlen]; decide)
      have htried : ∀ t : Session, t.rx = s.rx → t.tx = s.tx →
          t.wsHeader = sentHeader env s.io.randPos .close (closePayload status []).length →
          CloseTried env s t :=
        fun t hrx htx hw => ⟨hrx, htx, fun h => absurd h hc, fun _ => by rw [hw, hlen]⟩
      simp only [closeWithStatus, closeWithStatusReason, sendCloseOnce, sendClose, wp_bind,
        wp_modify, wp_get, wp_ite]
      rw [if_neg hc, if_neg (by simp [hst]), if_neg (by decide)]
      refine (wp_of_eq_ok hgone).mpr ?_
      simp only [wp_pure, closeFail, shutDown, wp_bind, wp_modify]
      exact htried _ rfl rfl rfl
  · rw [wp_of_eq_ok (closeWithStatus_ok hf hb hs hst)]
    refine ⟨closeStarted_rx _ s, closeStarted_tx _ s, fun hc => ⟨rfl, ?_⟩, fun hc => ?_⟩
    · rw [closeStarted_wsHeader, if_pos hc]
    · rw [closeStarted_wsHeader, if_neg (by simp [hc])]

private theorem wp_checkUtf8_refused (hf : env.NoFault) (hs : s.tx.sendState = .none)
    (h : s.RefusesText c) :
    wp (checkUtf8 env c) (fun _ => CloseTried env (s.checkedOver c)) (fun _ _ => False) s := by
  simp only [checkUtf8, wp_bind, wp_get, wp_ite, wp_modify]
  rw [if_pos h.1]
  exact (if_pos h.2).mpr
    (wp_closeWithStatus_tried (s := s.checkedOver c) hf hs (by decide))

/-- The session with a state of the text check. -/
def Session.utf8At (s : Session) (state : Nat) : Session := { s with rx.utf8State := state }

/-- A chunk that is not refused moves the state of the check at most. -/
theorem checkUtf8_unrefused (env : Env) (h : ¬ s.RefusesText c) :
    ∃ state, checkUtf8 env c s = .ok () (s.utf8At state) ∧
      (state = s.rx.utf8State ∨ state = validateUtf8 s.rx.utf8State c) := by
  by_cases hc : s.rx.msgIsBinary = false ∧ isControlOpcode s.wsHeader.opcode = false
  · refine ⟨validateUtf8 s.rx.utf8State c, eq_ok_of_wp ?_, Or.inr rfl⟩
    simp only [checkUtf8, wp_bind, wp_get, wp_ite, wp_modify]
    rw [if_pos hc]
    exact (if_neg fun hr => h ⟨hc, hr⟩).mpr ⟨trivial, rfl⟩
  · refine ⟨s.rx.utf8State, eq_ok_of_wp ?_, Or.inl rfl⟩
    simp only [checkUtf8, wp_bind, wp_get, wp_ite]
    rw [if_neg hc]
    exact ⟨trivial, rfl⟩

/-- The session has the frame of `s`, with a receiver that has got as far. -/
structure SameFrame (s t : Session) : Prop where
  hasHeader : t.rx.hasHeader = s.rx.hasHeader
  recvFrameLen : t.rx.recvFrameLen = s.rx.recvFrameLen

/-- The same frame as in between. -/
theorem SameFrame.trans {v : Session} (h : SameFrame s t) (h' : SameFrame t v) : SameFrame s v :=
  ⟨h'.hasHeader.trans h.hasHeader, h'.recvFrameLen.trans h.recvFrameLen⟩

private theorem CloseTried.sameFrame (h : CloseTried env s t) : SameFrame s t := by
  constructor <;> rw [h.rx]

/-- The header that closing leaves announces two octets. -/
theorem CloseTried.payloadLen (h : CloseTried env s t) (hc : s.cl.sentCloseFlag = false) :
    t.wsHeader.payloadLen.val = 2 := by
  rw [h.unsent hc]
  rfl

/-- An oversized control payload is answered. -/
theorem wp_handleFrameData_overflows (hf : env.NoFault) (hs : s.tx.sendState = .none)
    (h : s.RefusesControl c) :
    wp (handleFrameData env c)
      (fun rc t => rc = -1 ∧ SameFrame s t ∧ ∃ u, CloseTried env s u ∧ t.wsHeader = u.wsHeader)
      (fun _ _ => False) s := by
  rw [handleFrameData, wp_bind, wp_get, wp_ite, if_pos h.1, wp_ite, if_pos h.2, wp_bind]
  refine wp_mono (wp_closeWithStatus_tried hf hs (by decide)) (fun _ u hu => ?_) fun _ _ hn => hn
  rw [wp_bind, wp_modify]
  exact ⟨rfl, ⟨hu.sameFrame.hasHeader, hu.sameFrame.recvFrameLen⟩, u, hu, rfl⟩

/-- Other data is stored, unless the frame has no buffer. -/
theorem wp_handleFrameData_stored (env : Env) (h : ¬ s.RefusesControl c) :
    wp (handleFrameData env c)
      (fun rc t => rc = 0 ∧ SameFrame s t ∧ t.wsHeader = s.wsHeader)
      (fun _ _ => isControlOpcode s.wsHeader.opcode = false) s := by
  rw [handleFrameData, wp_bind, wp_get, wp_ite]
  split
  · rename_i hc
    rw [wp_ite, if_neg fun hl => h ⟨hc, hl⟩, wp_bind, wp_modify]
    exact ⟨rfl, ⟨rfl, rfl⟩, rfl⟩
  · rename_i hc
    split
    · exact eq_false_of_ne_true hc
    · rw [wp_bind, wp_modify]
      exact ⟨rfl, ⟨rfl, rfl⟩, rfl⟩

/-- Storing data leaves the header, or the header of the Close frame for it. -/
theorem wp_handleFrameData_header (hf : env.NoFault) (hs : s.tx.sendState = .none) :
    wp (handleFrameData env c)
      (fun _ t => SameFrame s t ∧ (t.wsHeader = s.wsHeader ∨
        s.cl.sentCloseFlag = false ∧ t.wsHeader.payloadLen.val = 2))
      (fun _ _ => isControlOpcode s.wsHeader.opcode = false) s := by
  by_cases hc : s.RefusesControl c
  · refine wp_mono (wp_handleFrameData_overflows hf hs hc) (fun _ _ h => ?_) fun _ _ h => h.elim
    obtain ⟨-, hsame, u, hu, hw⟩ := h
    refine ⟨hsame, ?_⟩
    rw [hw]
    cases hsent : s.cl.sentCloseFlag with
    | true => exact Or.inl (hu.sent hsent).2
    | false => exact Or.inr ⟨rfl, hu.payloadLen hsent⟩
  · exact wp_mono (wp_handleFrameData_stored env hc) (fun _ _ h => ⟨h.2.1, Or.inl h.2.2⟩)
      fun _ _ h => h

/-- After the check and the storing of a chunk the header is that of the Close frame if one was
due, and the same otherwise. -/
def Stored (s : Session) (c : Bytes) (t : Session) : Prop :=
  SameFrame s t ∧ (s.Answers c → t.wsHeader.payloadLen.val = 2) ∧
    (¬ s.Answers c → t.wsHeader = s.wsHeader)

private theorem Session.sent_of_not_answers (hr : s.RefusesText c ∨ s.RefusesControl c)
    (h : ¬ s.Answers c) : s.cl.sentCloseFlag = true := by
  by_contra hn
  exact h ⟨eq_false_of_ne_true hn, hr⟩

/-- A chunk that the text check has refused is stored. -/
theorem CloseTried.wp_stored (hf : env.NoFault) (hs : s.tx.sendState = .none)
    (ht : s.RefusesText c) (h : CloseTried env (s.checkedOver c) t) :
    wp (handleFrameData env c) (fun _ => Stored s c) (fun _ _ => ¬ s.Answers c) t := by
  have hst : t.tx.sendState = .none := (congrArg Sender.sendState h.tx).trans hs
  have hsame : SameFrame s t := ⟨h.sameFrame.hasHeader, h.sameFrame.recvFrameLen⟩
  refine wp_mono (wp_handleFrameData_header hf hst) (fun _ v hv => ?_) fun _ _ hv ha => ?_
  · refine ⟨hsame.trans hv.1, fun ha => ?_, fun ha => ?_⟩
    · rcases hv.2 with hw | hw
      · rw [hw, h.payloadLen ha.1]
      · exact hw.2
    · have hsent := Session.sent_of_not_answers (Or.inl ht) ha
      obtain ⟨hstill, hkept⟩ := h.sent hsent
      rcases hv.2 with hw | hw
      · exact hw.trans hkept
      · rw [hstill] at hw
        cases hw.1
  · rw [h.unsent ha.1] at hv
    cases hv

/-- The check and the storing of a chunk. A chunk that is answered is stored. -/
theorem wp_stored (hf : env.NoFault) (hs : s.tx.sendState = .none) :
    wp (checkUtf8 env c >>= fun _ => handleFrameData env c) (fun _ => Stored s c)
      (fun _ _ => ¬ s.Answers c) s := by
  rw [wp_bind]
  by_cases ht : s.RefusesText c
  · exact wp_mono (wp_checkUtf8_refused hf hs ht) (fun _ u hu => hu.wp_stored hf hs ht)
      fun _ _ hn => hn.elim
  · obtain ⟨state, hcheck, -⟩ := checkUtf8_unrefused env ht
    have hsame : SameFrame s (s.utf8At state) := ⟨rfl, rfl⟩
    rw [wp_of_eq_ok hcheck]
    by_cases hc : s.RefusesControl c
    · refine wp_mono (wp_handleFrameData_overflows (s := s.utf8At state) hf hs hc)
        (fun _ t h => ?_) fun _ _ h => h.elim
      obtain ⟨-, hsame', u, hu, hw⟩ := h
      refine ⟨hsame.trans hsame', fun ha => ?_, fun ha => ?_⟩
      · rw [hw]
        exact hu.payloadLen ha.1
      · have hsent : s.cl.sentCloseFlag = true := Session.sent_of_not_answers (Or.inr hc) ha
        rw [hw]
        exact (hu.sent hsent).2
    · have hnot : ¬ s.Answers c := fun h => h.2.elim ht hc
      refine wp_mono (wp_handleFrameData_stored (s := s.utf8At state) env hc) (fun _ t h => ?_)
        fun _ _ _ => hnot
      exact ⟨hsame.trans h.2.1, fun ha => absurd ha hnot, fun _ => h.2.2⟩

/-! ## The payload part -/

/-- The frame ends behind a chunk if its payload is complete, which it is not behind the second
octet of a frame that was answered. -/
theorem wp_handleChunk (hf : env.NoFault) (hs : s.tx.sendState = .none) :
    wp (handleChunk env c)
      (fun _ t => t.rx.hasHeader = false ∧ (s.Answers c → s.rx.recvFrameLen ≤ 2) ∨ Stored s c t)
      (fun _ _ => s.Answers c → s.rx.recvFrameLen ≤ 2) s := by
  have hstored := @wp_stored env s c hf hs
  rw [wp_bind] at hstored
  rw [handleChunk, wp_bind]
  refine wp_mono hstored (fun _ t h => ?_) fun _ _ h ha => absurd ha h
  rw [wp_bind]
  refine wp_mono h (fun rc u hu => ?_) fun _ _ h ha => absurd ha h
  rw [wp_bind, wp_get, wp_ite]
  split
  · rename_i hend
    have hshort : s.Answers c → s.rx.recvFrameLen ≤ 2 := by
      intro ha
      rw [← hu.1.recvFrameLen, hend.2, hu.2.1 ha]
    exact wp_mono (wp_endFrame_hasHeader u) (fun _ _ h => Or.inl ⟨h, hshort⟩) fun _ _ _ => hshort
  · exact Or.inr hu

private theorem Session.inCount_of_none (h : s.rx.hasHeader = false) : s.InCount := by
  intro hh
  rw [h] at hh
  cases hh

/-- A chunk brings a frame to no more than its length. -/
theorem Session.InCount.chunk_le (h : s.InCount) (hh : s.rx.hasHeader = true) :
    s.rx.recvFrameLen + s.chunk.length ≤ s.wsHeader.payloadLen := by
  have hle := h hh
  have hrem : s.remaining = s.wsHeader.payloadLen - s.rx.recvFrameLen :=
    remainingLen_of_le s.wsHeader.payloadLen.isLt hle
  rw [Session.chunk, hrem, List.length_take]
  omega

/-- The session from whose input the next chunk was taken. -/
def Session.chunkTaken (s : Session) : Session := (s.drain s.remaining).counted s.chunk.length

/-- Taking a chunk changes the input and the count. -/
theorem Session.chunkTaken_eq (s : Session) :
    ∃ bev detached, s.chunkTaken = { s with
      bev := bev, detached := detached
      rx.recvFrameLen := (s.rx.recvFrameLen + s.chunk.length) % 2 ^ 64 } := by
  obtain ⟨bev, detached, heq, -⟩ := s.drain_eq s.remaining
  refine ⟨bev, detached, ?_⟩
  rw [Session.chunkTaken, heq, Session.counted]

/-- While the frame is in count, the word that counts its octets does not wrap. -/
theorem Session.InCount.chunkTaken (h : s.InCount) (hh : s.rx.hasHeader = true) :
    s.chunkTaken.rx.recvFrameLen = s.rx.recvFrameLen + s.chunk.length := by
  have hle := h.chunk_le hh
  have hlt := s.wsHeader.payloadLen.isLt
  obtain ⟨_, _, heq⟩ := s.chunkTaken_eq
  rw [heq]
  exact Nat.mod_eq_of_lt (by omega)

/-- The payload part with something of the payload to come. -/
theorem wp_readPayload_counted (hf : env.NoFault) (hs : s.tx.sendState = .none) (h : s.InCount)
    (hh : s.rx.hasHeader = true) (hr : s.remaining ≠ 0) :
    wp (readPayload env)
      (fun _ t =>
        t.rx.hasHeader = false ∧ ¬ s.Overshoots ∨
          t.rx.hasHeader = true ∧ t.rx.recvFrameLen = s.rx.recvFrameLen + s.chunk.length ∧
            (s.Answers (unmaskChunk s.wsHeader s.chunk) → t.wsHeader.payloadLen.val = 2) ∧
            (¬ s.Answers (unmaskChunk s.wsHeader s.chunk) → t.wsHeader = s.wsHeader))
      (fun _ _ => ¬ s.Overshoots) s := by
  have hcount := h.chunkTaken hh
  have hshort : (s.Answers (unmaskChunk s.wsHeader s.chunk) → s.chunkTaken.rx.recvFrameLen ≤ 2) →
      ¬ s.Overshoots := by
    rintro hle ⟨-, ha, hlong⟩
    have := hle ha
    omega
  rw [wp_congr (readPayload_takes hr)]
  change wp (handleChunk env (unmaskChunk s.wsHeader s.chunk)) _ _ s.chunkTaken
  obtain ⟨bev, detached, heq⟩ := s.chunkTaken_eq
  rw [heq] at hcount hshort ⊢
  refine wp_mono (wp_handleChunk hf hs) (fun _ t ht => ?_) fun _ _ ht => hshort ht
  rcases ht with ⟨hn, ht⟩ | ⟨hsame, hanswered, hkept⟩
  · exact Or.inl ⟨hn, hshort ht⟩
  · exact Or.inr ⟨hsame.hasHeader.trans hh, hsame.recvFrameLen.trans hcount, hanswered, hkept⟩

/-- A round that does not overshoot keeps count. -/
theorem wp_readPayload_inCount (hf : env.NoFault) (hs : s.tx.sendState = .none) (h : s.InCount)
    (hh : s.rx.hasHeader = true) (hno : ¬ s.Overshoots) :
    wp (readPayload env) (fun _ t => t.InCount) (fun _ _ => True) s := by
  by_cases hr : s.remaining = 0
  · rw [wp_congr (readPayload_ended hr)]
    exact wp_mono (wp_endFrame_hasHeader s) (fun _ _ ht => Session.inCount_of_none ht)
      fun _ _ _ => trivial
  · refine wp_mono (wp_readPayload_counted hf hs h hh hr) (fun _ t ht => ?_) fun _ _ _ => trivial
    rcases ht with ⟨hn, -⟩ | ⟨-, hlen, hanswered, hkept⟩
    · exact Session.inCount_of_none hn
    · intro _
      rw [hlen]
      by_cases ha : s.Answers (unmaskChunk s.wsHeader s.chunk)
      · rw [hanswered ha]
        by_contra hlt
        exact hno ⟨hr, ha, by omega⟩
      · rw [hkept ha]
        exact h.chunk_le hh

/-- A round that overshoots loses count, and the loop goes on. -/
theorem readPayload_overshoots (hf : env.NoFault) (hs : s.tx.sendState = .none) (h : s.InCount)
    (hh : s.rx.hasHeader = true) (hover : s.Overshoots) :
    ∃ t, readPayload env s = .ok ⟨⟩ t ∧ ¬ t.InCount := by
  have hwp : wp (readPayload env) (fun _ t => ¬ t.InCount) (fun _ _ => False) s := by
    refine wp_mono (wp_readPayload_counted hf hs h hh hover.1) (fun _ t ht hcount => ?_)
      fun _ _ ht => ht hover
    rcases ht with ⟨-, hno⟩ | ⟨hht, hlen, hanswered, -⟩
    · exact hno hover
    · have hle := hcount hht
      rw [hlen, hanswered hover.2.1] at hle
      exact absurd hle (not_le.mpr hover.2.2)
  obtain ⟨_, t, ht, hcount⟩ := exists_ok_of_wp hwp
  exact ⟨t, ht, hcount⟩

/-! ## The loop -/

/-- The handshake is complete, and no message is being sent in fragments. -/
structure Session.Ready (s : Session) : Prop where
  connectState : s.hs.connectState = .handshakeComplete
  sendState : s.tx.sendState = .none

/-- What takes input at most leaves the session ready. -/
theorem Session.Ready.shrinks (h : s.Ready) (hs : Shrinks s t) : t.Ready :=
  ⟨by rw [hs.hs, h.connectState], by rw [hs.tx, h.sendState]⟩

/-- The loop entered in `s` comes to its payload part in `v`. -/
def PayloadPoint (env : Env) (s v : Session) : Prop :=
  ∃ u, LoopHead (readRound env) s u ∧ ¬ u.Freed env ∧ u.inBuf ≠ [] ∧
    needHeader env u.inBuf u = .ok true v

/-- The loop entered in `s` begins a round in `v`, or comes to its payload part there. -/
def LoopPoint (env : Env) (s v : Session) : Prop :=
  LoopHead (readRound env) s v ∨ PayloadPoint env s v

/-- The header part of a round takes input at most. -/
theorem shrinks_needHeader (input : Bytes) (s : Session) :
    Moves Shrinks AnyTrap (needHeader env input) s :=
  moves_get_bind (moves_ite (fun _ => moves_pure Shrinks.refl _ s) fun _ =>
    (shrinks_rules env).readHeader input s)

private theorem shrinks_readRound (s : Session) : Moves Shrinks AnyTrap (readRound env) s := by
  refine moves_get_bind (moves_ite (fun _ => moves_throw Shrinks.refl trivial s) fun _ => ?_)
  refine moves_ite (fun _ => moves_pure Shrinks.refl _ s) fun _ => ?_
  refine moves_bind Shrinks.trans (shrinks_needHeader _ s) fun _ u _ => ?_
  refine moves_ite (fun _ => ?_) fun _ => moves_pure Shrinks.refl _ u
  exact moves_bind Shrinks.trans ((shrinks_rules env).readPayload u) fun _ v _ =>
    moves_pure Shrinks.refl _ v

private theorem Session.Ready.loopHead (h : s.Ready) (hu : LoopHead (readRound env) s u) :
    u.Ready :=
  hu.invariant h fun v _ hv hround => hv.shrinks ((wp_of_eq_ok hround).mp (shrinks_readRound v))

/-- A header that is refused is answered, and leaves none behind. -/
theorem readHeader_refused_hasHeader (hh : s.rx.hasHeader = false) {input : Bytes}
    (hst : headerState (s.unpacked env input) s.rx.inMsgFlag = .error) :
    wp (readHeader env input) (fun goOn t => goOn = false ∧ t.rx.hasHeader = false)
      (fun _ _ => True) s := by
  have hab : ¬ (s.unpacked env input).state = .userAbort := unpackHeader_ne_userAbort _ _
  rw [Session.unpacked] at hab hst
  simp only [readHeader, wp_bind, wp_get, wp_modify]
  rw [if_neg hab]
  simp only [hst, wp_bind]
  exact wp_mono (retains_closeWithStatusReason _ _ _)
    (fun _ _ ht => ⟨rfl, ht.hasHeader.trans hh⟩) fun _ _ _ => trivial

/-- The header part leaves a header if it goes on, and keeps count. -/
theorem readHeader_inCount (hf : env.NoFault) (hh : s.rx.hasHeader = false) {input : Bytes}
    {goOn : Bool} (hr : readHeader env input s = .ok goOn t) :
    t.rx.hasHeader = goOn ∧ t.InCount := by
  cases hst : headerState (s.unpacked env input) s.rx.inMsgFlag with
  | success =>
    cases (readHeader_begins hf hst).symm.trans hr
    have hrx : (s.accepted (s.unpacked env input)).rx = { s.rx with hasHeader := true } := by
      rw [Session.accepted, Session.drain_rx]
      rfl
    have hbegun : (s.accepted (s.unpacked env input)).frameBegun.rx.hasHeader = true ∧
        (s.accepted (s.unpacked env input)).frameBegun.rx.recvFrameLen = 0 := by
      rw [Session.frameBegun]
      split_ifs <;> simp [hrx]
    refine ⟨hbegun.1, fun _ => ?_⟩
    rw [hbegun.2]
    exact Nat.zero_le _
  | needMore =>
    cases (readHeader_waits hst).symm.trans hr
    exact ⟨hh, Session.inCount_of_none hh⟩
  | error =>
    obtain ⟨rfl, hn⟩ := (wp_of_eq_ok hr).mp (readHeader_refused_hasHeader hh hst)
    exact ⟨hn, Session.inCount_of_none hn⟩
  | userAbort =>
    exact absurd (state_of_headerState hst (by decide)) (unpackHeader_ne_userAbort _ _)

private theorem needHeader_inCount (hf : env.NoFault) {input : Bytes} {goOn : Bool}
    (hn : needHeader env input s = .ok goOn t) :
    t.rx.hasHeader = goOn ∧ (s.InCount → t.InCount) := by
  cases hh : s.rx.hasHeader with
  | true =>
    cases (needHeader_inside hh input).symm.trans hn
    exact ⟨hh, id⟩
  | false =>
    obtain ⟨hgo, hcount⟩ := readHeader_inCount hf hh ((needHeader_outside hh input).symm.trans hn)
    exact ⟨hgo, fun _ => hcount⟩

/-- At its payload part the loop is ready. -/
theorem PayloadPoint.ready (h : s.Ready) (hv : PayloadPoint env s t) : t.Ready := by
  obtain ⟨u, hu, -, -, hn⟩ := hv
  exact (h.loopHead hu).shrinks ((wp_of_eq_ok hn).mp (shrinks_needHeader _ u))

/-- A payload part that overshoots is followed by a round that has lost count. -/
theorem PayloadPoint.not_overshoots (hf : env.NoFault) (h : s.Ready) (hv : PayloadPoint env s t)
    (hall : ∀ u, LoopPoint env s u → u.InCount) : ¬ t.Overshoots := by
  intro hover
  have hready := hv.ready h
  have hcount := hall t (Or.inr hv)
  obtain ⟨u, hu, hfreed, hin, hn⟩ := hv
  have hh := (needHeader_inCount hf hn).1
  obtain ⟨w, hp, hlost⟩ := readPayload_overshoots hf hready.sendState hcount hh hover
  exact hlost (hall w (Or.inl (hu.again (readRound_goesOn hfreed hin hn hp))))

section loop

variable (hf : env.NoFault) (h : s.Ready) (hcount : s.InCount)
  (hno : ∀ v, PayloadPoint env s v → ¬ v.Overshoots)
include hf h hcount hno

/-- A loop that never overshoots keeps count at the begin of every round. -/
theorem loopHead_inCount (hu : LoopHead (readRound env) s u) : u.InCount := by
  induction hu with
  | start => exact hcount
  | @again v w hv hround ih =>
    obtain ⟨hfreed, hin, p, hn, hp⟩ := payload_of_readRound hround
    have hpoint : PayloadPoint env s p := ⟨v, hv, hfreed, hin, hn⟩
    obtain ⟨hh, hkeep⟩ := needHeader_inCount hf hn
    exact (wp_of_eq_ok hp).mp (wp_readPayload_inCount hf (hpoint.ready h).sendState
      (hkeep ih) hh (hno p hpoint))

private theorem loopPoint_inCount (hu : LoopPoint env s u) : u.InCount := by
  rcases hu with hu | ⟨v, hv, -, -, hn⟩
  · exact loopHead_inCount hf h hcount hno hu
  · exact (needHeader_inCount hf hn).2 (loopHead_inCount hf h hcount hno hv)

/-- The loop leaves a session that keeps count. -/
theorem readWebsocket_inCount (hb : s.bev ≠ none) (hr : readWebsocket env s = .ok ⟨⟩ t) :
    t.InCount := by
  obtain ⟨k, r, -, hends, hres⟩ := exists_readWebsocket_ends env hb
  rw [hres] at hr
  rw [hr] at hends
  obtain ⟨u, hu, hstop⟩ := hends.last
  have hucount := loopHead_inCount hf h hcount hno hu
  by_cases hin : u.inBuf = []
  · cases (readRound_nil (not_freed_of_readRound hstop) hin).symm.trans hstop
    exact hucount
  · exact (needHeader_inCount hf (needHeader_of_stop hin hstop)).2 hucount

end loop

/-! ## Reads -/

/-- A read after the handshake goes to the frame reader. -/
theorem step_read_ready (h : s.Ready) (hr : s.Reading b) (c : Bytes) :
    step env (.read c) s = readWebsocket env (s.received b c) := by
  refine eq_of_wp fun Q E hw => ?_
  simpa [step, onRead, hr.1, hr.2, h.connectState, Session.received] using hw

/-- One of the reads brings the loop to `v`, as `P` says. -/
def DuringReads (env : Env) (P : Session → Session → Prop) (s : Session) (reads : List Bytes)
    (v : Session) : Prop :=
  ∃ cs c ds t b, reads = cs ++ c :: ds ∧ run env (cs.map .read) s = .ok ⟨⟩ t ∧ t.Reading b ∧
    P (t.received b c) v

/-- What happens during the later reads happens during all of them. -/
theorem DuringReads.cons {P : Session → Session → Prop} {reads : List Bytes}
    (hstep : step env (.read c) s = .ok ⟨⟩ t) {v : Session} (h : DuringReads env P t reads v) :
    DuringReads env P s (c :: reads) v := by
  obtain ⟨cs, c', ds, w, b, rfl, hrun, hrest⟩ := h
  refine ⟨c :: cs, c', ds, w, b, rfl, ?_, hrest⟩
  rw [List.map_cons, run, runAll_cons, bind_eq_of_ok hstep]
  exact hrun

/-- A read that is not delivered changes nothing. -/
theorem step_read_idle (h : ∀ b, ¬ s.Reading b) (c : Bytes) : step env (.read c) s = .ok ⟨⟩ s := by
  rw [step, get_bind]
  cases hb : s.bev with
  | none => rfl
  | some b =>
    simp only
    rw [if_neg fun hr => h b ⟨hb, hr⟩]
    rfl

/-- A read leaves the session ready. -/
theorem Session.Ready.step_read (h : s.Ready) (hstep : step env (.read c) s = .ok ⟨⟩ t) :
    t.Ready := by
  by_cases hr : ∃ b, s.Reading b
  · obtain ⟨b, hr⟩ := hr
    rw [step_read_ready h hr] at hstep
    have hready : (s.received b c).Ready := ⟨h.connectState, h.sendState⟩
    exact hready.shrinks ((wp_of_eq_ok hstep).mp ((shrinks_rules env).readWebsocket _))
  · cases (step_read_idle (not_exists.mp hr) c).symm.trans hstep
    exact h

/-- Every session that the reads come to is ready. -/
theorem Session.Ready.run_reads {cs : List Bytes} (h : s.Ready)
    (hrun : run env (cs.map .read) s = .ok ⟨⟩ t) : t.Ready := by
  induction cs generalizing s with
  | nil =>
    cases hrun
    exact h
  | cons c cs ih =>
    rw [List.map_cons, run, runAll_cons] at hrun
    cases hstep : step env (.read c) s with
    | error e u => cases (bind_eq_of_error hstep).symm.trans hrun
    | ok a u =>
      rw [bind_eq_of_ok hstep] at hrun
      exact ih (h.step_read hstep) hrun

/-- Reads that never overshoot leave a session that keeps count. -/
theorem inCount_run_reads (hf : env.NoFault) {cs ds : List Bytes} (h : s.Ready) (hcount : s.InCount)
    (hno : ∀ v, DuringReads env (PayloadPoint env) s (cs ++ ds) v → ¬ v.Overshoots)
    (hrun : run env (cs.map .read) s = .ok ⟨⟩ t) : t.InCount := by
  induction cs generalizing s with
  | nil =>
    cases hrun
    exact hcount
  | cons c cs ih =>
    rw [List.map_cons, run, runAll_cons] at hrun
    cases hstep : step env (.read c) s with
    | error e u => cases (bind_eq_of_error hstep).symm.trans hrun
    | ok a u =>
      rw [bind_eq_of_ok hstep] at hrun
      refine ih (h.step_read hstep) ?_ (fun v hv => hno v (hv.cons hstep)) hrun
      by_cases hr : ∃ b, s.Reading b
      · obtain ⟨b, hr⟩ := hr
        have hready : (s.received b c).Ready := ⟨h.connectState, h.sendState⟩
        rw [step_read_ready h hr] at hstep
        refine readWebsocket_inCount hf hready hcount (fun v hv => ?_) (Option.some_ne_none _) hstep
        exact hno v ⟨[], c, cs ++ ds, s, b, rfl, rfl, hr, hv⟩
      · cases (step_read_idle (not_exists.mp hr) c).symm.trans hstep
        exact hcount

/-- At every point of the loop, in every read, no more octets have been received of a frame than
its header announces, exactly when no chunk is answered with the Close frame after more than two
octets of its frame. -/
theorem inCount_iff_never_overshoots (hf : env.NoFault) (h : s.Ready)
    (hh : s.rx.hasHeader = false) (reads : List Bytes) :
    (∀ v, DuringReads env (LoopPoint env) s reads v → v.InCount) ↔
      ∀ v, DuringReads env (PayloadPoint env) s reads v → ¬ v.Overshoots := by
  constructor
  · rintro hall v ⟨cs, c, ds, t, b, hreads, hrun, hr, hv⟩
    have ht := h.run_reads hrun
    have hready : (t.received b c).Ready := ⟨ht.connectState, ht.sendState⟩
    refine hv.not_overshoots hf hready fun u hu => hall u ?_
    exact ⟨cs, c, ds, t, b, hreads, hrun, hr, hu⟩
  · rintro hno v ⟨cs, c, ds, t, b, rfl, hrun, hr, hv⟩
    have ht := h.run_reads hrun
    have hready : (t.received b c).Ready := ⟨ht.connectState, ht.sendState⟩
    have hcount : t.InCount := inCount_run_reads hf h (Session.inCount_of_none hh) hno hrun
    refine loopPoint_inCount hf hready hcount (fun u hu => hno u ?_) hv
    exact ⟨cs, c, ds, t, b, rfl, hrun, hr, hu⟩

/-- A session after the handshake. -/
def shaken : Session :=
  { bev := some { readEnabled := true }, hs.connectState := .handshakeComplete
    cl.state := .connected }

private theorem Session.InCount.not_overshoots (h : s.InCount) (hh : s.rx.hasHeader = true)
    (hlen : s.wsHeader.payloadLen.val ≤ 2) : ¬ s.Overshoots := by
  rintro ⟨-, -, hlong⟩
  have hle := h.chunk_le hh
  omega

/-- The session with a text frame of two octets in its buffer. -/
def shakenHi : Session := shaken.received { readEnabled := true } [0x81, 0x02, 0x68, 0x69]

/-- The text "hi" is received in count. -/
theorem inCount_hi :
    shaken.Ready ∧ shaken.rx.hasHeader = false ∧
      ∀ v, DuringReads {} (LoopPoint {}) shaken [[0x81, 0x02, 0x68, 0x69]] v → v.InCount := by
  refine ⟨⟨rfl, rfl⟩, rfl, ?_⟩
  refine (inCount_iff_never_overshoots (fun _ => rfl) ⟨rfl, rfl⟩ rfl _).mpr ?_
  rintro v ⟨cs, c, ds, t, b, hreads, hrun, hr, u, hu, -, hin, hn⟩
  obtain ⟨rfl, rfl⟩ : cs = [] ∧ c = [0x81, 0x02, 0x68, 0x69] := by
    cases cs with
    | nil => exact ⟨rfl, (List.cons.inj hreads).1.symm⟩
    | cons d cs => simp at hreads
  cases hrun
  cases hr.1
  rcases hu.first with rfl | ⟨w, hw, hu'⟩
  · have hv : v = finalState (needHeader {} [0x81, 0x02, 0x68, 0x69] shakenHi) :=
      (congrArg finalState hn).symm
    rw [hv]
    exact Session.InCount.not_overshoots (by decide) (by decide) (by decide)
  · -- The second round finds the buffer empty.
    have hwv : w = finalState (readRound {} shakenHi) := (congrArg finalState hw).symm
    have hwb : w.Reading { input := [], readEnabled := true } := by
      rw [hwv]
      exact ⟨rfl, rfl⟩
    rcases hu'.first with rfl | ⟨x, hx, -⟩
    · exact absurd hwb.inBuf hin
    · cases (readRound_nil (hwb.not_freed _) hwb.inBuf).symm.trans hx

/-- The session with a text frame of three octets that are no text. -/
def shakenInvalid : Session :=
  shaken.received { readEnabled := true } [0x81, 0x03, 0xFF, 0xFF, 0xFF]

/-- Three octets that are no text: the Close frame for them leaves a length of two behind. -/
theorem inCount_lost :
    ¬ ∀ (env : Env) (s : Session) (reads : List Bytes), env.NoFault → s.Ready →
      s.rx.hasHeader = false → ∀ v, DuringReads env (LoopPoint env) s reads v → v.InCount := by
  intro hall
  have hn : needHeader {} shakenInvalid.inBuf shakenInvalid =
      .ok true (finalState (needHeader {} shakenInvalid.inBuf shakenInvalid)) := by rfl
  have hover : (finalState (needHeader {} shakenInvalid.inBuf shakenInvalid)).Overshoots :=
    ⟨by decide, ⟨rfl, Or.inl ⟨⟨rfl, rfl⟩, Or.inl (by decide)⟩⟩, by decide⟩
  have hpoint : PayloadPoint {} shakenInvalid _ := ⟨_, .start, by decide, by decide, hn⟩
  refine hpoint.not_overshoots (fun _ => rfl) ⟨rfl, rfl⟩ (fun u hu => ?_) hover
  exact hall {} shaken [[0x81, 0x03, 0xFF, 0xFF, 0xFF]] (fun _ => rfl) ⟨rfl, rfl⟩ rfl u
    ⟨[], _, [], shaken, _, rfl, rfl, ⟨rfl, rfl⟩, hu⟩

end CppImprovement.Ws

import CppImprovement.Core.Loop
import CppImprovement.Net.Ws.Discipline
import CppImprovement.Net.Ws.HeaderCuts

/-!
# The rounds of the read loop

The loop of `ReadWebsocket` goes on as long as its input buffer holds anything. A round that
neither returns nor takes an octet off the buffer ends a frame, and leaves no header behind. So
twice the length of the input, with one more for a header that is there at the start, is a measure
that every round lowers, whatever the session's state, the library and the callbacks do.
-/

namespace CppImprovement.Ws

variable {env : Env} {s s' u v : Session}

/-! ## One round -/

/-- The loop condition of `ReadWebsocket` and, if it holds, the body; whether the loop goes on. -/
def readRound (env : Env) : M Bool := do
  let s ← get
  if s.Freed env then
    throw .freedBuffer
  else if s.inBuf = [] then
    pure false
  else if (← needHeader env s.inBuf) = true then
    readPayload env
    pure true
  else
    pure false

private theorem readRound_freed (h : s.Freed env) : readRound env s = .error .freedBuffer s := by
  rw [readRound, get_bind, if_pos h]
  rfl

/-- With an empty buffer the loop ends. -/
theorem readRound_nil (hf : ¬ s.Freed env) (hin : s.inBuf = []) :
    readRound env s = .ok false s := by
  rw [readRound, get_bind, if_neg hf, if_pos hin]
  rfl

section nonempty

variable (hf : ¬ s.Freed env) (hin : s.inBuf ≠ [])
include hf hin

private theorem readRound_eq :
    readRound env s =
      (needHeader env s.inBuf >>= fun goOn =>
        if goOn = true then readPayload env >>= fun _ => pure true else pure false) s := by
  rw [readRound, get_bind, if_neg hf, if_neg hin]

private theorem readRound_headerDies {e : Trap} (hh : needHeader env s.inBuf s = .error e s') :
    readRound env s = .error e s' := by
  rw [readRound_eq hf hin, bind_eq_of_error hh]

/-- The round returns from the header part. -/
theorem readRound_returns (hh : needHeader env s.inBuf s = .ok false s') :
    readRound env s = .ok false s' := by
  rw [readRound_eq hf hin, bind_eq_of_ok hh]
  rfl

private theorem readRound_payloadDies {e : Trap} (hh : needHeader env s.inBuf s = .ok true u)
    (hp : readPayload env u = .error e s') : readRound env s = .error e s' := by
  rw [readRound_eq hf hin, bind_eq_of_ok hh, if_pos rfl, bind_eq_of_error hp]

/-- The round goes through the payload part. -/
theorem readRound_goesOn (hh : needHeader env s.inBuf s = .ok true u)
    (hp : readPayload env u = .ok ⟨⟩ s') : readRound env s = .ok true s' := by
  rw [readRound_eq hf hin, bind_eq_of_ok hh, if_pos rfl, bind_eq_of_ok hp]
  rfl

end nonempty

/-- Where a round ends, the buffer was there. -/
theorem not_freed_of_readRound {goOn : Bool} (h : readRound env s = .ok goOn s') :
    ¬ s.Freed env := fun hf => by
  cases (readRound_freed hf).symm.trans h

/-- A round that goes on has come to the payload part, and through it. -/
theorem payload_of_readRound (h : readRound env s = .ok true s') :
    ¬ s.Freed env ∧ s.inBuf ≠ [] ∧ ∃ u, needHeader env s.inBuf s = .ok true u ∧
      readPayload env u = .ok ⟨⟩ s' := by
  have hf := not_freed_of_readRound h
  by_cases hin : s.inBuf = []
  · cases (readRound_nil hf hin).symm.trans h
  refine ⟨hf, hin, ?_⟩
  cases hh : needHeader env s.inBuf s with
  | error e t => cases (readRound_headerDies hf hin hh).symm.trans h
  | ok goOn u =>
    cases goOn with
    | false => cases (readRound_returns hf hin hh).symm.trans h
    | true =>
      cases hp : readPayload env u with
      | error e t => cases (readRound_payloadDies hf hin hh hp).symm.trans h
      | ok a t =>
        cases (readRound_goesOn hf hin hh hp).symm.trans h
        exact ⟨u, rfl, hp⟩

/-- A round that stops with input left has returned from its header part. -/
theorem needHeader_of_stop (hin : s.inBuf ≠ []) (h : readRound env s = .ok false s') :
    needHeader env s.inBuf s = .ok false s' := by
  have hf := not_freed_of_readRound h
  cases hh : needHeader env s.inBuf s with
  | error e t => cases (readRound_headerDies hf hin hh).symm.trans h
  | ok goOn u =>
    cases goOn with
    | false =>
      cases (readRound_returns hf hin hh).symm.trans h
      rfl
    | true =>
      cases hp : readPayload env u with
      | error e t => cases (readRound_payloadDies hf hin hh hp).symm.trans h
      | ok a t => cases (readRound_goesOn hf hin hh hp).symm.trans h

/-- The bounded loop of the model performs these rounds. -/
theorem readLoop_eq (env : Env) (n : Nat) (s : Session) :
    readLoop env n s = loopN (readRound env) n s := by
  induction n generalizing s with
  | zero => rfl
  | succ n ih =>
    rw [loopN, readLoop, get_bind]
    by_cases hf : s.Freed env
    · rw [bind_eq_of_error (readRound_freed hf), if_pos hf]
      rfl
    rw [if_neg hf]
    by_cases hin : s.inBuf = []
    · rw [bind_eq_of_ok (readRound_nil hf hin), if_pos hin]
      rfl
    rw [if_neg hin]
    cases hh : needHeader env s.inBuf s with
    | error e s' => rw [bind_eq_of_error (readRound_headerDies hf hin hh), bind_eq_of_error hh]
    | ok goOn u =>
      rw [bind_eq_of_ok hh]
      cases goOn with
      | false =>
        rw [bind_eq_of_ok (readRound_returns hf hin hh)]
        rfl
      | true =>
        rw [if_pos rfl]
        cases hp : readPayload env u with
        | error e s' =>
          rw [bind_eq_of_error (readRound_payloadDies hf hin hh hp), bind_eq_of_error hp]
        | ok a s' =>
          rw [bind_eq_of_ok (readRound_goesOn hf hin hh hp), bind_eq_of_ok hp, if_pos rfl]
          exact ih s'

/-! ## The input buffer -/

/-- The input buffer has lost octets at most, and the sender and the handshake are the same. -/
structure Shrinks (s s' : Session) : Prop where
  inBuf : s'.inBuf <:+ s.inBuf
  tx : s'.tx = s.tx
  hs : s'.hs = s.hs

/-- Nothing is lost by doing nothing. -/
theorem Shrinks.refl (s : Session) : Shrinks s s := ⟨List.suffix_rfl, rfl, rfl⟩

/-- Losses add up. -/
theorem Shrinks.trans (a b c : Session) (h : Shrinks a b) (h' : Shrinks b c) : Shrinks a c :=
  ⟨h'.inBuf.trans h.inBuf, h'.tx.trans h.tx, h'.hs.trans h.hs⟩

/-- The bufferevent is the same or gone, its input is still there, and the receiver has the header
and the frame buffer that it had. -/
structure Retains (s s' : Session) : Prop where
  bev : s'.bev = none ∨ s'.bev = s.bev
  inBuf : s'.inBuf = s.inBuf
  hasHeader : s'.rx.hasHeader = s.rx.hasHeader
  frameData : s'.rx.frameData = s.rx.frameData
  tx : s'.tx = s.tx
  hs : s'.hs = s.hs

/-- Doing nothing retains everything. -/
theorem Retains.refl (s : Session) : Retains s s := ⟨Or.inr rfl, rfl, rfl, rfl, rfl, rfl⟩

/-- What is retained twice is retained. -/
theorem Retains.trans (a b c : Session) (h : Retains a b) (h' : Retains b c) : Retains a c := by
  refine ⟨?_, h'.inBuf.trans h.inBuf, h'.hasHeader.trans h.hasHeader,
    h'.frameData.trans h.frameData, h'.tx.trans h.tx, h'.hs.trans h.hs⟩
  rcases h'.bev with hn | hs
  · exact Or.inl hn
  · rw [hs]
    exact h.bev

/-- Where the input is retained, no octet is added to it. -/
theorem Retains.shrinks (h : Retains s s') : Shrinks s s' :=
  ⟨h.inBuf ▸ List.suffix_rfl, h.tx, h.hs⟩

/-- Writing a frame retains the receiver. -/
theorem Writes.retains {opcode : WSOpcode} (h : Writes opcode s s') : Retains s s' := by
  obtain ⟨_, _, _, rfl, -⟩ := h
  exact ⟨Or.inr rfl, rfl, rfl, rfl, rfl, rfl⟩

private theorem retains_closeFail (s : Session) : Moves Retains AnyTrap closeFail s :=
  ⟨Or.inl rfl, rfl, rfl, rfl, rfl, rfl⟩

/-- `CloseWithStatusReason` retains the receiver, also where it shuts down. -/
theorem retains_closeWithStatusReason (status : WSCloseStatus) (reason : Bytes) (s : Session) :
    Moves Retains AnyTrap (closeWithStatusReason env status reason) s := by
  have hcall : ∀ u : Session, Moves Retains AnyTrap (callFails env) u :=
    fun _ => ⟨Or.inr rfl, rfl, rfl, rfl, rfl, rfl⟩
  refine moves_modify_bind Retains.trans ⟨Or.inr rfl, rfl, rfl, rfl, rfl, rfl⟩ ?_
  refine moves_bind Retains.trans (moves_get_bind ?_) fun _ s₁ _ => ?_
  · refine moves_ite (fun _ => moves_pure Retains.refl _ _) fun _ => ?_
    exact wp_mono (wp_sendClose_writes status reason _) (fun _ _ h => h.retains) fun _ _ h => h.elim
  refine moves_ite (fun _ => retains_closeFail s₁) fun _ => ?_
  refine moves_modify_bind Retains.trans ⟨Or.inr rfl, rfl, rfl, rfl, rfl, rfl⟩ ?_
  refine moves_bind Retains.trans (hcall _) fun _ s₂ _ => ?_
  refine moves_ite (fun _ => retains_closeFail s₂) fun _ => ?_
  refine moves_bind Retains.trans (hcall _) fun _ s₃ _ => ?_
  exact moves_ite (fun _ => retains_closeFail s₃) fun _ => ⟨Or.inr rfl, rfl, rfl, rfl, rfl, rfl⟩

/-- `HandleCloseFrame` retains the receiver. -/
theorem retains_handleCloseFrame (s : Session) : Moves Retains AnyTrap (handleCloseFrame env) s :=
  moves_handleCloseFrame Retains.refl Retains.trans (fun _ => ⟨Or.inr rfl, rfl, rfl, rfl, rfl, rfl⟩)
    (fun _ _ _ hh _ _ => ⟨Or.inr rfl, rfl, hh.1, hh.2, rfl, rfl⟩) retains_closeWithStatusReason s

/-- `HandleControlFrame` retains the receiver. -/
theorem retains_handleControlFrame (s : Session) :
    Moves Retains AnyTrap (handleControlFrame env) s := by
  refine moves_get_bind (moves_ite (fun _ => moves_throw Retains.refl trivial s) fun _ => ?_)
  split
  · exact retains_handleCloseFrame s
  · exact moves_throw Retains.refl trivial s
  · exact moves_throw Retains.refl trivial s
  · exact moves_pure Retains.refl _ s

private theorem shrinks_runCall (call : AppCall) (s : Session) :
    Moves Shrinks AnyTrap (runCall env call) s := by
  cases call with
  | send msg =>
    refine moves_bind Shrinks.trans ?_ fun _ _ _ => moves_pure Shrinks.refl _ _
    refine wp_mono (wp_doSendMsg_writes msg s) (fun _ _ h => h.2.retains.shrinks) fun _ u h => ?_
    cases h
    exact ⟨Shrinks.refl s, trivial⟩
  | close =>
    exact moves_bind Shrinks.trans
      ((retains_closeWithStatusReason _ _ s).imp fun _ h => h.shrinks)
      fun _ _ _ => moves_pure Shrinks.refl _ _
  | connect =>
    refine moves_bind Shrinks.trans (moves_get_bind ?_) fun _ _ _ => moves_pure Shrinks.refl _ _
    refine moves_ite (fun _ => moves_pure Shrinks.refl _ _) fun _ => ?_
    -- The new bufferevent does not read yet, so a read that is running keeps its own buffer.
    have hnew : ∀ t : Session, t.inBuf = s.inBuf → t.tx = s.tx → t.hs = s.hs → Shrinks s t :=
      fun t hin htx hhs => ⟨hin ▸ List.suffix_rfl, htx, hhs⟩
    simp only [Moves, setupConnectionTimeout, callFails, emit, wp_bind, wp_modify, wp_modifyGet,
      wp_ite, wp_pure]
    repeat' split
    all_goals exact hnew _ rfl rfl rfl

/-- Nothing under a read makes the input buffer grow. -/
theorem shrinks_rules (env : Env) : Rules env Shrinks where
  refl := Shrinks.refl
  trans := Shrinks.trans
  turns := fun s s' h => ⟨h.inBuf, by rw [h.rest], h.hs⟩
  close := fun status reason s =>
    (retains_closeWithStatusReason status reason s).imp fun _ h => h.shrinks
  closeFrame := fun s => (retains_handleCloseFrame s).imp fun _ h => h.shrinks
  message := fun _ _ _ => ⟨List.suffix_rfl, rfl, rfl⟩
  call := shrinks_runCall

/-! ## Progress -/

/-- A round that goes on takes octets off the buffer, or ends a frame. -/
def Advances (s s' : Session) : Prop :=
  s'.inBuf.length < s.inBuf.length ∨
    s'.inBuf.length ≤ s.inBuf.length ∧ s.rx.hasHeader = true ∧ s'.rx.hasHeader = false

/-- The end of a frame leaves no header. -/
theorem wp_endFrame_hasHeader (s : Session) :
    wp (endFrame env) (fun _ s' => s'.rx.hasHeader = false) (fun _ _ => True) s := by
  rw [endFrame, handleFrameEnd, wp_bind, wp_bind, wp_get, wp_ite]
  split
  · rw [wp_bind, wp_modify]
    exact wp_mono (retains_handleControlFrame _) (fun _ _ h => h.hasHeader) fun _ _ _ => trivial
  · rw [wp_bind]
    refine wp_mono ((shrinks_rules env).onMsgFrameEnd s) (fun _ s₁ _ => ?_) fun _ _ _ => trivial
    rw [wp_bind]
    refine wp_mono ((shrinks_rules env).endMessage s₁) (fun _ s₂ _ => ?_) fun _ _ _ => trivial
    rw [wp_bind, wp_modify]
    rfl

/-- The payload part ends a frame or takes octets off the buffer. -/
theorem readPayload_advances (hin : s.inBuf ≠ []) (hh : s.rx.hasHeader = true)
    (h : readPayload env s = .ok ⟨⟩ s') : Advances s s' := by
  by_cases hr : s.remaining = 0
  · rw [readPayload_ended hr] at h
    have hshrinks : Shrinks s s' := (wp_of_eq_ok h).mp ((shrinks_rules env).endFrame s)
    exact Or.inr ⟨hshrinks.inBuf.length_le, hh, (wp_of_eq_ok h).mp (wp_endFrame_hasHeader s)⟩
  · rw [readPayload_takes hr] at h
    have hshrinks := (wp_of_eq_ok h).mp ((shrinks_rules env).handleChunk _ _)
    have hle : s'.inBuf.length ≤ (s.drain s.remaining).inBuf.length := hshrinks.inBuf.length_le
    rw [Session.inBuf_drain, List.length_drop] at hle
    have hpos := List.length_pos_iff.mpr hin
    left
    omega

private theorem two_le_headerLen {x : Bytes} {len : Nat}
    (h : (unpackHeader x len).state = .success) :
    2 ≤ (unpackHeader x len).headerLen := by
  by_cases hle : 2 + lengthExtension x ≤ len
  · rw [(unpackHeader_success hle).2, announcedLen]
    omega
  · rw [unpackHeader_needMore (by omega)] at h
    cases h

/-- A header that is not refused has the state that unpacking gave it. -/
theorem state_of_headerState {x : Unpacked} {inMsgFlag : Bool} {state : WSParseState}
    (h : headerState x inMsgFlag = state) (hne : state ≠ .error) : x.state = state := by
  rw [headerState] at h
  split at h
  · exact absurd h.symm hne
  · exact h

/-- A header that is accepted is taken off the buffer. -/
theorem wp_readHeader_drains (hin : s.inBuf ≠ []) :
    wp (readHeader env s.inBuf) (fun goOn t => goOn = true → t.inBuf.length < s.inBuf.length)
      (fun _ _ => True) s := by
  have habort : ¬ (s.unpacked env s.inBuf).state = .userAbort := unpackHeader_ne_userAbort _ _
  rw [Session.unpacked] at habort
  simp only [readHeader, wp_bind, wp_get, wp_modify]
  rw [if_neg habort]
  cases hst : headerState (unpackHeader (headerBuf env s s.inBuf)
      (min WS_HDR_MAX_SIZE s.inBuf.length)) s.rx.inMsgFlag with
  | success =>
    have hlen := two_le_headerLen (state_of_headerState hst (by decide))
    have hpos := List.length_pos_iff.mpr hin
    simp only [wp_bind, wp_modify]
    refine wp_mono ((shrinks_rules env).handleFrameBegin _) (fun _ t ht => ?_) fun _ _ _ => trivial
    intro _
    have hle := ht.inBuf.length_le
    rw [Session.inBuf_drain, List.length_drop] at hle
    exact hle.trans_lt (Nat.sub_lt hpos (by omega))
  | needMore => exact fun h => by cases h
  | error =>
    simp only [wp_bind]
    refine wp_mono ((shrinks_rules env).close _ _ _) (fun _ _ _ => ?_) fun _ _ _ => trivial
    exact fun h => by cases h
  | userAbort => exact absurd (state_of_headerState hst (by decide)) habort

/-- Every round that goes on advances. -/
theorem readRound_advances (h : readRound env s = .ok true s') : Advances s s' := by
  obtain ⟨-, hin, u, hh, hp⟩ := payload_of_readRound h
  cases hasHeader : s.rx.hasHeader with
  | true =>
    cases (needHeader_inside hasHeader s.inBuf).symm.trans hh
    exact readPayload_advances hin hasHeader hp
  | false =>
    rw [needHeader_outside hasHeader] at hh
    have hlt : u.inBuf.length < s.inBuf.length :=
      (wp_of_eq_ok hh).mp (wp_readHeader_drains hin) rfl
    have hshrinks : Shrinks u s' := (wp_of_eq_ok hp).mp ((shrinks_rules env).readPayload u)
    exact Or.inl (hshrinks.inBuf.length_le.trans_lt hlt)

/-! ## Termination -/

/-- What is left to do for the loop. -/
def Session.roundsLeft (s : Session) : Nat :=
  2 * s.inBuf.length + if s.rx.hasHeader = true then 1 else 0

private theorem roundsLeft_lt (h : readRound env s = .ok true s') :
    s'.roundsLeft < s.roundsLeft := by
  rw [Session.roundsLeft, Session.roundsLeft]
  rcases readRound_advances h with hlt | ⟨hle, hh, hh'⟩
  · split_ifs <;> omega
  · rw [if_pos hh, if_neg (by simp [hh'])]
    omega

/-- The loop of `ReadWebsocket` has no bound, and ends before that of the model. -/
theorem exists_readWebsocket_ends (env : Env) (hb : s.bev ≠ none) :
    ∃ k r, k ≤ 2 * s.inBuf.length + 2 ∧ LoopEnds (readRound env) s k r ∧
      readWebsocket env s = r := by
  obtain ⟨k, r, hk, hr⟩ := loopEnds_of_measure Session.roundsLeft
    (fun u v h => @roundsLeft_lt env u v h) s
  have hle : k ≤ 2 * s.inBuf.length + 2 := by
    rw [Session.roundsLeft] at hk
    split_ifs at hk <;> omega
  refine ⟨k, r, hle, hr, ?_⟩
  obtain ⟨b, hb⟩ := Option.ne_none_iff_exists'.mp hb
  rw [readWebsocket, get_bind, hb]
  simp only
  rw [readLoop_eq, hr.loopN_eq hle]

/-- `ReadWebsocket` ends, and every round of its loop but the last advances. -/
theorem readWebsocket_ends (env : Env) (hb : s.bev ≠ none) :
    (∃ k r, k ≤ 2 * s.inBuf.length + 2 ∧ LoopEnds (readRound env) s k r ∧
      readWebsocket env s = r) ∧
    ∀ u v, LoopHead (readRound env) s u → readRound env u = .ok true v → Advances u v :=
  ⟨exists_readWebsocket_ends env hb, fun _ _ _ h => readRound_advances h⟩

/-- A session with an empty text frame, whose end takes no octet, and the first octet of another
frame. -/
def twoHeaders : Session :=
  { bev := some { input := [0x81, 0x00, 0x81], readEnabled := true }, cl.state := .connected }

/-- The three octets are read in at most eight rounds. -/
theorem readWebsocket_ends_twoHeaders :
    ∃ k r, k ≤ 8 ∧ LoopEnds (readRound {}) twoHeaders k r ∧ readWebsocket {} twoHeaders = r :=
  (readWebsocket_ends (s := twoHeaders) {} (by decide)).1

/-- A text that is refused while a message is being sent shuts the connection down, and the loop
reads the frame behind it all the same. -/
example :
    let s := finalState (readWebsocket {} { twoHeaders with
      bev := some { input := [0x81, 0x01, 0xFF, 0x81, 0x01, 0x41], readEnabled := true }
      tx.sendState := .inMessage })
    s.bev.isNone = true ∧ s.inBuf = [] := by
  decide +kernel

end CppImprovement.Ws

import CppImprovement.Net.Ws.Lifecycle
import CppImprovement.Net.Ws.Steady

/-!
# What a connection leaves behind

Facts about a session between two inputs that hold in every run. A frame that the
receiver is in has a header that was accepted or sent, and a fragment is ended in
the round that completes it. A session on which no connection is open has neither
split a message nor recorded a close.
-/

namespace CppImprovement.Ws

variable {env : Env} {s t : Session}

/-! ## Frames cut short -/

/-- The header in use was accepted or sent, and no fragment has received more than it holds. -/
structure Session.FrameOpen (s : Session) : Prop where
  opcode : s.rx.hasHeader = true → isReservedOpcode s.wsHeader.opcode = false
  data : s.rx.hasHeader = true → s.wsHeader.fin = false →
    isControlOpcode s.wsHeader.opcode = false
  room : s.rx.hasHeader = true → s.wsHeader.fin = false →
    s.rx.recvFrameLen ≤ s.wsHeader.payloadLen

/-- Between two rounds a fragment is incomplete. -/
structure Session.Ajar (s : Session) : Prop extends s.FrameOpen where
  short : s.rx.hasHeader = true → s.wsHeader.fin = false →
    s.rx.recvFrameLen ≠ s.wsHeader.payloadLen

private theorem Session.ajar_of_outside (h : s.rx.hasHeader = false) : s.Ajar := by
  have hn : ¬ s.rx.hasHeader = true := by simp [h]
  exact ⟨⟨fun hh => absurd hh hn, fun hh => absurd hh hn, fun hh => absurd hh hn⟩,
    fun hh => absurd hh hn⟩

/-- Whether a fragment is incomplete depends on its header and its count. -/
theorem Session.Ajar.congr {u : Session} (h : s.Ajar) (hh : u.rx.hasHeader = s.rx.hasHeader)
    (hl : u.rx.recvFrameLen = s.rx.recvFrameLen) (hw : u.wsHeader = s.wsHeader) : u.Ajar := by
  have hopen : u.FrameOpen := by
    constructor <;> rw [hh, hw]
    · exact h.opcode
    · exact h.data
    · rw [hl]
      exact h.room
  refine ⟨hopen, ?_⟩
  rw [hh, hl, hw]
  exact h.short

/-- A header that was sent meanwhile is final. -/
theorem Steady.header_of_fragment {s' : Session} (h : Steady True s s')
    (hf : s'.wsHeader.fin = false) : s'.wsHeader = s.wsHeader := by
  rcases h.header trivial with hk | hk
  · exact hk
  · rw [hk.1] at hf
    cases hf

/-- What is steady leaves the fragment open. -/
theorem Session.FrameOpen.steady {s' : Session} (h : s.FrameOpen) (hs : Steady True s s') :
    s'.FrameOpen where
  opcode := fun hh => by
    rcases hs.header trivial with hk | hk
    · rw [hk]
      exact h.opcode (hs.frame trivial hh).1
    · exact hk.2
  data := fun hh hf => by
    have hk := hs.header_of_fragment hf
    rw [hk] at hf ⊢
    exact h.data (hs.frame trivial hh).1 hf
  room := fun hh hf => by
    have hk := hs.header_of_fragment hf
    rw [hk] at hf
    rw [hk, (hs.frame trivial hh).2]
    exact h.room (hs.frame trivial hh).1 hf

/-- What is steady leaves the fragment incomplete. -/
theorem Session.Ajar.steady {s' : Session} (h : s.Ajar) (hs : Steady True s s') : s'.Ajar where
  toFrameOpen := h.toFrameOpen.steady hs
  short := fun hh hf => by
    have hk := hs.header_of_fragment hf
    rw [hk] at hf
    rw [hk, (hs.frame trivial hh).2]
    exact h.short (hs.frame trivial hh).1 hf

/-- Behind the end of a frame no header is in use. -/
theorem wp_endFrame_outside (hc : ¬ s.Closed) :
    wp (endFrame env) (fun _ s' => s'.rx.hasHeader = false) (fun _ _ => True) s := by
  rw [endFrame, wp_bind, handleFrameEnd, wp_bind, wp_get, wp_ite]
  split
  · rw [wp_bind, wp_modify]
    have hm : Moves (Steadies True) AnyTrap (handleControlFrame env)
        { s with rx.hasHeader := false } := steadies_handleControlFrame _
    refine wp_mono hm (fun _ s' hs => ?_) fun _ _ _ => trivial
    by_contra hh
    exact absurd ((hs hc).frame trivial (eq_true_of_ne_false hh)).1 (by simp)
  · have hany : ∀ {α : Type} (m : M α) (u : Session),
        wp m (fun _ _ => True) (fun _ _ => True) u := fun m u => by
      rw [wp]
      split <;> trivial
    rw [wp_bind]
    refine wp_mono (hany _ s) (fun _ s₁ _ => ?_) fun _ _ h => h
    rw [wp_bind]
    exact wp_mono (hany _ s₁) (fun _ s₂ _ => rfl) fun _ _ h => h

/-- A control frame is final. -/
theorem Session.FrameOpen.final (h : s.FrameOpen) (hh : s.rx.hasHeader = true)
    (hc : isControlOpcode s.wsHeader.opcode = true) : s.wsHeader.fin = true := by
  by_contra hf
  exact absurd (h.data hh (eq_false_of_ne_true hf)) (by simp [hc])

/-- Data is refused only in a control frame, which is final. -/
theorem wp_handleFrameData_refused (h : s.FrameOpen) (hc : ¬ s.Closed) (buf : Bytes) :
    wp (handleFrameData env buf)
      (fun rc s' => rc ≠ 0 → s'.rx.hasHeader = true → s'.wsHeader.fin = true)
      (fun _ _ => True) s := by
  rw [handleFrameData, wp_bind, wp_get, wp_ite]
  split
  · rename_i hctl
    rw [wp_ite]
    split
    · have hm : Moves (Steadies True) AnyTrap (closeWithStatus env .protocolErr1002) s :=
        steadies_closeWithStatusReason _ _ s
      rw [wp_bind]
      refine wp_mono hm (fun _ s₁ hs _ hh => ?_) fun _ _ _ => trivial
      rcases (hs hc).header trivial with hk | hk
      · rw [show _ = _ from hk]
        exact h.final ((hs hc).frame trivial hh).1 hctl
      · exact hk.1
    · exact fun hrc => absurd rfl hrc
  · split
    · trivial
    · exact fun hrc => absurd rfl hrc

/-- A chunk is no longer than what a fragment has room for. -/
theorem Session.FrameOpen.chunkTaken (h : s.FrameOpen) :
    ((s.drain s.remaining).counted s.chunk.length).FrameOpen := by
  have hroom : s.rx.hasHeader = true → s.wsHeader.fin = false →
      (s.rx.recvFrameLen + s.chunk.length) % 2 ^ 64 ≤ s.wsHeader.payloadLen := by
    intro hh hf
    have hle := h.room hh hf
    have hrem : s.remaining = _ := remainingLen_of_le s.wsHeader.payloadLen.isLt hle
    have hlen := List.length_take_le s.remaining s.inBuf
    have hmod := Nat.mod_le (s.rx.recvFrameLen + s.chunk.length) (2 ^ 64)
    rw [Session.chunk] at hmod ⊢
    omega
  constructor <;> rw [Session.counted, Session.drain_wsHeader, Session.drain_rx]
  · exact h.opcode
  · exact h.data
  · exact hroom

/-- A round leaves a fragment incomplete or ends it. -/
theorem wp_readPayload_ajar (h : s.FrameOpen) (hc : ¬ s.Closed) :
    wp (readPayload env) (fun _ => Session.Ajar) (fun _ _ => True) s := by
  have hend : ∀ {u : Session}, ¬ u.Closed →
      wp (endFrame env) (fun _ => Session.Ajar) (fun _ _ => True) u := fun hu =>
    wp_mono (wp_endFrame_outside hu) (fun _ _ ho => Session.ajar_of_outside ho) fun _ _ h => h
  by_cases hrem : s.remaining = 0
  · rw [wp_congr (readPayload_ended hrem)]
    exact hend hc
  · rw [wp_congr (readPayload_takes hrem), handleChunk, wp_bind]
    have hu := h.chunkTaken
    have huc : ¬ ((s.drain s.remaining).counted s.chunk.length).Closed := by
      rwa [Session.Closed, Session.counted, Session.drain_cl]
    generalize (s.drain s.remaining).counted s.chunk.length = u at hu huc ⊢
    generalize unmaskChunk s.wsHeader s.chunk = buf
    have hcheck : Moves (Steadies True) AnyTrap (checkUtf8 env buf) u := steadies_checkUtf8 _ u
    refine wp_mono hcheck (fun _ u₁ h₁ => ?_) fun _ _ _ => trivial
    have hs₁ : Steady True u u₁ := h₁ huc
    have hdata : Moves (Steadies True) AnyTrap (handleFrameData env buf) u₁ :=
      steadies_handleFrameData _ u₁
    rw [wp_bind]
    refine wp_mono (wp_and hdata (wp_handleFrameData_refused (hu.steady hs₁) hs₁.live _))
      (fun rc u₂ h₂ => ?_) fun _ _ _ => trivial
    have hs₂ : Steady True u₁ u₂ := h₂.1 hs₁.live
    rw [wp_bind, wp_get, wp_ite]
    split
    · exact hend hs₂.live
    · rename_i hne
      refine ⟨(hu.steady hs₁).steady hs₂, fun hh hf hlen => ?_⟩
      by_cases hrc : rc = 0
      · exact hne ⟨hrc, hlen⟩
      · rw [h₂.2 hrc hh] at hf
        cases hf

/-- The header of a frame that begins. -/
theorem Session.frameBegun_header (s : Session) :
    s.frameBegun.wsHeader = s.wsHeader ∧ s.frameBegun.rx.recvFrameLen = 0 ∧
      s.frameBegun.cl = s.cl := by
  rw [Session.frameBegun]
  split
  · exact ⟨rfl, rfl, rfl⟩
  · split
    · exact ⟨rfl, rfl, rfl⟩
    · exact ⟨rfl, rfl, rfl⟩

/-- A header that is accepted is valid. -/
theorem validateHeader_of_success {u : Unpacked} {inMsgFlag : Bool}
    (h : headerState u inMsgFlag = .success) : validateHeader u.header inMsgFlag = 0 := by
  rw [headerState] at h
  split at h
  · cases h
  · rename_i hne
    by_contra hv
    exact hne ⟨by rw [h]; simp, hv⟩

/-- A header that is accepted opens its frame; otherwise the receiver stays outside. -/
theorem wp_readHeader_open (hf : env.NoFault) (hh : s.rx.hasHeader = false) (hc : ¬ s.Closed)
    (input : Bytes) :
    wp (readHeader env input)
      (fun goOn s' => s'.FrameOpen ∧ ¬ s'.Closed ∧ (goOn = false → s'.Ajar))
      (fun _ _ => True) s := by
  cases hst : headerState (s.unpacked env input) s.rx.inMsgFlag with
  | success =>
    rw [wp_of_eq_ok (readHeader_begins hf hst)]
    obtain ⟨hr, hd⟩ := validateHeader_eq_zero (validateHeader_of_success hst)
    obtain ⟨hheader, hlen, hcl⟩ := (s.accepted (s.unpacked env input)).frameBegun_header
    obtain ⟨hw, hc'⟩ := s.accepted_kept (s.unpacked env input)
    rw [hw] at hheader
    rw [hc'] at hcl
    refine ⟨⟨fun _ => ?_, fun _ hfin => ?_, fun _ _ => ?_⟩, ?_, nofun⟩
    · rw [hheader]
      exact hr
    · rw [hheader] at hfin ⊢
      exact hd hfin
    · rw [hlen]
      exact Nat.zero_le _
    · rw [Session.Closed, hcl]
      exact hc
  | needMore =>
    rw [wp_of_eq_ok (readHeader_waits hst)]
    have ha : (s.headed (s.unpacked env input).header).Ajar := Session.ajar_of_outside hh
    exact ⟨ha.toFrameOpen, hc, fun _ => ha⟩
  | error =>
    have hab : ¬ (s.unpacked env input).state = .userAbort := unpackHeader_ne_userAbort _ _
    have hclose : Moves (Steadies True) AnyTrap
        (do let _ ← closeWithStatus env .protocolErr1002
            pure false) (s.headed (s.unpacked env input).header) := steadies_closed _ _ _
    rw [readHeader, wp_bind, wp_get, wp_bind, wp_modify]
    rw [Session.unpacked] at hab hst
    rw [if_neg hab]
    simp only [hst]
    refine wp_mono hclose (fun _ s' hs => ?_) fun _ _ _ => trivial
    have ho : (s.headed (s.unpacked env input).header).Ajar := Session.ajar_of_outside hh
    have ha := ho.steady (hs hc)
    exact ⟨ha.toFrameOpen, (hs hc).live, fun _ => ha⟩
  | userAbort => exact absurd hst (headerState_ne_userAbort _ _ _)

private theorem wp_readLoop_ajar (hf : env.NoFault) (n : Nat) (h : s.Ajar) (hc : ¬ s.Closed) :
    wp (readLoop env n) (fun _ => Session.Ajar) (fun _ _ => True) s := by
  induction n generalizing s with
  | zero => exact h
  | succ n ih =>
    have hround : ∀ {u : Session}, u.FrameOpen → ¬ u.Closed →
        wp (do readPayload env
               readLoop env n) (fun _ => Session.Ajar) (fun _ _ => True) u := by
      intro u hu huc
      have hsteady : Moves (Steadies False) AnyTrap (readPayload env) u :=
        (steadies_rules env).readPayload u
      rw [wp_bind]
      refine wp_mono (wp_and hsteady (wp_readPayload_ajar hu huc)) (fun _ v hv => ?_)
        fun _ _ _ => trivial
      exact ih hv.2 (hv.1 huc).live
    rw [readLoop, wp_bind, wp_get, wp_ite]
    split
    · trivial
    · rw [wp_ite]
      split
      · exact h
      · rw [wp_bind]
        cases hh : s.rx.hasHeader with
        | true =>
          rw [wp_of_eq_ok (needHeader_inside hh _)]
          exact hround h.toFrameOpen hc
        | false =>
          rw [wp, needHeader_outside hh]
          refine wp_mono (wp_readHeader_open hf hh hc _) (fun goOn u hu => ?_) fun _ _ h => h
          cases goOn with
          | true => exact hround hu.1 hu.2.1
          | false => exact hu.2.2 rfl

private theorem wp_readWebsocket_ajar (hf : env.NoFault) (h : s.Ajar) (hc : ¬ s.Closed) :
    wp (readWebsocket env) (fun _ => Session.Ajar) (fun _ _ => True) s := by
  rw [readWebsocket, wp_bind, wp_get]
  split
  · trivial
  · exact wp_readLoop_ajar hf _ h hc

/-! ## Between two connections -/

/-- What a session has kept since it was set up: nothing was ever split, and nothing is on
record of a connection that the peer has not closed. -/
structure Session.Kept (s : Session) : Prop where
  subprotocols : s.subprotocols = []
  tx : s.tx = {}
  binary : s.rx.msgIsBinary = false
  recorded : s.cl.receivedCloseFlag = false → s.cl.record = Closing.record {}
  closed : s.Closed → s.cl.receivedCloseFlag = false
  ajar : s.Ajar

/-- What is steady keeps what was kept. -/
theorem Session.Kept.steady {framed : Prop} {s' : Session} (h : s.Kept) (hs : Steady framed s s')
    (ha : s'.Ajar) : s'.Kept where
  subprotocols := hs.subprotocols.trans h.subprotocols
  tx := hs.tx.trans h.tx
  binary := hs.binary.trans h.binary
  recorded := fun hr => (hs.recorded hr).2.trans (h.recorded (hs.recorded hr).1)
  closed := fun hc => absurd hc hs.live
  ajar := ha

/-- Code that is steady keeps what was kept. -/
theorem Session.Kept.moves {α : Type} {m : M α} (h : s.Kept) (hc : ¬ s.Closed)
    (hm : Moves (Steadies True) AnyTrap m s) :
    wp m (fun _ s' => s'.Kept ∧ ¬ s'.Closed) (fun _ _ => True) s :=
  wp_mono hm (fun _ _ hs => ⟨h.steady (hs hc) (h.ajar.steady (hs hc)), (hs hc).live⟩)
    fun _ _ _ => trivial

private theorem wp_readWebsocket_kept (hf : env.NoFault) (h : s.Kept) (hc : ¬ s.Closed) :
    wp (readWebsocket env) (fun _ s' => s'.Kept ∧ ¬ s'.Closed) (fun _ _ => True) s := by
  have hsteady : Moves (Steadies False) AnyTrap (readWebsocket env) s :=
    (steadies_rules env).readWebsocket s
  refine wp_mono (wp_and hsteady (wp_readWebsocket_ajar hf h.ajar hc)) (fun _ s' hs => ?_)
    fun _ _ _ => trivial
  exact ⟨h.steady (hs.1 hc) hs.2, (hs.1 hc).live⟩

private theorem wp_onRead_kept (hf : env.NoFault) (h : s.Kept) (hc : ¬ s.Closed) :
    wp (onRead env) (fun _ => Session.Kept) (fun _ _ => True) s := by
  have hread : ∀ u : Session, u.Kept → ¬ u.Closed →
      wp (readWebsocket env) (fun _ => Session.Kept) (fun _ _ => True) u := fun u hu huc =>
    wp_mono (wp_readWebsocket_kept hf hu huc) (fun _ _ h => h.1) (fun _ _ h => h)
  rw [onRead, wp_bind, wp_get]
  split
  · exact h
  · rw [wp_ite]
    split
    · rw [wp_bind, wp_modify]
      split
      · rw [wp_bind, shutDown, wp_modify]
        exact hread _ { h with ajar := { h.ajar with } } hc
      · exact { h with ajar := { h.ajar with } }
      · rw [wp_bind, wp_modify, wp_bind, callOnConnect, wp_bind, emit, wp_modify, wp_bind, wp_get]
        refine wp_mono (Session.Kept.moves ?_ ?_ (steadies_onConnectCalls _ _))
          (fun _ u hu => hread u hu.1 hu.2) (fun _ _ h => h)
        · exact { h with
            closed := fun hc => by simp [Session.Closed] at hc
            ajar := { h.ajar with } }
        · simp [Session.Closed]
      · exact hread _ { h with ajar := { h.ajar with } } hc
    · exact hread _ h hc

/-- Every step keeps it. -/
theorem wp_step_kept (hf : env.NoFault) (ht : s.Tidy) (h : s.Kept) (i : Input) :
    wp (step env i) (fun _ => Session.Kept) (fun _ _ => True) s := by
  cases i with
  | connect =>
    simp only [step, runCall, doConnect, setupConnectionTimeout, callFails, emit, wp_bind, wp_get,
      wp_ite, wp_modify, wp_modifyGet, wp_pure]
    split
    · exact h
    · rename_i hst
      have hc : s.Closed := by
        rw [Session.Closed]
        tauto
      have hk : Session.Kept s.connecting :=
        { h with
          recorded := fun _ => h.recorded (h.closed hc)
          closed := fun hc => by simp [Session.Closed, Session.connecting] at hc
          ajar := { h.ajar with } }
      repeat' split
      all_goals exact { hk with ajar := { hk.ajar with } }
  | close =>
    rw [wp, step, runCall_close_closing]
    have hk : Session.Kept { s with cl.state := .closing } :=
      { h with
        closed := fun hc => by simp [Session.Closed] at hc
        ajar := { h.ajar with } }
    exact wp_mono (hk.moves (Session.not_closed_of_closing rfl) (steadies_runCall .close _))
      (fun _ _ h => h.1) (fun _ _ h => h)
  | send msg =>
    by_cases hc : s.Closed
    · have hn : s.cl.state ≠ .connected := by rcases hc with hc | hc <;> simp [hc]
      simp [step, runCall, doSendMsg, sendMsgEx, hn]
    · exact wp_mono (h.moves hc (steadies_runCall (.send msg) s)) (fun _ _ h => h.1)
        (fun _ _ h => h)
  | connected =>
    simp only [step, onConnectEvent, sendHandshake, generateHandshakeKey, getRandomMask, callFails,
      emit, wp_bind, wp_get]
    split
    · simp only [wp_bind, wp_modify, wp_modifyGet, wp_get, wp_ite, wp_pure]
      repeat' split
      all_goals exact { h with ajar := { h.ajar with } }
    · exact h
  | read bytes =>
    rw [step, wp_bind, wp_get]
    split
    · rename_i b hb
      rw [wp_ite]
      split
      · rw [wp_bind, wp_modify]
        exact wp_onRead_kept hf { h with ajar := { h.ajar with } } (ht.sane_of_bev hb).not_closed
      · exact h
    · exact h
  | eof =>
    rw [step, wp_bind, wp_get]
    split
    · rename_i b hb
      have hc := (ht.sane_of_bev hb).not_closed
      rw [wp_ite]
      split
      · have hleft : wp (readLeftover env b.input) (fun _ s' => s'.Kept ∧ ¬ s'.Closed)
            (fun _ _ => True) s := by
          rw [readLeftover, wp_ite]
          split
          · exact ⟨h, hc⟩
          · exact wp_readWebsocket_kept hf h hc
        rw [onEofEvent, wp_bind, wp_get]
        simp only [hb]
        rw [wp_bind]
        refine wp_mono hleft (fun _ u hu => ?_) (fun _ _ h => h)
        rw [wp_ended]
        refine { hu.1 with closed := fun hc => ?_, ajar := { hu.1.ajar with } }
        by_contra hr
        have hr' : u.cl.receivedCloseFlag = true := eq_true_of_ne_false hr
        rw [Session.Closed, Session.ended, if_pos hr'] at hc
        exact hu.2 hc
      · exact h
    · exact h
  | error => exact h
  | closeTimeout =>
    simp only [step, onCloseTimeout, shutDown, wp_bind, wp_get, wp_ite, wp_modify, wp_pure,
      wp_throw]
    repeat' split
    all_goals first | trivial | exact { h with ajar := { h.ajar with } }
  | connectTimeout => exact h

/-- The session that a run has reached. -/
theorem kept_run (hf : env.NoFault) (h0 : doInit env {} = .ok 0 t) {inputs : List Input}
    (h : run env inputs t = .ok ⟨⟩ s) : s.Tidy ∧ s.Kept := by
  have hinit : Session.Kept Session.initialised :=
    ⟨rfl, rfl, rfl, fun _ => rfl, fun _ => rfl, Session.ajar_of_outside rfl⟩
  rw [eq_initialised h0] at h
  have hrun : wp (run env inputs) (fun _ u => u.Tidy ∧ u.Kept) (fun _ _ => True)
      Session.initialised := by
    refine wp_runAll (I := fun u => u.Tidy ∧ u.Kept) (fun i u hu _ => ?_)
      ⟨tidy_initialised, hinit⟩ (along_true _ _ _)
    refine wp_mono (wp_and (step_listed (fun h : False => h.elim) hu.1 i)
      (wp_step_kept hf hu.1 hu.2 i)) (fun _ v hv => ?_) fun _ _ _ => trivial
    exact ⟨hv.1.tidy hu.1, hv.2⟩
  rw [wp, h] at hrun
  exact hrun

end CppImprovement.Ws

import CppImprovement.Net.Ws.Leftovers

/-!
# Delivered text is valid

The text check runs over every data frame as it arrives. Within one connection a
message is delivered from a single frame, because the header of a second frame is
refused, and the check of a final frame either finds the text complete or starts
closing, which suppresses the delivery. The application sends only from inside its
handlers, where no frame is being received; so the header that says whether a frame
is final is still the frame's own when the frame ends.
-/

namespace CppImprovement.Ws

variable {env : Env} {s : Session}

/-! ## The invariant -/

/-- Every message delivered is valid text. -/
def TextOnly (trace : List Event) : Prop := ∀ p k, Event.onMessage p k ∈ trace → ValidUtf8 p

/-- As long as nothing is delivered, only text is. -/
theorem TextOnly.tacit {s' : Session} (h : TextOnly s.io.trace) (ht : Tacit s s') :
    TextOnly s'.io.trace := by
  obtain ⟨evs, he, hn⟩ := ht
  intro p k hmem
  rw [he] at hmem
  rcases List.mem_append.mp hmem with hmem | hmem
  · exact h p k hmem
  · exact absurd (hn _ hmem) (by simp [Event.isMessage])

/-- The data frame being received is the first of its message, the text check has seen what it
holds, and if it is final, what it holds is complete text. -/
def Session.Checked (s : Session) : Prop :=
  s.rx.hasHeader = true → isControlOpcode s.wsHeader.opcode = false →
    (∀ m, s.rx.msg = some m → m = []) ∧ ∀ d, s.rx.frameData = some d →
      s.rx.utf8State = validateUtf8 WS_UTF8_ACCEPT d ∧
        (s.wsHeader.fin = true → s.rx.utf8State = WS_UTF8_ACCEPT)

private theorem Session.checked_of_outside (h : s.rx.hasHeader = false) : s.Checked :=
  fun hh => absurd (h.symm.trans hh) (by decide)

private theorem Session.checked_of_control (h : isControlOpcode s.wsHeader.opcode = true) :
    s.Checked :=
  fun _ hc => absurd (h.symm.trans hc) (by decide)

/-- What holds of a session while its connection lasts: only text was delivered, and the frame
being received is checked unless the session is closing. -/
structure Session.Vetted (s : Session) : Prop where
  text : TextOnly s.io.trace
  binary : s.rx.msgIsBinary = false
  checked : s.cl.state ≠ .closing → s.Checked

/-- A closing session delivers nothing. -/
theorem Session.Vetted.closing {α : Type} {m : M α} (h : s.Vetted) (hc : s.cl.state = .closing)
    (hm : Moves (Steadies False) AnyTrap m s) :
    wp m (fun _ s' => s'.Vetted ∧ s'.cl.state = .closing) (fun _ s' => TextOnly s'.io.trace) s := by
  have hn := Session.not_closed_of_closing hc
  refine wp_mono hm (fun _ s' hs => ⟨⟨?_, ?_, ?_⟩, (hs hn).closing hc⟩) fun _ s' hs => ?_
  · exact h.text.tacit ((hs hn).tacit (Or.inr hc))
  · exact (hs hn).binary.trans h.binary
  · exact fun hne => absurd ((hs hn).closing hc) hne
  · exact h.text.tacit ((hs.1 hn).tacit (Or.inr hc))

private theorem wp_closeWithStatus_vetted (ht : TextOnly s.io.trace) (hb : s.rx.msgIsBinary = false)
    (status : WSCloseStatus) :
    wp (closeWithStatus env status) (fun _ s' => s'.Vetted ∧ s'.cl.state = .closing)
      (fun _ s' => TextOnly s'.io.trace) s := by
  let u : Session := { s with cl.state := .closing }
  have hu : u.Vetted := ⟨ht, hb, fun hn => absurd rfl hn⟩
  have heq : closeWithStatus env status s = closeWithStatus env status u := rfl
  rw [wp_congr heq]
  exact hu.closing rfl (steadies_closeWithStatusReason status [] u)

/-- The application's calls deliver nothing and begin no frame. -/
theorem Session.Vetted.calls {α : Type} {m : M α} (h : s.Vetted) (hh : s.rx.hasHeader = false)
    (hc : ¬ s.Closed) (hm : Moves (Steadies True) AnyTrap m s) :
    wp m (fun _ s' => s'.Vetted ∧ s'.rx.hasHeader = false ∧ Steady True s s')
      (fun _ s' => TextOnly s'.io.trace) s := by
  refine wp_mono hm (fun _ s' hs => ?_) fun _ s' hs => ?_
  · have hout : s'.rx.hasHeader = false := by
      by_contra hn
      exact absurd ((hs hc).frame trivial (eq_true_of_ne_false hn)).1 (by simp [hh])
    exact ⟨⟨h.text.tacit ((hs hc).tacit (Or.inl trivial)), (hs hc).binary.trans h.binary,
      fun _ => Session.checked_of_outside hout⟩, hout, hs hc⟩
  · exact h.text.tacit ((hs.1 hc).tacit (Or.inl trivial))

/-! ## The end of a frame -/

/-- Delivering text, and what the handler does. -/
theorem wp_callOnMessage_text (ht : TextOnly s.io.trace) (hc : ¬ s.Closed) {p : Bytes}
    (hp : ValidUtf8 p) :
    wp (callOnMessage env p) (fun _ s' => TextOnly s'.io.trace)
      (fun _ s' => TextOnly s'.io.trace) s := by
  rw [callOnMessage, wp_bind, wp_get]
  split
  · exact ht
  · rw [wp_ite]
    split
    · exact ht
    · rw [wp_bind, emit, wp_modify, wp_bind, wp_get]
      let u : Session :=
        { s with io.trace := s.io.trace ++ [.onMessage p s.rx.msgIsBinary_] }
      have hu : TextOnly u.io.trace := by
        intro q k hmem
        rcases List.mem_append.mp hmem with hmem | hmem
        · exact ht q k hmem
        · cases List.mem_singleton.mp hmem
          exact hp
      have hcalls : ∀ calls, Moves (Steadies True) AnyTrap (runCalls env calls) u :=
        fun calls => steadies_runCalls calls u
      refine wp_mono (hcalls _) (fun _ s' hs => ?_) fun _ s' hs => ?_
      · exact hu.tacit ((hs hc).tacit (Or.inl trivial))
      · exact hu.tacit ((hs.1 hc).tacit (Or.inl trivial))

/-- The end of a frame delivers nothing but complete text. -/
theorem wp_endFrame_text (ht : TextOnly s.io.trace) (hck : s.Checked) (hc : ¬ s.Closed)
    (hh : s.rx.hasHeader = true) :
    wp (endFrame env) (fun _ s' => TextOnly s'.io.trace) (fun _ s' => TextOnly s'.io.trace) s := by
  rw [endFrame, wp_bind, handleFrameEnd, wp_bind, wp_get, wp_ite]
  split
  · rw [wp_bind, wp_modify]
    have hm : Moves (Steadies True) AnyTrap (handleControlFrame env)
        { s with rx.hasHeader := false } := steadies_handleControlFrame _
    refine wp_mono hm (fun _ s' hs => ?_) fun _ s' hs => ?_
    · exact ht.tacit ((hs hc).tacit (Or.inl trivial))
    · exact ht.tacit ((hs.1 hc).tacit (Or.inl trivial))
  · rename_i hctl
    obtain ⟨hmsg, hdata⟩ := hck hh (eq_false_of_ne_true hctl)
    rw [wp_bind, onMsgFrameEnd, wp_bind, wp_get]
    split
    · rename_i frame msg hframe hm
      rw [wp_modify, wp_bind, endMessage, wp_bind, wp_get, wp_ite]
      split
      · rename_i hfin
        have hvalid : ValidUtf8 (msg ++ frame) := by
          obtain ⟨hstate, hacc⟩ := hdata frame hframe
          rw [hmsg msg hm, List.nil_append, ← validateUtf8_iff, ← hstate]
          exact hacc hfin
        rw [wp_bind, onRecvMsgEnd, wp_bind, wp_get]
        dsimp only
        rw [wp_bind]
        refine wp_mono (wp_callOnMessage_text ?_ ?_ hvalid) (fun _ s' hs => hs) fun _ _ hs => hs
        · exact ht
        · exact hc
      · exact ht
    · exact ht

private theorem wp_endFrame_vetted (h : s.Vetted) (hc : ¬ s.Closed) (hh : s.rx.hasHeader = true) :
    wp (endFrame env) (fun _ => Session.Vetted) (fun _ s' => TextOnly s'.io.trace) s := by
  have hsteady : Moves (Steadies False) AnyTrap (endFrame env) s := (steadies_rules env).endFrame s
  by_cases hcl : s.cl.state = .closing
  · exact wp_mono (h.closing hcl hsteady) (fun _ _ hs => hs.1) fun _ _ hs => hs
  · refine wp_mono (wp_and hsteady (wp_and (wp_endFrame_outside hc)
      (wp_endFrame_text h.text (h.checked hcl) hc hh))) (fun _ s' hs => ?_) fun _ _ hs => hs.2.2
    exact ⟨hs.2.2, (hs.1 hc).binary.trans h.binary, fun _ => Session.checked_of_outside hs.2.1⟩

/-! ## The payload of a frame -/

/-- The text check of a chunk starts closing, or leaves the session with the check advanced. -/
theorem wp_checkUtf8_vetted (ht : TextOnly s.io.trace) (hb : s.rx.msgIsBinary = false)
    (buf : Bytes) :
    wp (checkUtf8 env buf)
      (fun _ s' => (s'.Vetted ∧ s'.cl.state = .closing) ∨
        (isControlOpcode s.wsHeader.opcode = true ∧ s' = s) ∨
        (isControlOpcode s.wsHeader.opcode = false ∧ s' = s.checkedOver buf ∧
          (s.wsHeader.fin = true → s'.rx.utf8State = WS_UTF8_ACCEPT)))
      (fun _ s' => TextOnly s'.io.trace) s := by
  rw [checkUtf8, wp_bind, wp_get, wp_ite]
  split
  · rename_i hdata
    rw [wp_bind, wp_modify, wp_bind, wp_get, wp_ite]
    split
    · rw [wp_bind]
      refine wp_mono (wp_closeWithStatus_vetted ?_ ?_ _) (fun _ _ hs => Or.inl hs)
        fun _ _ hs => hs
      · exact ht
      · exact hb
    · rename_i hpass
      refine Or.inr (Or.inr ⟨hdata.2, rfl, fun hfin => ?_⟩)
      by_contra hne
      exact hpass (Or.inr ⟨hne, hfin⟩)
  · rename_i hctl
    refine Or.inr (Or.inl ⟨?_, rfl⟩)
    by_contra hn
    exact hctl ⟨hb, eq_false_of_ne_true hn⟩

/-- A chunk of a control frame, behind the text check. -/
theorem wp_storeChunk_control (h : s.Vetted) (hc : ¬ s.Closed) (hh : s.rx.hasHeader = true)
    (hctl : isControlOpcode s.wsHeader.opcode = true) (buf : Bytes) :
    wp (do let rc ← handleFrameData env buf
           let s ← get
           if rc = 0 ∧ s.rx.recvFrameLen = s.wsHeader.payloadLen then
             endFrame env
           else
             pure ()) (fun _ => Session.Vetted) (fun _ s' => TextOnly s'.io.trace) s := by
  rw [wp_bind, handleFrameData, wp_bind, wp_get, wp_ite, if_pos hctl, wp_ite]
  split
  · rw [wp_bind]
    refine wp_mono (wp_closeWithStatus_vetted h.text h.binary _) (fun _ u hu => ?_) fun _ _ hu => hu
    rw [wp_bind, wp_modify, wp_pure, wp_bind, wp_get, if_neg (by simp)]
    exact ⟨hu.1.text, hu.1.binary, fun hn => absurd hu.2 hn⟩
  · have hu : Session.Vetted { s with rx := { s.rx.writeCtrl s.rx.ctrlLen buf with
        ctrlLen := s.rx.ctrlLen + buf.length } } :=
      ⟨h.text, h.binary, fun _ => Session.checked_of_control hctl⟩
    rw [wp_bind, wp_modify, wp_pure, wp_bind, wp_get, wp_ite]
    split
    · exact wp_endFrame_vetted hu hc hh
    · exact hu

/-- A chunk of a data frame, behind the text check. -/
theorem wp_storeChunk_data (ht : TextOnly s.io.trace) (hb : s.rx.msgIsBinary = false)
    (hc : ¬ s.Closed) (hh : s.rx.hasHeader = true)
    (hdata : isControlOpcode s.wsHeader.opcode = false) {buf : Bytes}
    (hmsg : ∀ m, s.rx.msg = some m → m = [])
    (hstate : ∀ d, s.rx.frameData = some d →
      s.rx.utf8State = validateUtf8 (validateUtf8 WS_UTF8_ACCEPT d) buf)
    (hfin : s.wsHeader.fin = true → s.rx.utf8State = WS_UTF8_ACCEPT) :
    wp (do let rc ← handleFrameData env buf
           let s ← get
           if rc = 0 ∧ s.rx.recvFrameLen = s.wsHeader.payloadLen then
             endFrame env
           else
             pure ()) (fun _ => Session.Vetted) (fun _ s' => TextOnly s'.io.trace) s := by
  rw [wp_bind, handleFrameData, wp_bind, wp_get, wp_ite, if_neg (by simp [hdata])]
  split
  · exact ht
  · rename_i d hd
    have hu : Session.Vetted { s with rx.frameData := some (d ++ buf) } := by
      refine ⟨ht, hb, fun _ _ _ => ⟨hmsg, fun d' hd' => ⟨?_, hfin⟩⟩⟩
      cases hd'
      rw [validateUtf8_append]
      exact hstate d hd
    rw [wp_bind, wp_modify, wp_pure, wp_bind, wp_get, wp_ite]
    split
    · exact wp_endFrame_vetted hu hc hh
    · exact hu

/-- A round of the payload part. -/
theorem wp_readPayload_vetted (h : s.Vetted) (hc : ¬ s.Closed) (hh : s.rx.hasHeader = true) :
    wp (readPayload env) (fun _ => Session.Vetted) (fun _ s' => TextOnly s'.io.trace) s := by
  by_cases hcl : s.cl.state = .closing
  · exact wp_mono (h.closing hcl ((steadies_rules env).readPayload s)) (fun _ _ hs => hs.1)
      fun _ _ hs => hs
  by_cases hrem : s.remaining = 0
  · rw [wp_congr (readPayload_ended hrem)]
    exact wp_endFrame_vetted h hc hh
  · obtain ⟨bev, detached, heq, -⟩ := s.drain_eq s.remaining
    rw [wp_congr (readPayload_takes hrem), heq, handleChunk, wp_bind]
    let u : Session := Session.counted s.chunk.length { s with bev := bev, detached := detached }
    have hck : u.Checked := h.checked hcl
    refine wp_mono (wp_checkUtf8_vetted (s := u) h.text h.binary _) (fun _ u₁ h₁ => ?_)
      fun _ _ hs => hs
    rcases h₁ with ⟨hv, hcl₁⟩ | ⟨hctl, rfl⟩ | ⟨hdata, rfl, hfin⟩
    · exact wp_mono (hv.closing hcl₁ ((steadies_rules env).storeChunk _ u₁))
        (fun _ _ hs => hs.1) fun _ _ hs => hs
    · exact wp_storeChunk_control (s := u) ⟨h.text, h.binary, fun _ => hck⟩ hc hh hctl _
    · obtain ⟨hmsg, hd⟩ := hck hh hdata
      refine wp_storeChunk_data (s := u.checkedOver _) h.text h.binary hc hh hdata hmsg
        (fun d hd' => ?_) hfin
      rw [← (hd d hd').1]
      rfl

/-! ## The header of a frame -/

/-- A new buffer, if there is one, is empty. -/
theorem eq_nil_of_new {c : Prop} [Decidable c] {d : Bytes}
    (h : (if c then none else some []) = some d) : d = [] := by
  split at h
  · cases h
  · cases h
    rfl

/-- The session in which a message begins, with the buffers made for it. -/
def Session.dataBegun (s : Session) (msg frame : Option Bytes) : Session :=
  { s with
    rx := { s.rx with
      recvFrameLen := 0, inMsgFlag := true, utf8State := WS_UTF8_ACCEPT
      msgIsBinary_ := decide (s.wsHeader.opcode = .binary), msg := msg, frameData := frame }
    io.callPos := s.io.callPos + 2 }

/-- The first frame of a message begins with new buffers, if they can be made. -/
theorem handleFrameBegin_data (env : Env) (hd : isControlOpcode s.wsHeader.opcode = false)
    (hm : s.rx.inMsgFlag = false) :
    ∃ msg frame, handleFrameBegin env s = .ok () (s.dataBegun msg frame) ∧
      (∀ m, msg = some m → m = []) ∧ ∀ d, frame = some d → d = [] := by
  refine ⟨if env.fault s.io.callPos then none else some [],
    if env.fault (s.io.callPos + 1) then none else some [], ?_, fun _ => eq_nil_of_new,
    fun _ => eq_nil_of_new⟩
  apply eq_ok_of_wp
  simp [handleFrameBegin, beginMessage, onRecvMsgBegin, onMsgFrameBegin, callFails, hd, hm,
    Session.dataBegun]

/-- A frame that begins a message has been checked as far as it has arrived. -/
theorem wp_handleFrameBegin_vetted (ht : TextOnly s.io.trace) (hb : s.rx.msgIsBinary = false)
    (hh : s.rx.hasHeader = true)
    (hm : isControlOpcode s.wsHeader.opcode = false → s.rx.inMsgFlag = false) :
    wp (handleFrameBegin env) (fun _ s' => s'.Vetted ∧ s'.rx.hasHeader = true ∧ s'.cl = s.cl)
      (fun _ s' => TextOnly s'.io.trace) s := by
  cases hop : isControlOpcode s.wsHeader.opcode with
  | true =>
    rw [handleFrameBegin, wp_bind, wp_modify, wp_bind, wp_get, wp_ite, if_pos hop]
    exact ⟨⟨ht, hb, fun _ => Session.checked_of_control hop⟩, hh, rfl⟩
  | false =>
    obtain ⟨msg, frame, hok, hmsg, hframe⟩ := handleFrameBegin_data env hop (hm hop)
    rw [wp_of_eq_ok hok]
    refine ⟨⟨ht, hb, fun _ _ _ => ⟨hmsg, fun d hd => ?_⟩⟩, hh, rfl⟩
    obtain rfl := hframe d hd
    exact ⟨rfl, fun _ => rfl⟩

/-- The header part of a round. -/
theorem wp_readHeader_vetted (h : s.Vetted) (hc : ¬ s.Closed) (hh : s.rx.hasHeader = false)
    (input : Bytes) :
    wp (readHeader env input)
      (fun goOn s' => s'.Vetted ∧ ¬ s'.Closed ∧ (goOn = true → s'.rx.hasHeader = true))
      (fun _ s' => TextOnly s'.io.trace) s := by
  have hab : ¬ (s.unpacked env input).state = .userAbort := unpackHeader_ne_userAbort _ _
  rw [readHeader, wp_bind, wp_get, wp_bind, wp_modify]
  cases hst : headerState (s.unpacked env input) s.rx.inMsgFlag with
  | success =>
    have hv := validateHeader_of_success hst
    rw [Session.unpacked] at hab hst
    rw [if_neg hab]
    simp only [hst, wp_bind, wp_modify]
    refine wp_mono (wp_handleFrameBegin_vetted ?_ ?_ ?_ ?_) (fun _ s' hs => ?_) fun _ _ hs => hs
    · rw [Session.drain_io]
      exact h.text
    · rw [Session.drain_rx]
      exact h.binary
    · rw [Session.drain_rx]
    · rw [Session.drain_wsHeader, Session.drain_rx]
      exact fun hd => validateHeader_data hv hd
    · refine ⟨hs.1, ?_, fun _ => hs.2.1⟩
      rw [Session.Closed, hs.2.2, Session.drain_cl]
      exact hc
  | needMore =>
    rw [Session.unpacked] at hab hst
    rw [if_neg hab]
    simp only [hst]
    exact ⟨⟨h.text, h.binary, fun _ => Session.checked_of_outside hh⟩, hc, (by rintro ⟨⟩)⟩
  | error =>
    rw [Session.unpacked] at hab hst
    rw [if_neg hab]
    simp only [hst, wp_bind]
    refine wp_mono (wp_closeWithStatus_vetted ?_ ?_ _) (fun _ s' hs => ?_) fun _ _ hs => hs
    · exact h.text
    · exact h.binary
    · exact ⟨hs.1, Session.not_closed_of_closing hs.2, (by rintro ⟨⟩)⟩
  | userAbort => exact absurd hst (headerState_ne_userAbort _ _ _)

/-! ## The read loop -/

private theorem wp_readLoop_vetted (n : Nat) (h : s.Vetted) (hc : ¬ s.Closed) :
    wp (readLoop env n) (fun _ s' => s'.Vetted ∧ ¬ s'.Closed) (fun _ s' => TextOnly s'.io.trace)
      s := by
  induction n generalizing s with
  | zero => exact ⟨h, hc⟩
  | succ n ih =>
    have hround : ∀ {u : Session}, u.Vetted → ¬ u.Closed → u.rx.hasHeader = true →
        wp (do readPayload env
               readLoop env n) (fun _ s' => s'.Vetted ∧ ¬ s'.Closed)
          (fun _ s' => TextOnly s'.io.trace) u := by
      intro u hu huc hh
      have hsteady : Moves (Steadies False) AnyTrap (readPayload env) u :=
        (steadies_rules env).readPayload u
      rw [wp_bind]
      refine wp_mono (wp_and hsteady (wp_readPayload_vetted hu huc hh)) (fun _ v hv => ?_)
        fun _ _ hv => hv.2
      exact ih hv.2 (hv.1 huc).live
    rw [readLoop, wp_bind, wp_get, wp_ite]
    split
    · exact h.text
    · rw [wp_ite]
      split
      · exact ⟨h, hc⟩
      · rw [wp_bind]
        cases hh : s.rx.hasHeader with
        | true =>
          rw [wp_of_eq_ok (needHeader_inside hh _)]
          exact hround h hc hh
        | false =>
          rw [wp, needHeader_outside hh]
          refine wp_mono (wp_readHeader_vetted h hc hh _) (fun goOn u hu => ?_) fun _ _ hu => hu
          cases goOn with
          | true => exact hround hu.1 hu.2.1 (hu.2.2 rfl)
          | false => exact ⟨hu.1, hu.2.1⟩

private theorem wp_readWebsocket_vetted (h : s.Vetted) (hc : ¬ s.Closed) :
    wp (readWebsocket env) (fun _ s' => s'.Vetted ∧ Steady False s s')
      (fun _ s' => TextOnly s'.io.trace) s := by
  have hsteady : Moves (Steadies False) AnyTrap (readWebsocket env) s :=
    (steadies_rules env).readWebsocket s
  have hread : wp (readWebsocket env) (fun _ s' => s'.Vetted ∧ ¬ s'.Closed)
      (fun _ s' => TextOnly s'.io.trace) s := by
    rw [readWebsocket, wp_bind, wp_get]
    split
    · exact h.text
    · exact wp_readLoop_vetted _ h hc
  exact wp_mono (wp_and hsteady hread) (fun _ _ hs => ⟨hs.2.1, hs.1 hc⟩) fun _ _ hs => hs.2

/-! ## One connection -/

/-- What holds of a session between two inputs of its first connection. -/
structure Session.Guarded (s : Session) : Prop where
  text : TextOnly s.io.trace
  binary : s.rx.msgIsBinary = false
  live : s.bev ≠ none → ¬ s.Closed ∧ s.Vetted
  outside : ∀ b, s.bev = some b → b.readEnabled = false ∨ s.hs.connectState ≠ .handshakeComplete →
    s.rx.hasHeader = false

/-- The input neither opens another connection nor sends from outside the handlers. -/
def Input.Receives (i : Input) : Prop := i ≠ .connect ∧ ∀ msg, i ≠ .send msg

/-- Without a connection nothing can be delivered. -/
theorem Session.Guarded.of_none (ht : TextOnly s.io.trace) (hb : s.rx.msgIsBinary = false)
    (hn : s.bev = none) : s.Guarded :=
  ⟨ht, hb, fun h => absurd hn h, fun b h => by rw [hn] at h; cases h⟩

/-- The handshake is complete, and reading is enabled. -/
def Session.Settling (s : Session) : Prop :=
  s.hs.connectState = .handshakeComplete ∧ ∀ b, s.bev = some b → b.readEnabled = true

/-- What holds while the connection lasts holds after the input. -/
theorem Session.Vetted.guarded {s' : Session} (h : s'.Vetted) (hs : Steady False s s')
    (hst : s.Settling) : s'.Guarded where
  text := h.text
  binary := h.binary
  live := fun _ => ⟨hs.live, h⟩
  outside := by
    intro b' hb' hor
    obtain ⟨b, hb, hr, -⟩ := hs.bev b' hb'
    rcases hor with hor | hor
    · rw [hr, hst.2 b hb] at hor
      cases hor
    · rw [hs.hs] at hor
      exact absurd hst.1 hor

private theorem wp_readWebsocket_guarded (h : s.Vetted) (hc : ¬ s.Closed) (hst : s.Settling) :
    wp (readWebsocket env) (fun _ => Session.Guarded) (fun _ s' => TextOnly s'.io.trace) s :=
  wp_mono (wp_readWebsocket_vetted h hc) (fun _ _ hs => hs.1.guarded hs.2 hst) fun _ _ hs => hs

/-- A read, on a session whose bufferevent has been read from. -/
theorem wp_onRead_guarded {b : Bufferevent} (h : s.Guarded) (hb : s.bev = some b)
    (hr : b.readEnabled = true) :
    wp (onRead env) (fun _ => Session.Guarded) (fun _ s' => TextOnly s'.io.trace) s := by
  obtain ⟨hc, hv⟩ := h.live (by simp [hb])
  rw [onRead, wp_bind, wp_get]
  simp only [hb]
  rw [wp_ite]
  split
  · rename_i hcs
    have hout := h.outside b hb (Or.inr hcs)
    have hagree := readServerHandshakeReply_agrees env.sha1 s.hs b.input
    rw [wp_bind, wp_modify]
    split
    · rw [wp_bind, shutDown, wp_modify]
      exact hv.text
    · refine ⟨hv.text, hv.binary, fun _ => ⟨hc, hv.text, hv.binary, fun _ => ?_⟩, fun _ _ _ => hout⟩
      exact Session.checked_of_outside hout
    · rename_i hsucc
      rw [wp_bind, wp_modify, wp_bind, callOnConnect, wp_bind, emit, wp_modify, wp_bind, wp_get]
      let r := readServerHandshakeReply env.sha1 s.hs b.input
      let u : Session :=
        { s with
          hs := r.2.1, bev := some { b with input := r.2.2 }, cl.state := .connected
          io.trace := s.io.trace ++ [.onConnect] }
      have hu : u.Vetted := by
        refine ⟨fun p k hmem => ?_, hv.binary, fun _ => Session.checked_of_outside hout⟩
        exact hv.text p k ((List.mem_append.mp hmem).resolve_right (by simp))
      have huc : ¬ u.Closed := by simp [Session.Closed, u]
      refine wp_mono (hu.calls hout huc (steadies_onConnectCalls _ u)) (fun _ v hs => ?_)
        fun _ _ hs => hs
      obtain ⟨hvet, -, hsteady⟩ := hs
      refine wp_readWebsocket_guarded hvet hsteady.live ⟨?_, fun b' hb' => ?_⟩
      · rw [hsteady.hs]
        exact hagree.success hsucc
      · obtain ⟨b₀, hb₀, hr₀, -⟩ := hsteady.bev b' hb'
        cases hb₀
        exact hr₀.trans hr
    · rename_i habort
      exact absurd habort hagree.ne_userAbort
  · rename_i hcs
    refine wp_readWebsocket_guarded hv hc ⟨not_not.mp hcs, fun b' hb' => ?_⟩
    cases hb.symm.trans hb'
    exact hr

/-- Closing, from any state. -/
theorem wp_close_guarded (h : s.Guarded) :
    wp (runCall env .close) (fun _ => Session.Guarded) (fun _ s' => TextOnly s'.io.trace) s := by
  let u : Session := { s with cl.state := .closing }
  have hu : u.Vetted := ⟨h.text, h.binary, fun hn => absurd rfl hn⟩
  have huc : ¬ u.Closed := Session.not_closed_of_closing rfl
  have hsteady : Moves (Steadies True) AnyTrap (runCall env .close) u := steadies_runCall .close u
  rw [wp, runCall_close_closing]
  refine wp_mono (wp_and hsteady (hu.closing rfl (steadies_runCall .close u)))
    (fun _ s' hs => ?_) fun _ _ hs => hs.2
  have hs' : Steady True u s' := hs.1 huc
  refine ⟨hs.2.1.text, hs.2.1.binary, fun _ => ⟨hs'.live, hs.2.1⟩, fun b' hb' hor => ?_⟩
  obtain ⟨b, hb, hr, -⟩ := hs'.bev b' hb'
  rw [hr, hs'.hs] at hor
  have hout := h.outside b hb hor
  by_contra hn
  exact absurd (hs'.frame trivial (eq_true_of_ne_false hn)).1 (by simp [u, hout])

/-- The end of the stream. -/
theorem wp_onEofEvent_guarded (h : s.Guarded) :
    wp (onEofEvent env) (fun _ => Session.Guarded) (fun _ s' => TextOnly s'.io.trace) s := by
  rw [onEofEvent, wp_bind, wp_get]
  split
  · exact h
  · rename_i b hb
    obtain ⟨hc, hv⟩ := h.live (by simp [hb])
    have hleft : wp (readLeftover env b.input) (fun _ => Session.Vetted)
        (fun _ s' => TextOnly s'.io.trace) s := by
      rw [readLeftover, wp_ite]
      split
      · exact hv
      · exact wp_mono (wp_readWebsocket_vetted hv hc) (fun _ _ hs => hs.1) fun _ _ hs => hs
    rw [wp_bind]
    refine wp_mono hleft (fun _ u hu => ?_) fun _ _ hs => hs
    rw [wp_ended]
    exact .of_none hu.text hu.binary rfl

/-- Outside a frame the invariant depends on the receiver, the life cycle and the messages. -/
theorem Session.Guarded.outside_of {u : Session} (h : s.Guarded) (hout : s.rx.hasHeader = false)
    (hc : ¬ s.Closed) (hrx : u.rx = s.rx) (hcl : u.cl = s.cl) (ht : Tacit s u) : u.Guarded := by
  have hout' : u.rx.hasHeader = false := by
    rw [hrx]
    exact hout
  have hbin : u.rx.msgIsBinary = false := by
    rw [hrx]
    exact h.binary
  refine ⟨h.text.tacit ht, hbin, fun _ => ⟨?_, h.text.tacit ht, hbin, fun _ => ?_⟩,
    fun _ _ _ => hout'⟩
  · rw [Session.Closed, hcl]
    exact hc
  · exact Session.checked_of_outside hout'

/-- Every input of the connection keeps the invariant. -/
theorem wp_step_guarded (h : s.Guarded) {i : Input} (hi : i.Receives) :
    wp (step env i) (fun _ => Session.Guarded) (fun _ s' => TextOnly s'.io.trace) s := by
  cases i with
  | connect => exact absurd rfl hi.1
  | send msg => exact absurd rfl (hi.2 msg)
  | close => exact wp_close_guarded h
  | connected =>
    rw [step, wp_bind, wp_get]
    split
    · rename_i b hb
      rw [wp_ite]
      split
      · exact h
      · rename_i hr
        have hout := h.outside b hb (Or.inl (eq_false_of_ne_true hr))
        obtain ⟨hc, hv⟩ := h.live (by simp [hb])
        simp only [onConnectEvent, sendHandshake, generateHandshakeKey, getRandomMask, callFails,
          emit, wp_bind, wp_modify, wp_modifyGet, wp_get, wp_ite, wp_pure]
        have hsame : ∀ {u : Session}, u.rx = s.rx → u.cl = s.cl → Tacit s u → u.Guarded :=
          h.outside_of hout hc
        repeat' split
        all_goals first
          | exact hsame rfl rfl ⟨[], (List.append_nil _).symm, by simp⟩
          | exact hsame rfl rfl ⟨[_], rfl, by simp [Event.isMessage]⟩
    · exact h
  | read bytes =>
    rw [step, wp_bind, wp_get]
    split
    · rename_i b hb
      rw [wp_ite]
      split
      · rename_i hr
        obtain ⟨hc, hv⟩ := h.live (by simp [hb])
        rw [wp_bind, wp_modify]
        refine wp_onRead_guarded (b := { b with input := b.input ++ bytes }) ?_ rfl hr
        refine ⟨h.text, h.binary, fun _ => ⟨hc, hv.text, hv.binary, hv.checked⟩, ?_⟩
        intro b' hb' hor
        cases hb'
        exact h.outside b hb hor
      · exact h
    · exact h
  | eof =>
    rw [step, wp_bind, wp_get]
    split
    · rw [wp_ite]
      split
      · exact wp_onEofEvent_guarded h
      · exact h
    · exact h
  | error => exact h
  | closeTimeout =>
    simp only [step, onCloseTimeout, shutDown, wp_bind, wp_get, wp_ite, wp_modify, wp_pure,
      wp_throw]
    split
    · split
      · exact h.text
      · exact .of_none h.text h.binary rfl
    · exact h
  | connectTimeout => exact h

private theorem not_closed_connecting (s : Session) : ¬ s.connecting.Closed := by
  simp [Session.Closed, Session.connecting]

private theorem guarded_connecting : Session.initialised.connecting.Guarded :=
  ⟨nofun, rfl, fun _ => ⟨not_closed_connecting _, nofun, rfl, fun _ =>
    Session.checked_of_outside rfl⟩, fun _ _ _ => rfl⟩

/-- Opening the first connection. -/
theorem wp_connect_guarded :
    wp (step env .connect) (fun _ => Session.Guarded) (fun _ s' => TextOnly s'.io.trace)
      Session.initialised := by
  have hsame : ∀ {u : Session}, u.rx = Session.initialised.connecting.rx →
      u.cl = Session.initialised.connecting.cl → Tacit Session.initialised.connecting u →
      u.Guarded := guarded_connecting.outside_of rfl (not_closed_connecting _)
  have hst : ¬ (Session.initialised.cl.state ≠ .closedCleanly ∧
      Session.initialised.cl.state ≠ .closedUncleanly) := by decide
  simp only [step, runCall, doConnect, setupConnectionTimeout, callFails, emit, wp_bind, wp_get,
    wp_ite, wp_modify, wp_modifyGet, wp_pure, hst, if_false]
  repeat' split
  all_goals exact hsame rfl rfl ⟨[.opened], rfl, by simp [Event.isMessage]⟩

/-- On one connection, with sends made only from inside the handlers, every text message that
is delivered is valid UTF-8. -/
theorem delivered_text_valid (env : Env) {inputs : List Input} (hin : ∀ i ∈ inputs, i.Receives)
    {p : Bytes} (hp : Event.onMessage p false ∈
      (finalState (run env (.connect :: inputs) Session.initialised)).io.trace) :
    ValidUtf8 p := by
  have hrun : wp (run env (.connect :: inputs)) (fun _ => Session.Guarded)
      (fun _ s' => TextOnly s'.io.trace) Session.initialised := by
    rw [run, runAll_cons, wp_bind]
    refine wp_mono wp_connect_guarded (fun _ u hu => ?_) fun _ _ hs => hs
    exact wp_runAll (fun i v hv hi => wp_step_guarded hv hi) hu (along_of_forall hin u)
  have htext : wp (run env (.connect :: inputs)) (fun _ s' => TextOnly s'.io.trace)
      (fun _ s' => TextOnly s'.io.trace) Session.initialised :=
    wp_mono hrun (fun _ _ hs => hs.text) fun _ _ hs => hs
  exact wp_final.mp htext p false hp

/-- A text message in two reads. -/
theorem delivered_text_valid_sample :
    Event.onMessage [0x41, 0x42] false ∈ (finalState (run listener
        (.connect :: [.connected, .read plainReply, .read [0x81, 0x02, 0x41], .read [0x42]])
        Session.initialised)).io.trace ∧ ValidUtf8 [0x41, 0x42] := by
  have hmem : Event.onMessage [0x41, 0x42] false ∈ (finalState (run listener
      (.connect :: [.connected, .read plainReply, .read [0x81, 0x02, 0x41], .read [0x42]])
      Session.initialised)).io.trace := by
    decide +kernel
  refine ⟨hmem, delivered_text_valid listener ?_ hmem⟩
  simp [Input.Receives]

end CppImprovement.Ws

import CppImprovement.Net.Ws.ReadBoundaries
import CppImprovement.Net.Ws.Steady

/-!
# Sending between two reads

The header of the frame being received and the header of the frame being sent are
one object. Between two frames a send leaves the receiver alone: the next header is
read anew. Inside a payload a send replaces the length and the masking key that the
rest of the payload is read with, and what the application hears depends on the key
drawn. The messages heard do not depend on the sends exactly when no send is made
inside a payload.
-/

namespace CppImprovement.Ws

variable {env : Env} {s : Session} {b : Bufferevent} {f : Frame} {fs : List Frame}

/-! ## Schedules -/

/-- The input is a read, or the sending of a short message. -/
def Input.Exchanges : Input → Prop
  | .read _ => True
  | .send msg => msg.length ≤ 125
  | _ => False

/-- The input is a read. -/
def Input.isRead : Input → Bool
  | .read _ => true
  | _ => false

/-- Of the stream of text messages, the first `n` bytes end outside a payload: behind a frame or
inside a header. -/
def OutsidePayload : List Bytes → Nat → Prop
  | [], _ => True
  | p :: ps, n => if 2 + p.length ≤ n then OutsidePayload ps (n - (2 + p.length)) else n < 2

/-- No message is sent while a payload is being received. -/
def SendsOutside (ps : List Bytes) (inputs : List Input) : Prop :=
  ∀ before msg after, inputs = before ++ .send msg :: after →
    OutsidePayload ps (readBytes before).length

/-- The stream of the frames ends inside a payload when `m` bytes are still to come. -/
def InPayload : List Frame → Nat → Prop
  | [], _ => False
  | f :: fs, m =>
    if m ≤ (stream fs).length then InPayload fs m else m ≤ f.payload.length + (stream fs).length

/-- No message is sent while the payload of one of the frames is being received. -/
def SendsPass (fs : List Frame) (inputs : List Input) : Prop :=
  ∀ before msg after, inputs = before ++ .send msg :: after →
    ¬ InPayload fs (readBytes after).length

private theorem readBytes_append (is js : List Input) :
    readBytes (is ++ js) = readBytes is ++ readBytes js := List.flatMap_append

private theorem readBytes_filter (is : List Input) :
    readBytes (is.filter Input.isRead) = readBytes is := by
  induction is with
  | nil => rfl
  | cons i is ih =>
    rw [readBytes, List.filter_cons]
    cases i with
    | read c => exact congrArg (c ++ ·) ih
    | _ => exact ih

private theorem sendsPass_send {msg : Bytes} {is : List Input} :
    SendsPass fs (.send msg :: is) ↔ ¬ InPayload fs (readBytes is).length ∧ SendsPass fs is := by
  constructor
  · intro h
    refine ⟨h [] msg is rfl, fun before m after heq => h (.send msg :: before) m after ?_⟩
    rw [heq]
    rfl
  · rintro ⟨hn, hrest⟩ before m after heq
    cases before with
    | nil =>
      cases heq
      exact hn
    | cons i before =>
      cases heq
      exact hrest before m after rfl

private theorem sendsPass_read {c : Bytes} {is : List Input} :
    SendsPass fs (.read c :: is) ↔ SendsPass fs is := by
  constructor
  · intro h before m after heq
    exact h (.read c :: before) m after (by rw [heq]; rfl)
  · rintro hrest before m after heq
    cases before with
    | nil => cases heq
    | cons i before =>
      cases heq
      exact hrest before m after rfl

private theorem inPayload_undue {m m' : Nat} (hle : m' ≤ m) :
    InPayload (undue fs m) m' ↔ InPayload fs m' := by
  induction fs with
  | nil => exact Iff.rfl
  | cons f fs ih =>
    by_cases hm : m ≤ (stream fs).length
    · rw [undue, if_pos hm, ih, InPayload, if_pos (hle.trans hm)]
    · rw [undue, if_neg hm]

private theorem sendsPass_undue {is : List Input} {m : Nat} (hle : (readBytes is).length ≤ m) :
    SendsPass (undue fs m) is ↔ SendsPass fs is := by
  refine forall_congr' fun before => forall_congr' fun msg => forall_congr' fun after => ?_
  refine imp_congr_right fun heq => not_congr (inPayload_undue ?_)
  have hlen : (readBytes after).length ≤ (readBytes is).length := by
    rw [heq, readBytes_append, List.length_append]
    exact Nat.le_add_left _ _
  exact hlen.trans hle

private theorem not_inPayload_iff {ps : List Bytes} {n : Nat}
    (hn : n ≤ (stream (ps.map Frame.text)).length) :
    ¬ InPayload (ps.map Frame.text) ((stream (ps.map Frame.text)).length - n) ↔
      OutsidePayload ps n := by
  induction ps generalizing n with
  | nil => exact iff_of_true id trivial
  | cons p ps ih =>
    have hlen : (stream ((p :: ps).map Frame.text)).length =
        2 + p.length + (stream (ps.map Frame.text)).length := by
      rw [List.map_cons, stream_cons, List.length_append, Frame.length_bytes]
      rfl
    rw [hlen] at hn ⊢
    rw [List.map_cons, InPayload, OutsidePayload]
    by_cases hc : 2 + p.length ≤ n
    · rw [if_pos hc, if_pos (by omega), ← ih (by omega),
        show 2 + p.length + (stream (ps.map Frame.text)).length - n =
          (stream (ps.map Frame.text)).length - (n - (2 + p.length)) from by omega]
    · rw [if_neg hc, if_neg (by omega), show (Frame.text p).payload.length = p.length from rfl]
      omega

private theorem sendsPass_iff_sendsOutside {ps : List Bytes} {is : List Input}
    (h : readBytes is = stream (ps.map Frame.text)) :
    SendsPass (ps.map Frame.text) is ↔ SendsOutside ps is := by
  refine forall_congr' fun before => forall_congr' fun msg => forall_congr' fun after => ?_
  refine imp_congr_right fun heq => ?_
  have hlen : (readBytes before).length + (readBytes after).length =
      (stream (ps.map Frame.text)).length := by
    rw [← h, heq, readBytes_append, List.length_append]
    rfl
  rw [← not_inPayload_iff (by omega), ← hlen, Nat.add_sub_cancel_left]

/-! ## Undisturbed schedules -/

/-- A text frame of plain ASCII. -/
def Frame.Ascii (f : Frame) : Prop :=
  ∃ p : Bytes, f = .text p ∧ p.length ≤ 125 ∧ ∀ x ∈ p, x < 0x80

/-- Every part of an ASCII text passes the check. -/
theorem Frame.Ascii.passes (h : f.Ascii) (n : Nat) : f.Passes n := by
  obtain ⟨p, rfl, -, hp⟩ := h
  have hacc := validateUtf8_ascii fun x hx => hp x (List.mem_of_mem_take (i := n) hx)
  exact fun _ => ⟨fun hr => absurd (hacc.symm.trans hr) (by decide), Or.inl hacc⟩

/-- An ASCII text is a whole message. -/
theorem Frame.Ascii.whole (h : f.Ascii) : f.Whole := by
  obtain ⟨p, rfl, hlen, hp⟩ := h
  exact Frame.text_whole hlen ((validateUtf8_iff p).mp (validateUtf8_ascii hp))

private theorem cutPasses_of_ascii (h : ∀ f ∈ fs, f.Ascii) (m : Nat) : CutPasses fs m := by
  induction fs with
  | nil => trivial
  | cons f fs ih =>
    obtain ⟨hf, hfs⟩ := List.forall_mem_cons.mp h
    rw [CutPasses]
    split
    · exact ih hfs
    · exact hf.passes _

/-- An open connection on which the frames `fs` are being received, with `z` still to come. -/
structure Session.Follows (s : Session) (b : Bufferevent) (fs : List Frame) (z : Bytes) : Prop where
  receiving : s.Receiving b
  awaits : s.Awaits b fs z
  starved : s.Starved b fs
  isOpen : s.Open

/-- A short message leaves an open connection in one frame. -/
theorem step_send_ok (hf : env.NoFault) (ho : s.Open) {msg : Bytes} (hlen : msg.length ≤ 125) :
    step env (.send msg) s = .ok () (s.sentFrame env .text msg) := by
  have hsend := doSendMsg_ok hf ho.bev ho.sendState ho.maxFrameSize ho.state
    (hlen.trans (by decide))
  apply eq_ok_of_wp
  rw [step, runCall, wp_bind]
  exact (wp_of_eq_ok hsend).mpr ⟨rfl, rfl⟩

/-- A message that is sent leaves the connection open. -/
theorem Session.Open.sentFrame (h : s.Open) (msg : Bytes) : (s.sentFrame env .text msg).Open :=
  { h with }

/-- The session goes on receiving after a message it sends. -/
theorem Session.Receiving.sentFrame (h : s.Receiving b) (msg : Bytes) :
    (s.sentFrame env .text msg).Receiving b := { h with sane := { h.sane with } }

/-- A frame that is not due is not complete. -/
theorem not_le_of_undue {m : Nat} (h : undue (f :: fs) m = f :: fs) : ¬ m ≤ (stream fs).length := by
  intro hle
  have hlen := congrArg List.length h
  have hsub := (undue_suffix fs m).length_le
  rw [undue, if_pos hle, List.length_cons] at hlen
  omega

/-- Outside a payload the receiver is between two messages. -/
theorem Session.Follows.between {z : Bytes} (h : s.Follows b fs z) (hu : undue fs z.length = fs)
    (hn : ¬ InPayload fs z.length) : s.Between ∧ b.input ++ z = stream fs := by
  cases h.awaits with
  | between hb hst => exact ⟨hb, hst⟩
  | @inside f fs k _ hi hk hp hst =>
    have hz := not_le_of_undue hu
    have hlen := congrArg List.length hst
    rw [List.length_append, List.length_append, List.length_drop] at hlen
    rw [InPayload, if_neg hz] at hn
    omega

/-- A message sent outside a payload. -/
theorem Session.Follows.sends (hf : env.NoFault) {z : Bytes} (h : s.Follows b fs z)
    (hu : undue fs z.length = fs) (hn : ¬ InPayload fs z.length) {msg : Bytes}
    (hlen : msg.length ≤ 125) :
    wp (step env (.send msg)) (fun _ s' => s.Told [] s' ∧ s'.Follows b fs z)
      (fun _ _ => False) s := by
  obtain ⟨hb, hst⟩ := h.between hu hn
  have htold : wp (step env (.send msg)) (fun _ => s.Told []) (fun _ _ => False) s :=
    wp_sendCall_told hf h.isOpen msg
  have htracks : wp (step env (.send msg)) (fun _ s' => s'.Follows b fs z)
      (fun _ _ => False) s := by
    refine (wp_of_eq_ok (step_send_ok hf h.isOpen hlen)).mpr ?_
    exact ⟨h.receiving.sentFrame msg, .between ⟨hb.hasHeader, hb.inMsgFlag⟩ hst,
      ⟨h.starved.outside, h.starved.inside⟩, h.isOpen.sentFrame msg⟩
  exact wp_mono (wp_and htold htracks) (fun _ _ hs => hs) fun _ _ hs => hs.1

/-- A read. -/
theorem Session.Follows.reads (hf : env.NoFault) (hq : env.app.NeverCloses) {c z : Bytes}
    (h : s.Follows b fs (c ++ z)) (hw : ∀ f ∈ fs, f.Ascii) :
    wp (step env (.read c))
      (fun _ s' => s.Told (messages env (due fs z.length)) s' ∧
        ∃ b', s'.Follows b' (undue fs z.length) z) (fun _ _ => False) s := by
  refine wp_mono (wp_read_told hf hq h.receiving h.awaits h.isOpen (fun f hmem => (hw f hmem).whole)
    (cutPasses_of_ascii hw _)) (fun _ s' hs => ?_) fun _ _ hs => hs
  obtain ⟨htold, b', hr, ha, hst⟩ := hs
  exact ⟨htold, b', hr, ha, hst, htold.stays⟩

private theorem messages_due_undue (env : Env) (fs : List Frame) (m : Nat) :
    messages env (due fs m) ++ messages env (undue fs m) = messages env fs := by
  rw [messages, messages, ← List.flatMap_append, due_append_undue, messages]

/-- With no send inside a payload, every message is heard. -/
theorem wp_exchange_told (hf : env.NoFault) (hq : env.app.NeverCloses) {is : List Input}
    (hin : ∀ i ∈ is, i.Exchanges) (h : s.Follows b fs (readBytes is))
    (hu : undue fs (readBytes is).length = fs) (hw : ∀ f ∈ fs, f.Ascii) (hp : SendsPass fs is) :
    wp (run env is) (fun _ => s.Told (messages env fs)) (fun _ _ => False) s := by
  induction is generalizing s b fs with
  | nil =>
    have hnil : fs = [] := hu.symm.trans (undue_zero fs)
    subst hnil
    exact h.isOpen.told_refl
  | cons i is ih =>
    obtain ⟨hi, his⟩ := List.forall_mem_cons.mp hin
    rw [run, runAll_cons, wp_bind]
    cases i with
    | read c =>
      refine wp_mono (Session.Follows.reads (z := readBytes is) hf hq h hw) (fun _ s₁ h₁ => ?_)
        fun _ _ hs => hs
      obtain ⟨htold, b₁, ht⟩ := h₁
      refine wp_mono (ih his ht (undue_undue fs _) (fun f hmem => ?_) ?_) (fun _ s₂ h₂ => ?_)
        fun _ _ hs => hs
      · exact hw f ((undue_suffix fs _).mem hmem)
      · exact (sendsPass_undue le_rfl).mpr (sendsPass_read.mp hp)
      · have hall := htold.trans h₂
        rwa [messages_due_undue] at hall
    | send msg =>
      obtain ⟨hn, hrest⟩ := sendsPass_send.mp hp
      refine wp_mono (Session.Follows.sends (z := readBytes is) hf h hu hn hi) (fun _ s₁ h₁ => ?_)
        fun _ _ hs => hs
      exact wp_mono (ih his h₁.2 hu hw hrest) (fun _ s₂ h₂ => h₁.1.trans h₂) fun _ _ hs => hs
    | _ => exact hi.elim

/-! ## A send inside a payload -/

/-- The environment with another random stream. -/
def Env.drawing (env : Env) (r : Nat → UInt8) : Env := { env with rand := r }

/-- The receiver is inside a text frame of which it has stored `p`, and a message of `m` octets
was sent with the key octet `x` since. -/
structure Session.Disturbed (s : Session) (b : Bufferevent) (p : Bytes) (x : UInt8) (m : Nat) :
    Prop where
  receiving : s.Receiving b
  input : b.input = []
  isOpen : s.Open
  hasHeader : s.rx.hasHeader = true
  fin : s.wsHeader.fin = true
  opcode : s.wsHeader.opcode = .text
  maskBit : s.wsHeader.maskBit = true
  payloadLen : s.wsHeader.payloadLen.val = m
  mask : s.wsHeader.mask = ⟨x, x, x, x⟩
  recvFrameLen : s.rx.recvFrameLen = p.length
  utf8State : s.rx.utf8State = WS_UTF8_ACCEPT
  msg : s.rx.msg = some []
  frameData : s.rx.frameData = some p

/-- The first message that is heard is another than `e`, if one is heard at all. -/
def Session.NotFirst (e : Event) (s s' : Session) : Prop :=
  ∃ evs, s'.io.trace = s.io.trace ++ evs ∧ (evs.filter Event.isMessage).head? ≠ some e

private theorem remainingLen_eq_zero {m k : Nat} (hm : m < 128) (hk : k < 128) :
    remainingLen m k = 0 ↔ m = k := by
  rw [remainingLen]
  omega

/-- The session is closing, behind an accepted reply. -/
def Session.Quiet (s : Session) : Prop :=
  s.cl.state = .closing ∧ s.hs.connectState = .handshakeComplete

/-- A quiet session hears nothing more. -/
theorem Session.Quiet.wp_tacit {α : Type} {m : M α} (h : s.Quiet)
    (hm : Moves (Steadies False) AnyTrap m s) :
    wp m (fun _ s' => Tacit s s' ∧ s'.Quiet) (fun _ s' => Tacit s s') s := by
  have hlive := Session.not_closed_of_closing h.1
  refine wp_mono hm (fun _ s' hs => ?_) fun _ s' hs => (hs.1 hlive).tacit (Or.inr h.1)
  refine ⟨(hs hlive).tacit (Or.inr h.1), (hs hlive).closing h.1, ?_⟩
  rw [(hs hlive).hs]
  exact h.2

private theorem wp_close_quiet (hh : s.hs.connectState = .handshakeComplete)
    (status : WSCloseStatus) :
    wp (closeWithStatus env status) (fun _ s' => Tacit s s' ∧ s'.Quiet)
      (fun _ s' => Tacit s s') s :=
  Session.Quiet.wp_tacit (s := { s with cl.state := .closing }) ⟨rfl, hh⟩
    (steadies_closeWithStatusReason status [] _)

/-- A text is rejected at the first octet when the key turns it into no text. -/
theorem validateUtf8_unmasked {h : WSHeader} {x y : UInt8} (hb : h.maskBit = true)
    (hm : h.mask = ⟨x, x, x, x⟩) (hy : y ^^^ x = 0xFF) (c : Bytes) :
    validateUtf8 WS_UTF8_ACCEPT (unmaskChunk h (y :: c)) = WS_UTF8_REJECT := by
  have hchunk : unmaskChunk h (y :: c) =
      0xFF :: c.mapIdx fun i z => z ^^^ (Mask.byte ⟨x, x, x, x⟩ (i + 1)) := by
    rw [unmaskChunk, if_pos hb, hm, unmaskPayload, maskPayload, List.mapIdx_cons, ← hy]
    rfl
  rw [hchunk, validateUtf8, if_pos (by decide)]

namespace Session.Disturbed

variable {p : Bytes} {x : UInt8} {m : Nat}

/-- Another message of the application disturbs the frame anew. -/
theorem sent (h : s.Disturbed b p x m) {msg : Bytes} (hlen : msg.length ≤ 125) :
    (s.sentFrame (env.drawing fun _ => x) .text msg).Disturbed b p x msg.length :=
  { h with
    receiving := h.receiving.sentFrame msg
    isOpen := h.isOpen.sentFrame msg
    fin := rfl
    opcode := rfl
    maskBit := rfl
    payloadLen := Nat.mod_eq_of_lt (by omega)
    mask := rfl }

/-- A read behind the send goes to the payload part. -/
theorem round (env : Env) (h : s.Disturbed b p x m) {c : Bytes} (hc : c ≠ []) :
    ∃ n, step env (.read c) s =
      (readPayload env >>= fun _ => readLoop env n) (s.received b c) := by
  have hne : ({ b with input := b.input ++ c } : Bufferevent).input ≠ [] := by simp [hc]
  refine ⟨2 * (b.input ++ c).length + 1, (step_read_receiving h.receiving c).trans ?_⟩
  exact readLoop_round (h.receiving.received c).reading hne
    (needHeader_inside (s := s.received b c) h.hasHeader _) _

/-- The octets behind the send are read with the wrong length and the wrong key. -/
theorem refused (h : s.Disturbed b p x m) (hp : p.length ≤ 125) (hm : m ≤ 125)
    (hne : m ≠ p.length) {y : UInt8} (hy : y ^^^ x = 0xFF) (c : Bytes) :
    wp (step env (.read (y :: c))) (fun _ s' => Tacit s s' ∧ s'.Quiet)
      (fun _ s' => Tacit s s') s := by
  obtain ⟨n, hround⟩ := h.round env (c := y :: c) nofun
  have hreading := (h.receiving.received (y :: c)).reading
  have hrem : (s.received b (y :: c)).remaining ≠ 0 := by
    rw [Session.remaining, Session.received, h.payloadLen, h.recvFrameLen, ne_eq,
      remainingLen_eq_zero (by omega) (by omega)]
    exact hne
  obtain ⟨c', hchunk⟩ : ∃ c', (s.received b (y :: c)).chunk = y :: c' := by
    obtain ⟨k, hk⟩ := Nat.exists_eq_succ_of_ne_zero hrem
    rw [Session.chunk, hreading.inBuf, hk, h.input]
    exact ⟨c.take k, rfl⟩
  have hctl : isControlOpcode s.wsHeader.opcode = false := by
    rw [h.opcode]
    rfl
  rw [wp_congr hround, wp_bind, wp_congr (readPayload_takes hrem), hchunk, hreading.drain,
    Session.counted, handleChunk, wp_bind, checkUtf8, wp_bind, wp_get, wp_ite,
    if_pos ⟨h.receiving.checked, hctl⟩, wp_bind, wp_modify, wp_bind, wp_get, wp_ite]
  refine (if_pos (Or.inl ?_)).mpr ?_
  · change validateUtf8 s.rx.utf8State _ = _
    rw [h.utf8State]
    exact validateUtf8_unmasked h.maskBit h.mask hy _
  rw [wp_bind]
  refine wp_mono (wp_close_quiet (by exact h.receiving.complete) _) (fun _ u hu => ?_)
    fun _ _ hu => hu
  have hstore := hu.2.wp_tacit
    ((steadies_rules env).storeChunk (unmaskChunk s.wsHeader (y :: c')) u)
  rw [wp_pure]
  refine wp_mono hstore (fun _ v hv => ?_) fun _ _ hv => hu.1.trans hv
  exact wp_mono (hv.2.wp_tacit ((steadies_rules env).readLoop n v))
    (fun _ _ hw => ⟨hu.1.trans (hv.1.trans hw.1), hw.2⟩) fun _ _ hw => hu.1.trans (hv.1.trans hw)

/-- A frame that ends where the send has put its end is delivered as it is. -/
theorem cutShort (hf : env.NoFault) (hq : env.app.NeverCloses) (h : s.Disturbed b p x m)
    (hp : p.length ≤ 125) (hm : m = p.length) {c : Bytes} (hc : c ≠ []) :
    wp (step env (.read c))
      (fun _ s' => (∃ s₁, s.Told (handled env p s.rx.msgIsBinary_) s₁ ∧ s₁.Extends s') ∧
        ∃ b', s'.Receiving b')
      (fun _ s' => ∃ s₁, s.Told (handled env p s.rx.msgIsBinary_) s₁ ∧ s₁.Extends s') s := by
  obtain ⟨n, hround⟩ := h.round env hc
  have hr := h.receiving.received c
  have hrem : (s.received b c).remaining = 0 := by
    rw [Session.remaining, Session.received, h.payloadLen, h.recvFrameLen,
      remainingLen_eq_zero (by omega) (by omega)]
    exact hm
  have hctl : isControlOpcode s.wsHeader.opcode = false := by
    rw [h.opcode]
    rfl
  have hend : readPayload env (s.received b c) =
      endOfMessage env p ((s.received b c).gathered p) :=
    (readPayload_ended hrem).trans
      (endFrame_message (s := s.received b c) hctl h.fin h.msg h.frameData)
  rw [wp_congr (hround.trans (bind_eq_of_eq hend)), wp_bind]
  have hopen : ((s.received b c).gathered p).Open :=
    { h.isOpen with bev := Option.some_ne_none _ }
  have hr' : ((s.received b c).gathered p).Receiving _ := { hr with sane := { hr.sane with } }
  refine wp_mono (wp_and (wp_endOfMessage_told hf hq hopen p)
    (wp_endOfMessage_receiving hf hr' p)) (fun _ s₁ h₁ => ?_) fun _ _ h₁ => h₁.1.elim
  obtain ⟨htold, hr₁, -⟩ := h₁
  have htold' : s.Told (handled env p s.rx.msgIsBinary_) s₁ := ⟨htold.stays, htold.trace⟩
  exact wp_mono (wp_readLoop_extends hf hr₁ n) (fun _ _ hx => ⟨⟨s₁, htold', hx.1⟩, hx.2⟩)
    fun _ _ hx => ⟨s₁, htold', hx⟩

end Session.Disturbed

private theorem Session.Quiet.wp_step (h : s.Quiet) {i : Input} (hi : i.Exchanges) :
    wp (step env i) (fun _ s' => Tacit s s' ∧ s'.Quiet) (fun _ s' => Tacit s s') s := by
  cases i with
  | read c =>
    rw [step, wp_bind, wp_get]
    split
    · rename_i b hb
      rw [wp_ite]
      split
      · have hn : ¬ s.hs.connectState ≠ .handshakeComplete := not_not.mpr h.2
        rw [wp_bind, wp_modify, onRead, wp_bind, wp_get]
        dsimp only
        rw [if_neg hn]
        exact Session.Quiet.wp_tacit (s := { s with bev := some { b with input := b.input ++ c } })
          h ((steadies_rules env).readWebsocket _)
      · exact ⟨.refl s, h⟩
    · exact ⟨.refl s, h⟩
  | send msg => exact h.wp_tacit (steadies_runCall (.send msg) s)
  | _ => exact hi.elim

/-- A quiet session hears nothing in the rest of the schedule. -/
theorem Session.Quiet.wp_exchange (h : s.Quiet) {is : List Input} (hin : ∀ i ∈ is, i.Exchanges) :
    wp (run env is) (fun _ s' => Tacit s s') (fun _ s' => Tacit s s') s := by
  have hrun : wp (run env is) (fun _ s' => Tacit s s' ∧ s'.Quiet) (fun _ s' => Tacit s s') s := by
    refine wp_runAll (C := fun i _ => i.Exchanges) (fun i u hu hi => ?_) ⟨.refl s, h⟩
      (along_of_forall hin s)
    exact wp_mono (hu.2.wp_step hi) (fun _ _ hv => ⟨hu.1.trans hv.1, hv.2⟩)
      fun _ _ hv => hu.1.trans hv
  exact wp_mono hrun (fun _ _ hs => hs.1) fun _ _ hs => hs

/-- Whatever is sent and read, the session goes on. -/
theorem wp_exchange_extends (hf : env.NoFault) (hr : s.Receiving b) {is : List Input}
    (hin : ∀ i ∈ is, i.Exchanges) :
    wp (run env is) (fun _ => s.Extends) (fun _ => s.Extends) s := by
  have hstep : ∀ i (u : Session), (s.Extends u ∧ ∃ b', u.Receiving b') → i.Exchanges →
      wp (step env i) (fun _ v => s.Extends v ∧ ∃ b', v.Receiving b') (fun _ => s.Extends) u := by
    rintro i u ⟨hu, b', hr'⟩ hi
    cases i with
    | read c =>
      exact wp_mono (wp_step_read_extends hf hr' c) (fun _ _ hv => ⟨hu.trans hv.1, hv.2⟩)
        fun _ _ hv => hu.trans hv
    | send msg =>
      have hsends : Moves Sends AnyTrap (step env (.send msg)) u :=
        moves_bind Sends.trans (sends_doSendMsg msg u) fun _ _ _ => moves_pure Sends.refl _ _
      have hext : ∀ v, Sends u v → s.Extends v := by
        rintro v ⟨h', io, rfl, -, evs, he, -⟩
        exact hu.trans ⟨evs, he⟩
      refine wp_mono hsends (fun _ v hv => ⟨hext v hv, b', ?_⟩) fun _ v hv => hext v hv.1
      obtain ⟨h', io, rfl, -⟩ := hv
      exact { hr' with sane := { hr'.sane with } }
    | _ => exact hi.elim
  have hrun : wp (run env is) (fun _ u => s.Extends u ∧ ∃ b', u.Receiving b')
      (fun _ => s.Extends) s :=
    wp_runAll (C := fun i _ => i.Exchanges) hstep ⟨⟨[], (List.append_nil _).symm⟩, b, hr⟩
      (along_of_forall hin s)
  exact wp_mono hrun (fun _ _ hs => hs.1) fun _ _ hs => hs

/-! ## What is heard after it -/

private theorem Session.NotFirst.of_tacit {e : Event} {s' : Session} (h : Tacit s s') :
    s.NotFirst e s' := by
  obtain ⟨evs, he, hn⟩ := h
  refine ⟨evs, he, ?_⟩
  rw [List.filter_eq_nil_iff.mpr fun e' hmem => by simp [hn e' hmem]]
  simp

private theorem Session.NotFirst.of_told {e e' : Event} {s₁ s₂ : Session} (h : s.Told [e'] s₁)
    (h' : s₁.Extends s₂) (hne : e' ≠ e) : s.NotFirst e s₂ := by
  obtain ⟨-, evs, he, hm, -⟩ := h
  obtain ⟨evs', he'⟩ := h'
  refine ⟨evs ++ evs', by rw [he', he, List.append_assoc], ?_⟩
  rw [List.filter_append, hm]
  simpa using hne

private theorem Tacit.notFirst {e : Event} {s₁ s₂ : Session} (h : Tacit s s₁)
    (h' : s₁.NotFirst e s₂) :
    s.NotFirst e s₂ := by
  obtain ⟨evs, he, hn⟩ := h
  obtain ⟨evs', he', hh⟩ := h'
  refine ⟨evs ++ evs', by rw [he', he, List.append_assoc], ?_⟩
  rw [List.filter_append, List.filter_eq_nil_iff.mpr fun e' hmem => by simp [hn e' hmem]]
  exact hh

/-- Behind a send inside a payload, the message is not the next one that is heard. -/
theorem Session.Disturbed.wp_notFirst (hf : env.NoFault) (hq : env.app.NeverCloses)
    {handler : List Event → List AppCall} (ha : env.app.onMessage = some handler)
    {x y : UInt8} (hy : y ^^^ x = 0xFF) {p q z : Bytes} (hp : p.length ≤ 125) (hpq : p ≠ q)
    {is : List Input} (hin : ∀ i ∈ is, i.Exchanges) (hz : readBytes is = y :: z) {m : Nat}
    (hm : m ≤ 125) (h : s.Disturbed b p x m) :
    wp (run (env.drawing fun _ => x) is) (fun _ => s.NotFirst (.onMessage q false))
      (fun _ => s.NotFirst (.onMessage q false)) s := by
  have hf' : (env.drawing fun _ => x).NoFault := hf
  have hq' : (env.drawing fun _ => x).app.NeverCloses := hq
  induction is generalizing s b m with
  | nil => cases hz
  | cons i is ih =>
    obtain ⟨hi, his⟩ := List.forall_mem_cons.mp hin
    rw [run, runAll_cons, wp_bind]
    cases i with
    | send msg =>
      refine (wp_of_eq_ok (step_send_ok hf' h.isOpen hi)).mpr ?_
      have htacit : Tacit s (s.sentFrame (env.drawing fun _ => x) .text msg) :=
        ⟨sentEvents _ _ _ _, rfl, by simp [sentEvents, Event.isMessage]⟩
      exact wp_mono (ih his hz hi (h.sent hi)) (fun _ _ hs => htacit.notFirst hs)
        fun _ _ hs => htacit.notFirst hs
    | read c =>
      cases c with
      | nil =>
        have hnil : b.input ++ [] = [] := by rw [h.input, List.append_nil]
        have hidle : step (env.drawing fun _ => x) (.read []) s = .ok () (s.received b []) :=
          (step_read_receiving h.receiving []).trans
            (readLoop_nil (h.receiving.received []).reading hnil _)
        refine (wp_of_eq_ok hidle).mpr ?_
        exact ih his hz hm { h with
          receiving := h.receiving.received []
          input := hnil
          isOpen := { h.isOpen with bev := (by rintro ⟨⟩) } }
      | cons y' c =>
        cases hz
        by_cases hmp : m = p.length
        · have hheard : handled (env.drawing fun _ => x) p s.rx.msgIsBinary_ =
              [.onMessage p s.rx.msgIsBinary_] := by
            rw [handled, Env.drawing, ha]
          have hne : Event.onMessage p s.rx.msgIsBinary_ ≠ .onMessage q false := by simp [hpq]
          have hshort := h.cutShort hf' hq' hp hmp (c := y :: c) (by rintro ⟨⟩)
          rw [hheard] at hshort
          refine wp_mono hshort (fun _ s₁ h₁ => ?_) fun _ s₁ h₁ => ?_
          · obtain ⟨⟨s₀, htold, hext⟩, b₁, hr₁⟩ := h₁
            exact wp_mono (wp_exchange_extends hf' hr₁ his)
              (fun _ _ h₂ => .of_told htold (hext.trans h₂) hne)
              fun _ _ h₂ => .of_told htold (hext.trans h₂) hne
          · obtain ⟨s₀, htold, hext⟩ := h₁
            exact .of_told htold hext hne
        · refine wp_mono (h.refused hp hm hmp hy c) (fun _ s₁ h₁ => ?_) fun _ _ h₁ => .of_tacit h₁
          exact wp_mono (h₁.2.wp_exchange his) (fun _ _ h₂ => .of_tacit (h₁.1.trans h₂))
            fun _ _ h₂ => .of_tacit (h₁.1.trans h₂)
    | _ => exact hi.elim

/-- Inside a payload the buffer is empty. -/
theorem Session.Follows.inFrame {z : Bytes} (h : s.Follows b fs z) (hu : undue fs z.length = fs)
    (hp : InPayload fs z.length) :
    ∃ f gs k, fs = f :: gs ∧ s.InFrame f k ∧ k < f.payload.length ∧
      z = f.payload.drop k ++ stream gs := by
  cases h.awaits with
  | between hb hst =>
    cases fs with
    | nil => exact hp.elim
    | cons f fs =>
      have hshort := h.starved.outside f rfl hb.hasHeader
      have hz := not_le_of_undue hu
      have hlen := congrArg List.length hst
      rw [InPayload, if_neg hz] at hp
      rw [stream_cons, List.length_append, List.length_append, Frame.length_bytes] at hlen
      omega
  | @inside f fs k _ hi hk _ hst =>
    rw [h.starved.inside hi.hasHeader, List.nil_append] at hst
    exact ⟨f, fs, k, rfl, hi, hk, hst⟩

/-- A send inside a payload. -/
theorem Session.InFrame.disturbed {k : Nat} (h : s.InFrame f k) (hr : s.Receiving b)
    (hin : b.input = []) (ho : s.Open) (hf : f.Ascii) (hk : k < f.payload.length) {msg : Bytes}
    (hlen : msg.length ≤ 125) (x : UInt8) :
    (s.sentFrame (env.drawing fun _ => x) .text msg).Disturbed b (f.payload.take k) x
      msg.length where
  receiving := hr.sentFrame msg
  input := hin
  isOpen := ho.sentFrame msg
  hasHeader := h.hasHeader
  fin := rfl
  opcode := rfl
  maskBit := rfl
  payloadLen := Nat.mod_eq_of_lt (by omega)
  mask := rfl
  recvFrameLen := by
    rw [List.length_take, Nat.min_eq_left hk.le]
    exact h.recvFrameLen
  utf8State := by
    obtain ⟨p, rfl, -, hp⟩ := hf
    exact h.utf8State.trans (validateUtf8_ascii fun x hx => hp x (List.mem_of_mem_take hx))
  msg := h.msg
  frameData := h.frameData

private theorem xor_flip (y : UInt8) : y ^^^ (0xFF ^^^ y) = 0xFF := by
  rw [UInt8.xor_comm 0xFF y, ← UInt8.xor_assoc, UInt8.xor_self, UInt8.zero_xor]

/-- Between `s` and `s'` other messages than `ms` were heard. -/
def Session.Strays (ms : List Event) (s s' : Session) : Prop :=
  ∃ evs, s'.io.trace = s.io.trace ++ evs ∧ evs.filter Event.isMessage ≠ ms

private theorem Session.Told.strays {ms ms' : List Event} {s₁ s₂ : Session} (h : s.Told ms s₁)
    (h' : s₁.Strays ms' s₂) : s.Strays (ms ++ ms') s₂ := by
  obtain ⟨-, evs, he, hm, -⟩ := h
  obtain ⟨evs', he', hne⟩ := h'
  refine ⟨evs ++ evs', by rw [he', he, List.append_assoc], ?_⟩
  rw [List.filter_append, hm, ne_eq, List.append_cancel_left_eq]
  exact hne

private theorem Session.NotFirst.strays {e : Event} {ms : List Event} {s' : Session}
    (h : s.NotFirst e s') : s.Strays (e :: ms) s' := by
  obtain ⟨evs, he, hne⟩ := h
  refine ⟨evs, he, fun heq => hne ?_⟩
  rw [heq, List.head?_cons]

/-- With a send inside a payload there is a key for which other messages are heard. -/
theorem exists_stray (hf : env.NoFault) (hq : env.app.NeverCloses)
    {handler : List Event → List AppCall} (ha : env.app.onMessage = some handler)
    {is : List Input} (hin : ∀ i ∈ is, i.Exchanges) (hu : undue fs (readBytes is).length = fs)
    (hw : ∀ f ∈ fs, f.Ascii) (hn : ¬ SendsPass fs is) :
    ∃ x : UInt8, ∀ (s : Session) (b : Bufferevent), s.Follows b fs (readBytes is) →
      wp (run (env.drawing fun _ => x) is) (fun _ => s.Strays (messages env fs))
        (fun _ => s.Strays (messages env fs)) s := by
  induction is generalizing fs with
  | nil => exact absurd (fun before msg after heq => by simp at heq) hn
  | cons i is ih =>
    obtain ⟨hi, his⟩ := List.forall_mem_cons.mp hin
    cases i with
    | read c =>
      have hrest : ¬ SendsPass (undue fs (readBytes is).length) is := fun hp =>
        hn (sendsPass_read.mpr ((sendsPass_undue le_rfl).mp hp))
      have hw' : ∀ f ∈ undue fs (readBytes is).length, f.Ascii := fun f hmem =>
        hw f ((undue_suffix fs _).mem hmem)
      obtain ⟨x, hx⟩ := ih his (undue_undue fs _) hw' hrest
      refine ⟨x, fun s b h => ?_⟩
      rw [run, runAll_cons, wp_bind]
      have hnofault : (env.drawing fun _ => x).NoFault := hf
      refine wp_mono (Session.Follows.reads hnofault hq (z := readBytes is) h hw)
        (fun _ s₁ h₁ => ?_) fun _ _ hs => hs.elim
      obtain ⟨htold, b₁, h₁⟩ := h₁
      have hall : ∀ {s₂ : Session}, s₁.Strays (messages env (undue fs (readBytes is).length)) s₂ →
          s.Strays (messages env fs) s₂ := by
        intro s₂ h₂
        rw [← messages_due_undue env fs (readBytes is).length]
        exact htold.strays h₂
      exact wp_mono (hx s₁ b₁ h₁) (fun _ _ h₂ => hall h₂) fun _ _ h₂ => hall h₂
    | send msg =>
      by_cases hp : InPayload fs (readBytes is).length
      · refine ⟨0xFF ^^^ (readBytes is).headD 0, fun s b h => ?_⟩
        obtain ⟨f, gs, k, rfl, hinf, hk, hz⟩ := h.inFrame hu hp
        obtain ⟨hwf, -⟩ := List.forall_mem_cons.mp hw
        obtain ⟨y, ys, hy⟩ := List.exists_cons_of_length_pos
          (show 0 < (f.payload.drop k).length by rw [List.length_drop]; omega)
        have hread : readBytes is = y :: (ys ++ stream gs) := by
          refine hz.trans ?_
          rw [hy, List.cons_append]
        have hopen : b.input = [] := h.starved.inside hinf.hasHeader
        have hshort : (f.payload.take k).length ≤ 125 ∧ f.payload.take k ≠ f.payload := by
          have hfit : f.payload.length ≤ 125 := by
            obtain ⟨p, rfl, hlen, -⟩ := hwf
            exact hlen
          refine ⟨by rw [List.length_take]; omega, fun heq => ?_⟩
          have hlen := congrArg List.length heq
          rw [List.length_take] at hlen
          omega
        have hfirst : messages env (f :: gs) = .onMessage f.payload false :: messages env gs := by
          obtain ⟨p, rfl, -⟩ := hwf
          rw [messages, List.flatMap_cons, handled, ha]
          rfl
        rw [hread, List.headD_cons, run, runAll_cons, wp_bind, hfirst]
        have hnofault : (env.drawing fun _ => 0xFF ^^^ y).NoFault := hf
        refine (wp_of_eq_ok (step_send_ok hnofault h.isOpen hi)).mpr ?_
        have htacit : Tacit s (s.sentFrame (env.drawing fun _ => 0xFF ^^^ y) .text msg) :=
          ⟨sentEvents _ _ _ _, rfl, by simp [sentEvents, Event.isMessage]⟩
        have hdist : (s.sentFrame (env.drawing fun _ => 0xFF ^^^ y) .text msg).Disturbed b _ _ _ :=
          hinf.disturbed h.receiving hopen h.isOpen hwf hk hi (0xFF ^^^ y)
        exact wp_mono (hdist.wp_notFirst hf hq ha (xor_flip y) hshort.1 hshort.2 his hread hi)
          (fun _ _ hs => (htacit.notFirst hs).strays) fun _ _ hs => (htacit.notFirst hs).strays
      · have hrest : ¬ SendsPass fs is := fun hpass => hn (sendsPass_send.mpr ⟨hp, hpass⟩)
        obtain ⟨x, hx⟩ := ih his hu hw hrest
        refine ⟨x, fun s b h => ?_⟩
        rw [run, runAll_cons, wp_bind]
        have hnofault : (env.drawing fun _ => x).NoFault := hf
        refine wp_mono (Session.Follows.sends hnofault (z := readBytes is) h hu hp hi)
          (fun _ s₁ h₁ => ?_) fun _ _ hs => hs.elim
        exact wp_mono (hx s₁ b h₁.2) (fun _ _ h₂ => h₁.1.strays h₂) fun _ _ h₂ => h₁.1.strays h₂
    | _ => exact hi.elim

/-! ## Two runs -/

/-- The messages that have been heard at the end of a run. -/
def heardAfter (env : Env) (inputs : List Input) (s : Session) : List Event :=
  (traceAfter env inputs s).filter Event.isMessage

/-- What the application has heard is what it was told. -/
theorem Session.Told.heard {ms : List Event} {inputs : List Input}
    (h : s.Told ms (finalState (run env inputs s))) :
    heardAfter env inputs s = s.io.trace.filter Event.isMessage ++ ms := by
  obtain ⟨-, evs, he, hm, -⟩ := h
  rw [heardAfter, traceAfter, he, List.filter_append, hm]

/-- Whatever keys are drawn, the application hears what it would hear without its own sends,
exactly when no send is made inside a payload. -/
theorem heard_undisturbed_iff (hf : env.NoFault) (hq : env.app.NeverCloses)
    {handler : List Event → List AppCall} (ha : env.app.onMessage = some handler) (hs : s.Fresh)
    {ps : List Bytes} (hlen : ∀ p ∈ ps, p.length ≤ 125) (hascii : ∀ p ∈ ps, ∀ x ∈ p, x < 0x80)
    {inputs : List Input} (hin : ∀ i ∈ inputs, i.Exchanges)
    (hreads : readBytes inputs = stream (ps.map Frame.text)) :
    (∀ r, heardAfter (env.drawing r) inputs s =
      heardAfter (env.drawing r) (inputs.filter Input.isRead) s) ↔ SendsOutside ps inputs := by
  have hw : ∀ f ∈ ps.map Frame.text, f.Ascii := by
    intro f hmem
    obtain ⟨p, hp, rfl⟩ := List.mem_map.mp hmem
    exact ⟨p, rfl, hlen p hp, hascii p hp⟩
  have hfollows : ∀ is : List Input, readBytes is = stream (ps.map Frame.text) →
      s.Follows { input := [], readEnabled := true } (ps.map Frame.text) (readBytes is) ∧
        undue (ps.map Frame.text) (readBytes is).length = ps.map Frame.text := by
    intro is his
    have hawaits := hs.awaits (ps.map Frame.text)
    rw [← his] at hawaits
    exact ⟨⟨hs.receiving, hawaits, Session.starved_of_nil rfl, hs.isOpen⟩, (hawaits.waits rfl).2⟩
  have htold : ∀ (is : List Input) (r : Nat → UInt8), (∀ i ∈ is, i.Exchanges) →
      readBytes is = stream (ps.map Frame.text) → SendsPass (ps.map Frame.text) is →
      heardAfter (env.drawing r) is s =
        s.io.trace.filter Event.isMessage ++ messages env (ps.map Frame.text) := by
    intro is r hin' his hp
    obtain ⟨hfol, hu⟩ := hfollows is his
    have hnofault : (env.drawing r).NoFault := hf
    exact (final_of_wp (wp_exchange_told hnofault hq hin' hfol hu hw hp)).heard
  have hquiet : SendsPass (ps.map Frame.text) (inputs.filter Input.isRead) := by
    intro before msg after heq
    have hmem : Input.send msg ∈ inputs.filter Input.isRead := by simp [heq]
    exact absurd (List.mem_filter.mp hmem).2 (by simp [Input.isRead])
  have honly := fun r => htold (inputs.filter Input.isRead) r
    (fun i hi => hin i (List.mem_filter.mp hi).1) ((readBytes_filter inputs).trans hreads) hquiet
  rw [← sendsPass_iff_sendsOutside hreads]
  constructor
  · intro hsame
    by_contra hn
    obtain ⟨hfol, hu⟩ := hfollows inputs hreads
    obtain ⟨x, hx⟩ := exists_stray hf hq ha hin hu hw hn
    obtain ⟨evs, he, hne⟩ := wp_final.mp (hx s _ hfol)
    have hheard := (hsame fun _ => x).trans (honly _)
    rw [heardAfter, traceAfter, he, List.filter_append, List.append_cancel_left_eq] at hheard
    exact hne hheard
  · intro hp r
    rw [honly r, htold inputs r hin hreads hp]

/-- A message sent between two frames. -/
theorem heard_undisturbed_sample :
    let inputs : List Input := [.read [0x81, 0x01, 0x41], .send [0x42], .read [0x81, 0x01, 0x43]]
    SendsOutside [[0x41], [0x43]] inputs ∧
      ∀ r, heardAfter (listener.drawing r) inputs justOpened =
        heardAfter (listener.drawing r) (inputs.filter Input.isRead) justOpened := by
  intro inputs
  have hquiet : listener.app.NeverCloses := by
    rintro handler ⟨⟩ trace
    simp
  have hlen : ∀ p ∈ ([[0x41], [0x43]] : List Bytes), p.length ≤ 125 := by decide
  have houtside : SendsOutside [[0x41], [0x43]] inputs := by
    intro before msg after heq
    simp only [inputs] at heq
    rcases before with _ | ⟨i, _ | ⟨j, _ | ⟨k, before⟩⟩⟩
    · cases heq
    · cases heq
      simp [OutsidePayload, readBytes, Input.bytes]
    · cases heq
    · cases before <;> cases heq
  exact ⟨houtside, (heard_undisturbed_iff (fun _ => rfl) hquiet rfl justOpened_fresh hlen (by simp)
    (by simp [inputs, Input.Exchanges]) (by decide)).mpr houtside⟩

/-- A message of one octet, sent behind the first octet of a payload, ends the payload there. -/
theorem heard_disturbed_inside_payload :
    ¬ ∀ (env : Env) (s : Session) (ps : List Bytes) (inputs : List Input), env.NoFault →
      s.Fresh → (∀ p ∈ ps, p.length ≤ 125) → (∀ p ∈ ps, ∀ x ∈ p, x < 0x80) →
      (∀ i ∈ inputs, i.Exchanges) → readBytes inputs = stream (ps.map Frame.text) →
      heardAfter env inputs s = heardAfter env (inputs.filter Input.isRead) s := by
  intro h
  have hne : heardAfter listener [.read [0x81, 0x02, 0x41], .send [0x42], .read [0x43]] justOpened ≠
      heardAfter listener [.read [0x81, 0x02, 0x41], .read [0x43]] justOpened := by
    decide +kernel
  exact hne (h listener justOpened [[0x41, 0x43]] _ (fun _ => rfl) justOpened_fresh (by decide)
    (by simp) (by simp [Input.Exchanges]) (by decide))

end CppImprovement.Ws

import CppImprovement.Net.Ws.Outgoing
import CppImprovement.Net.Ws.Remaining

/-!
# Masked frames in several reads

A masked payload is unmasked chunk by chunk as it arrives, and every chunk is unmasked from the
first octet of the key. The frame buffer is followed here through the rounds and the reads. It
comes to hold the payload exactly when, for every chunk, the key seen from its begin is the key
seen from where the chunk lies in the payload. Where that fails a chunk is garbled, or refused as
text and missing, and the octets that are left do not make up for it.
-/

namespace CppImprovement.Ws

variable {env : Env} {s t u v : Session} {b : Bufferevent} {c p : Bytes} {n : Nat}

/-! ## What goes to the frame buffer -/

/-- What is done with the octets taken, up to the test for the end of the frame. -/
def storeChunk (env : Env) (buf : Bytes) : M Int := do
  checkUtf8 env buf
  handleFrameData env buf

/-- The test for the end of the frame. -/
def endChunk (env : Env) (rc : Int) : M Unit := do
  let s ← get
  if rc = 0 ∧ s.rx.recvFrameLen = s.wsHeader.payloadLen then
    endFrame env
  else
    pure ()

/-- A chunk is stored, and then the frame is ended if it is complete. -/
theorem handleChunk_eq (env : Env) (buf : Bytes) (s : Session) :
    handleChunk env buf s = (storeChunk env buf >>= endChunk env) s := by
  cases hc : checkUtf8 env buf s with
  | error e t => rw [handleChunk, storeChunk, bind_eq_of_error hc,
      bind_eq_of_error (bind_eq_of_error hc)]
  | ok a t =>
    have hs : storeChunk env buf s = handleFrameData env buf t := bind_eq_of_ok hc
    rw [handleChunk, bind_eq_of_ok hc]
    cases hd : handleFrameData env buf t with
    | error e w => rw [bind_eq_of_error hd, bind_eq_of_error (hs.trans hd)]
    | ok rc w =>
      rw [bind_eq_of_ok hd, bind_eq_of_ok (hs.trans hd)]
      rfl

/-- A data chunk is appended as it is. -/
theorem handleFrameData_appends (env : Env) {frame : Bytes}
    (hc : isControlOpcode s.wsHeader.opcode = false) (hd : s.rx.frameData = some frame) :
    handleFrameData env c s = .ok 0 { s with rx.frameData := some (frame ++ c) } := by
  apply eq_ok_of_wp
  rw [handleFrameData, wp_bind, wp_get, wp_ite, if_neg (by simp [hc]), hd]
  exact ⟨rfl, rfl⟩

/-- The loop entered in `s` has stored a chunk in `v`. -/
def StoredPoint (env : Env) (s v : Session) : Prop :=
  ∃ u rc, PayloadPoint env s u ∧ u.remaining ≠ 0 ∧
    storeChunk env (unmaskChunk u.wsHeader u.chunk) u.chunkTaken = .ok rc v

/-- While the reads are handled a chunk is stored that brings the frame buffer to hold `p`, if
there is anything to store. -/
def Collects (env : Env) (s : Session) (reads : List Bytes) (p : Bytes) : Prop :=
  p ≠ [] → ∃ v, DuringReads env (StoredPoint env) s reads v ∧ v.rx.frameData = some p

/-! ## The frame buffer under a read -/

/-- The frame buffer is the same, gone or a new one. -/
def Refills (s s' : Session) : Prop :=
  s'.rx.frameData = s.rx.frameData ∨ s'.rx.frameData = none ∨ s'.rx.frameData = some []

private theorem refills_refl (s : Session) : Refills s s := Or.inl rfl

private theorem refills_trans (a b c : Session) (h : Refills a b) (h' : Refills b c) :
    Refills a c := by
  rcases h' with h' | h'
  · rw [Refills, h']
    exact h
  · exact Or.inr h'

private theorem Retains.refills (h : Retains s t) : Refills s t := Or.inl h.frameData

private theorem refills_close (status : WSCloseStatus) (reason : Bytes) (s : Session) :
    Moves Refills AnyTrap (closeWithStatusReason env status reason) s :=
  (retains_closeWithStatusReason status reason s).imp fun _ h => h.refills

private theorem refills_runCall (call : AppCall) (s : Session) :
    Moves Refills AnyTrap (runCall env call) s := by
  cases call with
  | send msg =>
    refine moves_bind refills_trans ?_ fun _ _ _ => moves_pure refills_refl _ _
    refine wp_mono (wp_doSendMsg_writes msg s) (fun _ _ h => h.2.retains.refills) fun _ u h => ?_
    cases h
    exact ⟨refills_refl s, trivial⟩
  | close =>
    exact moves_bind refills_trans (refills_close _ _ s) fun _ _ _ => moves_pure refills_refl _ _
  | connect =>
    refine moves_bind refills_trans (moves_get_bind ?_) fun _ _ _ => moves_pure refills_refl _ _
    refine moves_ite (fun _ => moves_pure refills_refl _ _) fun _ => ?_
    have hsame : ∀ t : Session, t.rx.frameData = s.rx.frameData → Refills s t := fun _ => Or.inl
    simp only [Moves, setupConnectionTimeout, callFails, emit, wp_bind, wp_modify, wp_modifyGet,
      wp_ite, wp_pure]
    repeat' split
    all_goals exact hsame _ rfl

/-- The end of a frame leaves the frame buffer or none. -/
theorem refills_endFrame (s : Session) : Moves Refills AnyTrap (endFrame env) s := by
  refine moves_bind refills_trans ?_ fun _ _ _ => moves_pure refills_refl _ _
  refine moves_get_bind (moves_ite (fun _ => ?_) fun _ => ?_)
  · refine moves_modify_bind refills_trans (Or.inl rfl) ?_
    exact (retains_handleControlFrame _).imp fun _ h => h.refills
  refine moves_bind refills_trans (moves_get_bind ?_) fun _ s₁ _ => ?_
  · split
    · exact Or.inr (Or.inl rfl)
    · exact moves_throw refills_refl trivial _
  refine moves_bind refills_trans ?_ fun _ s₂ _ =>
    moves_modify_bind refills_trans (Or.inl rfl) (moves_pure refills_refl _ _)
  refine moves_get_bind (moves_ite (fun _ => ?_) fun _ => moves_pure refills_refl _ _)
  refine moves_bind refills_trans (moves_get_bind ?_) fun _ _ _ => Or.inl rfl
  split
  · exact moves_throw refills_refl trivial _
  refine moves_bind refills_trans (moves_get_bind ?_) fun _ _ _ => Or.inl rfl
  split
  · exact moves_pure refills_refl _ _
  refine moves_ite (fun _ => moves_pure refills_refl _ _) fun _ => ?_
  refine moves_bind refills_trans (Or.inl rfl) fun _ _ _ => moves_get_bind ?_
  exact moves_runAll refills_refl refills_trans refills_runCall _ _

private theorem refills_handleFrameBegin (s : Session) :
    Moves Refills AnyTrap (handleFrameBegin env) s := by
  have hcall : ∀ u : Session, Moves Refills AnyTrap (callFails env) u := fun _ => Or.inl rfl
  refine moves_modify_bind refills_trans (Or.inl rfl) (moves_get_bind ?_)
  refine moves_ite (fun _ => Or.inl rfl) fun _ => ?_
  refine moves_bind refills_trans ?_ fun _ s₁ _ => ?_
  · refine moves_get_bind (moves_ite (fun _ => moves_pure refills_refl _ _) fun _ => ?_)
    refine moves_modify_bind refills_trans (Or.inl rfl) ?_
    exact moves_bind refills_trans (hcall _) fun _ _ _ => Or.inl rfl
  · refine moves_bind refills_trans (hcall _) fun failed s₂ _ => ?_
    cases failed with
    | true => exact Or.inr (Or.inl rfl)
    | false => exact Or.inr (Or.inr rfl)

/-- The header part makes a new frame buffer at most. -/
theorem refills_needHeader (input : Bytes) (s : Session) :
    Moves Refills AnyTrap (needHeader env input) s := by
  refine moves_get_bind (moves_ite (fun _ => moves_pure refills_refl _ _) fun _ => ?_)
  refine moves_get_bind (moves_modify_bind refills_trans (Or.inl rfl) ?_)
  refine moves_ite (fun _ => moves_throw refills_refl trivial _) fun _ => ?_
  split
  · refine moves_modify_bind refills_trans (Or.inl rfl) ?_
    refine moves_modify_bind refills_trans (Or.inl (by rw [Session.drain_rx])) ?_
    exact moves_bind refills_trans (refills_handleFrameBegin _) fun _ _ _ =>
      moves_pure refills_refl _ _
  · exact moves_pure refills_refl _ _
  · exact moves_bind refills_trans (refills_close _ _ _) fun _ _ _ => moves_pure refills_refl _ _
  · exact moves_bind refills_trans (refills_handleFrameBegin _) fun _ _ _ =>
      moves_pure refills_refl _ _

private theorem retains_checkUtf8 (buf : Bytes) (s : Session) :
    Moves Retains AnyTrap (checkUtf8 env buf) s := by
  refine moves_get_bind (moves_ite (fun _ => ?_) fun _ => moves_pure Retains.refl _ _)
  refine moves_modify_bind Retains.trans ⟨Or.inr rfl, rfl, rfl, rfl, rfl, rfl⟩ (moves_get_bind ?_)
  refine moves_ite (fun _ => ?_) fun _ => moves_pure Retains.refl _ _
  exact moves_bind Retains.trans (retains_closeWithStatusReason _ _ _) fun _ _ _ =>
    moves_pure Retains.refl _ _

/-- A chunk is appended to the frame buffer whole or not at all. -/
theorem wp_storeChunk_frameData (buf : Bytes) (s : Session) :
    wp (storeChunk env buf)
      (fun _ t => t.inBuf = s.inBuf ∧ (t.rx.frameData = s.rx.frameData ∨
        ∃ d, s.rx.frameData = some d ∧ t.rx.frameData = some (d ++ buf)))
      (fun _ _ => True) s := by
  rw [storeChunk, wp_bind]
  refine wp_mono (retains_checkUtf8 buf s) (fun _ u hu => ?_) fun _ _ _ => trivial
  rw [← hu.inBuf, ← hu.frameData, handleFrameData, wp_bind, wp_get, wp_ite]
  split
  · rw [wp_ite]
    split
    · rw [wp_bind]
      refine wp_mono (retains_closeWithStatusReason _ _ u) (fun _ w hw => ?_) fun _ _ _ => trivial
      rw [wp_bind, wp_modify]
      exact ⟨hw.inBuf, Or.inl hw.frameData⟩
    · rw [wp_bind, wp_modify]
      exact ⟨rfl, Or.inl rfl⟩
  · split
    · trivial
    · rename_i d hd
      rw [wp_bind, wp_modify]
      exact ⟨rfl, Or.inr ⟨d, hd, rfl⟩⟩

/-! ## Buffers that fall short -/

theorem length_unmaskChunk (h : WSHeader) (c : Bytes) : (unmaskChunk h c).length = c.length := by
  rw [unmaskChunk]
  split
  · exact length_maskPayload h.mask c
  · rfl

/-- With `n` octets to come the frame buffer does not come to hold `p`: too few are left for a new
frame, and what it holds now is no begin of `p` or too short. -/
structure Session.Short (s : Session) (p : Bytes) (n : Nat) : Prop where
  left : s.inBuf.length + n < p.length
  frameData : ∀ d, s.rx.frameData = some d → d <+: p → d.length + s.inBuf.length + n < p.length

namespace Session.Short

/-- A buffer that cannot come to hold `p` does not hold it. -/
theorem ne (h : s.Short p n) : s.rx.frameData ≠ some p := by
  intro hp
  have := h.frameData p hp List.prefix_rfl
  omega

private theorem refills (h : s.Short p n) (hs : Shrinks s t) (hr : Refills s t) : t.Short p n := by
  have hle := hs.inBuf.length_le
  have hleft := h.left
  refine ⟨by omega, fun d hd hp => ?_⟩
  rcases hr with hr | hr | hr
  · have := h.frameData d (hr.symm.trans hd) hp
    omega
  · cases hr.symm.trans hd
  · cases hr.symm.trans hd
    rw [List.length_nil]
    omega

/-- The end of a frame leaves the buffer short. -/
theorem endFrame (h : s.Short p n) :
    wp (endFrame env) (fun _ t => t.Short p n) (fun _ _ => True) s :=
  wp_mono (wp_and ((shrinks_rules env).endFrame s) (refills_endFrame s))
    (fun _ _ ht => h.refills ht.1 ht.2) fun _ _ _ => trivial

/-- The end of a chunk leaves the buffer short. -/
theorem endChunk (h : s.Short p n) (rc : Int) :
    wp (endChunk env rc) (fun _ t => t.Short p n) (fun _ _ => True) s := by
  rw [Ws.endChunk, wp_bind, wp_get, wp_ite]
  split
  · exact h.endFrame
  · exact h

/-- What a chunk adds to the frame buffer is taken off the input. -/
theorem stored (h : s.Short p n) {buf : Bytes} (hbuf : buf.length = s.chunk.length) :
    wp (storeChunk env buf) (fun _ t => t.Short p n) (fun _ _ => True) s.chunkTaken := by
  obtain ⟨bev, detached, heq⟩ := s.chunkTaken_eq
  have hin : s.chunkTaken.inBuf = s.inBuf.drop s.remaining := s.inBuf_drain s.remaining
  have hrx : s.chunkTaken.rx.frameData = s.rx.frameData := by rw [heq]
  have hsplit : s.chunk.length + s.chunkTaken.inBuf.length = s.inBuf.length := by
    rw [hin, Session.chunk, ← List.length_append, List.take_append_drop]
  have hleft := h.left
  refine wp_mono (wp_storeChunk_frameData buf _) (fun _ t ht => ?_) fun _ _ _ => trivial
  obtain ⟨htin, htd⟩ := ht
  rw [hrx] at htd
  refine ⟨by rw [htin]; omega, fun d hd hp => ?_⟩
  rw [htin]
  rcases htd with hsame | ⟨d₀, hd₀, happ⟩
  · have := h.frameData d (hsame.symm.trans hd) hp
    omega
  · cases happ.symm.trans hd
    have := h.frameData d₀ hd₀ ((List.prefix_append _ _).trans hp)
    rw [List.length_append]
    omega

/-- The payload part of a round leaves the buffer short. -/
theorem readPayload (h : s.Short p n) :
    wp (readPayload env) (fun _ t => t.Short p n) (fun _ _ => True) s := by
  by_cases hr : s.remaining = 0
  · rw [wp_congr (readPayload_ended hr)]
    exact h.endFrame
  · rw [wp_congr (readPayload_takes hr), wp_congr (handleChunk_eq _ _ _), wp_bind]
    exact wp_mono (h.stored (length_unmaskChunk _ _)) (fun rc _ ht => ht.endChunk rc)
      fun _ _ _ => trivial

/-- The header part of a round leaves the buffer short. -/
theorem needHeader (h : s.Short p n) (input : Bytes) :
    wp (needHeader env input) (fun _ t => t.Short p n) (fun _ _ => True) s :=
  wp_mono (wp_and (shrinks_needHeader input s) (refills_needHeader input s))
    (fun _ _ ht => h.refills ht.1 ht.2) fun _ _ _ => trivial

/-- A loop that falls short stores nothing that makes up for it. -/
theorem storedPoint (h : s.Short p n) (hv : StoredPoint env s v) : v.Short p n := by
  obtain ⟨u, rc, ⟨w, hw, -, -, hn⟩, -, hstore⟩ := hv
  have hwshort : w.Short p n := by
    refine hw.invariant (I := fun x => x.Short p n) h fun x y hx hround => ?_
    obtain ⟨-, -, z, hz, hp⟩ := payload_of_readRound hround
    exact (wp_of_eq_ok hp).mp ((wp_of_eq_ok hz).mp (hx.needHeader _)).readPayload
  have hu : u.Short p n := (wp_of_eq_ok hn).mp (hwshort.needHeader _)
  exact (wp_of_eq_ok hstore).mp (hu.stored (length_unmaskChunk _ _))

/-- The loop of `ReadWebsocket` leaves the buffer short. -/
theorem readLoop (h : s.Short p n) (m : Nat) :
    wp (readLoop env m) (fun _ t => t.Short p n) (fun _ _ => True) s := by
  induction m generalizing s with
  | zero => exact h
  | succ m ih =>
    rw [Ws.readLoop, wp_bind, wp_get, wp_ite]
    split
    · trivial
    · rw [wp_ite]
      split
      · exact h
      · rw [wp_bind]
        refine wp_mono (h.needHeader _) (fun goOn u hu => ?_) fun _ _ _ => trivial
        rw [wp_ite]
        split
        · rw [wp_bind]
          exact wp_mono hu.readPayload (fun _ w hw => ih hw) fun _ _ _ => trivial
        · exact hu

/-- A read brings octets that were to come. -/
theorem received (h : s.Short p (c.length + n)) (hr : s.Reading b) :
    (s.received b c).Short p n := by
  have hin : (s.received b c).inBuf = b.input ++ c :=
    Session.Reading.inBuf (b := { b with input := b.input ++ c }) ⟨rfl, hr.2⟩
  have hlen : (s.received b c).inBuf.length = s.inBuf.length + c.length := by
    rw [hin, hr.inBuf, List.length_append]
  have hleft := h.left
  refine ⟨by omega, fun d hd hp => ?_⟩
  have := h.frameData d hd hp
  omega

end Session.Short

/-- A read after the handshake is the loop over the input with its octets. -/
theorem step_read_loop (h : s.Ready) (hr : s.Reading b) (c : Bytes) :
    step env (.read c) s = readLoop env (2 * (b.input ++ c).length + 2) (s.received b c) := by
  have hin : (s.received b c).inBuf = b.input ++ c :=
    Session.Reading.inBuf (b := { b with input := b.input ++ c }) ⟨rfl, hr.2⟩
  rw [step_read_ready h hr, readWebsocket, get_bind, hin]
  rfl

/-- A point in the reads is in the first of them or in the others. -/
theorem duringReads_cons {P : Session → Session → Prop} {cs : List Bytes} :
    DuringReads env P s (c :: cs) v ↔
      (∃ b, s.Reading b ∧ P (s.received b c) v) ∨
        ∃ t, step env (.read c) s = .ok ⟨⟩ t ∧ DuringReads env P t cs v := by
  constructor
  · rintro ⟨cs', c', ds, t, b, heq, hrun, hr, hp⟩
    cases cs' with
    | nil =>
      obtain ⟨rfl, -⟩ := List.cons.inj heq
      cases hrun
      exact Or.inl ⟨b, hr, hp⟩
    | cons d cs' =>
      obtain ⟨rfl, rfl⟩ := List.cons.inj heq
      rw [List.map_cons, run, runAll_cons] at hrun
      cases hstep : step env (.read c) s with
      | error e w => cases (bind_eq_of_error hstep).symm.trans hrun
      | ok a w =>
        rw [bind_eq_of_ok hstep] at hrun
        exact Or.inr ⟨w, rfl, cs', c', ds, t, b, rfl, hrun, hr, hp⟩
  · rintro (⟨b, hr, hp⟩ | ⟨t, hstep, ht⟩)
    · exact ⟨[], c, cs, s, b, rfl, rfl, hr, hp⟩
    · exact ht.cons hstep

/-- Reads that fall short do not bring the frame buffer to hold the payload. -/
theorem Session.Short.not_collected {cs : List Bytes} (h : s.Short p cs.flatten.length)
    (hs : s.Ready) (hv : DuringReads env (StoredPoint env) s cs v) : v.rx.frameData ≠ some p := by
  induction cs generalizing s with
  | nil =>
    obtain ⟨cs', c, ds, -, -, heq, -⟩ := hv
    cases cs' <;> cases heq
  | cons c cs ih =>
    rw [List.flatten_cons, List.length_append] at h
    rcases duringReads_cons.mp hv with ⟨b, hr, hp⟩ | ⟨t, hstep, ht⟩
    · exact ((h.received hr).storedPoint hp).ne
    · refine ih ?_ (hs.step_read hstep) ht
      by_cases hr : ∃ b, s.Reading b
      · obtain ⟨b, hr⟩ := hr
        rw [step_read_loop hs hr] at hstep
        exact (wp_of_eq_ok hstep).mp ((h.received hr).readLoop _)
      · cases (step_read_idle (not_exists.mp hr) c).symm.trans hstep
        refine ⟨by have := h.left; omega, fun d hd hp => ?_⟩
        have := h.frameData d hd hp
        omega

/-! ## Keys -/

/-- The octets unmasked as they lie at position `k` of the payload. -/
def unmaskFrom (key : Mask) (k : Nat) (c : Bytes) : Bytes :=
  c.mapIdx fun j x => x ^^^ key.byte (k + j)

/-- The key goes on where the first part ends. -/
theorem unmaskFrom_append (key : Mask) (k : Nat) (c d : Bytes) :
    unmaskFrom key k (c ++ d) = unmaskFrom key k c ++ unmaskFrom key (k + c.length) d := by
  rw [unmaskFrom, List.mapIdx_append, unmaskFrom, unmaskFrom]
  congr 2
  funext j x
  rw [Nat.add_assoc, Nat.add_comm j]

theorem length_unmaskFrom (key : Mask) (k : Nat) (c : Bytes) :
    (unmaskFrom key k c).length = c.length := List.length_mapIdx

/-- The payload of a frame. -/
theorem WireFrame.payload_eq (f : WireFrame) : f.payload = unmaskFrom f.key 0 f.data := by
  rw [payload, unmaskPayload, maskPayload, unmaskFrom]
  simp only [Nat.zero_add]

/-- A chunk that lies at `k` is unmasked as it should be when the key looks alike from there. -/
theorem unmaskPayload_eq_iff {key : Mask} {k : Nat} :
    unmaskPayload key c = unmaskFrom key k c ↔
      ∀ j, j < c.length → key.byte j = key.byte (k + j) := by
  rw [unmaskPayload, maskPayload, unmaskFrom, List.ext_getElem_iff]
  simp only [List.length_mapIdx, true_and, List.getElem_mapIdx]
  constructor
  · intro h j hj
    exact (UInt8.xor_right_inj _).mp (h j hj hj)
  · intro h j hj _
    rw [h j hj]

/-- From the begin of every chunk the key looks as it does from where the chunk lies. -/
def KeyFollows (key : Mask) : Nat → List Bytes → Prop
  | _, [] => True
  | k, c :: cs =>
    (∀ j, j < c.length → key.byte j = key.byte (k + j)) ∧ KeyFollows key (k + c.length) cs

private theorem keyFollows_of_flatten_nil {key : Mask} {k : Nat} {cs : List Bytes}
    (h : cs.flatten = []) :
    KeyFollows key k cs := by
  induction cs generalizing k with
  | nil => trivial
  | cons c cs ih =>
    rw [List.flatten_cons, List.append_eq_nil_iff] at h
    refine ⟨fun j hj => ?_, ih h.2⟩
    rw [h.1] at hj
    cases hj

/-! ## Inside a masked frame -/

/-- The header of a frame, as it is unpacked. -/
def WireFrame.fields (f : WireFrame) : WSHeader :=
  wireFields f.fin false false false f.opcode (some f.key) f.data.length

/-- A short data frame, whose payload is ASCII. -/
structure WireFrame.Plain (f : WireFrame) : Prop where
  data : isControlOpcode f.opcode = false
  short : f.data.length ≤ 125
  ascii : ∀ x ∈ f.payload, x < 0x80

/-- The session is inside a masked frame, with `k` octets of its payload received. -/
structure Session.InMasked (s : Session) (f : WireFrame) (k : Nat) (b : Bufferevent) : Prop where
  ready : s.Ready
  reading : s.Reading b
  hasHeader : s.rx.hasHeader = true
  header : s.wsHeader = f.fields
  recvFrameLen : s.rx.recvFrameLen = k
  utf8State : s.rx.utf8State = WS_UTF8_ACCEPT
  frameData : s.rx.frameData = some (f.payload.take k)

section payload

variable {f : WireFrame} {k : Nat} {d : Bytes}

private theorem WireFrame.length_payload (f : WireFrame) : f.payload.length = f.data.length := by
  rw [f.payload_eq, length_unmaskFrom]

/-- The payload from `k` on. -/
theorem WireFrame.payload_split (f : WireFrame) (hd : f.data.drop k = c ++ d)
    (hk : k ≤ f.data.length) :
    f.payload =
      f.payload.take k ++ (unmaskFrom f.key k c ++ unmaskFrom f.key (k + c.length) d) := by
  have hlen : (f.data.take k).length = k := by
    rw [List.length_take]
    omega
  have hpay : f.payload = unmaskFrom f.key 0 (f.data.take k) ++ unmaskFrom f.key k (c ++ d) := by
    rw [f.payload_eq, ← hd]
    nth_rewrite 1 [← List.take_append_drop k f.data]
    rw [unmaskFrom_append, hlen, Nat.zero_add]
  have htake : f.payload.take k = unmaskFrom f.key 0 (f.data.take k) := by
    rw [hpay]
    exact List.take_left' (by rw [length_unmaskFrom, hlen])
  rw [htake, ← unmaskFrom_append]
  exact hpay

/-- The begin of the payload, with a chunk more. -/
theorem WireFrame.take_payload (f : WireFrame) (hd : f.data.drop k = c ++ d)
    (hk : k ≤ f.data.length) :
    f.payload.take (k + c.length) = f.payload.take k ++ unmaskFrom f.key k c := by
  have hlen : (f.payload.take k ++ unmaskFrom f.key k c).length = k + c.length := by
    rw [List.length_append, List.length_take, length_unmaskFrom, f.length_payload]
    omega
  have hsplit := congrArg (List.take (k + c.length)) (f.payload_split hd hk)
  rw [← List.append_assoc, List.take_left' hlen] at hsplit
  exact hsplit

/-- A masked frame is a data frame. -/
theorem Session.InMasked.not_control (h : s.InMasked f k b) (hf : f.Plain) :
    isControlOpcode s.wsHeader.opcode = false := by
  rw [h.header]
  exact hf.data

/-- The header announces the length of the payload. -/
theorem Session.InMasked.payloadLen (h : s.InMasked f k b) (hf : f.Plain) :
    s.wsHeader.payloadLen.val = f.data.length := by
  have hshort := hf.short
  rw [h.header]
  exact Nat.mod_eq_of_lt (by omega)

/-- The loop still wants the octets that have not come. -/
theorem Session.InMasked.remaining (h : s.InMasked f k b) (hf : f.Plain) (hk : k ≤ f.data.length) :
    s.remaining = f.data.length - k := by
  have hshort := hf.short
  rw [Session.remaining, h.payloadLen hf, h.recvFrameLen]
  exact remainingLen_of_le (by omega) hk

/-- The buffer holds only octets of the payload: they are the next chunk. -/
theorem Session.InMasked.chunk (h : s.InMasked f k b) (hf : f.Plain)
    (hd : f.data.drop k = b.input ++ d) (hk : k ≤ f.data.length) :
    unmaskChunk s.wsHeader s.chunk = unmaskPayload f.key b.input ∧
      s.chunkTaken = s.drained b b.input [] := by
  have hshort := hf.short
  have hlen := congrArg List.length hd
  rw [List.length_drop, List.length_append] at hlen
  have hchunk : s.chunk = b.input := by
    rw [Session.chunk, h.reading.inBuf, h.remaining hf hk]
    exact List.take_of_length_le (by omega)
  have hdrop : b.input.drop s.remaining = [] := by
    rw [h.remaining hf hk]
    exact List.drop_of_length_le (by omega)
  have hcount : (s.rx.recvFrameLen + b.input.length) % 2 ^ 64 =
      s.rx.recvFrameLen + b.input.length := by
    rw [h.recvFrameLen]
    exact Nat.mod_eq_of_lt (by omega)
  refine ⟨?_, ?_⟩
  · rw [hchunk, h.header]
    rfl
  · rw [Session.chunkTaken, h.reading.drain, hchunk, hdrop, Session.counted]
    simp only [hcount]
    rfl

private theorem WireFrame.Plain.ascii_chunk (hf : f.Plain) (hd : f.data.drop k = c ++ d)
    (hk : k ≤ f.data.length) : ∀ x ∈ unmaskFrom f.key k c, x < 0x80 := by
  intro x hx
  refine hf.ascii x ?_
  rw [f.payload_split hd hk]
  exact List.mem_append_right _ (List.mem_append_left _ hx)

/-- A chunk that is unmasked as it should be is appended. -/
theorem Session.InMasked.takes (env : Env) (h : s.InMasked f k b) (hf : f.Plain)
    (hd : f.data.drop k = b.input ++ d) (hk : k ≤ f.data.length)
    (hkey : ∀ j, j < b.input.length → f.key.byte j = f.key.byte (k + j)) :
    ∃ t, storeChunk env (unmaskChunk s.wsHeader s.chunk) s.chunkTaken = .ok 0 t ∧
      t.InMasked f (k + b.input.length) { b with input := [] } := by
  obtain ⟨hbuf, htaken⟩ := h.chunk hf hd hk
  rw [hbuf, htaken, unmaskPayload_eq_iff.mpr hkey]
  have hvalid : validateUtf8 s.rx.utf8State (unmaskFrom f.key k b.input) = WS_UTF8_ACCEPT := by
    rw [h.utf8State]
    exact validateUtf8_ascii (hf.ascii_chunk hd hk)
  have hpass : ¬ (s.drained b b.input []).RefusesText (unmaskFrom f.key k b.input) := by
    rintro ⟨-, hr⟩
    change validateUtf8 s.rx.utf8State _ = _ ∨ validateUtf8 s.rx.utf8State _ ≠ _ ∧ _ at hr
    rw [hvalid] at hr
    rcases hr with hr | hr
    · exact absurd hr (by decide)
    · exact hr.1 rfl
  obtain ⟨state, hcheck, hstate⟩ := checkUtf8_unrefused env hpass
  have haccept : state = WS_UTF8_ACCEPT := hstate.elim (fun e => e.trans h.utf8State)
    fun e => e.trans hvalid
  have hstore := handleFrameData_appends env (c := unmaskFrom f.key k b.input)
    (s := (s.drained b b.input []).utf8At state) (h.not_control hf) h.frameData
  refine ⟨_, (bind_eq_of_ok hcheck).trans hstore, ?_⟩
  exact
    { ready := ⟨h.ready.connectState, h.ready.sendState⟩
      reading := ⟨rfl, h.reading.2⟩
      hasHeader := h.hasHeader
      header := h.header
      recvFrameLen := congrArg (· + b.input.length) h.recvFrameLen
      utf8State := haccept
      frameData := congrArg some (f.take_payload hd hk).symm }

/-- A chunk that is unmasked from another place of the key falls short of the payload. -/
theorem Session.InMasked.garbles (h : s.InMasked f k b) (hf : f.Plain)
    (hd : f.data.drop k = b.input ++ d) (hk : k ≤ f.data.length)
    (hkey : ¬ ∀ j, j < b.input.length → f.key.byte j = f.key.byte (k + j)) {rc : Int}
    (hv : storeChunk env (unmaskChunk s.wsHeader s.chunk) s.chunkTaken = .ok rc v) :
    v.Short f.payload d.length := by
  obtain ⟨hbuf, htaken⟩ := h.chunk hf hd hk
  rw [hbuf, htaken] at hv
  obtain ⟨hin, hframe⟩ := (wp_of_eq_ok hv).mp (wp_storeChunk_frameData _ _)
  have hempty : v.inBuf = [] := by
    rw [hin]
    exact Session.Reading.inBuf (b := { b with input := [] }) ⟨rfl, h.reading.2⟩
  have hlen := congrArg List.length hd
  rw [List.length_drop, List.length_append] at hlen
  have hpos : 0 < b.input.length := by
    by_contra hz
    exact hkey fun j hj => by omega
  have htotal : k + b.input.length + d.length = f.payload.length := by
    rw [f.length_payload]
    omega
  refine ⟨by rw [hempty, List.length_nil]; omega, fun x hx hp => ?_⟩
  rw [hempty, List.length_nil]
  have hgot : (s.drained b b.input []).rx.frameData = some (f.payload.take k) := h.frameData
  rw [hgot] at hframe
  rcases hframe with hsame | ⟨y, hy, happ⟩
  · cases hsame.symm.trans hx
    rw [List.length_take]
    omega
  · cases hy
    cases happ.symm.trans hx
    -- A begin of the payload of this length ends with the right octets.
    obtain ⟨z, hz⟩ := hp
    replace hz := hz.trans (f.payload_split hd hk)
    rw [List.append_assoc, List.append_right_inj] at hz
    have heq : (unmaskPayload f.key b.input).length = (unmaskFrom f.key k b.input).length := by
      rw [length_unmaskFrom]
      exact length_maskPayload f.key b.input
    exact absurd (unmaskPayload_eq_iff.mp (List.append_inj_left hz heq)) hkey

end payload

/-! ## Reads of a masked frame -/

section reads

variable {f : WireFrame} {k : Nat} {cs : List Bytes}

/-- A chunk is stored in the first round of the loop or in the rounds after it. -/
theorem StoredPoint.first (hv : StoredPoint env s v) (hn : needHeader env s.inBuf s = .ok true u) :
    (∃ rc, storeChunk env (unmaskChunk u.wsHeader u.chunk) u.chunkTaken = .ok rc v) ∨
      ∃ t, readPayload env u = .ok ⟨⟩ t ∧ StoredPoint env t v := by
  obtain ⟨w, rc, ⟨x, hx, hfreed, hin, hw⟩, hr, hstore⟩ := hv
  rcases hx.first with rfl | ⟨t, ht, hx'⟩
  · cases hn.symm.trans hw
    exact Or.inl ⟨rc, hstore⟩
  · obtain ⟨-, -, y, hy, hp⟩ := payload_of_readRound ht
    cases hn.symm.trans hy
    exact Or.inr ⟨t, hp, w, rc, ⟨x, hx', hfreed, hin, hw⟩, hr, hstore⟩

/-- Without input nothing is stored. -/
theorem not_storedPoint_nil (hin : s.inBuf = []) : ¬ StoredPoint env s v := by
  rintro ⟨-, -, ⟨x, hx, -, hne, -⟩, -⟩
  rcases hx.first with rfl | ⟨t, ht, -⟩
  · exact hne hin
  · exact (payload_of_readRound ht).2.1 hin

/-- Something is stored in the loop or in the reads that follow it, and the frame buffer then
holds `p`. -/
def CollectsFrom (env : Env) (s : Session) (m : Nat) (cs : List Bytes) (p : Bytes) : Prop :=
  ∃ v, (StoredPoint env s v ∨
    ∃ t, readLoop env m s = .ok ⟨⟩ t ∧ DuringReads env (StoredPoint env) t cs v) ∧
      v.rx.frameData = some p

private theorem collects_cons (h : s.Ready) (hr : s.Reading b) :
    (∃ v, DuringReads env (StoredPoint env) s (c :: cs) v ∧ v.rx.frameData = some p) ↔
      CollectsFrom env (s.received b c) (2 * (b.input ++ c).length + 2) cs p := by
  refine exists_congr fun v => and_congr_left fun _ => ?_
  rw [duringReads_cons, step_read_loop h hr]
  refine or_congr_left ⟨?_, fun hv => ⟨b, hr, hv⟩⟩
  rintro ⟨b', hr', hv⟩
  rw [hr.unique hr']
  exact hv

section round

variable {b' : Bufferevent} {m : Nat} (hr : s.Reading b') (hin : b'.input ≠ [])
  (hn : needHeader env b'.input s = .ok true u) (hu : u.InMasked f k b) (hp : f.Plain)
  (hd : f.data.drop k = b.input ++ cs.flatten) (hk : k < f.data.length)
include hr hin hn hu hp hd hk

/-- A round whose chunk falls short: so does all that follows. -/
theorem not_collectsFrom_garbled
    (hkey : ¬ ∀ j, j < b.input.length → f.key.byte j = f.key.byte (k + j)) :
    ¬ CollectsFrom env s (m + 1) cs f.payload := by
  have hrem : u.remaining ≠ 0 := by
    rw [hu.remaining hp hk.le]
    omega
  have hshort : ∀ t, readPayload env u = .ok ⟨⟩ t → t.Short f.payload cs.flatten.length := by
    intro t ht
    rw [readPayload_takes hrem, handleChunk_eq] at ht
    cases hstore : storeChunk env (unmaskChunk u.wsHeader u.chunk) u.chunkTaken with
    | error e w => cases (bind_eq_of_error hstore).symm.trans ht
    | ok rc w =>
      have hw := hu.garbles hp hd hk.le hkey hstore
      exact (wp_of_eq_ok ((bind_eq_of_ok hstore).symm.trans ht)).mp (hw.endChunk rc)
  rintro ⟨v, hv | ⟨t, hloop, hv⟩, hframe⟩
  · rw [← hr.inBuf] at hn
    rcases hv.first hn with ⟨rc, hstore⟩ | ⟨t, ht, hv'⟩
    · exact (hu.garbles hp hd hk.le hkey hstore).ne hframe
    · exact ((hshort t ht).storedPoint hv').ne hframe
  · rw [readLoop_round hr hin hn] at hloop
    cases hpay : readPayload env u with
    | error e w => cases (bind_eq_of_error hpay).symm.trans hloop
    | ok a w =>
      have hw := hshort w hpay
      rw [bind_eq_of_ok hpay] at hloop
      have hready : w.Ready :=
        hu.ready.shrinks ((wp_of_eq_ok hpay).mp ((shrinks_rules env).readPayload u))
      have ht := (wp_of_eq_ok hloop).mp (hw.readLoop m)
      have htr := hready.shrinks ((wp_of_eq_ok hloop).mp ((shrinks_rules env).readLoop m w))
      exact ht.not_collected htr hv hframe

/-- A round with the last chunk of the payload. -/
theorem collectsFrom_last (hkey : ∀ j, j < b.input.length → f.key.byte j = f.key.byte (k + j))
    (hlast : k + b.input.length = f.data.length) : CollectsFrom env s (m + 1) cs f.payload := by
  obtain ⟨t, hstore, ht⟩ := hu.takes env hp hd hk.le hkey
  rw [← hr.inBuf] at hn hin
  refine ⟨t, Or.inl ⟨u, 0, ⟨s, .start, hr.not_freed env, hin, hn⟩, ?_, hstore⟩, ?_⟩
  · rw [hu.remaining hp hk.le]
    omega
  · rw [ht.frameData, hlast, ← f.length_payload, List.take_length]

/-- A round with a chunk that is not the last: the payload is collected by the reads that follow. -/
theorem collectsFrom_iff_collects
    (hkey : ∀ j, j < b.input.length → f.key.byte j = f.key.byte (k + j))
    (hlast : k + b.input.length ≠ f.data.length) :
    ∃ t, t.InMasked f (k + b.input.length) { b with input := [] } ∧
      (CollectsFrom env s (m + 1) cs f.payload ↔
        ∃ v, DuringReads env (StoredPoint env) t cs v ∧ v.rx.frameData = some f.payload) := by
  obtain ⟨t, hstore, ht⟩ := hu.takes env hp hd hk.le hkey
  have hlen := congrArg List.length hd
  rw [List.length_drop, List.length_append] at hlen
  have hgo : readPayload env u = .ok ⟨⟩ t := by
    rw [readPayload_takes (by rw [hu.remaining hp hk.le]; omega), handleChunk_eq]
    refine (bind_eq_of_ok hstore).trans ?_
    rw [endChunk, get_bind, if_neg]
    · rfl
    · rw [ht.recvFrameLen, ht.payloadLen hp]
      exact fun h => hlast h.2
  have hloop : readLoop env (m + 1) s = .ok ⟨⟩ t := by
    rw [readLoop_round hr hin hn, bind_eq_of_ok hgo, readLoop_nil ht.reading rfl]
  refine ⟨t, ht, ?_, ?_⟩
  · rintro ⟨v, hv | ⟨w, hloop', hv⟩, hframe⟩
    · -- What this round stores is shorter than the payload, and behind it there is no input.
      rw [← hr.inBuf] at hn
      rcases hv.first hn with ⟨rc, hstore'⟩ | ⟨w, hw, hv'⟩
      · cases hstore.symm.trans hstore'
        have hlost := congrArg List.length (Option.some.inj (ht.frameData.symm.trans hframe))
        rw [List.length_take, f.length_payload] at hlost
        omega
      · cases hgo.symm.trans hw
        exact absurd hv' (not_storedPoint_nil ht.reading.inBuf)
    · cases hloop.symm.trans hloop'
      exact ⟨v, hv, hframe⟩
  · rintro ⟨v, hv, hframe⟩
    exact ⟨v, Or.inr ⟨t, hloop, hv⟩, hframe⟩

/-- A round in a masked frame, when the reads that follow go on in the frame: the frame buffer
comes to hold the payload exactly when the key follows the chunks. -/
theorem collectsFrom_iff
    (hrest : ∀ t, t.InMasked f (k + b.input.length) { b with input := [] } →
      k + b.input.length < f.data.length →
      ((∃ v, DuringReads env (StoredPoint env) t cs v ∧ v.rx.frameData = some f.payload) ↔
        KeyFollows f.key (k + b.input.length) cs)) :
    CollectsFrom env s (m + 1) cs f.payload ↔ KeyFollows f.key k (b.input :: cs) := by
  rw [KeyFollows]
  by_cases hkey : ∀ j, j < b.input.length → f.key.byte j = f.key.byte (k + j)
  swap
  · exact iff_of_false (not_collectsFrom_garbled hr hin hn hu hp hd hk hkey) fun h => hkey h.1
  have hlen := congrArg List.length hd
  rw [List.length_drop, List.length_append] at hlen
  rw [and_iff_right hkey]
  by_cases hlast : k + b.input.length = f.data.length
  · have hnil : cs.flatten = [] := List.length_eq_zero_iff.mp (by omega)
    exact iff_of_true (collectsFrom_last hr hin hn hu hp hd hk hkey hlast)
      (keyFollows_of_flatten_nil hnil)
  · obtain ⟨t, ht, hiff⟩ := collectsFrom_iff_collects (m := m) hr hin hn hu hp hd hk hkey hlast
    rw [hiff, hrest t ht (by omega)]

end round

/-- Octets that arrive leave the session in the frame. -/
theorem Session.InMasked.received (h : s.InMasked f k b) (c : Bytes) :
    (s.received b c).InMasked f k { b with input := b.input ++ c } where
  ready := ⟨h.ready.connectState, h.ready.sendState⟩
  reading := ⟨rfl, h.reading.2⟩
  hasHeader := h.hasHeader
  header := h.header
  recvFrameLen := h.recvFrameLen
  utf8State := h.utf8State
  frameData := h.frameData

/-- The reads that follow the header, by induction over them. -/
theorem Session.InMasked.collects_iff (h : s.InMasked f k b) (hin : b.input = [])
    (hf : f.Plain) (hd : f.data.drop k = cs.flatten) (hk : k < f.data.length) :
    (∃ v, DuringReads env (StoredPoint env) s cs v ∧ v.rx.frameData = some f.payload) ↔
      KeyFollows f.key k cs := by
  induction cs generalizing s k b with
  | nil =>
    have hlen := congrArg List.length hd
    rw [List.length_drop, List.flatten_nil, List.length_nil] at hlen
    omega
  | cons c cs ih =>
    rw [List.flatten_cons] at hd
    have hrecv := h.received c
    rw [hin, List.nil_append] at hrecv
    rw [collects_cons h.ready h.reading, hin, List.nil_append]
    by_cases hc : c = []
    · subst hc
      have hloop : ∀ n, readLoop env n _ = _ := readLoop_nil hrecv.reading rfl
      have hempty := hrecv.reading.inBuf
      have hkeys : KeyFollows f.key k ([] :: cs) ↔ KeyFollows f.key k cs :=
        and_iff_right fun j hj => absurd hj j.not_lt_zero
      rw [hkeys, ← ih hrecv rfl hd hk]
      refine exists_congr fun v => and_congr_left fun _ => ?_
      rw [hloop, or_iff_right (not_storedPoint_nil hempty)]
      refine ⟨?_, fun hv => ⟨_, rfl, hv⟩⟩
      rintro ⟨t, ht, hv⟩
      cases ht
      exact hv
    · refine collectsFrom_iff hrecv.reading hc (needHeader_inside hrecv.hasHeader _) hrecv hf hd hk
        fun t ht hlt => ih ht rfl ?_ hlt
      rw [← List.drop_drop, hd, List.drop_left]

end reads

/-! ## The header -/

section header

variable {f : WireFrame} {x : Bytes}

/-- The header of a frame on the wire. -/
def WireFrame.header (f : WireFrame) : Bytes :=
  wireHeader f.fin false false false f.opcode (some f.key) .short f.data.length

private theorem WireFrame.encode_eq (f : WireFrame) : f.encode = f.header ++ f.data := rfl

theorem WireFrame.length_header (f : WireFrame) : f.header.length = 6 := by
  rw [header, length_wireHeader]
  rfl

/-- The frame may come next: inside a message it continues the message, outside it begins one. -/
def WireFrame.InSequence (f : WireFrame) (inMsgFlag : Bool) : Prop :=
  if inMsgFlag = true then f.opcode = .continuation else f.opcode = .text ∨ f.opcode = .binary

/-- A masked header is unpacked, whatever follows it. -/
theorem unpacked_masked (hp : f.Plain) (env : Env) (s : Session) (x : Bytes) :
    s.unpacked env (f.header ++ x) = ⟨.success, f.fields, f.header.length⟩ := by
  have hfits : LenForm.Fits .short f.data.length := hp.short
  exact unpacked_wireHeader f.fin false false false f.opcode (some f.key) hfits env s x

private theorem validateHeader_begins (hs : f.InSequence false) :
    validateHeader f.fields false = 0 := by
  rw [WireFrame.InSequence, if_neg (by decide)] at hs
  rw [WireFrame.fields, wireFields]
  rcases hs with ho | ho
  · rw [ho]
    cases f.fin <;> rfl
  · rw [ho]
    cases f.fin <;> rfl

/-- Outside a message the header is accepted, and the session is inside the frame. -/
theorem needHeader_masked (hf : env.NoFault) (hp : f.Plain) (hs : f.InSequence false)
    (h : s.Ready) (hr : s.Reading b) (hh : s.rx.hasHeader = false) (hi : s.rx.inMsgFlag = false)
    (hin : b.input = f.header ++ x) :
    ∃ u, needHeader env b.input s = .ok true u ∧ u.InMasked f 0 { b with input := x } := by
  have hu : s.unpacked env b.input = ⟨.success, f.fields, f.header.length⟩ := by
    rw [hin, unpacked_masked hp]
  have hst : headerState (s.unpacked env b.input) s.rx.inMsgFlag = .success := by
    rw [hu, hi, headerState, validateHeader_begins hs]
    rfl
  refine ⟨_, (needHeader_outside hh _).trans (readHeader_begins hf hst), ?_⟩
  rw [hu, Session.accepted_eq hr hin, Session.frameBegun,
    if_neg (by exact Bool.eq_false_iff.mp hp.data),
    if_neg (by exact Bool.eq_false_iff.mp hi)]
  exact
    { ready := ⟨h.connectState, h.sendState⟩
      reading := ⟨rfl, hr.2⟩
      hasHeader := rfl
      header := rfl
      recvFrameLen := rfl
      utf8State := rfl
      frameData := rfl }

/-- Inside a message the header is refused: nothing is stored, and the octets stay where they
are. -/
theorem read_refused (hf : env.NoFault) (hp : f.Plain) (h : s.Ready) (hr : s.Reading b)
    (hh : s.rx.hasHeader = false) (hi : s.rx.inMsgFlag = true)
    (hin : b.input ++ c = f.header ++ x) :
    (∀ v, ¬ StoredPoint env (s.received b c) v) ∧
      ∃ t, step env (.read c) s = .ok ⟨⟩ t ∧ t.Ready ∧
        t.Reading { b with input := b.input ++ c } ∧ t.rx = s.rx := by
  have hne : b.input ++ c ≠ [] := by
    rw [hin]
    exact List.ne_nil_of_length_pos (by rw [List.length_append, f.length_header]; omega)
  have hu : (s.received b c).unpacked env (b.input ++ c) =
      ⟨.success, f.fields, f.header.length⟩ := by rw [hin, unpacked_masked hp]
  have hst : headerState ((s.received b c).unpacked env (b.input ++ c))
      (s.received b c).rx.inMsgFlag = .error := by
    rw [hu, headerState, if_pos]
    refine ⟨by simp, fun hv => ?_⟩
    exact absurd ((validateHeader_data hv hp.data).symm.trans hi) (by decide)
  have hbev : (s.received b c).bev ≠ none := by simp [Session.received]
  have hready : (s.received b c).Ready := ⟨h.connectState, h.sendState⟩
  have hreading : (s.received b c).Reading { b with input := b.input ++ c } := ⟨rfl, hr.2⟩
  have hbuf : (s.received b c).inBuf = b.input ++ c := hreading.inBuf
  obtain ⟨t, hn, hb, hrx⟩ : ∃ t, needHeader env (b.input ++ c) (s.received b c) = .ok false t ∧
      t.bev = some { b with input := b.input ++ c } ∧ t.rx = s.rx := by
    have hnone : (s.received b c).rx.hasHeader = false := hh
    refine ⟨_, (needHeader_outside hnone _).trans
      (readHeader_refuses hf hbev h.sendState hst), ?_, ?_⟩
    · rw [Session.closeStarted_bev]
      rfl
    · rw [closeStarted_rx]
      rfl
  have ht : t.Ready := hready.shrinks ((wp_of_eq_ok hn).mp (shrinks_needHeader _ _))
  refine ⟨?_, t, ?_, ht, ⟨hb, hr.2⟩, hrx⟩
  · rintro v ⟨w, -, ⟨y, hy, -, -, hw⟩, -⟩
    rcases hy.first with rfl | ⟨z, hz, -⟩
    · rw [hbuf] at hw
      cases hn.symm.trans hw
    · obtain ⟨-, -, q, hq, -⟩ := payload_of_readRound hz
      rw [hbuf] at hq
      cases hn.symm.trans hq
  · rw [step_read_loop h hr]
    exact readLoop_stop hreading hne hn _

private theorem not_stored_refused (hf : env.NoFault) (hp : f.Plain) (h : s.Ready)
    (hr : s.Reading b)
    (hh : s.rx.hasHeader = false) (hi : s.rx.inMsgFlag = true)
    (hin : b.input ++ c = f.header ++ x) (cs : List Bytes) :
    ¬ DuringReads env (StoredPoint env) s (c :: cs) v := by
  intro hv
  induction cs generalizing s b c x with
  | nil =>
    obtain ⟨hnone, -⟩ := read_refused hf hp h hr hh hi hin
    rcases duringReads_cons.mp hv with ⟨b', hr', hv⟩ | ⟨t, -, cs', _, _, _, _, heq, -⟩
    · rw [← hr.unique hr'] at hv
      exact hnone v hv
    · cases cs' <;> cases heq
  | cons d cs ih =>
    obtain ⟨hnone, t, hstep, ht, hrt, hrx⟩ := read_refused hf hp h hr hh hi hin
    rcases duringReads_cons.mp hv with ⟨b', hr', hv⟩ | ⟨t', hstep', hv⟩
    · rw [← hr.unique hr'] at hv
      exact hnone v hv
    · cases hstep.symm.trans hstep'
      have hnext : (b.input ++ c) ++ d = f.header ++ (x ++ d) := by rw [hin, List.append_assoc]
      exact ih ht hrt (by rw [hrx, hh]) (by rw [hrx, hi]) hnext hv

/-- Outside a message, for a frame with a payload. -/
theorem collects_begin_iff (hf : env.NoFault) (h : s.Ready) (hr : s.Reading b) (hin : b.input = [])
    (hh : s.rx.hasHeader = false) (hi : s.rx.inMsgFlag = false) (hp : f.Plain)
    (hs : f.InSequence false) {rs : List Bytes} (hd : f.data = x ++ rs.flatten)
    (hdata : f.data ≠ []) :
    (∃ v, DuringReads env (StoredPoint env) s ((f.header ++ x) :: rs) v ∧
      v.rx.frameData = some f.payload) ↔ KeyFollows f.key 0 (x :: rs) := by
  have hready : (s.received b (f.header ++ x)).Ready := ⟨h.connectState, h.sendState⟩
  have hreading : (s.received b (f.header ++ x)).Reading { b with input := f.header ++ x } := by
    refine ⟨?_, hr.2⟩
    rw [Session.received, hin, List.nil_append]
  obtain ⟨u, hn, hu⟩ := needHeader_masked (s := s.received b (f.header ++ x)) hf hp hs hready
    hreading hh hi rfl
  have hne : f.header ++ x ≠ [] :=
    List.ne_nil_of_length_pos (by rw [List.length_append, f.length_header]; omega)
  rw [collects_cons h hr]
  refine collectsFrom_iff hreading hne hn hu hp (by rw [List.drop_zero]; exact hd)
    (List.length_pos_iff.mpr hdata) fun t ht hlt => ht.collects_iff rfl hp ?_ hlt
  rw [hd, Nat.zero_add, List.drop_left]

/-- A frame that comes in any number of reads, its header in the first, brings the frame buffer to
hold its payload exactly when it begins a message or is empty, and from the begin of every chunk
the key looks as it does from where the chunk lies in the payload. -/
theorem collects_payload_iff (hf : env.NoFault) (h : s.Ready) (hr : s.Reading b)
    (hin : b.input = []) (hh : s.rx.hasHeader = false) (hp : f.Plain)
    (hs : f.InSequence s.rx.inMsgFlag) {r : Bytes} {rs : List Bytes}
    (hcut : (r :: rs).flatten = f.encode) (hlen : f.header.length ≤ r.length) :
    Collects env s (r :: rs) f.payload ↔
      (s.rx.inMsgFlag = true → f.data = []) ∧
        KeyFollows f.key 0 (r.drop f.header.length :: rs) := by
  rw [List.flatten_cons, f.encode_eq] at hcut
  obtain ⟨x, hrx, hd⟩ : ∃ x, r = f.header ++ x ∧ f.data = x ++ rs.flatten := by
    refine ⟨r.drop f.header.length, ?_, ?_⟩
    · have htake := congrArg (List.take f.header.length) hcut
      rw [List.take_append_of_le_length hlen, List.take_left] at htake
      exact (List.take_append_drop _ r).symm.trans (congrArg (· ++ _) htake)
    · have hdrop := congrArg (List.drop f.header.length) hcut
      rw [List.drop_append_of_le_length hlen, List.drop_left] at hdrop
      exact hdrop.symm
  have hnil : f.payload = [] ↔ f.data = [] := by
    rw [← List.length_eq_zero_iff, f.length_payload, List.length_eq_zero_iff]
  rw [hrx, List.drop_left, Collects]
  by_cases hdata : f.data = []
  · refine iff_of_true (fun hne => absurd (hnil.mpr hdata) hne) ⟨fun _ => hdata, ?_⟩
    refine keyFollows_of_flatten_nil ?_
    rw [List.flatten_cons, ← hd, hdata]
  rw [imp_iff_right fun hne => hdata (hnil.mp hne)]
  cases hi : s.rx.inMsgFlag with
  | false =>
    rw [hi] at hs
    rw [and_iff_right (fun hn => by cases hn)]
    exact collects_begin_iff hf h hr hin hh hi hp hs hd hdata
  | true =>
    refine iff_of_false ?_ fun hall => hdata (hall.1 rfl)
    rintro ⟨v, hv, -⟩
    exact not_stored_refused hf hp h hr hh hi (by rw [hin, List.nil_append]) rs hv

/-- A frame with the text "abcdef", masked with the key 01 02 03 04. -/
def sixLetters : WireFrame :=
  ⟨true, .text, ⟨0x01, 0x02, 0x03, 0x04⟩, [0x60, 0x60, 0x60, 0x60, 0x64, 0x64]⟩

private theorem sixLetters_plain : sixLetters.Plain where
  data := rfl
  short := by decide
  ascii := by
    rw [show sixLetters.payload = [0x61, 0x62, 0x63, 0x64, 0x65, 0x66] from rfl]
    simp

/-- Cut behind the fourth octet of the payload, the text is received. -/
theorem sixLetters_received :
    Collects {} shaken
      [[0x81, 0x86, 0x01, 0x02, 0x03, 0x04, 0x60, 0x60, 0x60, 0x60], [0x64, 0x64]]
      sixLetters.payload :=
  (collects_payload_iff (s := shaken) (b := { readEnabled := true }) (f := sixLetters)
    (fun _ => rfl) ⟨rfl, rfl⟩ ⟨rfl, rfl⟩ rfl rfl sixLetters_plain (Or.inl rfl)
    (by decide) (by decide)).mpr
    ⟨by decide, by decide, by decide, trivial⟩

/-- Cut behind the first octet of the payload, it is not. -/
theorem sixLetters_garbled :
    ¬ ∀ (env : Env) (s : Session) (b : Bufferevent) (f : WireFrame) (r : Bytes) (rs : List Bytes),
      env.NoFault → s.Ready → s.Reading b → b.input = [] → s.rx.hasHeader = false → f.Plain →
      f.InSequence s.rx.inMsgFlag → (r :: rs).flatten = f.encode → f.header.length ≤ r.length →
      Collects env s (r :: rs) f.payload := by
  intro hall
  have hgot := hall {} shaken { readEnabled := true } sixLetters
    [0x81, 0x86, 0x01, 0x02, 0x03, 0x04, 0x60] [[0x60, 0x60, 0x60, 0x64, 0x64]] (fun _ => rfl)
    ⟨rfl, rfl⟩ ⟨rfl, rfl⟩ rfl rfl sixLetters_plain (Or.inl rfl) (by decide) (by decide)
    (by decide)
  have hkeys := (collects_begin_iff (s := shaken) (b := { readEnabled := true })
    (f := sixLetters) (x := [0x60]) (fun _ => rfl) ⟨rfl, rfl⟩ ⟨rfl, rfl⟩ rfl rfl rfl
    sixLetters_plain (Or.inl rfl) (by decide) (by decide)).mp hgot
  -- The second octet of the payload is unmasked with the first octet of the key.
  exact absurd (hkeys.2.1 0 (by decide)) (by decide)

end header

end CppImprovement.Ws

import Mathlib.Data.List.Infix
import CppImprovement.Net.Ws.ServerFrames

/-!
# Which Close frames are recorded

A stream of frames is read in any number of reads, with calls of the application in
between. As long as nothing replaces the header of the frame that is being received,
the receiver stays in step with the frames of the stream, and a Close frame is handled
only when a Close frame of the stream is complete, with all of its payload in the
control buffer. So a close is recorded only then, and the stores into the buffer stay
within it as long as no Close frame fills it: its terminating NUL is stored behind the
payload. The header is replaced when the receiver itself sends a Close frame in the
middle of a frame, because a text check fails or a control frame is too long, and when
the application sends in the middle of a frame; a length that does not fit the header
field, a read that ends inside a key and a chunk that is unmasked from the wrong octet
of the key lose the step, too.
-/

namespace CppImprovement.Ws

variable {env : Env} {s₀ s : Session} {b : Bufferevent} {f : ServerFrame}
  {fs all : List ServerFrame} {k m : Nat} {c d x z : Bytes}

/-! ## Streams -/

/-- The octets of a sequence of frames. -/
def serverStream (fs : List ServerFrame) : Bytes := fs.flatMap ServerFrame.bytes

@[simp] theorem serverStream_cons (f : ServerFrame) (fs : List ServerFrame) :
    serverStream (f :: fs) = f.bytes ++ serverStream fs := rfl

private theorem serverStream_append (fs gs : List ServerFrame) :
    serverStream (fs ++ gs) = serverStream fs ++ serverStream gs := List.flatMap_append

private theorem length_le_append (c z : Bytes) : z.length ≤ (c ++ z).length := by
  rw [List.length_append]
  omega

/-- The frame is complete when `m` octets of the stream are still to come. -/
def Complete (all : List ServerFrame) (m : Nat) (f : ServerFrame) : Prop :=
  ∃ fs, f :: fs <:+ all ∧ m ≤ (serverStream fs).length

/-- What is complete stays complete. -/
theorem Complete.later {m' : Nat} (h : Complete all m f) (hle : m' ≤ m) : Complete all m' f := by
  obtain ⟨fs, hsub, hm⟩ := h
  exact ⟨fs, hsub, hle.trans hm⟩

/-- A frame that is complete is among the first frames of the stream, all of which were read. -/
theorem Complete.exists_done {read : Bytes} (h : Complete all z.length f)
    (hst : read ++ z = serverStream all) :
    ∃ done, done <+: all ∧ serverStream done <+: read ∧ f ∈ done := by
  obtain ⟨fs, ⟨earlier, rfl⟩, hm⟩ := h
  have hsplit : earlier ++ f :: fs = (earlier ++ [f]) ++ fs := by
    rw [List.append_assoc, List.singleton_append]
  rw [hsplit] at hst ⊢
  refine ⟨earlier ++ [f], List.prefix_append _ _, ?_, List.mem_append_right _ List.mem_cons_self⟩
  rw [serverStream_append] at hst
  obtain ⟨rest, hread, -⟩ := exists_of_append_eq hst hm
  exact ⟨rest, hread.symm⟩

/-- The frame does not make the receiver lose the step: its length fits the header field, a
control payload fits its buffer, and the payload of a data frame passes the text check. -/
structure ServerFrame.Harmless (f : ServerFrame) : Prop where
  fits : f.Fits
  control : isControlOpcode f.opcode = true → f.payload.length ≤ 125
  passes : f.Passes f.payload.length

/-- A read may end `n` octets into the frame: not inside its key, and inside the payload of a data
frame only where the text check lets what has arrived pass and the key begins anew. -/
structure ServerFrame.MayEnd (f : ServerFrame) (n : Nat) : Prop where
  key : n < f.keyAt ∨ f.header.length ≤ n
  passes : f.Passes (n - f.header.length)
  aligned : isControlOpcode f.opcode = false → f.Aligned (n - f.header.length)

/-- Of a frame without a key only the text check counts. -/
theorem ServerFrame.mayEnd_iff_passes (h : f.mask = none) {n : Nat} :
    f.MayEnd n ↔ f.Passes (n - f.header.length) := by
  have hlen := f.length_header
  rw [h, Option.isSome_none, if_neg (by decide)] at hlen
  exact ⟨MayEnd.passes, fun hp => ⟨by omega, hp, fun _ => Or.inl h⟩⟩

/-- A read may end with `m` octets of the stream still to come. -/
def ReadMayEnd (all : List ServerFrame) (m : Nat) : Prop :=
  ∀ f fs, f :: fs <:+ all → (serverStream fs).length < m → m < (serverStream (f :: fs)).length →
    f.MayEnd ((serverStream (f :: fs)).length - m)

/-- What the frames `all` of the stream give while `z` is still to come. -/
structure Harmless (all : List ServerFrame) (z : Bytes) : Prop where
  frames : ∀ f ∈ all, f.Harmless
  cut : ReadMayEnd all z.length

/-! ## What is recorded -/

/-- Since `s₀` only complete Close frames of the stream were handled, each with all of its payload
in the control buffer, and a close that is recorded is one of them. -/
def Recorded (s₀ : Session) (all : List ServerFrame) (m : Nat) (s : Session) : Prop :=
  ∃ es, s.rx.closeEntries = s₀.rx.closeEntries ++ es ∧
    (s.cl.receivedCloseFlag = true → s₀.cl.receivedCloseFlag = true ∨ es ≠ []) ∧
    ∀ e ∈ es, ∃ f, Complete all m f ∧ f.opcode = .close ∧ e.ctrlLen = f.payload.length

/-- Nothing has been recorded yet. -/
theorem Recorded.refl (s : Session) (all : List ServerFrame) (m : Nat) : Recorded s all m s :=
  ⟨[], (List.append_nil _).symm, Or.inl, fun _ he => absurd he List.not_mem_nil⟩

/-- What is recorded stays recorded as more of the stream arrives. -/
theorem Recorded.later {m' : Nat} (h : Recorded s₀ all m s) (hle : m' ≤ m) :
    Recorded s₀ all m' s := by
  obtain ⟨es, he, hrec, hall⟩ := h
  refine ⟨es, he, hrec, fun e hmem => ?_⟩
  obtain ⟨f, hf, hop⟩ := hall e hmem
  exact ⟨f, hf.later hle, hop⟩

private theorem Recorded.same {s' : Session} (h : Recorded s₀ all m s) (hs : SameCloses s s') :
    Recorded s₀ all m s' := by
  rw [Recorded, hs.received, hs.entries]
  exact h

/-- A Close frame of the stream is handled. -/
theorem Recorded.closed {s' : Session} (h : Recorded s₀ all m s) (hf : Complete all m f)
    (hop : f.opcode = .close) (hlen : s.rx.ctrlLen = f.payload.length)
    (he : s'.rx.closeEntries = s.rx.closeEntries ++ [s.closeEntry]) : Recorded s₀ all m s' := by
  obtain ⟨es, hes, -, hall⟩ := h
  refine ⟨es ++ [s.closeEntry], by rw [he, hes, List.append_assoc], fun _ => Or.inr ?_, ?_⟩
  · exact List.append_ne_nil_of_right_ne_nil es nofun
  · rw [List.forall_mem_append]
    refine ⟨hall, fun e hmem => ⟨f, hf, hop, ?_⟩⟩
    rw [List.mem_singleton.mp hmem]
    exact hlen

/-! ## The receiver in step with the stream -/

/-- The receiver is in step with the stream: between two frames, or inside one of them whose
header it holds. The buffer holds the beginning of what is left, and `z` is still to come. -/
inductive Session.Synced (s : Session) (b : Bufferevent) : List ServerFrame → Bytes → Prop
  | idle {fs : List ServerFrame} {z : Bytes} (h : s.rx.hasHeader = false)
    (hin : b.input ++ z = serverStream fs) : Synced s b fs z
  | data {f : ServerFrame} {fs : List ServerFrame} {k : Nat} {z : Bytes} (h : s.InData f k)
    (hd : isControlOpcode f.opcode = false) (ha : f.Aligned k) (hk : k ≤ f.payload.length)
    (hin : b.input ++ z = f.data.drop k ++ serverStream fs) : Synced s b (f :: fs) z
  | control {f : ServerFrame} {fs : List ServerFrame} {k : Nat} {z : Bytes} (h : s.InControl f k)
    (hctl : isControlOpcode f.opcode = true) (hres : isReservedOpcode f.opcode = false)
    (hk : k ≤ f.payload.length) (hin : b.input ++ z = f.data.drop k ++ serverStream fs) :
    Synced s b (f :: fs) z

/-- The receiver is in step with the frames `all`, and what it has recorded since `s₀` is theirs. -/
structure Session.Tracks (s s₀ : Session) (all : List ServerFrame) (z : Bytes) : Prop where
  recorded : Recorded s₀ all z.length s
  synced : ∃ b fs, s.Receiving b ∧ fs <:+ all ∧ s.Synced b fs z

/-- What a buffer that does not hold the rest of the frame holds of it. -/
theorem data_part {y : Bytes} (hin : y ++ z = f.data.drop k ++ serverStream fs)
    (hk : k ≤ f.payload.length) (hz : (serverStream fs).length < z.length) :
    ∃ d, f.data.drop k = y ++ d ∧ z = d ++ serverStream fs ∧
      (serverStream (f :: fs)).length - z.length = f.header.length + (k + y.length) ∧
      k + y.length < f.payload.length := by
  obtain ⟨d, hd, hdz⟩ := exists_of_append_eq hin.symm hz.le
  have hlen := congrArg List.length hd
  have hlen' := congrArg List.length hdz
  rw [List.length_append] at hlen'
  rw [List.length_drop, f.length_data, List.length_append] at hlen
  rw [serverStream_cons, List.length_append, f.length_bytes]
  exact ⟨d, hd, hdz.symm, by omega, by omega⟩

/-- The read ends `k` octets into the payload of the frame. -/
theorem Harmless.mayEnd (hh : Harmless all z) (hsub : f :: fs <:+ all)
    (hz : (serverStream fs).length < z.length)
    (hn : (serverStream (f :: fs)).length - z.length = f.header.length + k) :
    f.Passes k ∧ (isControlOpcode f.opcode = false → f.Aligned k) := by
  have hpos := f.two_le_keyAt
  have hheader := f.length_header
  have hend := hh.cut f fs hsub hz (by omega)
  rw [hn] at hend
  have hpay := Nat.add_sub_cancel_left f.header.length k
  refine ⟨?_, fun hd => ?_⟩
  · have := hend.passes
    rwa [hpay] at this
  · have := hend.aligned hd
    rwa [hpay] at this

/-! ## The payload part of a round -/

/-- The end of a data frame keeps the step. -/
theorem wp_endFrame_data (hf : env.NoFault) (hr : s.Receiving b)
    (hc : Recorded s₀ all z.length s) (hsub : fs <:+ all) (h : s.InData f f.payload.length)
    (hd : isControlOpcode f.opcode = false) (hin : b.input ++ z = serverStream fs) :
    wp (endFrame env) (fun _ s' => s'.Tracks s₀ all z)
      (fun _ s' => Recorded s₀ all z.length s') s := by
  cases hfin : f.fin with
  | false =>
    rw [wp_of_eq_ok (h.endFrame_open hd hfin)]
    exact ⟨hc.same ⟨rfl, rfl⟩, b, fs,
      ⟨hr.bev, hr.enabled, hr.complete, { hr.sane with }, hr.checked⟩, hsub, .idle rfl hin⟩
  | true =>
    have hr' : (s.gathered f.payload).Receiving b :=
      ⟨hr.bev, hr.enabled, hr.complete, { hr.sane with }, hr.checked⟩
    have hrec : Recorded s₀ all z.length (s.gathered f.payload) := hc.same ⟨rfl, rfl⟩
    rw [wp_congr (h.endFrame_final hd hfin)]
    refine wp_mono (wp_endOfMessage_receiving hf hr' f.payload) (fun _ s' h' => ?_)
      fun _ s' h' => hrec.same h'
    obtain ⟨hr₁, hb₁, hc₁⟩ := h'
    exact ⟨hrec.same hc₁, _, fs, hr₁, hsub, .idle hb₁.hasHeader hin⟩

/-- The payload part keeps the step inside a data frame. -/
theorem wp_readPayload_data (hf : env.NoFault) (hh : Harmless all z) (hr : s.Receiving b)
    (hc : Recorded s₀ all z.length s) (hsub : f :: fs <:+ all) (h : s.InData f k)
    (hd : isControlOpcode f.opcode = false) (ha : f.Aligned k) (hk : k ≤ f.payload.length)
    (hin : b.input ++ z = f.data.drop k ++ serverStream fs) :
    wp (readPayload env) (fun _ s' => s'.Tracks s₀ all z)
      (fun _ s' => Recorded s₀ all z.length s') s := by
  have hfr := hh.frames f (hsub.mem List.mem_cons_self)
  have hrest := (List.suffix_cons f fs).trans hsub
  by_cases hz : z.length ≤ (serverStream fs).length
  · -- The rest of the frame is there: it ends.
    obtain ⟨x, hx, hxz⟩ := exists_of_append_eq hin hz
    rcases hk.lt_or_eq with hlt | rfl
    · have hend := ServerFrame.add_length_drop_data hk
      rw [wp_congr (readPayload_data h hfr.fits hd ha hr.reading (List.append_nil _).symm hx
        (Or.inl rfl) hlt (by rw [hend]; exact hfr.passes)), if_pos hend]
      have htook := h.took ha (List.append_nil _).symm b x
      rw [hend] at htook
      exact wp_endFrame_data hf (hr.took _ x) (hc.same ⟨rfl, rfl⟩) hrest htook hd hxz
    · rw [f.drop_data_payload, List.nil_append] at hin
      rw [wp_congr (readPayload_finished h.header h.recvFrameLen hfr.fits)]
      exact wp_endFrame_data hf hr hc hrest h hd hin
  · -- A part of it is there: it is stored.
    obtain ⟨d, hpart, hdz, hlen, hlt⟩ := data_part hin hk (not_le.mp hz)
    obtain ⟨hp, hal⟩ := hh.mayEnd hsub (not_le.mp hz) hlen
    rw [wp_congr (readPayload_data h hfr.fits hd ha hr.reading hpart (List.append_nil _).symm
      (Or.inr rfl) (by omega) hp), if_neg hlt.ne]
    refine ⟨hc.same ⟨rfl, rfl⟩, _, f :: fs, hr.took _ [], hsub,
      .data (h.took ha hpart b []) hd (hal hd) hlt.le ?_⟩
    rw [← List.drop_drop, hpart, List.drop_left]
    exact hdz

/-- The end of a control frame keeps the step: a Close frame is handled, another control frame ends
the process. -/
theorem wp_endFrame_tracks (hf : env.NoFault) (hr : s.Receiving b)
    (hc : Recorded s₀ all z.length s) (hsub : f :: fs <:+ all)
    (h : s.InControl f f.payload.length) (hctl : isControlOpcode f.opcode = true)
    (hres : isReservedOpcode f.opcode = false) (hin : b.input ++ z = serverStream fs) :
    wp (endFrame env) (fun _ s' => s'.Tracks s₀ all z)
      (fun _ s' => Recorded s₀ all z.length s') s := by
  by_cases hop : f.opcode = .close
  · have hops : s.wsHeader.opcode = .close := (congrArg WSHeader.opcode h.header).trans hop
    refine wp_mono (wp_endFrame_close hf hr hops) (fun _ s' h' => ?_) fun _ _ hn => hn.elim
    obtain ⟨hr₁, hh₁, he₁⟩ := h'
    have hz : z.length ≤ (serverStream fs).length := by
      rw [← hin]
      exact length_le_append _ z
    exact ⟨hc.closed ⟨fs, hsub, hz⟩ hop h.ctrlLen he₁, _, fs, hr₁,
      (List.suffix_cons f fs).trans hsub, .idle hh₁ hin⟩
  · exact wp_mono (wp_endFrame_control h.header hctl hres hop) (fun _ _ hn => hn.elim)
      fun _ _ heq => hc.same heq.2

/-- The payload part keeps the step inside a control frame. -/
theorem wp_readPayload_control (hf : env.NoFault) (hh : Harmless all z) (hr : s.Receiving b)
    (hc : Recorded s₀ all z.length s) (hsub : f :: fs <:+ all) (h : s.InControl f k)
    (hctl : isControlOpcode f.opcode = true) (hres : isReservedOpcode f.opcode = false)
    (hk : k ≤ f.payload.length) (hin : b.input ++ z = f.data.drop k ++ serverStream fs) :
    wp (readPayload env) (fun _ s' => s'.Tracks s₀ all z)
      (fun _ s' => Recorded s₀ all z.length s') s := by
  have hfr := hh.frames f (hsub.mem List.mem_cons_self)
  have hmax := hfr.control hctl
  have htook : ∀ (c x : Bytes), k + c.length ≤ f.payload.length →
      (s.ctrlTook b c x).Receiving { b with input := x } := by
    intro c x hle
    refine ⟨rfl, hr.enabled, hr.complete, { hr.sane with ctrlLen := ?_ }, hr.checked⟩
    rw [(h.ctrlTook b c x).ctrlLen, WS_CONTROL_MAX_PAYLOAD_LEN]
    omega
  by_cases hz : z.length ≤ (serverStream fs).length
  · obtain ⟨x, hx, hxz⟩ := exists_of_append_eq hin hz
    rcases hk.lt_or_eq with hlt | rfl
    · have hend := ServerFrame.add_length_drop_data hk
      rw [wp_congr (readPayload_ctrlTook h hfr.fits hctl hmax hr.reading
        (List.append_nil _).symm hx (Or.inl rfl) hlt), if_pos hend]
      have hin' := h.ctrlTook b (unmaskChunk f.fields (f.data.drop k)) x
      rw [length_unmaskChunk, hend] at hin'
      exact wp_endFrame_tracks hf (htook _ x (by rw [length_unmaskChunk, hend]))
        (hc.same ⟨rfl, rfl⟩) hsub hin' hctl hres hxz
    · rw [f.drop_data_payload, List.nil_append] at hin
      rw [wp_congr (readPayload_finished h.header h.recvFrameLen hfr.fits)]
      exact wp_endFrame_tracks hf hr hc hsub h hctl hres hin
  · obtain ⟨d, hpart, hdz, -, hlt⟩ := data_part hin hk (not_le.mp hz)
    rw [wp_congr (readPayload_ctrlTook h hfr.fits hctl hmax hr.reading hpart
      (List.append_nil _).symm (Or.inr rfl) (by omega)), if_neg hlt.ne]
    have hin' := h.ctrlTook b (unmaskChunk f.fields b.input) []
    rw [length_unmaskChunk] at hin'
    refine ⟨hc.same ⟨rfl, rfl⟩, { b with input := [] }, f :: fs, ?_, hsub,
      .control hin' hctl hres hlt.le ?_⟩
    · exact htook _ [] (by rw [length_unmaskChunk]; exact hlt.le)
    · rw [← List.drop_drop, hpart, List.drop_left]
      exact hdz

/-! ## The loop -/

/-- The session goes on receiving with another header. -/
theorem Session.Receiving.headed (h : s.Receiving b) (hdr : WSHeader) :
    (s.headed hdr).Receiving b :=
  ⟨h.bev, h.enabled, h.complete, { h.sane with }, h.checked⟩

private theorem Session.closeStarted_kept (env : Env) (status : WSCloseStatus) (reason : Bytes)
    (s : Session) :
    (s.closeStarted env status reason).hs = s.hs ∧
      (s.closeStarted env status reason).rx = s.rx ∧
      (s.closeStarted env status reason).cl.receivedCloseFlag = s.cl.receivedCloseFlag := by
  rw [Session.closeStarted, Session.closeFrameSent]
  split <;> exact ⟨rfl, rfl, rfl⟩

/-- The session goes on receiving when it has sent its Close frame. -/
theorem Session.Receiving.closeStarted (h : s.Receiving b) (status : WSCloseStatus)
    (reason : Bytes) : (s.closeStarted env status reason).Receiving b := by
  obtain ⟨hhs, hrx, -⟩ := Session.closeStarted_kept env status reason s
  refine ⟨?_, h.enabled, ?_, h.sane.closeStarted status reason, ?_⟩
  · rw [Session.closeStarted_bev]
    exact h.bev
  · rw [hhs]
    exact h.complete
  · rw [hrx]
    exact h.checked

/-- A buffer that ends inside the header ends before the key. -/
theorem Harmless.before_key (hh : Harmless all z) (hsub : f :: fs <:+ all) {y : Bytes}
    (hin : y ++ z = serverStream (f :: fs)) (hd : y ++ d = f.header) (hne : d ≠ [])
    (hy : y ≠ []) : y.length < f.keyAt := by
  have hlen := congrArg List.length hin
  have hlen' := congrArg List.length hd
  have hpos := List.length_pos_iff.mpr hne
  have hpos' := List.length_pos_iff.mpr hy
  rw [serverStream_cons, List.length_append, List.length_append, f.length_bytes] at hlen
  rw [List.length_append] at hlen'
  have hend := hh.cut f fs hsub (by omega)
    (by rw [serverStream_cons, List.length_append, f.length_bytes]; omega)
  have hn : (serverStream (f :: fs)).length - z.length = y.length := by
    rw [serverStream_cons, List.length_append, f.length_bytes]
    omega
  rw [hn] at hend
  exact hend.key.resolve_right (by omega)

/-- What the header part of a round between two frames leads to: the loop stops in step, or it
goes on inside the next frame. -/
theorem needHeader_tracks (hf : env.NoFault) (hh : Harmless all z) (hr : s.Receiving b)
    (hc : Recorded s₀ all z.length s) (hsub : f :: fs <:+ all) (hne : b.input ≠ [])
    (hnh : s.rx.hasHeader = false) (hin : b.input ++ z = serverStream (f :: fs)) :
    (∃ s₁, needHeader env b.input s = .ok false s₁ ∧ s₁.Tracks s₀ all z) ∨
    ∃ s₁ b₁, needHeader env b.input s = .ok true s₁ ∧ s₁.Receiving b₁ ∧
      Recorded s₀ all z.length s₁ ∧ b₁.input ++ z = f.data.drop 0 ++ serverStream fs ∧
      ((s₁.InData f 0 ∧ isControlOpcode f.opcode = false) ∨ (s₁.InControl f 0 ∧
        isControlOpcode f.opcode = true ∧ isReservedOpcode f.opcode = false)) := by
  have hfit := (hh.frames f (hsub.mem List.mem_cons_self)).fits
  have hin' := hin
  rw [serverStream_cons, ServerFrame.bytes, List.append_assoc] at hin'
  rcases part_or_rest hin' with ⟨d, hd, hdne⟩ | ⟨x, hx, hxz⟩
  · left
    obtain ⟨hdr, hwait⟩ := needHeader_cut env hd (hh.before_key hsub hin hd hdne hne) hnh
    exact ⟨_, hwait, hc.same ⟨rfl, rfl⟩, b, f :: fs, hr.headed hdr, hsub, .idle hnh hin⟩
  · by_cases hv : validateHeader f.fields s.rx.inMsgFlag = 0
    · right
      cases hctl : isControlOpcode f.opcode with
      | true =>
        refine ⟨_, { b with input := x }, needHeader_control env hfit hctl hv hr.reading hx hnh, ?_,
          hc.same ⟨rfl, rfl⟩, hxz, Or.inr ⟨⟨rfl, rfl, rfl, rfl⟩, rfl,
          (validateHeader_eq_zero hv).1⟩⟩
        exact ⟨rfl, hr.enabled, hr.complete, { hr.sane with ctrlLen := Nat.zero_le _ }, hr.checked⟩
      | false =>
        refine ⟨_, { b with input := x }, needHeader_data hf hfit hctl hv hr.reading hx hnh, ?_,
          hc.same ⟨rfl, rfl⟩, hxz, Or.inl ⟨Session.serverBegun_inData hr.checked f x, rfl⟩⟩
        exact ⟨rfl, hr.enabled, hr.complete, { hr.sane with }, hr.checked⟩
    · left
      obtain ⟨-, hrx, hrec⟩ := Session.closeStarted_kept env .protocolErr1002 []
        (s.headed f.fields)
      have hlive : s.bev ≠ none := by
        rw [hr.bev]
        exact Option.some_ne_none b
      refine ⟨_, needHeader_breaks hf hfit hlive hx hnh hv hr.sane.sendState,
        hc.same ⟨hrec, by rw [hrx]; rfl⟩, b, f :: fs, (hr.headed f.fields).closeStarted _ _, hsub,
        .idle ?_ hin⟩
      rw [hrx]
      exact hnh

/-- The loop keeps the step. -/
theorem wp_readLoop_tracks (hf : env.NoFault) (hh : Harmless all z) (n : Nat)
    (h : s.Tracks s₀ all z) :
    wp (readLoop env n) (fun _ s' => s'.Tracks s₀ all z)
      (fun _ s' => Recorded s₀ all z.length s') s := by
  induction n generalizing s with
  | zero => exact h
  | succ n ih =>
    obtain ⟨hc, b, fs, hr, hsub, hsync⟩ := id h
    by_cases hin : b.input = []
    · rw [wp_of_eq_ok (readLoop_nil hr.reading hin _)]
      exact h
    · have hgo : ∀ {s₁ : Session}, needHeader env b.input s = .ok true s₁ →
          wp (readPayload env) (fun _ s' => s'.Tracks s₀ all z)
            (fun _ s' => Recorded s₀ all z.length s') s₁ →
          wp (readLoop env (n + 1)) (fun _ s' => s'.Tracks s₀ all z)
            (fun _ s' => Recorded s₀ all z.length s') s := by
        intro s₁ hneed hpay
        rw [wp_congr (readLoop_round hr.reading hin hneed n), wp_bind]
        exact wp_mono hpay (fun _ _ h' => ih h') fun _ _ h' => h'
      cases hsync with
      | @idle fs _ hnh hst =>
        cases fs with
        | nil => exact absurd (List.append_eq_nil_iff.mp hst).1 hin
        | cons f fs =>
          rcases needHeader_tracks hf hh hr hc hsub hin hnh hst with ⟨s₁, hneed, ht⟩ |
            ⟨s₁, b₁, hneed, hr₁, hc₁, hin₁, hkind⟩
          · rw [wp_of_eq_ok (readLoop_stop hr.reading hin hneed n)]
            exact ht
          · refine hgo hneed ?_
            rcases hkind with ⟨hfr, hd⟩ | ⟨hfr, hctl, hres⟩
            · exact wp_readPayload_data hf hh hr₁ hc₁ hsub hfr hd f.aligned_zero (Nat.zero_le _)
                hin₁
            · exact wp_readPayload_control hf hh hr₁ hc₁ hsub hfr hctl hres (Nat.zero_le _) hin₁
      | data hfr hd ha hk hst =>
        exact hgo (needHeader_inside hfr.hasHeader _)
          (wp_readPayload_data hf hh hr hc hsub hfr hd ha hk hst)
      | control hfr hctl hres hk hst =>
        exact hgo (needHeader_inside hfr.hasHeader _)
          (wp_readPayload_control hf hh hr hc hsub hfr hctl hres hk hst)

/-! ## Runs of one connection -/

/-- The connection is not opened again, and the application sends and closes only while no frame
is being received. -/
def CallsBetweenFrames : Input → Session → Prop
  | .connect, _ => False
  | .close, s => s.rx.hasHeader = false
  | .send _, s => s.rx.hasHeader = false
  | _, _ => True

instance : ∀ i s, Decidable (CallsBetweenFrames i s)
  | .connect, _ => isFalse id
  | .close, s => inferInstanceAs (Decidable (s.rx.hasHeader = false))
  | .send _, s => inferInstanceAs (Decidable (s.rx.hasHeader = false))
  | .connected, _ | .read _, _ | .eof, _ | .error, _ | .closeTimeout, _ | .connectTimeout, _ =>
    isTrue trivial

/-- What is recorded since `s₀` is the stream's, and a connection that is still there is in step
with it. -/
structure Session.OnStream (s s₀ : Session) (all : List ServerFrame) (z : Bytes) : Prop where
  tidy : s.Tidy
  recorded : Recorded s₀ all z.length s
  tracks : s.bev ≠ none → s.Tracks s₀ all z

/-- A read keeps the step, with the octets it brings in the buffer. -/
theorem Session.Tracks.of_read (h : s.Tracks s₀ all (c ++ z)) :
    ∃ b, s.Receiving b ∧ (s.received b c).Tracks s₀ all z := by
  obtain ⟨hc, b, fs, hr, hsub, hsync⟩ := h
  have hrec : Recorded s₀ all z.length (s.received b c) :=
    (hc.later (length_le_append c z)).same ⟨rfl, rfl⟩
  refine ⟨b, hr, hrec, _, fs, hr.received c, hsub, ?_⟩
  cases hsync with
  | idle h hin => exact .idle h (by rw [← hin, List.append_assoc])
  | data h hd ha hk hin => exact .data { h with } hd ha hk (by rw [← hin, List.append_assoc])
  | control h hctl hres hk hin =>
    exact .control { h with } hctl hres hk (by rw [← hin, List.append_assoc])

/-- Calls of the application between two frames keep the step. -/
theorem Session.Tracks.served {s₁ : Session} (h : s.Tracks s₀ all z)
    (hh : s.rx.hasHeader = false) (hv : Served True True s s₁) : s₁.Tracks s₀ all z := by
  obtain ⟨hc, b, fs, hr, hsub, hsync⟩ := h
  have hb : s₁.bev = some b := by
    rcases hv.held trivial with hn | hn
    · exact absurd hn (hv.live trivial (by rw [hr.bev]; exact nofun))
    · exact hn.trans hr.bev
  obtain ⟨hrx, -⟩ := hv.rx trivial
  refine ⟨hc.same hv.sameCloses, b, fs, ⟨hb, hr.enabled, ?_, hv.sane, ?_⟩, hsub, ?_⟩
  · rw [hv.hs]
    exact hr.complete
  · rw [hv.binary]
    exact hr.checked
  · cases hsync with
    | idle h hin => exact .idle (by rw [hrx]; exact h) hin
    | data h => exact absurd (hh.symm.trans h.hasHeader) (by decide)
    | control h => exact absurd (hh.symm.trans h.hasHeader) (by decide)

/-- The session in which the traffic of a call begins. -/
theorem Session.OnStream.begins {i : Input} {s' : Session} (h : s.OnStream s₀ all z)
    (hi : i.IsCall) (hb : Begins env s i s') (hs : s'.Sane) :
    s'.OnStream s₀ all z ∧ s'.rx = s.rx := by
  cases hb with
  | closing =>
    refine ⟨⟨hs.tidy, h.recorded.same ⟨rfl, rfl⟩, fun hne => ?_⟩, rfl⟩
    obtain ⟨hc, b, fs, hr, hsub, hsync⟩ := h.tracks hne
    refine ⟨hc.same ⟨rfl, rfl⟩, b, fs, ⟨hr.bev, hr.enabled, hr.complete, hs, hr.checked⟩, hsub, ?_⟩
    cases hsync with
    | idle h hin => exact .idle h hin
    | data h hd ha hk hin => exact .data { h with } hd ha hk hin
    | control h hctl hres hk hin => exact .control { h with } hctl hres hk hin
  | sending => exact ⟨h, rfl⟩
  | received => exact hi.elim
  | announced => exact hi.elim
  | leftover => exact hi.elim

/-- A call between two frames keeps the step. -/
theorem Session.OnStream.served {s₁ : Session} (h : s.OnStream s₀ all z)
    (hh : s.rx.hasHeader = false) (hv : Served True True s s₁) : s₁.OnStream s₀ all z := by
  refine ⟨hv.sane.tidy, h.recorded.same hv.sameCloses, fun hne => ?_⟩
  refine (h.tracks fun hn => hne ?_).served hh hv
  rcases hv.held trivial with hn' | hn'
  · exact hn'
  · exact hn'.trans hn

private theorem listed_live (hf : env.NoFault) (ht : s.Tidy) (i : Input) : Listed env True s i :=
  step_listed (fun _ => hf) ht i

/-- A call between two frames keeps the step. -/
theorem wp_step_call (hf : env.NoFault) {i : Input} (h : s.OnStream s₀ all z) (hi : i.IsCall)
    (hne : i ≠ .connect) (hh : s.rx.hasHeader = false) :
    wp (step env i) (fun _ s' => s'.OnStream s₀ all z)
      (fun _ s' => Recorded s₀ all z.length s') s := by
  have hcall : i.IsCall = True := eq_true hi
  have hsettles : ∀ s', Settles env s i s' → s' = s := by
    intro s' hs
    cases hs with
    | idle => rfl
    | opened => exact absurd rfl hne
    | requested => exact hi.elim
    | notRequested => exact hi.elim
    | waiting => exact hi.elim
    | ended => exact hi.elim
    | timerFired => exact hi.elim
    | timedOut => exact hi.elim
  refine wp_mono (listed_live hf h.tidy i) (fun _ s' h' => ?_)
    fun e s' h' => ?_
  · rcases h' with hs | ⟨u, s₁, hb, hsane, hv, rfl⟩
    · rw [hsettles s' hs]
      exact h
    · obtain ⟨hu, hrx⟩ := h.begins hi hb hsane
      rw [hcall] at hv
      have hfin : i.finish s₁ = s₁ := by
        cases i <;> first | rfl | exact hi.elim
      rw [hfin]
      exact hu.served (by rw [hrx]; exact hh) hv
  · rcases h' with ⟨hs, -⟩ | ⟨u, hb, hsane, hv, -⟩ | ⟨href, -⟩
    · rw [hsettles s' hs]
      exact h.recorded
    · obtain ⟨hu, -⟩ := h.begins hi hb hsane
      rw [hcall] at hv
      exact hu.recorded.same hv.sameCloses
    · cases i <;> first | exact href.elim | exact hi.elim

private theorem Session.OnStream.of_bev_none {s' : Session} (ht : s'.Tidy)
    (hr : Recorded s₀ all z.length s') (hb : s'.bev = none) : s'.OnStream s₀ all z :=
  ⟨ht, hr, fun hne => absurd hb hne⟩

/-- A read keeps the step. -/
theorem wp_step_read_onStream (hf : env.NoFault) (hh : Harmless all z)
    (h : s.OnStream s₀ all (c ++ z)) :
    wp (step env (.read c)) (fun _ s' => s'.OnStream s₀ all z)
      (fun _ s' => Recorded s₀ all z.length s') s := by
  by_cases hb : s.bev = none
  · rw [step, wp_bind, wp_get, hb]
    exact .of_bev_none h.tidy (h.recorded.later (length_le_append _ z)) hb
  · obtain ⟨b, hr, ht⟩ := (h.tracks hb).of_read
    have htidy : wp (step env (.read c)) (fun _ s' => s'.Tidy) (fun _ _ => True) s :=
      wp_mono (listed_live hf h.tidy _) (fun _ _ h' => h'.tidy h.tidy) fun _ _ _ => trivial
    have hloop : wp (step env (.read c)) (fun _ s' => s'.Tracks s₀ all z)
        (fun _ s' => Recorded s₀ all z.length s') s := by
      rw [wp_congr (step_read_receiving hr c)]
      exact wp_readLoop_tracks hf hh _ ht
    exact wp_mono (wp_and htidy hloop) (fun _ _ h' => ⟨h'.1, h'.2.recorded, fun _ => h'.2⟩)
      fun _ _ h' => h'.2

/-- The end of the stream gives the connection up, after what is left in the buffer was read. -/
theorem wp_step_eof_onStream (hf : env.NoFault) (hh : Harmless all z) (h : s.OnStream s₀ all z) :
    wp (step env .eof) (fun _ s' => s'.OnStream s₀ all z)
      (fun _ s' => Recorded s₀ all z.length s') s := by
  by_cases hb : s.bev = none
  · rw [step, wp_bind, wp_get, hb]
    exact h
  · obtain ⟨-, b, fs, hr, -⟩ := h.tracks hb
    rw [step, wp_bind, wp_get]
    simp only [hr.bev, hr.enabled, if_true]
    rw [onEofEvent, wp_bind, wp_get]
    simp only [hr.bev]
    rw [wp_bind, readLeftover]
    simp only [wp_ended, wp_ite]
    split
    · exact .of_bev_none { h.tidy with closed := fun _ => rfl } (h.recorded.same ⟨rfl, rfl⟩) rfl
    · rw [readWebsocket, wp_bind, wp_get]
      simp only [hr.bev]
      refine wp_mono (wp_readLoop_tracks hf hh _ (h.tracks hb)) (fun _ s' h' => ?_)
        fun _ _ h' => h'
      obtain ⟨hc', b', fs', hr', -⟩ := h'
      exact .of_bev_none { hr'.sane.tidy with closed := fun _ => rfl } (hc'.same ⟨rfl, rfl⟩) rfl

/-- One input keeps the step. -/
theorem wp_step_onStream (hf : env.NoFault) {i : Input} (hh : Harmless all z)
    (h : s.OnStream s₀ all (i.bytes ++ z)) (hC : CallsBetweenFrames i s) :
    wp (step env i) (fun _ s' => s'.OnStream s₀ all z)
      (fun _ s' => Recorded s₀ all z.length s') s := by
  cases i with
  | connect => exact hC.elim
  | close => exact wp_step_call hf h trivial (by rintro ⟨⟩) hC
  | send msg => exact wp_step_call hf h trivial (by rintro ⟨⟩) hC
  | error => exact h
  | connectTimeout => exact h
  | connected =>
    rw [step, wp_bind, wp_get]
    cases hb : s.bev with
    | none => exact h
    | some b =>
      obtain ⟨-, b', fs, hr, -⟩ := h.tracks (by rw [hb]; exact (by rintro ⟨⟩))
      cases hb.symm.trans hr.bev
      simp only [hr.enabled, if_true]
      exact h
  | closeTimeout =>
    rw [step, wp_bind, wp_get, wp_ite]
    split
    · rw [wp_bind, wp_modify, onCloseTimeout, wp_bind, wp_get, wp_ite]
      split
      · exact h.recorded.same ⟨rfl, rfl⟩
      · exact .of_bev_none { h.tidy with closed := fun _ => rfl } (h.recorded.same ⟨rfl, rfl⟩) rfl
    · exact h
  | read c => exact wp_step_read_onStream hf hh h
  | eof => exact wp_step_eof_onStream hf hh h

/-- The reads of a run end where a read may end. -/
def InputsPass (all : List ServerFrame) (inputs : List Input) : Prop :=
  ∀ earlier, earlier <+: inputs →
    ReadMayEnd all ((serverStream all).length - (readBytes earlier).length)

/-- A run keeps the step. -/
theorem wp_run_onStream (hf : env.NoFault) {inputs : List Input} (hfr : ∀ f ∈ all, f.Harmless)
    (hcut : ∀ earlier later, inputs = earlier ++ later →
      ReadMayEnd all (readBytes later ++ z).length)
    (h : s.OnStream s₀ all (readBytes inputs ++ z))
    (hC : Along CallsBetweenFrames (step env) inputs s) :
    wp (run env inputs) (fun _ s' => Recorded s₀ all z.length s')
      (fun _ s' => Recorded s₀ all z.length s') s := by
  induction inputs generalizing s with
  | nil => exact h.recorded
  | cons i is ih =>
    have hh : Harmless all (readBytes is ++ z) := ⟨hfr, hcut [i] is rfl⟩
    have hst : s.OnStream s₀ all (i.bytes ++ (readBytes is ++ z)) := by
      rwa [← List.append_assoc]
    have hrest : ∀ earlier later, is = earlier ++ later →
        ReadMayEnd all (readBytes later ++ z).length := by
      rintro earlier later rfl
      exact hcut (i :: earlier) later rfl
    have hstep := wp_step_onStream hf hh hst hC.1
    rw [run, runAll_cons, wp_bind]
    rw [wp] at hstep ⊢
    cases hm : step env i s with
    | ok a s' =>
      rw [hm] at hstep
      exact ih hrest hstep (hC.2 s' hm)
    | error e s' =>
      rw [hm] at hstep
      exact hstep.later (length_le_append _ z)

/-- What a run on an open connection has recorded, when the frames are harmless and the application
calls between frames. -/
theorem recorded_run (hf : env.NoFault) (hs : s.Fresh) (hfr : ∀ f ∈ all, f.Harmless)
    {inputs : List Input} (hst : readBytes inputs ++ z = serverStream all)
    (hcut : InputsPass all inputs) (hC : Along CallsBetweenFrames (step env) inputs s) :
    Recorded s all z.length (finalState (run env inputs s)) := by
  have hcuts : ∀ earlier later, inputs = earlier ++ later →
      ReadMayEnd all (readBytes later ++ z).length := by
    rintro earlier later rfl
    have hc := hcut earlier (List.prefix_append _ _)
    rw [← hst, readBytes, List.flatMap_append, ← readBytes, ← readBytes, List.append_assoc,
      List.length_append, Nat.add_sub_cancel_left] at hc
    exact hc
  have hon : s.OnStream s all (readBytes inputs ++ z) :=
    ⟨hs.receiving.sane.tidy, .refl s all _, fun _ => ⟨.refl s all _, _, all, hs.receiving,
      List.suffix_rfl, .idle hs.between.hasHeader hst⟩⟩
  exact wp_final.mp (wp_run_onStream hf hfr hcuts hon hC)

/-- When the frames are harmless and the application calls between frames, a close is recorded
only if a complete Close frame has arrived. -/
theorem receivedClose_of_closeFrame (hf : env.NoFault) (hs : s.Fresh)
    (h0 : s.cl.receivedCloseFlag = false) (hfr : ∀ f ∈ all, f.Harmless) {inputs : List Input}
    (hst : readBytes inputs ++ z = serverStream all) (hcut : InputsPass all inputs)
    (hC : Along CallsBetweenFrames (step env) inputs s)
    (hclose : (finalState (run env inputs s)).cl.receivedCloseFlag = true) :
    ∃ done, done <+: all ∧ serverStream done <+: readBytes inputs ∧
      ∃ f ∈ done, f.opcode = .close := by
  obtain ⟨es, -, hrec, hall⟩ := recorded_run hf hs hfr hst hcut hC
  have hne := (hrec hclose).resolve_left (by rw [h0]; decide)
  obtain ⟨e, he⟩ := List.exists_mem_of_ne_nil es hne
  obtain ⟨f, hcomplete, hop, -⟩ := hall e he
  obtain ⟨done, hpre, hread, hmem⟩ := hcomplete.exists_done hst
  exact ⟨done, hpre, hread, f, hmem, hop⟩

/-- A masked text, and a Close frame with a status. -/
def greeting : List ServerFrame :=
  [⟨.plain true .text [0x48, 0x69], some ⟨1, 2, 3, 4⟩⟩, (Frame.plain true .close [0x03, 0xE8])]

/-- The greeting in two reads, the first of which ends inside the header of the Close frame, with
a message of the application in between. -/
def greetingInputs : List Input :=
  [.read [0x81, 0x82, 0x01, 0x02, 0x03, 0x04, 0x49, 0x6B, 0x88], .send [0x41],
    .read [0x02, 0x03, 0xE8]]

private theorem greeting_harmless : ∀ f ∈ greeting, f.Harmless := by
  rw [greeting, List.forall_mem_cons, List.forall_mem_singleton]
  constructor
  · exact ⟨Frame.plain_fits (by decide), fun h => absurd h (by decide),
      fun _ => ⟨by decide, Or.inl (by decide)⟩⟩
  · exact ⟨Frame.plain_fits (by decide), fun _ => by decide, fun h => absurd h (by decide)⟩

private theorem greeting_inputsPass : InputsPass greeting greetingInputs := by
  intro earlier hpre f fs hsub hlt hlt'
  have hread : ∀ e ∈ greetingInputs.inits,
      (readBytes e).length = 0 ∨ (readBytes e).length = 9 ∨ (readBytes e).length = 12 := by decide
  have hcuts := hread earlier ((List.mem_inits _ _).mpr hpre)
  have hall : (serverStream greeting).length = 12 := by decide
  rcases List.suffix_cons_iff.mp hsub with heq | hsub
  · -- No read ends inside the text.
    obtain ⟨rfl, rfl⟩ := List.cons.inj heq
    have hclose : (serverStream [(Frame.plain true .close [0x03, 0xE8] : ServerFrame)]).length =
      4 := by decide
    change _ < (serverStream greeting).length at hlt'
    omega
  · rcases List.suffix_cons_iff.mp hsub with heq | hnil
    · obtain ⟨rfl, rfl⟩ := List.cons.inj heq
      exact (ServerFrame.mayEnd_iff_passes rfl).mpr fun h => absurd h (by decide)
    · exact absurd (List.suffix_nil.mp hnil) nofun

private theorem greeting_calls :
    Along CallsBetweenFrames (step listener) greetingInputs justOpened := by
  decide +kernel

/-- On a connection just opened no close was recorded and no control payload stored. -/
private theorem justOpened_blank :
    justOpened.cl.receivedCloseFlag = false ∧ justOpened.rx.ctrlWrites = [] := by
  decide +kernel

/-- The Close frame of the greeting is what the recorded close stands for. -/
theorem receivedClose_greeting :
    ∃ done, done <+: greeting ∧ serverStream done <+: readBytes greetingInputs ∧
      ∃ f ∈ done, f.opcode = .close :=
  receivedClose_of_closeFrame (z := []) (fun _ => rfl) justOpened_fresh justOpened_blank.1
    greeting_harmless (by decide) greeting_inputsPass greeting_calls (by decide +kernel)

/-- Text that is not UTF-8 is answered with a Close frame, whose header then stands for the
header of the frame received. -/
theorem close_recorded_without_closeFrame :
    ¬ ∀ (env : Env) (s : Session) (all : List Frame) (inputs : List Input), env.NoFault →
      s.Fresh → s.cl.receivedCloseFlag = false → (∀ f ∈ all, f.form.Fits f.payload.length) →
      readBytes inputs = stream all →
      (finalState (run env inputs s)).cl.receivedCloseFlag = true →
      ∃ done, done <+: all ∧ stream done <+: readBytes inputs ∧
        ∃ f ∈ done, f.opcode = .close := by
  intro h
  have hfits : ∀ f ∈ [Frame.plain true .text [0xFF, 0xFF]], f.form.Fits f.payload.length := by
    simp only [List.mem_singleton, forall_eq]
    exact (Frame.plain_fits (by decide)).form
  obtain ⟨done, hpre, -, f, hmem, hop⟩ := h listener justOpened
    [.plain true .text [0xFF, 0xFF]] [.read [0x81, 0x02, 0xFF, 0xFF]] (fun _ => rfl)
    justOpened_fresh justOpened_blank.1 hfits (by decide) (by decide +kernel)
  have hf := List.mem_singleton.mp (hpre.mem hmem)
  rw [hf] at hop
  exact absurd hop (by decide)

/-! ## The control payload buffer -/

/-- When the frames are harmless and the application calls between frames, every store into
`ctrlPayload_` is within its bounds, and `ctrlLen_` is, unless a Close frame has arrived whose
payload fills the buffer. -/
theorem ctrlPayload_inBounds (hf : env.NoFault) (hs : s.Fresh)
    (h0 : ∀ i ∈ s.rx.ctrlWrites, i < WS_CONTROL_MAX_PAYLOAD_LEN) (hfr : ∀ f ∈ all, f.Harmless)
    {inputs : List Input} (hst : readBytes inputs ++ z = serverStream all)
    (hcut : InputsPass all inputs) (hC : Along CallsBetweenFrames (step env) inputs s)
    (hshort : ∀ done, done <+: all → serverStream done <+: readBytes inputs →
      ∀ f ∈ done, f.opcode = .close → f.payload.length ≠ WS_CONTROL_MAX_PAYLOAD_LEN) :
    (∀ i ∈ (finalState (run env inputs s)).rx.ctrlWrites, i < WS_CONTROL_MAX_PAYLOAD_LEN) ∧
      (finalState (run env inputs s)).rx.ctrlLen ≤ WS_CONTROL_MAX_PAYLOAD_LEN := by
  have hr := hs.receiving
  obtain ⟨hlen, ws, es, hw, hl, hbounded⟩ :=
    ctrlSince_run env hr.sane.tidy hr.sane.ctrlLen inputs
  obtain ⟨es', hl', -, hall⟩ := recorded_run hf hs hfr hst hcut hC
  refine ⟨?_, hlen⟩
  rw [hw, List.forall_mem_append]
  refine ⟨h0, hbounded fun e he hfull => ?_⟩
  rw [List.append_cancel_left (hl.symm.trans hl')] at he
  obtain ⟨f, hcomplete, hop, hctrl⟩ := hall e he
  obtain ⟨done, hpre, hread, hmem⟩ := hcomplete.exists_done hst
  exact hshort done hpre hread f hmem hop (hctrl.symm.trans hfull)

/-- The Close frame of the greeting stays within the buffer. -/
theorem ctrlPayload_inBounds_greeting :
    (∀ i ∈ (finalState (run listener greetingInputs justOpened)).rx.ctrlWrites,
      i < WS_CONTROL_MAX_PAYLOAD_LEN) ∧
    (finalState (run listener greetingInputs justOpened)).rx.ctrlLen ≤
      WS_CONTROL_MAX_PAYLOAD_LEN := by
  have hshort : ∀ f ∈ greeting, f.payload.length ≠ WS_CONTROL_MAX_PAYLOAD_LEN := by decide
  exact ctrlPayload_inBounds (z := []) (fun _ => rfl) justOpened_fresh
    (by rw [justOpened_blank.2]; exact fun _ h => absurd h List.not_mem_nil) greeting_harmless
    (by decide) greeting_inputsPass greeting_calls
    fun done hpre _ f hmem _ => hshort f (hpre.mem hmem)

/-- The terminating NUL of a Close frame of full length is stored behind the buffer. -/
theorem ctrlPayload_overrun :
    ¬ ∀ (env : Env) (s₀ : Session) (inputs : List Input), doInit env {} = .ok 0 s₀ →
      (∀ i ∈ (finalState (run env inputs s₀)).rx.ctrlWrites, i < WS_CONTROL_MAX_PAYLOAD_LEN) ∧
        (finalState (run env inputs s₀)).rx.ctrlLen ≤ WS_CONTROL_MAX_PAYLOAD_LEN := by
  intro h
  have hwrite : 125 ∈ (finalState (run {} (replyThen ([0x88, 0x7D, 0x03, 0xE8] ++
      List.replicate 123 0x41)) Session.initialised)).rx.ctrlWrites := by decide +kernel
  have hbound := (h {} Session.initialised (replyThen ([0x88, 0x7D, 0x03, 0xE8] ++
    List.replicate 123 0x41)) rfl).1 125 hwrite
  exact absurd hbound (by decide)

end CppImprovement.Ws

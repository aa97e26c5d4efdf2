import CppImprovement.Net.Ws.Delivery
import CppImprovement.Net.Ws.Lifecycle

/-!
# Messages in any number of reads

A stream of messages, each in one frame, is read in any number of reads. When no
read ends inside a character, the session does what delivering the messages one
after the other does; when one does, the text check of the unfinished frame sends
a Close frame.
-/

namespace CppImprovement.Ws

variable {env : Env} {s t : Session} {b : Bufferevent} {f : Frame} {fs : List Frame} {z : Bytes}

/-! ## Streams of frames -/

/-- The bytes of a sequence of frames. -/
def stream (fs : List Frame) : Bytes := fs.flatMap Frame.bytes

@[simp] theorem stream_cons (f : Frame) (fs : List Frame) :
    stream (f :: fs) = f.bytes ++ stream fs := rfl

/-- The octets of two sequences of frames. -/
theorem stream_append (fs gs : List Frame) : stream (fs ++ gs) = stream fs ++ stream gs :=
  List.flatMap_append

/-- The last frames of a sequence have no more octets than all of them. -/
theorem length_stream_suffix {fs gs : List Frame} (h : fs <:+ gs) :
    (stream fs).length ≤ (stream gs).length := by
  obtain ⟨pre, rfl⟩ := h
  rw [stream_append, List.length_append]
  omega

/-- The frame is a whole message of valid text. -/
structure Frame.Whole (f : Frame) : Prop where
  fits : f.Fits
  begins : f.BeginsMessage
  fin : f.fin = true
  text : ValidUtf8 f.payload

/-- The text check lets a whole message pass. -/
theorem Frame.Whole.passes (h : f.Whole) : f.Passes f.payload.length := by
  rw [Frame.Passes, List.take_length, validateUtf8_of_valid h.text]
  exact fun _ => ⟨by decide, Or.inl rfl⟩

/-- The frames that are complete when `m` bytes of their stream are still to come. -/
def due : List Frame → Nat → List Frame
  | [], _ => []
  | f :: fs, m => if m ≤ (stream fs).length then f :: due fs m else []

/-- The frames that are not. -/
def undue : List Frame → Nat → List Frame
  | [], _ => []
  | f :: fs, m => if m ≤ (stream fs).length then undue fs m else f :: fs

/-- Every frame is due or is not. -/
theorem due_append_undue (fs : List Frame) (m : Nat) : due fs m ++ undue fs m = fs := by
  induction fs with
  | nil => rfl
  | cons f fs ih =>
    rw [due, undue]
    split
    · rw [List.cons_append, ih]
    · rfl

/-- The frames that are not due are the last ones. -/
theorem undue_suffix (fs : List Frame) (m : Nat) : undue fs m <:+ fs :=
  ⟨due fs m, due_append_undue fs m⟩

/-- In the end every frame is due. -/
theorem undue_zero (fs : List Frame) : undue fs 0 = [] := by
  induction fs with
  | nil => rfl
  | cons f fs ih => rw [undue, if_pos (Nat.zero_le _), ih]

/-- None of the frames that are not due is due. -/
theorem undue_undue (fs : List Frame) (m : Nat) : undue (undue fs m) m = undue fs m := by
  induction fs with
  | nil => rfl
  | cons f fs ih =>
    by_cases hm : m ≤ (stream fs).length
    · rw [undue, if_pos hm, ih]
    · rw [undue, if_neg hm, undue, if_neg hm]

/-- The text check lets the part of the frame pass that has arrived when `m` bytes of the stream
are still to come. -/
def CutPasses : List Frame → Nat → Prop
  | [], _ => True
  | f :: fs, m =>
    if m ≤ (stream fs).length then CutPasses fs m
    else f.Passes (f.payload.length + (stream fs).length - m)

/-- At the end of the stream no frame is cut. -/
theorem cutPasses_zero (fs : List Frame) : CutPasses fs 0 := by
  induction fs with
  | nil => trivial
  | cons f fs ih =>
    rw [CutPasses, if_pos (Nat.zero_le _)]
    exact ih

/-! ## The receiver and the stream -/

/-- The receiver expects the frames `fs`, of which the buffer holds the beginning and `z` is
still to come; it may be inside the first of them. -/
inductive Session.Awaits (s : Session) (b : Bufferevent) : List Frame → Bytes → Prop
  | between {fs : List Frame} {z : Bytes} (h : s.Between) (hin : b.input ++ z = stream fs) :
    Awaits s b fs z
  | inside {f : Frame} {fs : List Frame} {k : Nat} {z : Bytes} (h : s.InFrame f k)
    (hk : k < f.payload.length) (hp : f.Passes k)
    (hin : b.input ++ z = f.payload.drop k ++ stream fs) :
    Awaits s b (f :: fs) z

/-- The buffer holds nothing that a round could use: no part of a payload, and of the next
header a part at most. -/
structure Session.Starved (s : Session) (b : Bufferevent) (fs : List Frame) : Prop where
  outside : ∀ f ∈ fs.head?, s.rx.hasHeader = false → b.input.length < f.header.length
  inside : s.rx.hasHeader = true → b.input = []

/-- An empty buffer holds nothing that a round could use. -/
theorem Session.starved_of_nil {fs : List Frame} (hin : b.input = []) : s.Starved b fs where
  outside := fun f _ _ => by
    have := f.two_le_length_header
    rw [hin, List.length_nil]
    omega
  inside := fun _ => hin

/-- What has been read begins with all that comes before what is to come. -/
theorem exists_of_append_eq {a z c d : Bytes} (h : a ++ z = c ++ d) (hle : z.length ≤ d.length) :
    ∃ x, a = c ++ x ∧ x ++ z = d := by
  rcases List.append_eq_append_iff.mp h with ⟨x, rfl, rfl⟩ | ⟨x, rfl, rfl⟩
  · have hx : x = [] := by
      rw [List.length_append] at hle
      exact List.length_eq_zero_iff.mp (by omega)
    subst hx
    exact ⟨[], by simp, rfl⟩
  · exact ⟨x, rfl, rfl⟩

/-- A buffer that is in step with a stream ends inside the stream's beginning `c`, or holds all
of it. -/
theorem part_or_rest {y c d : Bytes} (h : y ++ z = c ++ d) :
    (∃ x, y ++ x = c ∧ x ≠ []) ∨ ∃ x, y = c ++ x ∧ x ++ z = d := by
  have hlen := congrArg List.length h
  rw [List.length_append, List.length_append] at hlen
  by_cases hlt : y.length < c.length
  · obtain ⟨x, hx, -⟩ := exists_of_append_eq h.symm (by omega)
    refine Or.inl ⟨x, hx.symm, fun hnil => ?_⟩
    rw [hx, hnil, List.append_nil] at hlt
    omega
  · exact Or.inr (exists_of_append_eq h (by omega))

/-- Between two frames the buffer ends inside the header of the next one, or holds all of it. -/
theorem header_or_rest {y : Bytes} (hin : y ++ z = stream (f :: fs)) :
    (∃ d, y ++ d = f.header ∧ d ≠ []) ∨
      ∃ x, y = f.header ++ x ∧ x ++ z = f.payload ++ stream fs := by
  rw [stream_cons, Frame.bytes, List.append_assoc] at hin
  exact part_or_rest hin

/-- What a buffer that does not hold the rest of the frame holds of it. -/
theorem payload_part {y : Bytes} {k : Nat} (hin : y ++ z = f.payload.drop k ++ stream fs)
    (hk : k ≤ f.payload.length) (hz : (stream fs).length < z.length) :
    ∃ d, f.payload.drop k = y ++ d ∧ z = d ++ stream fs ∧
      k + y.length = f.payload.length + (stream fs).length - z.length ∧
      k + y.length < f.payload.length := by
  obtain ⟨d, hd, hdz⟩ := exists_of_append_eq hin.symm hz.le
  have hlen := congrArg List.length hd
  have hlen' := congrArg List.length hdz
  rw [List.length_append] at hlen'
  rw [List.length_drop, List.length_append] at hlen
  exact ⟨d, hd, hdz.symm, by omega, by omega⟩

/-- The session goes on receiving after the header of a frame. -/
theorem Session.Receiving.begun (h : s.Receiving b) (f : Frame) (x : Bytes) :
    (s.begun b f x).Receiving { b with input := x } :=
  ⟨rfl, h.enabled, h.complete, { h.sane with }, h.checked⟩

private theorem Session.begun_line (hb : s.bev = some b) (f : Frame) (x : Bytes) :
    Line False False (s.begun b f x) s :=
  { Line.refl False False s with
    bev := by simp [Session.begun, hb]
    header := False.elim
    scratchPos := False.elim }

/-- The receiver is inside the frame `f` of the stream after the header part of a round. -/
structure Entered (env : Env) (s : Session) (b : Bufferevent) (f : Frame) (fs : List Frame)
    (z : Bytes) (s₁ : Session) (b₁ : Bufferevent) (k : Nat) : Prop where
  round : ∀ n, readLoop env (n + 1) s = (readPayload env >>= fun _ => readLoop env n) s₁
  inFrame : s₁.InFrame f k
  le : k ≤ f.payload.length
  passes : f.Passes k
  receiving : s₁.Receiving b₁
  input : b₁.input ++ z = f.payload.drop k ++ stream fs
  progress : b₁.input.length + k < b.input.length + f.payload.length
  line : Line False False s₁ s

/-- A round reads the header of the next frame or finds itself inside it, unless a part of the
header is missing. -/
theorem Session.Awaits.enters (hf : env.NoFault) (h : s.Awaits b (f :: fs) z)
    (hr : s.Receiving b) (hs : f.Fits) (hm : f.BeginsMessage) (hin : b.input ≠ []) :
    (s.Between ∧ b.input ++ z = stream (f :: fs) ∧ ∃ d, b.input ++ d = f.header ∧ d ≠ []) ∨
      ∃ s₁ b₁ k, Entered env s b f fs z s₁ b₁ k := by
  cases h with
  | between h hst =>
    rcases header_or_rest hst with hpart | ⟨x, hx, hxz⟩
    · exact Or.inl ⟨h, hst, hpart⟩
    · right
      have hneed := needHeader_begins hf hs hm hr.reading hx h.hasHeader h.inMsgFlag
      refine ⟨s.begun b f x, { b with input := x }, 0, ?_⟩
      exact
        { round := readLoop_round hr.reading hin hneed
          inFrame := Session.begun_inFrame hr.checked f x
          le := Nat.zero_le _
          passes := f.passes_zero
          receiving := hr.begun f x
          input := hxz
          progress := by
            have := f.two_le_length_header
            rw [hx, List.length_append]
            change x.length + 0 < _
            omega
          line := Session.begun_line hr.bev f x }
  | @inside _ _ k _ h hk hp hst =>
    refine Or.inr ⟨s, b, k, ?_⟩
    exact
      { round := readLoop_round hr.reading hin (needHeader_inside h.hasHeader _)
        inFrame := h
        le := hk.le
        passes := hp
        receiving := hr
        input := hst
        progress := by omega
        line := Line.refl _ _ s }

/-! ## A round -/

/-- The session goes on receiving after a chunk. -/
theorem Session.Receiving.took (h : s.Receiving b) (c x : Bytes) :
    (s.took b c x).Receiving { b with input := x } :=
  ⟨rfl, h.enabled, h.complete, { h.sane with }, h.checked⟩

/-- Sending does not look at the chunk. -/
theorem Session.took_line (hb : s.bev = some b) (c x : Bytes) :
    Line False False (s.took b c x) s :=
  { Line.refl False False s with bev := by simp [Session.took, hb] }

/-- The session `u` has received the message `f` and is about to deliver it. -/
structure Holds (u s : Session) (f : Frame) : Prop where
  kind : u.rx.msgIsBinary_ = decide (f.opcode = .binary)
  line : Line False False u s

/-- A round with the rest of a message in the buffer delivers it. -/
theorem Session.Awaits.delivers (hf : env.NoFault) (h : s.Awaits b (f :: fs) z)
    (hr : s.Receiving b) (hw : f.Whole) (hin : b.input ≠ []) (hz : z.length ≤ (stream fs).length)
    (n : Nat) :
    ∃ u b', readLoop env (n + 1) s =
        (endOfMessage env f.payload >>= fun _ => readLoop env n) u ∧
      Holds u s f ∧ u.Receiving b' ∧ b'.input ++ z = stream fs ∧
      b'.input.length < b.input.length := by
  rcases h.enters hf hr hw.fits hw.begins hin with ⟨-, hst, d, hd, hne⟩ | ⟨s₁, b₁, k, he⟩
  · have hlen := congrArg List.length hst
    have hlen' := congrArg List.length hd
    have hpos := List.length_pos_iff.mpr hne
    simp only [stream_cons, List.length_append, Frame.length_bytes] at hlen hlen'
    omega
  · obtain ⟨x, hx, hxz⟩ := exists_of_append_eq he.input hz
    have hread : readPayload env s₁ = endOfMessage env f.payload
        ((s₁.took b₁ (f.payload.drop k) x).gathered f.payload) := by
      rw [readPayload_complete he.inFrame hw.fits hw.begins he.receiving.reading hx he.le hw.passes]
      refine endFrame_final ?_ hw.begins hw.fin
      have ht := he.inFrame.took (List.append_nil _).symm b₁ x
      rwa [List.length_drop, Nat.add_sub_cancel' he.le] at ht
    have hrec := he.receiving.took (f.payload.drop k) x
    refine ⟨_, { b₁ with input := x }, (he.round n).trans (bind_eq_of_eq hread), ?_, ?_, hxz, ?_⟩
    · have hl := (Session.took_line he.receiving.bev (f.payload.drop k) x).trans he.line
      exact ⟨he.inFrame.kind, { hl with }⟩
    · exact ⟨hrec.bev, hrec.enabled, hrec.complete, { hrec.sane with }, hrec.checked⟩
    · have := he.progress
      rw [hx, List.length_append, List.length_drop] at this
      change x.length < _
      omega

/-- A round with a part of a message in the buffer stores it, if it passes the text check. -/
theorem Session.Awaits.stores (hf : env.NoFault) (h : s.Awaits b (f :: fs) z)
    (hr : s.Receiving b) (hw : f.Whole) (hin : b.input ≠ []) (hz : (stream fs).length < z.length)
    (hp : f.Passes (f.payload.length + (stream fs).length - z.length)) (n : Nat) :
    ∃ u b', readLoop env (n + 1) s = .ok () u ∧ Line False False u s ∧ u.Receiving b' ∧
      u.Awaits b' (f :: fs) z ∧ u.Starved b' (f :: fs) := by
  rcases h.enters hf hr hw.fits hw.begins hin with ⟨hb, hst, d, hd, hne⟩ | ⟨s₁, b₁, k, he⟩
  · obtain ⟨hdr, hwait⟩ := needHeader_waits env hd hne hb.hasHeader
    refine ⟨_, b, readLoop_stop hr.reading hin hwait n, ?_, ?_, ?_, fun f' hf' _ => ?_,
      fun hh => ?_⟩
    · exact { Line.refl False False s with header := False.elim, scratchPos := False.elim }
    · exact ⟨hr.bev, hr.enabled, hr.complete, { hr.sane with }, hr.checked⟩
    · exact .between ⟨hb.hasHeader, hb.inMsgFlag⟩ hst
    · cases hf'
      have hpos := List.length_pos_iff.mpr hne
      rw [← hd, List.length_append]
      omega
    · exact absurd (hb.hasHeader.symm.trans hh) (by decide)
  · obtain ⟨d, hd, hdz, hlen, hlt⟩ := payload_part he.input he.le hz
    have hk : k < f.payload.length := by omega
    have hread : readPayload env s₁ = .ok () (s₁.took b₁ b₁.input []) := by
      rw [readPayload_took he.inFrame hw.fits hw.begins he.receiving.reading hd
        (List.append_nil _).symm (Or.inr rfl) hk (by rwa [hlen]), if_neg hlt.ne]
      rfl
    refine ⟨_, { b₁ with input := [] }, ?_, ?_, he.receiving.took b₁.input [], ?_,
      Session.starved_of_nil rfl⟩
    · rw [he.round n, bind_eq_of_ok hread]
      exact readLoop_nil (he.receiving.took b₁.input []).reading rfl n
    · exact (Session.took_line he.receiving.bev b₁.input []).trans he.line
    · refine .inside (he.inFrame.took hd b₁ []) hlt (by rwa [hlen]) ?_
      rw [← List.drop_drop, hd, List.drop_left]
      exact hdz

/-! ## Delivering messages -/

/-- The session at the end of a message does what delivering the message does. -/
theorem sim_endOfMessage (hf : env.NoFault) {u : Session} (hu : Holds u s f)
    (hr : u.Receiving b) (hl : Line False False s t) :
    Sim (fun s' t' => Line False False s' t' ∧ s'.Receiving b ∧ s'.Between) (Line False False)
      (endOfMessage env f.payload) (deliver env f) u t := by
  have hl' := hu.line.trans hl
  refine ((?_ : Sim (Line False False) (Line False False) (endOfMessage env f.payload)
    (deliver env f) u t).and_left (wp_endOfMessage_receiving hf hr f.payload)).mono
      (fun _ _ h' => ⟨h'.1, h'.2.1, h'.2.2.1⟩) fun _ _ h' => h'.1
  refine sim_right (u := { t with rx.msgIsBinary_ := decide (f.opcode = .binary) })
    (n := endOfMessage env f.payload) rfl ?_
  refine sim_bind (sim_callOnMessage hf f.payload { hl' with } hu.kind) fun _ s' t' h' => ?_
  exact sim_modify { h' with }

/-! ## The loop -/

/-- With an empty buffer the receiver waits for all of its frames. -/
theorem Session.Awaits.waits (h : s.Awaits b fs z) (hin : b.input = []) :
    due fs z.length = [] ∧ undue fs z.length = fs := by
  cases h with
  | between h hst =>
    rw [hin, List.nil_append] at hst
    subst hst
    cases fs with
    | nil => exact ⟨rfl, rfl⟩
    | cons f fs =>
      have hz : ¬ (stream (f :: fs)).length ≤ (stream fs).length := by
        have := f.two_le_length_header
        rw [stream_cons, List.length_append, Frame.length_bytes]
        omega
      rw [due, undue, if_neg hz, if_neg hz]
      exact ⟨rfl, rfl⟩
  | @inside f fs k _ h hk _ hst =>
    have hz : ¬ z.length ≤ (stream fs).length := by
      rw [← List.nil_append z, ← hin, hst, List.length_append, List.length_drop]
      omega
    rw [due, undue, if_neg hz, if_neg hz]
    exact ⟨rfl, rfl⟩

/-- The loop delivers the messages that are complete, and keeps the rest. -/
theorem sim_readLoop (hf : env.NoFault) {n : Nat} (hr : s.Receiving b) (h : s.Awaits b fs z)
    (hw : ∀ f ∈ fs, f.Whole) (hp : CutPasses fs z.length) (hn : b.input.length < n)
    (hl : Line False False s t) :
    Sim (fun s' t' => Line False False s' t' ∧
        ∃ b', s'.Receiving b' ∧ s'.Awaits b' (undue fs z.length) z ∧
          s'.Starved b' (undue fs z.length)) (Line False False)
      (readLoop env n) (runAll (deliver env) (due fs z.length)) s t := by
  induction n generalizing s t b fs with
  | zero => omega
  | succ n ih =>
    by_cases hin : b.input = []
    · obtain ⟨hd, hu⟩ := h.waits hin
      rw [hd, hu]
      exact sim_left (n := pure ()) (readLoop_nil hr.reading hin _)
        (sim_pure ⟨hl, b, hr, h, Session.starved_of_nil hin⟩ _)
    · cases fs with
      | nil =>
        cases h with
        | between _ hst => exact absurd (List.append_eq_nil_iff.mp hst).1 hin
      | cons f fs =>
        obtain ⟨hwf, hws⟩ := List.forall_mem_cons.mp hw
        rw [CutPasses] at hp
        rw [due, undue]
        by_cases hz : z.length ≤ (stream fs).length
        · rw [if_pos hz] at hp
          rw [if_pos hz, if_pos hz]
          obtain ⟨u, b', hround, hu, hr', hst, hlt⟩ := h.delivers hf hr hwf hin hz n
          refine sim_left hround ?_
          refine sim_bind (sim_endOfMessage hf hu hr' hl) fun _ s' t' ⟨hl', hr'', hb⟩ => ?_
          exact ih hr'' (.between hb hst) hws hp (by omega) hl'
        · rw [if_neg hz] at hp
          rw [if_neg hz, if_neg hz]
          obtain ⟨u, b', hround, hu, hr', ha, hs⟩ := h.stores hf hr hwf hin (not_le.mp hz) hp n
          exact sim_left (n := pure ()) hround (sim_pure ⟨hu.trans hl, b', hr', ha, hs⟩ _)

/-! ## Reads -/

/-- After the handshake a read goes to the loop. -/
theorem step_read_receiving (hr : s.Receiving b) (c : Bytes) :
    step env (.read c) s = readLoop env (2 * (b.input ++ c).length + 2) (s.received b c) := by
  refine eq_of_wp fun Q E hw => ?_
  simpa [step, onRead, readWebsocket, Session.inBuf, hr.bev, hr.enabled, hr.complete,
    Session.received] using hw

/-- The session receives what is read. -/
theorem Session.Receiving.received (hr : s.Receiving b) (c : Bytes) :
    (s.received b c).Receiving { b with input := b.input ++ c } :=
  ⟨rfl, hr.enabled, hr.complete, { hr.sane with }, hr.checked⟩

/-- A read moves octets from what is to come into the buffer. -/
theorem Session.Awaits.received {c : Bytes} (h : s.Awaits b fs (c ++ z)) :
    (s.received b c).Awaits { b with input := b.input ++ c } fs z := by
  cases h with
  | between h hst => exact .between ⟨h.hasHeader, h.inMsgFlag⟩ (by rw [← hst, List.append_assoc])
  | inside h hk hp hst =>
    refine .inside ?_ hk hp (by rw [← hst, List.append_assoc])
    exact { h with }

/-- Sending does not look at the input. -/
theorem Session.received_line (hb : s.bev = some b) (c : Bytes) :
    Line False False (s.received b c) s :=
  { Line.refl False False s with bev := by simp [Session.received, hb] }

/-- Every read ends where the text check lets what has arrived pass. -/
def ReadsPass (fs : List Frame) : List Bytes → Prop
  | [] => True
  | _ :: later => CutPasses fs later.flatten.length ∧ ReadsPass fs later

private theorem cutPasses_undue {m m' : Nat} (hle : m' ≤ m) :
    CutPasses (undue fs m) m' ↔ CutPasses fs m' := by
  induction fs with
  | nil => exact Iff.rfl
  | cons f fs ih =>
    by_cases hm : m ≤ (stream fs).length
    · rw [undue, if_pos hm, ih, CutPasses, if_pos (hle.trans hm)]
    · rw [undue, if_neg hm]

private theorem readsPass_undue {reads : List Bytes} {m : Nat} (hle : reads.flatten.length ≤ m) :
    ReadsPass (undue fs m) reads ↔ ReadsPass fs reads := by
  induction reads with
  | nil => exact Iff.rfl
  | cons c reads ih =>
    rw [List.flatten_cons, List.length_append] at hle
    rw [ReadsPass, ReadsPass, cutPasses_undue (by omega), ih (by omega)]

/-- One read. -/
theorem sim_read (hf : env.NoFault) {c : Bytes} (hr : s.Receiving b)
    (h : s.Awaits b fs (c ++ z)) (hw : ∀ f ∈ fs, f.Whole) (hp : CutPasses fs z.length)
    (hl : Line False False s t) :
    Sim (fun s' t' => Line False False s' t' ∧
        ∃ b', s'.Receiving b' ∧ s'.Awaits b' (undue fs z.length) z ∧
          s'.Starved b' (undue fs z.length)) (Line False False)
      (step env (.read c)) (runAll (deliver env) (due fs z.length)) s t := by
  refine sim_left (step_read_receiving hr c) ?_
  refine sim_readLoop hf (hr.received c) h.received hw hp ?_
    ((Session.received_line hr.bev c).trans hl)
  change (b.input ++ c).length < _
  omega

/-- Reads that end between characters do what delivering the messages does. -/
theorem sim_reads (hf : env.NoFault) {reads : List Bytes} (hr : s.Receiving b)
    (h : s.Awaits b fs reads.flatten) (hu : undue fs reads.flatten.length = fs)
    (hw : ∀ f ∈ fs, f.Whole) (hp : ReadsPass fs reads) (hl : Line False False s t) :
    Sim (Line False False) (Line False False) (run env (reads.map .read))
      (runAll (deliver env) fs) s t := by
  induction reads generalizing s t b fs with
  | nil =>
    have hnil : fs = [] := hu.symm.trans (undue_zero fs)
    subst hnil
    exact sim_pure hl _
  | cons c reads ih =>
    refine sim_right (u := t) (n := runAll (deliver env) (due fs reads.flatten.length) >>=
      fun _ => runAll (deliver env) (undue fs reads.flatten.length)) ?_ ?_
    · rw [← runAll_append, due_append_undue]
    · refine sim_bind (sim_read hf hr h hw hp.1 hl) fun _ s' t' h' => ?_
      obtain ⟨hl', b', hr', ha', -⟩ := h'
      refine ih hr' ha' (undue_undue fs _) (fun f hmem => ?_) ?_ hl'
      · exact hw f ((undue_suffix fs _).mem hmem)
      · exact (readsPass_undue le_rfl).mpr hp.2

/-! ## Reads that end inside a character -/

/-- A session that has sent its Close frame can go on. -/
theorem Session.Sane.closeStarted (h : s.Sane) (status : WSCloseStatus) (reason : Bytes) :
    (s.closeStarted env status reason).Sane := by
  rw [Session.closeStarted, Session.closeFrameSent]
  split <;>
    exact { h with notClosedCleanly := (by rintro ⟨⟩), notClosedUncleanly := (by rintro ⟨⟩) }

/-- A chunk that does not pass the text check makes the loop write a Close frame. -/
theorem Entered.refuses (hf : env.NoFault) {s₁ : Session} {b₁ : Bufferevent} {k : Nat}
    (he : Entered env s b f fs z s₁ b₁ k) (hs : f.Fits) (hm : f.BeginsMessage) {c d x : Bytes}
    (hd : f.payload.drop k = c ++ d) (hin : b₁.input = c ++ x) (hend : d = [] ∨ x = [])
    (hk : k < f.payload.length) (hc : s.cl.sentCloseFlag = false) (hp : ¬ f.Passes (k + c.length))
    (n : Nat) :
    wp (readLoop env (n + 1)) (fun _ => s.CloseWritten) (fun _ => s.CloseWritten) s := by
  have hcheck := checkUtf8_refuses (b := b₁) (x := x) hf he.inFrame hm
    he.receiving.sane.sendState hd hp
  have hread : readPayload env s₁ = handleChunk env c (s₁.drained b₁ c x) :=
    readPayload_chunk he.inFrame.header he.inFrame.recvFrameLen hs he.receiving.reading hd hin
      hend hk
  rw [handleChunk, bind_eq_of_ok hcheck] at hread
  rw [wp_congr ((he.round n).trans (bind_eq_of_eq hread))]
  have hnofault : False → env.NoFault := fun _ => hf
  refine Session.CloseWritten.after ?_ ?_ (moves_bind Serves.trans (moves_bind Serves.trans
    (serves_handleFrameData hnofault _ _) fun rc s₂ _ => moves_get_bind (moves_ite (fun _ =>
      moves_bind Serves.trans (serves_handleFrameEnd hnofault _) fun _ _ _ =>
        moves_pure Serves.refl _ _) fun _ => moves_pure Serves.refl _ _))
    fun _ s₃ _ => serves_readLoop hnofault n s₃)
  · have hw := closeWritten_closeStarted env (s := (s₁.drained b₁ c x).checkedOver c)
      (he.line.sentClose.trans hc) .inconsistentData1007 []
    exact Session.CloseWritten.of_line (s := s₁) hw he.line
  · refine Session.Sane.closeStarted ?_ _ _
    exact { he.receiving.sane with }

/-- A round whose part of a message does not pass the text check writes a Close frame. -/
theorem Session.Awaits.refuses (hf : env.NoFault) (h : s.Awaits b (f :: fs) z)
    (hr : s.Receiving b) (hw : f.Whole) (hin : b.input ≠ []) (hz : (stream fs).length < z.length)
    (hc : s.cl.sentCloseFlag = false)
    (hp : ¬ f.Passes (f.payload.length + (stream fs).length - z.length)) (n : Nat) :
    wp (readLoop env (n + 1)) (fun _ => s.CloseWritten) (fun _ => s.CloseWritten) s := by
  rcases h.enters hf hr hw.fits hw.begins hin with ⟨-, hst, d, hd, hne⟩ | ⟨s₁, b₁, k, he⟩
  · have hlen := congrArg List.length hst
    have hlen' := congrArg List.length hd
    have hpos := List.length_pos_iff.mpr hne
    simp only [stream_cons, List.length_append, Frame.length_bytes] at hlen hlen'
    refine absurd ?_ hp
    rw [show f.payload.length + (stream fs).length - z.length = 0 from by omega]
    exact f.passes_zero
  · obtain ⟨d, hd, hdz, hlen, hlt⟩ := payload_part he.input he.le hz
    have hk : k < f.payload.length := by omega
    rw [← hlen] at hp
    exact he.refuses hf hw.fits hw.begins hd (List.append_nil _).symm (Or.inr rfl) hk hc hp n

/-- What sending looks at decides whether the connection is open. -/
theorem Session.Open.of_line (h : t.Open) (hl : Line False False s t) : s.Open where
  bev := fun hn => h.bev (hl.bev.mp hn)
  state := hl.state.trans h.state
  sentClose := hl.sentClose.trans h.sentClose
  sendState := by rw [hl.tx, h.sendState]
  maxFrameSize := by rw [hl.tx, h.maxFrameSize]

/-- What was told is told of every session that sends alike. -/
theorem Session.Told.of_line {ms : List Event} {s' t' : Session} (h : s.Told ms t')
    (hl : Line False False s' t') : s.Told ms s' := by
  refine ⟨h.stays.of_line hl, ?_⟩
  rw [hl.trace]
  exact h.trace

/-- A read on an open connection, to a handler that does not close. -/
theorem wp_read_told (hf : env.NoFault) (hq : env.app.NeverCloses) {c : Bytes} (hr : s.Receiving b)
    (h : s.Awaits b fs (c ++ z)) (ho : s.Open) (hw : ∀ f ∈ fs, f.Whole)
    (hp : CutPasses fs z.length) :
    wp (step env (.read c))
      (fun _ s' => s.Told (messages env (due fs z.length)) s' ∧
        ∃ b', s'.Receiving b' ∧ s'.Awaits b' (undue fs z.length) z ∧
          s'.Starved b' (undue fs z.length))
      (fun _ _ => False) s := by
  have hsim := sim_read hf hr h hw hp (Line.refl False False s)
  refine wp_mono (hsim.wp_left (wp_deliver_told hf hq ho _)) (fun _ s₁ h₁ => ?_)
    fun _ _ hn => hn
  obtain ⟨t₁, ⟨hl₁, hrest⟩, htold⟩ := h₁
  exact ⟨htold.of_line hl₁, hrest⟩

/-- A message is delivered, and the loop writes a Close frame later. -/
theorem Session.Awaits.delivers_closeWritten (hf : env.NoFault) (hq : env.app.NeverCloses) {n : Nat}
    (h : s.Awaits b (f :: fs) z) (hr : s.Receiving b) (ho : s.Open) (hw : f.Whole)
    (hin : b.input ≠ []) (hz : z.length ≤ (stream fs).length)
    (hrest : ∀ s₁ b₁, s₁.Receiving b₁ → s₁.Between → s₁.Open → b₁.input ++ z = stream fs →
      b₁.input.length < b.input.length →
      wp (readLoop env n) (fun _ => s₁.CloseWritten) (fun _ => s₁.CloseWritten) s₁) :
    wp (readLoop env (n + 1)) (fun _ => s.CloseWritten) (fun _ => s.CloseWritten) s := by
  obtain ⟨u, b', hround, hu, hr', hst, hlt⟩ := h.delivers hf hr hw hin hz n
  rw [wp_congr hround, wp_bind]
  have htold := wp_endOfMessage_told hf hq (ho.of_line hu.line) f.payload
  refine wp_mono (wp_and htold (wp_endOfMessage_receiving hf hr' f.payload))
    (fun _ s₁ h₁ => ?_) fun _ _ h₁ => h₁.1.elim
  obtain ⟨htold₁, hr₁, hb₁, -⟩ := h₁
  exact wp_mono (hrest s₁ b' hr₁ hb₁ htold₁.stays hst hlt)
    (fun _ _ hc => (htold₁.extends.closeWritten hc).of_line hu.line)
    fun _ _ hc => (htold₁.extends.closeWritten hc).of_line hu.line

private theorem Session.Awaits.passes_of_nil (h : s.Awaits b fs z) (hin : b.input = []) :
    CutPasses fs z.length := by
  cases h with
  | between h hst =>
    rw [hin, List.nil_append] at hst
    subst hst
    cases fs with
    | nil => trivial
    | cons f fs =>
      have := f.two_le_length_header
      have hlen : (stream (f :: fs)).length =
          f.header.length + f.payload.length + (stream fs).length := by
        rw [stream_cons, List.length_append, Frame.length_bytes]
      rw [CutPasses, if_neg (by omega),
        show f.payload.length + (stream fs).length - (stream (f :: fs)).length = 0 from by omega]
      exact f.passes_zero
  | @inside f fs k _ h hk hp hst =>
    have hz : z.length = f.payload.length - k + (stream fs).length := by
      rw [← List.nil_append z, ← hin, hst, List.length_append, List.length_drop]
    rw [CutPasses, if_neg (by omega),
      show f.payload.length + (stream fs).length - z.length = k from by omega]
    exact hp

/-- The loop writes a Close frame when what is left in the buffer does not pass the text check. -/
theorem wp_readLoop_refused (hf : env.NoFault) (hq : env.app.NeverCloses) {n : Nat}
    (hr : s.Receiving b) (h : s.Awaits b fs z) (ho : s.Open) (hw : ∀ f ∈ fs, f.Whole)
    (hp : ¬ CutPasses fs z.length) (hn : b.input.length < n) :
    wp (readLoop env n) (fun _ => s.CloseWritten) (fun _ => s.CloseWritten) s := by
  induction n generalizing s b fs with
  | zero => omega
  | succ n ih =>
    have hin : b.input ≠ [] := fun hnil => hp (h.passes_of_nil hnil)
    cases fs with
    | nil => exact absurd trivial hp
    | cons f fs =>
      obtain ⟨hwf, hws⟩ := List.forall_mem_cons.mp hw
      rw [CutPasses] at hp
      by_cases hz : z.length ≤ (stream fs).length
      · rw [if_pos hz] at hp
        refine h.delivers_closeWritten hf hq hr ho hwf hin hz fun s₁ b₁ hr₁ hb₁ ho₁ hst hlt => ?_
        exact ih hr₁ (.between hb₁ hst) ho₁ hws hp (by omega)
      · rw [if_neg hz] at hp
        exact h.refuses hf hr hwf hin (not_le.mp hz) ho.sentClose hp n

/-! ## Runs of reads -/

/-- The loop goes on with the session, whatever is in the buffer. -/
theorem wp_readLoop_extends (hf : env.NoFault) (hr : s.Receiving b) (n : Nat) :
    wp (readLoop env n) (fun _ s' => s.Extends s' ∧ ∃ b', s'.Receiving b')
      (fun _ => s.Extends) s := by
  have hmoves : Moves (Serves True False) Mild (readLoop env n) s :=
    serves_readLoop (fun _ => hf) _ _
  refine wp_mono hmoves (fun _ s' h' => ?_) fun _ s' h' => ?_
  · have hv := h' hr.sane
    obtain ⟨evs, he, -⟩ := hv.trace
    obtain ⟨b', hb'⟩ := Option.ne_none_iff_exists'.mp (hv.live trivial (by simp [hr.bev]))
    obtain ⟨b₀, hb₀, hen⟩ := hv.bev b' hb'
    cases hr.bev.symm.trans hb₀
    exact ⟨⟨evs, he⟩, b', hb', hen.trans hr.enabled, by rw [hv.hs]; exact hr.complete,
      hv.sane, by rw [hv.binary]; exact hr.checked⟩
  · obtain ⟨evs, he, -⟩ := (h'.1 hr.sane).trace
    exact ⟨evs, he⟩

/-- A read goes on with the session, whatever was read. -/
theorem wp_step_read_extends (hf : env.NoFault) (hr : s.Receiving b) (c : Bytes) :
    wp (step env (.read c)) (fun _ s' => s.Extends s' ∧ ∃ b', s'.Receiving b')
      (fun _ => s.Extends) s := by
  rw [wp_congr (step_read_receiving hr c)]
  exact wp_readLoop_extends hf (hr.received c) _

private theorem wp_reads_extends (hf : env.NoFault) (hr : s.Receiving b) (reads : List Bytes) :
    wp (run env (reads.map .read)) (fun _ => s.Extends) (fun _ => s.Extends) s := by
  induction reads generalizing s b with
  | nil => exact ⟨[], (List.append_nil _).symm⟩
  | cons c reads ih =>
    rw [List.map_cons, run, runAll_cons, wp_bind]
    refine wp_mono (wp_step_read_extends hf hr c) (fun _ s₁ h₁ => ?_) fun _ _ h => h
    obtain ⟨hext, b₁, hr₁⟩ := h₁
    exact wp_mono (ih hr₁) (fun _ _ h => Session.Extends.trans hext h)
      fun _ _ h => Session.Extends.trans hext h

/-- Reads of which one ends inside a character write a Close frame. -/
theorem wp_reads_refused (hf : env.NoFault) (hq : env.app.NeverCloses) {reads : List Bytes}
    (hr : s.Receiving b) (h : s.Awaits b fs reads.flatten) (ho : s.Open)
    (hw : ∀ f ∈ fs, f.Whole) (hp : ¬ ReadsPass fs reads) :
    wp (run env (reads.map .read)) (fun _ => s.CloseWritten) (fun _ => s.CloseWritten) s := by
  induction reads generalizing s b fs with
  | nil => exact absurd trivial hp
  | cons c reads ih =>
    rw [List.map_cons, run, runAll_cons, wp_bind]
    by_cases hc : CutPasses fs reads.flatten.length
    · refine wp_mono (wp_read_told hf hq hr h ho hw hc) (fun _ s₁ h₁ => ?_) fun _ _ hn => hn.elim
      obtain ⟨htold, b₁, hr₁, ha₁, -⟩ := h₁
      have hext : s.Extends s₁ := htold.extends
      have hrest : ¬ ReadsPass (undue fs reads.flatten.length) reads := fun hpass =>
        hp ⟨hc, (readsPass_undue le_rfl).mp hpass⟩
      refine wp_mono (ih hr₁ ha₁ htold.stays (fun f hmem => ?_) hrest)
        (fun _ _ hcl => hext.closeWritten hcl) fun _ _ hcl => hext.closeWritten hcl
      exact hw f ((undue_suffix fs _).mem hmem)
    · have hstep : wp (step env (.read c)) (fun _ => s.CloseWritten)
          (fun _ => s.CloseWritten) s := by
        rw [wp_congr (step_read_receiving hr c)]
        refine wp_readLoop_refused hf hq (hr.received c) h.received ?_ hw hc ?_
        · exact { ho with bev := (by rintro ⟨⟩) }
        · change (b.input ++ c).length < _
          omega
      refine wp_mono (wp_and hstep (wp_step_read_extends hf hr c)) (fun _ s₁ h₁ => ?_)
        fun _ _ h₁ => h₁.1
      obtain ⟨hcl, -, b₁, hr₁⟩ := h₁
      exact wp_mono (wp_reads_extends hf hr₁ reads) (fun _ _ he => hcl.extends he)
        fun _ _ he => hcl.extends he

/-! ## Text messages on a fresh connection -/

/-- A text message in one frame. -/
def Frame.text (p : Bytes) : Frame := .plain true .text p

/-- A short text is a whole message. -/
theorem Frame.text_whole {p : Bytes} (hlen : p.length ≤ 125) (htext : ValidUtf8 p) :
    (Frame.text p).Whole :=
  ⟨Frame.plain_fits hlen, Frame.plain_begins (Or.inl rfl) p, rfl, htext⟩

/-- A connection that is open and on which nothing has been received. -/
def Session.Fresh (s : Session) : Prop :=
  s.bev = some { input := [], readEnabled := true } ∧
  s.hs.connectState = .handshakeComplete ∧
  s.cl.state = .connected ∧ s.cl.sentCloseFlag = false ∧
  s.cl.serverReasonLen + 2 ≤ WS_CONTROL_MAX_PAYLOAD_LEN ∧
  s.tx.sendState = .none ∧ s.tx.maxFrameSize = 0 ∧
  s.rx.hasHeader = false ∧ s.rx.inMsgFlag = false ∧ s.rx.msgIsBinary = false ∧
  s.rx.ctrlLen ≤ WS_CONTROL_MAX_PAYLOAD_LEN

instance : DecidablePred Session.Fresh := fun s => by
  rw [Session.Fresh]
  infer_instance

/-- A fresh connection receives, with an empty buffer. -/
theorem Session.Fresh.receiving (h : s.Fresh) :
    s.Receiving { input := [], readEnabled := true } := by
  obtain ⟨hb, hc, hst, -, hl, hs, -, -, -, hch, hct⟩ := h
  exact ⟨hb, rfl, hc, ⟨by rw [hst]; decide, by rw [hst]; decide, hs, hct, hl⟩, hch⟩

/-- A fresh connection is open. -/
theorem Session.Fresh.isOpen (h : s.Fresh) : s.Open := by
  obtain ⟨hb, -, hst, hc, -, hs, hm, -⟩ := h
  exact ⟨by rw [hb]; exact nofun, hst, hc, hs, hm⟩

/-- On a fresh connection the receiver is between messages. -/
theorem Session.Fresh.between (h : s.Fresh) : s.Between := by
  obtain ⟨-, -, -, -, -, -, -, hh, hi, -⟩ := h
  exact ⟨hh, hi⟩

/-- On a fresh connection the receiver awaits whatever frames come. -/
theorem Session.Fresh.awaits (h : s.Fresh) (fs : List Frame) :
    s.Awaits { input := [], readEnabled := true } fs (stream fs) := .between h.between rfl

/-- Of the stream of text messages, the first `n` bytes end between two characters, or outside
the text. -/
def CharCut : List Bytes → Nat → Prop
  | [], _ => True
  | p :: ps, n =>
    if 2 + p.length ≤ n then CharCut ps (n - (2 + p.length)) else ValidUtf8 (p.take (n - 2))

/-- No read ends inside a character. -/
def CharCuts (ps : List Bytes) (reads : List Bytes) : Prop :=
  ∀ earlier, earlier <+: reads → CharCut ps earlier.flatten.length

private theorem passes_iff_validUtf8 {p : Bytes} (h : ValidUtf8 p) (n : Nat) :
    (Frame.text p).Passes n ↔ ValidUtf8 (p.take n) := by
  rw [← List.take_append_drop n p] at h
  obtain ⟨hrej, hacc⟩ := validateUtf8_of_append h
  rw [Frame.Passes, ← hacc]
  exact ⟨fun hp => (hp rfl).2.elim id (by rintro ⟨⟩), fun ha _ => ⟨hrej, Or.inl ha⟩⟩

/-- For texts the check passes exactly where no character is cut. -/
theorem cutPasses_iff_charCut {ps : List Bytes} (h : ∀ p ∈ ps, ValidUtf8 p) {n : Nat}
    (hn : n ≤ (stream (ps.map Frame.text)).length) :
    CutPasses (ps.map Frame.text) ((stream (ps.map Frame.text)).length - n) ↔ CharCut ps n := by
  induction ps generalizing n with
  | nil => exact Iff.rfl
  | cons p ps ih =>
    obtain ⟨hp, hps⟩ := List.forall_mem_cons.mp h
    have hlen : (stream ((p :: ps).map Frame.text)).length =
        2 + p.length + (stream (ps.map Frame.text)).length := by
      rw [List.map_cons, stream_cons, List.length_append, Frame.length_bytes]
      rfl
    rw [hlen] at hn ⊢
    rw [List.map_cons, CutPasses, CharCut]
    by_cases hc : 2 + p.length ≤ n
    · rw [if_pos hc, if_pos (by omega), ← ih hps (by omega),
        show 2 + p.length + (stream (ps.map Frame.text)).length - n =
          (stream (ps.map Frame.text)).length - (n - (2 + p.length)) from by omega]
    · rw [if_neg hc, if_neg (by omega), ← passes_iff_validUtf8 hp,
        show (Frame.text p).payload.length = p.length from rfl,
        show p.length + (stream (ps.map Frame.text)).length -
          (2 + p.length + (stream (ps.map Frame.text)).length - n) = n - 2 from by omega]

/-- Reads pass if every end of a read passes. -/
theorem readsPass_iff_earlier (fs : List Frame) (reads : List Bytes) :
    ReadsPass fs reads ↔ ∀ earlier, earlier <+: reads → earlier ≠ [] →
      CutPasses fs (reads.flatten.length - earlier.flatten.length) := by
  induction reads with
  | nil => exact ⟨fun _ e he hne => absurd (List.prefix_nil.mp he) hne, fun _ => trivial⟩
  | cons c reads ih =>
    have hsub : ∀ e : List Bytes, (c :: reads).flatten.length - (c :: e).flatten.length =
        reads.flatten.length - e.flatten.length := by
      intro e
      rw [List.flatten_cons, List.flatten_cons, List.length_append, List.length_append,
        Nat.add_sub_add_left]
    rw [ReadsPass, ih]
    constructor
    · rintro ⟨hc, hrest⟩ earlier hpre hne
      rcases List.prefix_cons_iff.mp hpre with rfl | ⟨e, rfl, he⟩
      · exact absurd rfl hne
      · rw [hsub]
        by_cases hnil : e = []
        · subst hnil
          exact hc
        · exact hrest e he hnil
    · intro hall
      refine ⟨?_, fun e he _ => ?_⟩
      · have := hall [c] (by simp) (by simp)
        rwa [hsub] at this
      · have := hall (c :: e) (List.cons_prefix_cons.mpr ⟨rfl, he⟩) (by simp)
        rwa [hsub] at this

private theorem charCut_zero (ps : List Bytes) : CharCut ps 0 := by
  cases ps with
  | nil => trivial
  | cons p ps =>
    rw [CharCut, if_neg (by omega)]
    exact ⟨[], rfl⟩

private theorem readsPass_iff_charCuts {ps reads : List Bytes} (h : ∀ p ∈ ps, ValidUtf8 p)
    (hreads : reads.flatten = stream (ps.map Frame.text)) :
    ReadsPass (ps.map Frame.text) reads ↔ CharCuts ps reads := by
  have hlen : ∀ earlier : List Bytes, earlier <+: reads →
      earlier.flatten.length ≤ (stream (ps.map Frame.text)).length := by
    rintro earlier ⟨later, rfl⟩
    rw [← hreads, List.flatten_append, List.length_append]
    omega
  rw [readsPass_iff_earlier, hreads]
  constructor
  · intro hall earlier hpre
    by_cases hnil : earlier = []
    · subst hnil
      exact charCut_zero ps
    · exact (cutPasses_iff_charCut h (hlen earlier hpre)).mp (hall earlier hpre hnil)
  · intro hall earlier hpre _
    exact (cutPasses_iff_charCut h (hlen earlier hpre)).mpr (hall earlier hpre)

/-- What the session has done at the end of a run. -/
def traceAfter (env : Env) (inputs : List Input) (s : Session) : List Event :=
  (finalState (run env inputs s)).io.trace

/-- Text messages that arrive in several reads have the effect of one read when no read ends
inside a character, and only then if the handler does not close. -/
theorem reads_sameTrace (hf : env.NoFault) (hs : s.Fresh) {ps reads : List Bytes}
    (hlen : ∀ p ∈ ps, p.length ≤ 125) (htext : ∀ p ∈ ps, ValidUtf8 p)
    (hreads : reads.flatten = stream (ps.map Frame.text)) :
    (CharCuts ps reads →
      traceAfter env (reads.map .read) s = traceAfter env [.read reads.flatten] s) ∧
    (env.app.NeverCloses →
      traceAfter env (reads.map .read) s = traceAfter env [.read reads.flatten] s →
      CharCuts ps reads) := by
  have hw : ∀ f ∈ ps.map Frame.text, f.Whole := by
    intro f hf
    obtain ⟨p, hp, rfl⟩ := List.mem_map.mp hf
    exact Frame.text_whole (hlen p hp) (htext p hp)
  have hdel : ∀ cs : List Bytes, cs.flatten = stream (ps.map Frame.text) →
      ReadsPass (ps.map Frame.text) cs →
      traceAfter env (cs.map .read) s =
        (finalState (runAll (deliver env) (ps.map Frame.text) s)).io.trace := by
    intro cs hcs hp
    have ha := hs.awaits (ps.map Frame.text)
    rw [← hcs] at ha
    exact (sim_reads hf hs.receiving ha (ha.waits rfl).2 hw hp (Line.refl _ _ s)).final.trace
  have hone := hdel [reads.flatten] (by simpa using hreads) ⟨cutPasses_zero _, trivial⟩
  constructor
  · intro hc
    rw [hdel reads hreads ((readsPass_iff_charCuts htext hreads).mpr hc)]
    exact hone.symm
  · intro hq hsame
    by_contra hc
    rw [← readsPass_iff_charCuts htext hreads] at hc
    have ha := hs.awaits (ps.map Frame.text)
    rw [← hreads] at ha
    obtain ⟨evs, he, e, hmem, hclose⟩ :=
      wp_final.mp (wp_reads_refused hf hq hs.receiving ha hs.isOpen hw hc)
    obtain ⟨evs', he', -, hno⟩ :=
      (final_of_wp (wp_deliver_told hf hq hs.isOpen (ps.map Frame.text))).trace
    have heq : s.io.trace ++ evs = s.io.trace ++ evs' :=
      he.symm.trans ((hsame.trans hone).trans he')
    rw [List.append_cancel_left_eq] at heq
    rw [heq] at hmem
    exact absurd (hclose.symm.trans (hno e hmem)) (by decide)

/-- A connection to a listening application, after the server's reply. -/
def justOpened : Session := finalState (run listener (replyThen []) Session.initialised)

/-- It is fresh. -/
theorem justOpened_fresh : justOpened.Fresh := by decide +kernel

/-- A read that ends between two characters. -/
theorem reads_sameTrace_sample :
    traceAfter listener ([[0x81, 0x02, 0x41], [0x42]].map .read) justOpened =
      traceAfter listener [.read [0x81, 0x02, 0x41, 0x42]] justOpened := by
  have htext : ∀ p ∈ [[0x41, 0x42]], ValidUtf8 p := by
    simp only [List.mem_singleton, forall_eq]
    exact ⟨['A', 'B'], by decide⟩
  have hreads : [[0x81, 0x02, 0x41], [0x42]].flatten = stream ([[0x41, 0x42]].map Frame.text) := by
    decide
  refine (reads_sameTrace (fun _ => rfl) justOpened_fresh (by decide) htext hreads).1 ?_
  intro earlier h
  rcases List.prefix_cons_iff.mp h with rfl | ⟨e, rfl, he⟩
  · exact charCut_zero _
  · rcases List.prefix_cons_iff.mp he with rfl | ⟨e', rfl, he'⟩
    · exact ⟨['A'], by decide⟩
    · rw [List.prefix_nil.mp he']
      trivial

/-- A read that ends inside the two bytes of a character. -/
theorem reads_differ_inside_character :
    ¬ ∀ (env : Env) (s : Session) (ps reads : List Bytes), env.NoFault → s.Fresh →
      (∀ p ∈ ps, p.length ≤ 125) → (∀ p ∈ ps, ValidUtf8 p) →
      reads.flatten = stream (ps.map Frame.text) →
      traceAfter env (reads.map .read) s = traceAfter env [.read reads.flatten] s := by
  intro h
  have htext : ∀ p ∈ [[0xC3, 0xA9]], ValidUtf8 p := by
    simp only [List.mem_singleton, forall_eq]
    exact ⟨['é'], by decide⟩
  have hne : traceAfter listener ([[0x81, 0x02, 0xC3], [0xA9]].map .read) justOpened ≠
      traceAfter listener [.read [0x81, 0x02, 0xC3, 0xA9]] justOpened := by
    decide +kernel
  exact hne (h listener justOpened [[0xC3, 0xA9]] [[0x81, 0x02, 0xC3], [0xA9]] (fun _ => rfl)
    justOpened_fresh (by decide) htext (by decide))

end CppImprovement.Ws

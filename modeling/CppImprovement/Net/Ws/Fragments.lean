import CppImprovement.Net.Ws.ReadBoundaries

/-!
# Messages in several frames

A message may be cut into any number of frames. The session delivers a message in
one frame; the header of its second frame is refused, because the check for a
continuation frame outside a message is made with the flag the wrong way round.
-/

namespace CppImprovement.Ws

variable {env : Env} {s : Session} {b : Bufferevent}

/-! ## Messages -/

/-- A message cut into one or more pieces. -/
structure Message where
  binary : Bool
  first : Bytes
  rest : List Bytes
  deriving DecidableEq, Repr

namespace Message

/-- The content. -/
def payload (m : Message) : Bytes := m.first ++ m.rest.flatten

/-- The opcode of the first frame. -/
def opcode (m : Message) : WSOpcode := if m.binary then .binary else .text

/-- The frames of the pieces: the later ones continue the message, and the last one is final. -/
def fragments (opcode : WSOpcode) : Bytes → List Bytes → List Frame
  | p, [] => [.plain true opcode p]
  | p, q :: ps => .plain false opcode p :: fragments .continuation q ps

/-- The frames of the message. -/
def frames (m : Message) : List Frame := fragments m.opcode m.first m.rest

/-- The pieces fit the short form, and the content is valid text. -/
structure Plain (m : Message) : Prop where
  short : ∀ p ∈ m.first :: m.rest, p.length ≤ 125
  text : ValidUtf8 m.payload

private theorem opcode_begins (m : Message) (fin : Bool) (p : Bytes) :
    (Frame.plain fin m.opcode p).BeginsMessage := by
  refine Frame.plain_begins ?_ p
  rw [opcode]
  cases m.binary with
  | false => exact Or.inl rfl
  | true => exact Or.inr rfl

private theorem opcode_eq_binary (m : Message) : decide (m.opcode = .binary) = m.binary := by
  rw [opcode]
  cases m.binary <;> rfl

private theorem fragments_continuation (q : Bytes) (ps : List Bytes) :
    ∃ fin gs, fragments .continuation q ps = .plain fin .continuation q :: gs := by
  cases ps with
  | nil => exact ⟨true, [], rfl⟩
  | cons p ps => exact ⟨false, _, rfl⟩

end Message

/-- The bytes of a list of messages. -/
def wire (msgs : List Message) : Bytes := stream (msgs.flatMap Message.frames)

/-! ## The second frame of a message -/

/-- The receiver is between two frames of a message. -/
structure Session.MidMessage (s : Session) (b : Bufferevent) : Prop where
  reading : s.Reading b
  sendState : s.tx.sendState = .none
  hasHeader : s.rx.hasHeader = false
  inMsgFlag : s.rx.inMsgFlag = true

/-- Inside a message `ValidateHeader` refuses every continuation frame. -/
theorem validateHeader_continuation {f : Frame} (hop : f.opcode = .continuation) :
    validateHeader f.fields true ≠ 0 := by
  obtain ⟨fin, rsv1, rsv2, rsv3, opcode, form, payload⟩ := f
  cases hop
  cases fin <;> cases rsv1 <;> cases rsv2 <;> cases rsv3 <;> exact nofun

/-- The header of a continuation frame is answered with a Close frame. -/
theorem Session.MidMessage.refuses (hf : env.NoFault) (h : s.MidMessage b)
    (hc : s.cl.sentCloseFlag = false) {f : Frame} (hs : f.Fits)
    (hop : f.opcode = .continuation) {x : Bytes} (hin : b.input = f.header ++ x) (n : Nat) :
    wp (readLoop env (n + 1)) (fun _ => s.CloseWritten) (fun _ => s.CloseWritten) s := by
  have hne : b.input ≠ [] := by
    rw [hin]
    exact nofun
  have hv : validateHeader f.fields s.rx.inMsgFlag ≠ 0 := by
    rw [h.inMsgFlag]
    exact validateHeader_continuation hop
  have hrefuse := needHeader_refuses hf hs h.reading.1 hin h.hasHeader hv h.sendState
  rw [wp_of_eq_ok (readLoop_stop h.reading hne hrefuse n)]
  exact closeWritten_closeStarted env (s := s.headed f.fields) hc .protocolErr1002 []

/-- A round that takes a first frame that is not final. -/
theorem readLoop_fragment (hf : env.NoFault) {f : Frame} {fs : List Frame} (hr : s.Receiving b)
    (hb : s.Between) (hs : f.Fits) (hm : f.BeginsMessage) (hfin : f.fin = false)
    (hp : f.Passes f.payload.length) (hin : b.input = stream (f :: fs)) (n : Nat) :
    ∃ u b', readLoop env (n + 1) s = readLoop env n u ∧ Line False False u s ∧
      u.MidMessage b' ∧ b'.input = stream fs := by
  have hne : b.input ≠ [] := by
    rw [hin]
    exact nofun
  have hz : b.input ++ [] = stream (f :: fs) := by
    rw [List.append_nil, hin]
  rcases (Session.Awaits.between hb hz).enters hf hr hs hm hne with
    ⟨-, -, d, hd, hdne⟩ | ⟨s₁, b₁, k, he⟩
  · have hlen := congrArg List.length hd
    have hpos := List.length_pos_iff.mpr hdne
    simp only [hin, stream_cons, List.length_append, Frame.length_bytes] at hlen
    omega
  · have hinput := he.input
    rw [List.append_nil] at hinput
    have hend := he.inFrame.took (List.append_nil _).symm b₁ (stream fs)
    rw [List.length_drop, Nat.add_sub_cancel' he.le] at hend
    have hread : readPayload env s₁ =
        .ok () ((s₁.took b₁ (f.payload.drop k) (stream fs)).frameEnded f.payload) :=
      (readPayload_complete he.inFrame hs hm he.receiving.reading hinput he.le hp).trans
        (endFrame_fragment hend hm hfin)
    refine ⟨_, { b₁ with input := stream fs }, (he.round n).trans (bind_eq_of_ok hread), ?_, ?_,
      rfl⟩
    · have hl := (Session.took_line he.receiving.bev (f.payload.drop k) (stream fs)).trans he.line
      exact { hl with }
    · exact ⟨⟨rfl, he.receiving.enabled⟩, he.receiving.sane.sendState, rfl, he.inFrame.inMsgFlag⟩

/-! ## Reading messages -/

theorem Message.Plain.whole {m : Message} (h : m.Plain) (hone : m.rest = []) :
    (Frame.plain true m.opcode m.first).Whole where
  fits := Frame.plain_fits (h.short m.first List.mem_cons_self)
  begins := m.opcode_begins true m.first
  fin := rfl
  text := by
    have ht := h.text
    rwa [Message.payload, hone, List.flatten_nil, List.append_nil] at ht

/-- When one of the messages is in several frames, a Close frame is written. -/
theorem wp_readLoop_fragments (hf : env.NoFault) (hq : env.app.NeverCloses)
    {msgs : List Message} {n : Nat} (hr : s.Receiving b) (hb : s.Between) (ho : s.Open)
    (hm : ∀ m ∈ msgs, m.Plain) (hcut : ∃ m ∈ msgs, m.rest ≠ []) (hin : b.input = wire msgs)
    (hn : b.input.length < n) :
    wp (readLoop env n) (fun _ => s.CloseWritten) (fun _ => s.CloseWritten) s := by
  induction msgs generalizing s b n with
  | nil =>
    obtain ⟨m, hmem, -⟩ := hcut
    exact absurd hmem List.not_mem_nil
  | cons m msgs ih =>
    obtain ⟨hplain, hplains⟩ := List.forall_mem_cons.mp hm
    rw [wire, List.flatMap_cons, Message.frames] at hin
    obtain ⟨n, rfl⟩ : ∃ n', n = n' + 1 := ⟨n - 1, by omega⟩
    cases hrest : m.rest with
    | nil =>
      rw [hrest, Message.fragments, List.singleton_append] at hin
      have hz : b.input ++ [] = stream (.plain true m.opcode m.first ::
          msgs.flatMap Message.frames) := by
        rw [List.append_nil, hin]
      have hne : b.input ≠ [] := by
        rw [hin]
        exact nofun
      have hcut' : ∃ m' ∈ msgs, m'.rest ≠ [] := by
        obtain ⟨m', hmem, hne'⟩ := hcut
        rcases List.mem_cons.mp hmem with rfl | hmem
        · exact absurd hrest hne'
        · exact ⟨m', hmem, hne'⟩
      refine (Session.Awaits.between hb hz).delivers_closeWritten hf hq hr ho (hplain.whole hrest)
        hne (Nat.zero_le _) fun s₁ b₁ hr₁ hb₁ ho₁ hst hlt => ?_
      rw [List.append_nil] at hst
      exact ih hr₁ hb₁ ho₁ hplains hcut' hst (by omega)
    | cons q ps =>
      obtain ⟨fin, gs, hgs⟩ := Message.fragments_continuation q ps
      rw [hrest, Message.fragments, hgs, List.cons_append] at hin
      have hshort := hplain.short
      rw [hrest] at hshort
      obtain ⟨hfirst, hsecond⟩ := List.forall_mem_cons.mp hshort
      have hpass : (Frame.plain false m.opcode m.first).Passes m.first.length := by
        intro _
        change validateUtf8 _ (m.first.take m.first.length) ≠ _ ∧ _
        rw [List.take_length]
        exact ⟨(validateUtf8_of_append hplain.text).1, Or.inr rfl⟩
      obtain ⟨u, b', hround, hl, hu, hst⟩ := readLoop_fragment
        (f := .plain false m.opcode m.first) hf hr hb (Frame.plain_fits hfirst)
        (m.opcode_begins false m.first) rfl hpass hin n
      obtain ⟨n, rfl⟩ : ∃ n', n = n' + 1 := by
        have := (Frame.plain false m.opcode m.first).two_le_length_header
        rw [hin, stream_cons, List.length_append, Frame.length_bytes] at hn
        exact ⟨n - 1, by omega⟩
      rw [List.cons_append, stream_cons, Frame.bytes, List.append_assoc] at hst
      rw [wp_congr hround]
      exact wp_mono (hu.refuses (f := .plain fin .continuation q) hf
        (hl.sentClose.trans ho.sentClose) (Frame.plain_fits (hsecond q List.mem_cons_self)) rfl
        hst n)
        (fun _ _ hc => hc.of_line hl) fun _ _ hc => hc.of_line hl

/-! ## One read -/

private theorem wp_read_fragments (hf : env.NoFault) (hq : env.app.NeverCloses)
    {msgs : List Message}
    (hr : s.Receiving b) (hb : s.Between) (hnil : b.input = []) (ho : s.Open)
    (hm : ∀ m ∈ msgs, m.Plain) (hcut : ∃ m ∈ msgs, m.rest ≠ []) :
    wp (run env [.read (wire msgs)]) (fun _ => s.CloseWritten) (fun _ => s.CloseWritten) s := by
  have hopen : (s.received b (wire msgs)).Open := { ho with bev := nofun }
  have hin : b.input ++ wire msgs = wire msgs := by rw [hnil, List.nil_append]
  have hread := wp_readLoop_fragments (n := 2 * (b.input ++ wire msgs).length + 2) hf hq
    (hr.received (wire msgs)) ⟨hb.hasHeader, hb.inMsgFlag⟩ hopen hm hcut hin
    (show (b.input ++ wire msgs).length < _ from by omega)
  rw [run, runAll_cons, wp_bind, wp_congr (step_read_receiving hr (wire msgs))]
  exact hread

/-- The messages were delivered once each and in order, and no Close frame was written. -/
def Reassembled (msgs : List Message) (s s' : Session) : Prop :=
  ∃ evs, s'.io.trace = s.io.trace ++ evs ∧
    evs.filter Event.isMessage = msgs.map (fun m => Event.onMessage m.payload m.binary) ∧
    ∀ e ∈ evs, e.isCloseFrame = false

private theorem frames_of_single {msgs : List Message} (h : ∀ m ∈ msgs, m.rest = []) :
    msgs.flatMap Message.frames = msgs.map fun m => .plain true m.opcode m.first := by
  induction msgs with
  | nil => rfl
  | cons m msgs ih =>
    obtain ⟨hm, hms⟩ := List.forall_mem_cons.mp h
    rw [List.flatMap_cons, ih hms, Message.frames, hm]
    rfl

/-- The handler calls for messages in one frame each. -/
theorem messages_of_single {handler : List Event → List AppCall}
    (hh : env.app.onMessage = some handler) {msgs : List Message} (h : ∀ m ∈ msgs, m.rest = []) :
    messages env (msgs.map fun m => .plain true m.opcode m.first) =
      msgs.map fun m => Event.onMessage m.payload m.binary := by
  induction msgs with
  | nil => rfl
  | cons m msgs ih =>
    obtain ⟨hm, hms⟩ := List.forall_mem_cons.mp h
    rw [List.map_cons, List.map_cons, ← ih hms, Message.payload, hm, List.flatten_nil,
      List.append_nil, messages, List.flatMap_cons, handled, hh, ← m.opcode_eq_binary]
    rfl

/-- Messages that arrive in one read on a fresh connection are reassembled exactly when each of
them is a single frame. -/
theorem reassembled_iff (hf : env.NoFault) (hs : s.Fresh) {handler : List Event → List AppCall}
    (hh : env.app.onMessage = some handler) (hq : ∀ trace, AppCall.close ∉ handler trace)
    {msgs : List Message} (hm : ∀ m ∈ msgs, m.Plain) :
    Reassembled msgs s (finalState (run env [.read (wire msgs)] s)) ↔ ∀ m ∈ msgs, m.rest = [] := by
  have hnever : env.app.NeverCloses := by
    intro handler' hh' trace
    cases hh.symm.trans hh'
    exact hq trace
  have hone : ([wire msgs] : List Bytes).flatten = wire msgs := List.append_nil _
  constructor
  · rintro ⟨evs, he, -, hno⟩
    by_contra hcut
    have hcut' : ∃ m ∈ msgs, m.rest ≠ [] := by
      simpa only [not_forall, exists_prop] using hcut
    obtain ⟨evs', he', e, hmem, hclose⟩ := wp_final.mp
      (wp_read_fragments hf hnever hs.receiving hs.between rfl hs.isOpen hm hcut')
    rw [he, List.append_cancel_left_eq] at he'
    subst he'
    exact absurd (hclose.symm.trans (hno e hmem)) (by decide)
  · intro hsingle
    have hw : ∀ f ∈ msgs.flatMap Message.frames, f.Whole := by
      rw [frames_of_single hsingle]
      intro f hf
      obtain ⟨m, hmem, rfl⟩ := List.mem_map.mp hf
      exact (hm m hmem).whole (hsingle m hmem)
    have ha := hs.awaits (msgs.flatMap Message.frames)
    have hu := (ha.waits rfl).2
    rw [← wire, ← hone] at ha hu
    have hsim := sim_reads hf hs.receiving ha hu hw ⟨cutPasses_zero _, trivial⟩ (Line.refl _ _ s)
    obtain ⟨evs, he, hms, hno⟩ :=
      (final_of_wp (wp_deliver_told hf hnever hs.isOpen (msgs.flatMap Message.frames))).trace
    rw [frames_of_single hsingle, messages_of_single hh hsingle] at hms
    exact ⟨evs, hsim.final.trace.trans he, hms, hno⟩

/-- Two messages, each in one frame. -/
theorem reassembled_singles :
    Reassembled [⟨false, [0x41], []⟩, ⟨true, [0x42, 0x43], []⟩] justOpened
      (finalState (run listener [.read (wire [⟨false, [0x41], []⟩, ⟨true, [0x42, 0x43], []⟩])]
        justOpened)) := by
  refine (reassembled_iff (fun _ => rfl) justOpened_fresh rfl (fun _ => List.not_mem_nil)
    ?_).mpr (by decide)
  intro m hm
  rcases List.mem_cons.mp hm with rfl | hm
  · exact ⟨by decide, ['A'], by decide⟩
  · rcases List.mem_singleton.mp hm with rfl
    exact ⟨by decide, ['B', 'C'], by decide⟩

/-- The text "AB" in two frames is not delivered. -/
theorem reassembly_fails_on_two_frames :
    ¬ ∀ (env : Env) (s : Session) (handler : List Event → List AppCall) (msgs : List Message),
      env.NoFault → s.Fresh → env.app.onMessage = some handler → (∀ m ∈ msgs, m.Plain) →
      Reassembled msgs s (finalState (run env [.read (wire msgs)] s)) := by
  intro h
  have hplain : ∀ m ∈ [(⟨false, [0x41], [[0x42]]⟩ : Message)], m.Plain := by
    intro m hm
    rcases List.mem_singleton.mp hm with rfl
    exact ⟨by decide, ['A', 'B'], by decide⟩
  obtain ⟨evs, he, hms, -⟩ := h listener justOpened _ _ (fun _ => rfl) justOpened_fresh rfl hplain
  have hmem : Event.onMessage [0x41, 0x42] false ∈ justOpened.io.trace ++ evs := by
    have hin : Event.onMessage [0x41, 0x42] false ∈ evs.filter Event.isMessage := by
      rw [hms]
      exact List.mem_singleton.mpr rfl
    exact List.mem_append_right _ (List.mem_filter.mp hin).1
  rw [← he] at hmem
  exact absurd hmem (by decide +kernel)

end CppImprovement.Ws

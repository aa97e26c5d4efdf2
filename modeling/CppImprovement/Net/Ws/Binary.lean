import CppImprovement.Net.Ws.ReadBoundaries

/-!
# Binary messages

A data frame that is a whole message is delivered with its kind. The text check
is guarded by `msgIsBinary`, which nothing sets, and not by `msgIsBinary_`, so it
is made for binary messages too: a binary message is delivered when its payload
happens to be valid text, and answered with a Close frame when it is not.
-/

namespace CppImprovement.Ws

variable {env : Env} {s : Session} {b : Bufferevent} {f : Frame} {fs : List Frame}

/-- The frame is a whole message with a short payload, which is valid text if the message is
text. -/
structure Frame.IsMessage (f : Frame) : Prop where
  plain : f = .plain true f.opcode f.payload
  kind : f.opcode = .text ∨ f.opcode = .binary
  short : f.payload.length ≤ 125
  text : f.opcode = .text → ValidUtf8 f.payload

namespace Frame.IsMessage

/-- A message in one frame fits the length field. -/
theorem fits (h : f.IsMessage) : f.Fits := by
  rw [h.plain]
  exact Frame.plain_fits h.short

/-- It begins a message. -/
theorem begins (h : f.IsMessage) : f.BeginsMessage := by
  rw [h.plain]
  exact Frame.plain_begins h.kind _

/-- It ends it, too. -/
theorem fin (h : f.IsMessage) : f.fin = true := by
  rw [h.plain]
  rfl

/-- With a payload of valid text it is a whole message. -/
theorem whole (h : f.IsMessage) (hv : ValidUtf8 f.payload) : f.Whole :=
  ⟨h.fits, h.begins, h.fin, hv⟩

/-- The text check lets a whole message pass exactly when it is valid text, whatever its kind. -/
theorem passes_iff (h : f.IsMessage) : f.Passes f.payload.length ↔ ValidUtf8 f.payload := by
  refine ⟨fun hp => ?_, fun hv => (h.whole hv).passes⟩
  obtain ⟨-, hacc⟩ := hp h.begins.not_control
  rw [List.take_length, validateUtf8_iff, h.fin] at hacc
  exact hacc.elim id nofun

end Frame.IsMessage

/-- A message that is not valid text makes the loop write a Close frame. -/
theorem wp_readLoop_invalid (hf : env.NoFault) (hr : s.Receiving b) (hb : s.Between)
    (ho : s.Open) (hm : f.IsMessage) (hin : b.input = stream (f :: fs))
    (hv : ¬ ValidUtf8 f.payload) (n : Nat) :
    wp (readLoop env (n + 1)) (fun _ => s.CloseWritten) (fun _ => s.CloseWritten) s := by
  have hne : b.input ≠ [] := by
    rw [hin]
    exact nofun
  have hst : b.input ++ [] = stream (f :: fs) := by
    rw [List.append_nil, hin]
  rcases (Session.Awaits.between hb hst).enters hf hr hm.fits hm.begins hne with
    ⟨-, -, d, hd, hdne⟩ | ⟨s₁, b₁, k, he⟩
  · have hlen := congrArg List.length hd
    have hpos := List.length_pos_iff.mpr hdne
    simp only [hin, stream_cons, List.length_append, Frame.length_bytes] at hlen
    omega
  · rw [← hm.passes_iff] at hv
    have hk : k < f.payload.length := by
      refine lt_of_le_of_ne he.le fun hk => hv ?_
      rw [← hk]
      exact he.passes
    have hinput := he.input
    rw [List.append_nil] at hinput
    refine he.refuses hf hm.fits hm.begins (List.append_nil _).symm hinput (Or.inl rfl) hk
      ho.sentClose ?_ n
    rwa [List.length_drop, Nat.add_sub_cancel' he.le]

/-- When one of the messages is not valid text, a Close frame is written. -/
theorem wp_readLoop_some_invalid (hf : env.NoFault) (hq : env.app.NeverCloses) {n : Nat}
    (hr : s.Receiving b) (hb : s.Between) (ho : s.Open) (hm : ∀ f ∈ fs, f.IsMessage)
    (hv : ∃ f ∈ fs, ¬ ValidUtf8 f.payload) (hin : b.input = stream fs) (hn : b.input.length < n) :
    wp (readLoop env n) (fun _ => s.CloseWritten) (fun _ => s.CloseWritten) s := by
  induction fs generalizing s b n with
  | nil =>
    obtain ⟨f, hmem, -⟩ := hv
    exact absurd hmem List.not_mem_nil
  | cons f fs ih =>
    obtain ⟨hmf, hmfs⟩ := List.forall_mem_cons.mp hm
    obtain ⟨n, rfl⟩ : ∃ n', n = n' + 1 := ⟨n - 1, by omega⟩
    by_cases hvf : ValidUtf8 f.payload
    · have hst : b.input ++ [] = stream (f :: fs) := by
        rw [List.append_nil, hin]
      have hne : b.input ≠ [] := by
        rw [hin]
        exact nofun
      have hv' : ∃ g ∈ fs, ¬ ValidUtf8 g.payload := by
        obtain ⟨g, hmem, hg⟩ := hv
        rcases List.mem_cons.mp hmem with rfl | hmem
        · exact absurd hvf hg
        · exact ⟨g, hmem, hg⟩
      refine (Session.Awaits.between hb hst).delivers_closeWritten hf hq hr ho (hmf.whole hvf) hne
        (Nat.zero_le _) fun s₁ b₁ hr₁ hb₁ ho₁ hst₁ hlt => ?_
      rw [List.append_nil] at hst₁
      exact ih hr₁ hb₁ ho₁ hmfs hv' hst₁ (by omega)
    · exact wp_readLoop_invalid hf hr hb ho hmf hin hvf n

/-- The frames were delivered once each, in order and with their kinds, and no Close frame was
written. -/
def PassedThrough (fs : List Frame) (s s' : Session) : Prop :=
  ∃ evs, s'.io.trace = s.io.trace ++ evs ∧
    evs.filter Event.isMessage =
      fs.map (fun f => Event.onMessage f.payload (decide (f.opcode = .binary))) ∧
    ∀ e ∈ evs, e.isCloseFrame = false

private theorem messages_of_handler {handler : List Event → List AppCall}
    (hh : env.app.onMessage = some handler) (fs : List Frame) :
    messages env fs = fs.map fun f => .onMessage f.payload (decide (f.opcode = .binary)) := by
  rw [List.map_eq_flatMap, messages]
  simp only [handled, hh]

/-- Messages that arrive in one read on a fresh connection pass through exactly when every binary
one is valid text. -/
theorem passedThrough_iff (hf : env.NoFault) (hs : s.Fresh) {handler : List Event → List AppCall}
    (hh : env.app.onMessage = some handler) (hq : ∀ trace, AppCall.close ∉ handler trace)
    (hm : ∀ f ∈ fs, f.IsMessage) :
    PassedThrough fs s (finalState (run env [.read (stream fs)] s)) ↔
      ∀ f ∈ fs, f.opcode = .binary → ValidUtf8 f.payload := by
  have hnever : env.app.NeverCloses := by
    intro handler' hh' trace
    cases hh.symm.trans hh'
    exact hq trace
  constructor
  · rintro ⟨evs, he, -, hno⟩ f hmem -
    by_contra hv
    have hopen : (s.received { input := [], readEnabled := true } (stream fs)).Open :=
      { hs.isOpen with bev := nofun }
    have hread := wp_readLoop_some_invalid (n := 2 * (stream fs).length + 2) hf hnever
      (hs.receiving.received (stream fs)) ⟨hs.between.hasHeader, hs.between.inMsgFlag⟩ hopen hm
      ⟨f, hmem, hv⟩ rfl (show (stream fs).length < _ from by omega)
    have hrun : wp (run env [.read (stream fs)]) (fun _ => s.CloseWritten)
        (fun _ => s.CloseWritten) s := by
      rw [run, runAll_cons, wp_bind, wp_congr (step_read_receiving hs.receiving (stream fs))]
      exact hread
    obtain ⟨evs', he', e, hmem, hclose⟩ := wp_final.mp hrun
    rw [he, List.append_cancel_left_eq] at he'
    subst he'
    exact absurd (hclose.symm.trans (hno e hmem)) (by decide)
  · intro hbin
    have hw : ∀ f ∈ fs, f.Whole := by
      intro f hmem
      refine (hm f hmem).whole ?_
      exact (hm f hmem).kind.elim (hm f hmem).text (hbin f hmem)
    have ha := hs.awaits fs
    have hu := (ha.waits rfl).2
    have hone : ([stream fs] : List Bytes).flatten = stream fs := List.append_nil _
    rw [← hone] at ha hu
    have hsim := sim_reads hf hs.receiving ha hu hw ⟨cutPasses_zero _, trivial⟩ (Line.refl _ _ s)
    obtain ⟨evs, he, hms, hno⟩ := (final_of_wp (wp_deliver_told hf hnever hs.isOpen fs)).trace
    rw [messages_of_handler hh] at hms
    exact ⟨evs, hsim.final.trace.trans he, hms, hno⟩

private theorem isMessage_plain {opcode : WSOpcode} {p : Bytes}
    (hkind : opcode = .text ∨ opcode = .binary)
    (hlen : p.length ≤ 125) (htext : opcode = .text → ValidUtf8 p) :
    (Frame.plain true opcode p).IsMessage :=
  ⟨rfl, hkind, hlen, htext⟩

/-- A binary message that is valid text, after a text message. -/
theorem passedThrough_text_binary :
    PassedThrough [.plain true .text [0x41], .plain true .binary [0x42]] justOpened
      (finalState (run listener
        [.read (stream [.plain true .text [0x41], .plain true .binary [0x42]])] justOpened)) := by
  have hA : ValidUtf8 [0x41] := ⟨['A'], by decide⟩
  have hB : ValidUtf8 [0x42] := ⟨['B'], by decide⟩
  refine (passedThrough_iff (fun _ => rfl) justOpened_fresh rfl (fun _ => List.not_mem_nil)
    ?_).mpr ?_
  · refine List.forall_mem_cons.mpr ⟨?_, List.forall_mem_singleton.mpr ?_⟩
    · exact isMessage_plain (Or.inl rfl) (by decide) fun _ => hA
    · exact isMessage_plain (Or.inr rfl) (by decide) nofun
  · exact List.forall_mem_cons.mpr ⟨fun _ => hA, List.forall_mem_singleton.mpr fun _ => hB⟩

/-- A binary message of the one byte 0xFF is not delivered. -/
theorem binary_not_passedThrough :
    ¬ ∀ (env : Env) (s : Session) (handler : List Event → List AppCall) (fs : List Frame),
      env.NoFault → s.Fresh → env.app.onMessage = some handler →
      (∀ trace, AppCall.close ∉ handler trace) → (∀ f ∈ fs, f.IsMessage) →
      PassedThrough fs s (finalState (run env [.read (stream fs)] s)) := by
  intro h
  have hm : ∀ f ∈ [Frame.plain true .binary [0xFF]], f.IsMessage :=
    List.forall_mem_singleton.mpr (isMessage_plain (Or.inr rfl) (by decide) nofun)
  obtain ⟨evs, he, hms, -⟩ := h listener justOpened _ _ (fun _ => rfl) justOpened_fresh rfl
    (fun _ => List.not_mem_nil) hm
  have hmem : Event.onMessage [0xFF] true ∈ justOpened.io.trace ++ evs := by
    have hin : Event.onMessage [0xFF] true ∈ evs.filter Event.isMessage := by
      rw [hms]
      exact List.mem_singleton.mpr rfl
    exact List.mem_append_right _ (List.mem_filter.mp hin).1
  rw [← he] at hmem
  exact absurd hmem (by decide +kernel)

end CppImprovement.Ws

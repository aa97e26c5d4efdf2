import CppImprovement.Net.Ws.CloseReply
import CppImprovement.Net.Ws.Exchange
import CppImprovement.Net.Ws.Pings
import CppImprovement.Net.Ws.ReplyCuts
import CppImprovement.Net.Ws.Rounds

/-!
# A whole conversation

A server accepts the upgrade, sends text messages and closes; what it sends arrives in reads that
are cut anywhere but inside a character of a text. The session, whose handlers send as they like
but do not close, announces the connection, hears every message once and in order, answers the
Close frame with the one that is called for, and gives the connection up at the end of the stream.
-/

namespace CppImprovement.Ws

variable {env : Env} {s s' : Session} {b : Bufferevent} {p z : Bytes} {t : Frame}
  {ts : List Frame} {k : Nat}

/-! ## A Close frame in pieces -/

/-- A Close frame of the server. -/
def Frame.close (p : Bytes) : Frame := .plain true .close p

private theorem Frame.close_fits (hp : p.length ≤ 125) : (Frame.close p).Fits := Frame.plain_fits hp

private theorem Frame.close_valid (p : Bytes) (inMsgFlag : Bool) :
    validateHeader (Frame.close p).fields inMsgFlag = 0 := by
  cases inMsgFlag <;> rfl

/-- Inside a Close frame, with `k` octets of its payload stored. -/
structure Session.InClose (s : Session) (p : Bytes) (k : Nat) : Prop where
  inControl : s.InControl (Frame.close p) k
  stored : s.rx.ctrlPayload.take k = p.take k
  array : s.rx.ctrlPayload.length = WS_CONTROL_MAX_PAYLOAD_LEN

private theorem Session.inClose_begun (s : Session) (b : Bufferevent) (p x : Bytes) :
    (s.ctrlBegun b (Frame.close p) x).InClose p 0 where
  inControl := ⟨rfl, rfl, rfl, rfl⟩
  stored := rfl
  array := List.length_replicate

/-- The next octets of the payload are stored behind the ones before. -/
theorem Session.InClose.ctrlTook (h : s.InClose p k) (hp : p.length ≤ 125) {c d : Bytes}
    (hc : p.drop k = c ++ d) (hk : k ≤ p.length) (b : Bufferevent) (x : Bytes) :
    (s.ctrlTook b c x).InClose p (k + c.length) := by
  have hle : k + c.length ≤ p.length := by
    have hlen := congrArg List.length hc
    rw [List.length_drop, List.length_append] at hlen
    omega
  have harr := h.array
  rw [WS_CONTROL_MAX_PAYLOAD_LEN] at harr
  have hpay : (s.ctrlTook b c x).rx.ctrlPayload =
      (s.rx.ctrlPayload.take k ++ c ++ s.rx.ctrlPayload.drop (k + c.length)).take 125 := by
    rw [Session.ctrlTook, h.inControl.ctrlLen]
    rfl
  have hfront : (s.rx.ctrlPayload.take k ++ c).length = k + c.length := by
    rw [List.length_append, List.length_take]
    omega
  refine ⟨h.inControl.ctrlTook b c x, ?_, ?_⟩
  · rw [hpay, List.take_take, Nat.min_eq_left (by omega), List.take_left' hfront, h.stored,
      List.take_add, hc, List.take_left]
  · rw [hpay, List.length_take, List.length_append, hfront, List.length_drop,
      WS_CONTROL_MAX_PAYLOAD_LEN]
    omega

/-! ## The answer to a Close frame -/

/-- The reason of a Close payload does not end inside a character. -/
def WholeReason (p : Bytes) : Prop :=
  ∀ b0 b1 reason, p = b0 :: b1 :: reason →
    WSCloseStatus.peerValid ⟨statusOf b0 b1⟩ = true → ¬ CutText reason

/-- A Close payload that has arrived gets the reply it calls for. -/
theorem Session.GotClose.wp_reply (hf : env.NoFault) (h : s.GotClose p) (hp : p.length ≤ 123)
    (hw : WholeReason p) (hlen : s.cl.serverReasonLen = 0) :
    wp (handleCloseFrame env)
      (fun _ s' => ∃ code reason, CloseReply p code reason ∧ s.Replied env code reason s')
      (fun _ _ => False) s := by
  rcases p with _ | ⟨b0, _ | ⟨b1, reason⟩⟩
  · have hempty := h.wp_empty hf rfl (by omega)
    rw [hlen, List.take_zero] at hempty
    exact wp_mono hempty (fun _ _ hr => ⟨_, _, .empty, hr⟩) fun _ _ hn => hn
  · exact wp_mono (h.wp_short hf rfl) (fun _ _ hr => ⟨_, _, .short b0, hr⟩) fun _ _ hn => hn
  · have hstatus := h.wp_status hf rfl hp
    refine wp_mono hstatus (fun _ _ hr => ?_) fun _ _ hn => hn
    by_cases hv : WSCloseStatus.peerValid ⟨statusOf b0 b1⟩ = false
    · rw [if_pos hv, if_pos hv] at hr
      exact ⟨_, _, .status hv, hr⟩
    rw [if_neg hv, if_neg hv] at hr
    have hv' := eq_true_of_ne_false hv
    by_cases htext : ValidUtf8 reason
    · rw [(validateUtf8_iff reason).mpr htext, if_neg (by decide), if_neg (by decide)] at hr
      exact ⟨_, _, .echo hv' htext, hr⟩
    · have hrej := (validateUtf8_reject_or_cut htext).mpr (hw b0 b1 reason rfl hv')
      rw [if_pos hrej, if_pos hrej] at hr
      exact ⟨_, _, .text hv' htext, hr⟩

/-! ## Between the handlers -/

/-- The session is open and hears what arrives; no Close frame has come or gone. -/
structure Session.Attends (s : Session) (b : Bufferevent) : Prop where
  receiving : s.Receiving b
  isOpen : s.Open
  unrecorded : s.cl.receivedCloseFlag = false
  noReason : s.cl.serverReasonLen = 0

/-- A session that sends alike attends, too. -/
theorem Session.Attends.of_line {b' : Bufferevent} (h : s.Attends b) (hr : s'.Receiving b')
    (hl : Line False False s' s) : s'.Attends b' :=
  ⟨hr, h.isOpen.of_line hl, hl.received.trans h.unrecorded, hl.reasonLen.trans h.noReason⟩

/-- What keeps an open session open keeps its close record. -/
theorem Session.Attends.of_steady {b' : Bufferevent} {framed : Prop} (h : s.Attends b)
    (hs : Steady framed s s') (hr : s'.Receiving b') (ho : s'.Open) : s'.Attends b' := by
  have hcl : s'.cl = s.cl := by
    refine hs.life.resolve_right fun hclosing => ?_
    rw [ho.state] at hclosing
    cases hclosing
  exact ⟨hr, ho, by rw [hcl]; exact h.unrecorded, by rw [hcl]; exact h.noReason⟩

/-- A session that attends is not closed. -/
theorem Session.Attends.not_closed (h : s.Attends b) : ¬ s.Closed := h.receiving.sane.not_closed

/-- A message is handed to a handler that does not close, and the session goes on. -/
theorem wp_endOfMessage_attends (hf : env.NoFault) (hq : env.app.NeverCloses) (h : s.Attends b)
    (m : Bytes) :
    wp (endOfMessage env m)
      (fun _ s' => s'.Attends b ∧ s'.Between ∧ s.Told (handled env m s.rx.msgIsBinary_) s')
      (fun _ _ => False) s := by
  have hsteady : Moves (Steadies False) AnyTrap (endOfMessage env m) s :=
    moves_bind Steadies.trans ((steadies_rules env).callOnMessage m s) fun _ _ _ =>
      (steadies_rules env).turn (.held rfl rfl rfl rfl)
  have hall := wp_and hsteady (wp_and (wp_endOfMessage_told hf hq h.isOpen m)
    (wp_endOfMessage_receiving hf h.receiving m))
  refine wp_mono hall (fun _ s' hs => ?_) fun _ _ hs => hs.2.1
  obtain ⟨hsteady, htold, hr, hbt, -⟩ := hs
  exact ⟨h.of_steady (hsteady h.not_closed) hr htold.stays, hbt, htold⟩

/-! ## Texts, and then a Close frame -/

/-- The receiver expects the texts `ts` and then the Close frame, of which the buffer holds the
beginning and `z` is still to come. -/
inductive Session.Hears (s : Session) (b : Bufferevent) (p : Bytes) : List Frame → Bytes → Prop
  | text {t : Frame} {ts : List Frame} {z : Bytes} (h : s.Awaits b (t :: (ts ++ [.close p])) z) :
    Hears s b p (t :: ts) z
  | between {z : Bytes} (h : s.Between) (hin : b.input ++ z = (Frame.close p).bytes) :
    Hears s b p [] z
  | inside {k : Nat} {z : Bytes} (h : s.InClose p k) (hk : k < p.length)
    (hin : b.input ++ z = p.drop k) : Hears s b p [] z

/-- What is to come is no longer than the frames. -/
theorem Session.Awaits.length_le {fs : List Frame} (h : s.Awaits b fs z) :
    z.length ≤ (stream fs).length := by
  cases h with
  | between h hin =>
    rw [← hin, List.length_append]
    exact Nat.le_add_left _ _
  | inside h hk hp hin =>
    have hlen := congrArg List.length hin
    rw [List.length_append, List.length_append, List.length_drop] at hlen
    rw [stream_cons, List.length_append, Frame.length_bytes]
    omega

private theorem stream_close (p : Bytes) : stream [.close p] = (Frame.close p).bytes := by
  rw [stream_cons, stream, List.flatMap_nil, List.append_nil]

namespace Session.Hears

private theorem of_between (h : s.Between) (hin : b.input ++ z = stream (ts ++ [.close p])) :
    s.Hears b p ts z := by
  cases ts with
  | nil =>
    rw [List.nil_append, stream_close] at hin
    exact .between h hin
  | cons t ts => exact .text (.between h hin)

/-- A read moves octets from what is to come into the buffer. -/
theorem received {r : Bytes} (h : s.Hears b p ts (r ++ z)) :
    (s.received b r).Hears { b with input := b.input ++ r } p ts z := by
  cases h with
  | text h => exact .text h.received
  | between h hin => exact .between { h with } (by rw [← hin, List.append_assoc])
  | inside h hk hin =>
    exact .inside ⟨{ h.inControl with }, h.stored, h.array⟩ hk (by rw [← hin, List.append_assoc])

/-- Something of the stream is in the buffer or still to come. -/
theorem ne_nil (h : s.Hears b p ts z) (hin : b.input = []) : z ≠ [] := by
  rintro rfl
  cases h with
  | text h => exact not_le_of_undue (h.waits hin).2 (Nat.zero_le _)
  | between h hst =>
    have hlen := congrArg List.length hst
    have := (Frame.close p).two_le_length_header
    rw [hin, Frame.length_bytes] at hlen
    simp only [List.append_nil, List.length_nil] at hlen
    omega
  | inside h hk hst =>
    have hlen := congrArg List.length hst
    rw [hin, List.append_nil, List.length_nil, List.length_drop] at hlen
    omega

/-- What is to come is no longer than the conversation. -/
theorem length_le (h : s.Hears b p ts z) :
    z.length ≤ (stream (ts ++ [.close p])).length := by
  cases h with
  | text h => exact h.length_le
  | between h hst =>
    rw [List.nil_append, stream_close, ← hst, List.length_append]
    omega
  | inside h hk hst =>
    have hlen := congrArg List.length hst
    rw [List.length_append, List.length_drop] at hlen
    rw [List.nil_append, stream_close, Frame.length_bytes]
    change z.length ≤ (Frame.close p).header.length + p.length
    omega

end Session.Hears

/-- The receiver is inside the Close frame after the header part of a round. -/
structure EnteredClose (env : Env) (s : Session) (p z : Bytes) (s₁ : Session) (b₁ : Bufferevent)
    (k : Nat) : Prop where
  round : ∀ n, readLoop env (n + 1) s = (readPayload env >>= fun _ => readLoop env n) s₁
  inClose : s₁.InClose p k
  le : k ≤ p.length
  receiving : s₁.Receiving b₁
  input : b₁.input ++ z = p.drop k
  line : Line False False s₁ s

/-- A round reads the header of the Close frame or finds itself inside it, unless a part of the
header is missing. -/
theorem Session.Hears.enters (env : Env) (h : s.Hears b p [] z) (hr : s.Receiving b)
    (hp : p.length ≤ 125) (hin : b.input ≠ []) :
    (s.Between ∧ b.input ++ z = (Frame.close p).bytes ∧
        ∃ d, b.input ++ d = (Frame.close p).header ∧ d ≠ []) ∨
      ∃ s₁ b₁ k, EnteredClose env s p z s₁ b₁ k := by
  cases h with
  | between h hst =>
    rw [← stream_close] at hst
    rcases header_or_rest hst with hpart | ⟨x, hx, hxz⟩
    · exact Or.inl ⟨h, hst.trans (stream_close p), hpart⟩
    · have hneed := needHeader_control (f := Frame.close p) env (Frame.close_fits hp) rfl
        (Frame.close_valid p _) hr.reading hx h.hasHeader
      refine Or.inr ⟨s.ctrlBegun b (Frame.close p) x, { b with input := x }, 0, ?_⟩
      exact
        { round := readLoop_round hr.reading hin hneed
          inClose := s.inClose_begun b p x
          le := Nat.zero_le _
          receiving := hr.of_bev rfl rfl rfl { hr.sane with ctrlLen := Nat.zero_le _ } rfl
          input := hxz.trans (List.append_nil _)
          line :=
            { Line.refl False False s with
              bev := by simp [Session.ctrlBegun, hr.bev]
              header := False.elim
              scratchPos := False.elim } }
  | @inside k _ h hk hst =>
    refine Or.inr ⟨s, b, k, ?_⟩
    exact
      { round := readLoop_round hr.reading hin (needHeader_inside h.inControl.hasHeader _)
        inClose := h
        le := hk.le
        receiving := hr
        input := hst
        line := Line.refl _ _ s }

/-- The session has the octets of the payload in `c` stored. -/
theorem EnteredClose.took {s₁ : Session} {b₁ : Bufferevent} (h : EnteredClose env s p z s₁ b₁ k)
    (hp : p.length ≤ 125) {c d : Bytes} (hc : p.drop k = c ++ d) (x : Bytes) :
    (s₁.ctrlTook b₁ c x).InClose p (k + c.length) ∧
      (s₁.ctrlTook b₁ c x).Receiving { b₁ with input := x } ∧
      Line False False (s₁.ctrlTook b₁ c x) s := by
  have htook := h.inClose.ctrlTook hp hc h.le b₁ x
  have hle : k + c.length ≤ p.length := by
    have hlen := congrArg List.length hc
    have := h.le
    rw [List.length_drop, List.length_append] at hlen
    omega
  refine ⟨htook, h.receiving.of_bev rfl rfl rfl { h.receiving.sane with ctrlLen := ?_ } rfl, ?_⟩
  · rw [htook.inControl.ctrlLen]
    exact hle.trans hp
  · refine Line.trans ?_ h.line
    exact { Line.refl False False s₁ with bev := by simp [Session.ctrlTook, h.receiving.bev] }

/-- With the rest of the Close frame in the buffer the payload part comes to its end. -/
theorem EnteredClose.completes {s₁ : Session} {b₁ : Bufferevent}
    (h : EnteredClose env s p [] s₁ b₁ k) (hp : p.length ≤ 125) :
    ∃ u b', readPayload env s₁ = endFrame env u ∧ u.InClose p p.length ∧ u.Receiving b' ∧
      b'.input = [] ∧ Line False False u s := by
  have hin : b₁.input = p.drop k := (List.append_nil _).symm.trans h.input
  have hend : k + (p.drop k).length = p.length := by
    have := h.le
    rw [List.length_drop]
    omega
  rcases h.le.lt_or_eq with hlt | hk
  · obtain ⟨htook, hr, hl⟩ := h.took hp (List.append_nil (p.drop k)).symm []
    rw [hend] at htook
    have hread : readPayload env s₁ = _ := readPayload_ctrlTook h.inClose.inControl
      (Frame.close_fits hp) rfl hp h.receiving.reading (List.append_nil _).symm
      (hin.trans (List.append_nil _).symm) (Or.inl rfl) hlt
    exact ⟨_, _, hread.trans (congrFun (if_pos hend) _), htook, hr, rfl, hl⟩
  · refine ⟨s₁, b₁, ?_, hk ▸ h.inClose, h.receiving, ?_, h.line⟩
    · exact readPayload_done h.inClose.inControl.header (h.inClose.inControl.recvFrameLen.trans hk)
        (Frame.close_fits hp)
    · rw [hin, List.drop_eq_nil_of_le hk.ge]

/-- A round with a part of the Close frame in the buffer stores it. -/
theorem Session.Hears.stores (h : s.Hears b p [] z) (hr : s.Receiving b) (hp : p.length ≤ 125)
    (hin : b.input ≠ []) (hz : z ≠ []) (n : Nat) :
    ∃ u b', readLoop env (n + 1) s = .ok () u ∧ Line False False u s ∧ u.Receiving b' ∧
      u.Hears b' p [] z := by
  rcases h.enters env hr hp hin with ⟨hbt, hst, d, hd, hne⟩ | ⟨s₁, b₁, k, he⟩
  · obtain ⟨hdr, hwait⟩ := needHeader_waits env hd hne hbt.hasHeader
    refine ⟨_, b, readLoop_stop hr.reading hin hwait n, ?_, hr.headed hdr, .between ?_ hst⟩
    · exact { Line.refl False False s with header := False.elim, scratchPos := False.elim }
    · exact ⟨hbt.hasHeader, hbt.inMsgFlag⟩
  · have hlen := congrArg List.length he.input
    have hpos := List.length_pos_iff.mpr hz
    rw [List.length_append, List.length_drop] at hlen
    obtain ⟨htook, hr', hl⟩ := he.took hp he.input.symm []
    have hread : readPayload env s₁ = .ok () (s₁.ctrlTook b₁ b₁.input []) := by
      have hlt : k < p.length := by omega
      have hne : k + b₁.input.length ≠ p.length := by omega
      refine (readPayload_ctrlTook he.inClose.inControl (Frame.close_fits hp) rfl hp
        he.receiving.reading he.input.symm (List.append_nil _).symm (Or.inr rfl) hlt).trans ?_
      exact congrFun (if_neg hne) _
    refine ⟨_, { b₁ with input := [] }, ?_, hl, hr', .inside htook (by omega) ?_⟩
    · rw [he.round n, bind_eq_of_ok hread]
      exact readLoop_nil hr'.reading rfl n
    · rw [← List.drop_drop, ← he.input, List.drop_left]
      rfl

/-! ## The loop -/

/-- A text is handed over, and the loop goes on with the rest. -/
theorem Session.Attends.hands (hf : env.NoFault) (hq : env.app.NeverCloses) {n : Nat}
    {Q : Session → Prop} (h : s.Attends b)
    (hh : s.Awaits b (t :: (ts ++ [.close p])) z) (hw : t.Whole) (hin : b.input ≠ [])
    (hz : z.length ≤ (stream (ts ++ [.close p])).length)
    (hrest : ∀ s₁ b₁, s.Told (messages env [t]) s₁ → s₁.Attends b₁ → s₁.Hears b₁ p ts z →
      b₁.input.length < b.input.length → wp (readLoop env n) (fun _ => Q) (fun _ _ => False) s₁) :
    wp (readLoop env (n + 1)) (fun _ => Q) (fun _ _ => False) s := by
  obtain ⟨u, b', hround, hu, hr', hst, hlt⟩ := hh.delivers hf h.receiving hw hin hz n
  rw [wp_congr hround, wp_bind]
  refine wp_mono (wp_endOfMessage_attends hf hq (h.of_line hr' hu.line) t.payload)
    (fun _ s₁ h₁ => ?_) fun _ _ hn => hn
  obtain ⟨ha, hbt, htold⟩ := h₁
  refine hrest s₁ b' ?_ ha (.of_between hbt hst) hlt
  rw [hu.kind] at htold
  rw [messages, List.flatMap_singleton]
  obtain ⟨evs, he, hm, hc⟩ := htold.trace
  exact ⟨htold.stays, evs, by rw [he, hu.line.trace], hm, hc⟩

/-- The session has heard the messages `ms` since `s` and expects the rest of the stream. -/
def Session.GoesOn (env : Env) (s : Session) (p : Bytes) (ts : List Frame) (z : Bytes)
    (s' : Session) : Prop :=
  ∃ heard rest b', ts = heard ++ rest ∧ s.Told (messages env heard) s' ∧ s'.Attends b' ∧
    s'.Hears b' p rest z

private theorem messages_append (env : Env) (fs gs : List Frame) :
    messages env (fs ++ gs) = messages env fs ++ messages env gs := List.flatMap_append

/-- As long as a part of the stream is to come, the loop hands over the texts that are complete
and stores what is there of the frame that is not. -/
theorem wp_readLoop_goesOn (hf : env.NoFault) (hq : env.app.NeverCloses) {n : Nat}
    (h : s.Attends b) (hh : s.Hears b p ts z) (hw : ∀ t ∈ ts, t.Whole) (hp : p.length ≤ 125)
    (hz : z ≠ []) (hcut : CutPasses (ts ++ [.close p]) z.length) (hn : b.input.length < n) :
    wp (readLoop env n) (fun _ => s.GoesOn env p ts z) (fun _ _ => False) s := by
  induction n generalizing s b ts with
  | zero => omega
  | succ n ih =>
    have hstay : ∀ {u : Session} {b' : Bufferevent}, u.Receiving b' → Line False False u s →
        u.Hears b' p ts z → s.GoesOn env p ts z u := fun hr hl hu =>
      ⟨[], ts, _, rfl, h.isOpen.told_refl.of_line hl, h.of_line hr hl, hu⟩
    by_cases hin : b.input = []
    · rw [wp_of_eq_ok (readLoop_nil h.receiving.reading hin _)]
      exact hstay h.receiving (Line.refl _ _ s) hh
    cases ts with
    | nil =>
      obtain ⟨u, b', hround, hl, hr', hu⟩ := hh.stores h.receiving hp hin hz n
      rw [wp_of_eq_ok hround]
      exact hstay hr' hl hu
    | cons t ts =>
      obtain ⟨hwt, hws⟩ := List.forall_mem_cons.mp hw
      rw [List.cons_append, CutPasses] at hcut
      cases hh with
      | text ha =>
        by_cases hzt : z.length ≤ (stream (ts ++ [.close p])).length
        · rw [if_pos hzt] at hcut
          refine h.hands hf hq ha hwt hin hzt fun s₁ b₁ htold ha₁ hh₁ hlt => ?_
          refine wp_mono (ih ha₁ hh₁ hws hcut (by omega)) (fun _ s' h' => ?_) fun _ _ hn => hn
          obtain ⟨heard, rest, b', rfl, htold', h'⟩ := h'
          refine ⟨t :: heard, rest, b', rfl, ?_, h'⟩
          rw [← List.singleton_append, messages_append]
          exact htold.trans htold'
        · rw [if_neg hzt] at hcut
          obtain ⟨u, b', hround, hl, hr', ha', -⟩ :=
            ha.stores hf h.receiving hwt hin (not_le.mp hzt) hcut n
          rw [wp_of_eq_ok hround]
          exact hstay hr' hl (.text ha')

/-- The session has written one Close frame since `s` and nothing else, and is closing. -/
structure Session.Answered (env : Env) (s : Session) (code : Nat) (reason : Bytes) (s' : Session) :
    Prop where
  trace : ∃ evs, s'.io.trace = s.io.trace ++ evs ∧ (∀ e ∈ evs, e.isSent = true) ∧
    evs.flatMap Event.bytes =
      (wholeFrame (env.key s.io.randPos) .close (closeBody code reason)).encode
  sentCloseFlag : s'.cl.sentCloseFlag = true
  receivedCloseFlag : s'.cl.receivedCloseFlag = true

/-- A reply that tells the application nothing is all that was written. -/
theorem Session.Replied.answered {keep quiet : Prop} {code : Nat} {reason : Bytes}
    (h : s.Replied env code reason s') (hv : Served keep quiet s s') (ht : Tacit s s') :
    s.Answered env code reason s' := by
  obtain ⟨evs, he, htraffic⟩ := hv.trace
  obtain ⟨evs', he', hquiet⟩ := ht
  rw [he, List.append_cancel_left_eq] at he'
  subst he'
  refine ⟨⟨evs, he, fun e hmem => ?_, ?_⟩, h.sentCloseFlag, h.receivedCloseFlag⟩
  · refine (htraffic e hmem).resolve_right fun hmsg => ?_
    rw [hquiet e hmem] at hmsg
    cases hmsg.2
  · have hout := h.output
    rw [Session.output, Session.output, he, List.flatMap_append] at hout
    exact List.append_cancel_left hout

/-- The session has heard the messages `ms` since `s`, has answered the Close frame with the one
it calls for, and waits for the end of the stream. -/
def Session.Concludes (env : Env) (s : Session) (p : Bytes) (ms : List Event) (s' : Session) :
    Prop :=
  ∃ s₁ code reason b', s.Told ms s₁ ∧ CloseReply p code reason ∧ s₁.Answered env code reason s' ∧
    s'.Receiving b' ∧ b'.input = []

/-- Messages heard before the conclusion are heard first. -/
theorem Session.Concludes.after {ms ms' : List Event} {s₁ : Session} (h : s.Told ms s₁)
    (h' : s₁.Concludes env p ms' s') : s.Concludes env p (ms ++ ms') s' := by
  obtain ⟨s₂, code, reason, b', htold, h'⟩ := h'
  exact ⟨s₂, code, reason, b', h.trans htold, h'⟩

/-- The end of the Close frame is answered. -/
theorem wp_endFrame_concludes (hf : env.NoFault) (h : s.Attends b) (hin : b.input = [])
    (hc : s.InClose p p.length) (hp : p.length ≤ 123) (hw : WholeReason p) :
    wp (endFrame env) (fun _ => s.Concludes env p []) (fun _ _ => False) s := by
  have hgot : Session.GotClose { s with rx.hasHeader := false } p :=
    { bev := h.isOpen.bev
      state := h.isOpen.state
      sendState := h.isOpen.sendState
      unsent := h.isOpen.sentClose
      ctrlLen := hc.inControl.ctrlLen
      ctrlPayload := hc.stored.trans List.take_length
      array := hc.array }
  rw [wp_congr (endFrame_close (congrArg WSHeader.opcode hc.inControl.header)), wp_bind]
  have hserves : Moves (Serves True False) Mild (handleCloseFrame env)
      { s with rx.hasHeader := false } := serves_handleCloseFrame (fun _ => hf) _
  have hsteadies : Moves (Steadies True) AnyTrap (handleCloseFrame env)
      { s with rx.hasHeader := false } := steadies_handleCloseFrame _
  refine wp_mono (wp_and (wp_and (hgot.wp_reply hf hp hw h.noReason) (retains_handleCloseFrame _))
    (wp_and hserves hsteadies)) (fun _ s' hs => ?_) fun _ _ hs => hs.1.1
  obtain ⟨⟨⟨code, reason, hreply, hreplied⟩, hretains⟩, hserved, hsteady⟩ := hs
  have hsane := h.receiving.sane
  have hv := hserved { hsane with }
  have htacit := (hsteady h.not_closed).tacit (Or.inl trivial)
  refine ⟨_, code, reason, b, ?_, hreply, hreplied.answered hv htacit, ?_, hin⟩
  · exact ⟨{ h.isOpen with }, h.isOpen.told_refl.trace⟩
  · refine ⟨?_, h.receiving.enabled, ?_, hv.sane, hv.binary.trans h.receiving.checked⟩
    · exact (hretains.bev.resolve_left (hv.live trivial h.isOpen.bev)).trans h.receiving.bev
    · rw [hretains.hs]
      exact h.receiving.complete

/-- With the whole rest of the stream in the buffer, the loop hands over the texts and answers the
Close frame. -/
theorem wp_readLoop_concludes (hf : env.NoFault) (hq : env.app.NeverCloses) {n : Nat}
    (h : s.Attends b) (hh : s.Hears b p ts []) (hts : ∀ t ∈ ts, t.Whole) (hp : p.length ≤ 123)
    (hw : WholeReason p) (hn : b.input.length < n) :
    wp (readLoop env n) (fun _ => s.Concludes env p (messages env ts)) (fun _ _ => False) s := by
  induction n generalizing s b ts with
  | zero => omega
  | succ n ih =>
    have hin : b.input ≠ [] := fun hnil => hh.ne_nil hnil rfl
    cases ts with
    | nil =>
      rcases hh.enters env h.receiving (by omega) hin with ⟨-, hst, d, hd, hne⟩ | ⟨s₁, b₁, k, he⟩
      · have hlen := congrArg List.length hst
        have hlen' := congrArg List.length hd
        have hpos := List.length_pos_iff.mpr hne
        rw [List.append_nil, Frame.length_bytes] at hlen
        rw [List.length_append] at hlen'
        omega
      · obtain ⟨u, b', hread, hu, hr, hnil, hl⟩ := he.completes (by omega)
        rw [wp_congr (he.round n), wp_bind, wp_congr hread]
        refine wp_mono (wp_endFrame_concludes hf (h.of_line hr hl) hnil hu hp hw)
          (fun _ s' h' => ?_) fun _ _ hn => hn
        have hs := Session.Concludes.after (h.isOpen.told_refl.of_line hl) h'
        obtain ⟨-, -, -, b', -, -, -, hr', hnil'⟩ := h'
        rw [wp_of_eq_ok (readLoop_nil hr'.reading hnil' n)]
        exact hs
    | cons t ts =>
      obtain ⟨hwt, hws⟩ := List.forall_mem_cons.mp hts
      cases hh with
      | text ha =>
        refine h.hands hf hq ha hwt hin (Nat.zero_le _) fun s₁ b₁ htold ha₁ hh₁ hlt => ?_
        rw [← List.singleton_append, messages_append]
        exact wp_mono (ih ha₁ hh₁ hws (by omega)) (fun _ _ h' => .after htold h') fun _ _ hn => hn

/-! ## Reads -/

/-- Empty reads change nothing. -/
theorem run_reads_nil (hr : s.Receiving b) (hin : b.input = []) {reads : List Bytes}
    (hnil : reads.flatten = []) : run env (reads.map .read) s = .ok ⟨⟩ s := by
  induction reads with
  | nil => rfl
  | cons r rs ih =>
    rw [List.flatten_cons, List.append_eq_nil_iff] at hnil
    obtain ⟨rfl, hrs⟩ := hnil
    have hsame : s.received b [] = s := by
      rw [Session.received, List.append_nil, ← hr.bev]
    have hstep : step env (.read []) s = .ok ⟨⟩ s := by
      rw [step_read_receiving hr, hsame]
      exact readLoop_nil hr.reading hin _
    rw [List.map_cons, run, runAll_cons, bind_eq_of_ok hstep]
    exact ih hrs

/-- A loop and the reads after it hear the whole stream. -/
theorem wp_reads_concludes (hf : env.NoFault) (hq : env.app.NeverCloses) {n : Nat}
    {reads : List Bytes} (h : s.Attends b) (hh : s.Hears b p ts reads.flatten)
    (hts : ∀ t ∈ ts, t.Whole) (hp : p.length ≤ 123) (hw : WholeReason p)
    (hcut : ∀ later, later <:+ reads → CutPasses (ts ++ [.close p]) later.flatten.length)
    (hn : b.input.length < n) :
    wp (readLoop env n >>= fun _ => run env (reads.map .read))
      (fun _ => s.Concludes env p (messages env ts)) (fun _ _ => False) s := by
  induction reads generalizing s b ts n with
  | nil =>
    rw [wp_bind]
    exact wp_readLoop_concludes hf hq h hh hts hp hw hn
  | cons r rs ih =>
    rw [wp_bind]
    by_cases hz : (r :: rs).flatten = []
    · rw [hz] at hh
      refine wp_mono (wp_readLoop_concludes hf hq h hh hts hp hw hn) (fun _ s' h' => ?_)
        fun _ _ hn => hn
      have hs := h'
      obtain ⟨-, -, -, b', -, -, -, hr', hnil'⟩ := h'
      rw [wp_of_eq_ok (run_reads_nil hr' hnil' hz)]
      exact hs
    · refine wp_mono (wp_readLoop_goesOn hf hq h hh hts (by omega) hz (hcut _ List.suffix_rfl) hn)
        (fun _ s' h' => ?_) fun _ _ hn => hn
      obtain ⟨heard, rest, b', rfl, htold, ha, hh'⟩ := h'
      have hl := Session.received_line ha.receiving.bev r
      have ha' := ha.of_line (ha.receiving.received r) hl
      rw [List.flatten_cons] at hh'
      rw [List.map_cons, run, runAll_cons, wp_congr (bind_eq_of_eq
        (step_read_receiving ha.receiving r)), messages_append]
      refine wp_mono (ih ha' hh'.received (fun t ht => hts t (List.mem_append_right _ ht)) ?_ ?_)
        (fun _ _ hc => .after (htold.of_line hl) hc) fun _ _ hn => hn
      · intro later hsub
        refine (hcut later (hsub.trans (List.suffix_cons r rs))).of_suffix ?_ ?_
        · rw [List.append_assoc]
          exact List.suffix_append _ _
        · obtain ⟨early, hearly⟩ := hsub
          have hle := hh'.length_le
          have hlen := congrArg (fun l => (List.flatten l).length) hearly
          simp only [List.flatten_append, List.length_append] at hlen hle
          omega
      · dsimp only
        omega

/-- Between `s` and `s'` the session wrote and delivered messages, and nothing else. -/
def Session.Traffic (s s' : Session) : Prop :=
  ∃ evs, s'.io.trace = s.io.trace ++ evs ∧ ∀ e ∈ evs, e.isSent = true ∨ e.isMessage = true

/-- Traffic after traffic is traffic. -/
theorem Session.Traffic.trans {s₁ s₂ : Session} (h : s.Traffic s₁) (h' : s₁.Traffic s₂) :
    s.Traffic s₂ := by
  obtain ⟨evs, he, ht⟩ := h
  obtain ⟨evs', he', ht'⟩ := h'
  exact ⟨evs ++ evs', by rw [he', he, List.append_assoc], List.forall_mem_append.mpr ⟨ht, ht'⟩⟩

/-- A live session has nothing but traffic. -/
theorem Served.traffic {keep quiet : Prop} (h : Served keep quiet s s') : s.Traffic s' := by
  obtain ⟨evs, he, ht⟩ := h.trace
  exact ⟨evs, he, fun e hmem => (ht e hmem).imp_right And.right⟩

/-- A loop and the reads after it only write and deliver messages. -/
theorem wp_reads_traffic (hf : env.NoFault) (hr : s.Receiving b) (n : Nat) (reads : List Bytes) :
    wp (readLoop env n >>= fun _ => run env (reads.map .read)) (fun _ => s.Traffic)
      (fun _ _ => True) s := by
  have hserves : ∀ (m : Nat) (u : Session), Moves (Serves True False) Mild (readLoop env m) u :=
    serves_readLoop fun _ => hf
  rw [wp_bind]
  refine wp_mono (wp_and (hserves n s) (wp_readLoop_extends hf hr n)) (fun _ s₁ h₁ => ?_)
    fun _ _ _ => trivial
  obtain ⟨hv, -, b₁, hr₁⟩ := h₁
  induction reads generalizing s s₁ b b₁ with
  | nil => exact (hv hr.sane).traffic
  | cons r rs ih =>
    have hr' := hr₁.received r
    rw [List.map_cons, run, runAll_cons, wp_bind, wp_congr (step_read_receiving hr₁ r)]
    refine wp_mono (wp_and (hserves _ _) (wp_readLoop_extends hf hr' _)) (fun _ s₂ h₂ => ?_)
      fun _ _ _ => trivial
    obtain ⟨hv₂, -, b₂, hr₂⟩ := h₂
    refine wp_mono (ih hr' s₂ hv₂ b₂ hr₂) (fun _ s₃ h₃ => ?_) fun _ _ h => h
    exact (hv hr.sane).traffic.trans h₃

/-! ## The upgrade -/

/-- Reads that bring a reply that is accepted announce the connection, and what follows the reply
goes to the frame reader. -/
theorem wp_reads_accepted {Q : Unit → Session → Prop} {E : Trap → Session → Prop}
    {reads : List Bytes} {h' : Handshake} {rest : Bytes} (hb : s.Reading b)
    (hc : s.hs.connectState ≠ .handshakeComplete)
    (hr : readReply env.sha1 s.hs b.input reads = (.success, h', rest))
    (hnext : ∀ x post, post <:+ reads → rest = x ++ post.flatten →
      h'.connectState = .handshakeComplete →
      wp (do
          callOnConnect env
          readWebsocket env
          run env (post.map .read)) Q E
        { s with hs := h', bev := some { b with input := x }, cl.state := .connected }) :
    wp (run env (reads.map .read)) Q E s := by
  induction reads generalizing s b with
  | nil => cases hr
  | cons r rs ih =>
    have hagree := s.reply_agrees env b r
    rw [List.map_cons, run, runAll_cons, wp_bind]
    by_cases hm : (s.reply env b r).1 = .needMore
    · rw [readReply_cons_needMore hm] at hr
      rw [wp_of_eq_ok (step_read_waiting hb hc hm)]
      refine ih (s := s.replied env b r) ⟨rfl, hb.2⟩ (hagree.needMore hm) hr fun x post hsub => ?_
      exact hnext x post (hsub.trans (List.suffix_cons r rs))
    · rcases hcall : s.reply env b r with ⟨result, h₁, x⟩
      rw [hcall] at hm hagree
      rw [readReply_of_done hcall hm] at hr
      simp only [Prod.mk.injEq] at hr
      obtain ⟨rfl, rfl, hrest⟩ := hr
      have hread : readServerHandshakeReply env.sha1 s.hs (b.input ++ r) = (.success, h₁, x) :=
        hcall
      have hs := hnext x rs (List.suffix_cons r rs) hrest.symm (hagree.success rfl)
      simp only [run, wp_bind] at hs
      simpa only [step, onRead, wp_bind, wp_get, hb.1, hb.2, if_true, wp_modify, if_pos hc, hread]
        using hs

private theorem settled_of_tokens {lines : List Bytes} (h : ∀ line ∈ lines, ownToken line ≠ none)
    (seen : Bool) : Settled seen lines := by
  induction lines generalizing seen with
  | nil => trivial
  | cons line lines ih =>
    obtain ⟨hline, hlines⟩ := List.forall_mem_cons.mp h
    exact ⟨fun hnone => absurd hnone hline, ih hlines _⟩

/-- The lines that are taken come before the end of the head. -/
theorem linesTaken_of_head {x : Bytes} {flags : UInt8} {v l : Bytes} {head lines : List Bytes}
    (h : l ∈ linesTaken x flags v (head ++ [] :: lines)) : l ∈ head := by
  induction head generalizing flags v with
  | nil =>
    rw [List.nil_append, linesTaken, if_pos (by rfl)] at h
    cases h
  | cons line head ih =>
    rw [List.cons_append, linesTaken] at h
    split_ifs at h with hend
    · cases h
    · dsimp only at h
      split at h
      · rw [List.mem_singleton.mp h]
        exact List.mem_cons_self
      · rcases List.mem_cons.mp h with rfl | htail
        · exact List.mem_cons_self
        · exact List.mem_cons_of_mem _ (ih htail)

private theorem ownToken_accept {x : Bytes} (hx : x ≠ []) (hs : ∀ c ∈ x, isBase64Sign c = true) :
    ownToken (ascii "Sec-WebSocket-Accept: " ++ x) ≠ none := by
  intro hnone
  have hunended := (lineTaken_accept hx hs []).unended
  have hparse := parseHttpHeader_accept hx (fun c hc => (sign_visible (hs c hc)).1) []
  rw [ownToken, cstr_eq_self hunended] at hnone
  rw [parseHttpHeader, hnone] at hparse
  exact hx (Prod.mk.inj hparse).2.symm

/-- The reply of a server is accepted in any number of reads, and what follows it is left. -/
theorem readReply_upgradeReply {sha1 : Bytes → Bytes} (hsha : ∀ b, (sha1 b).length = 20)
    {h : Handshake} (hc : h.connectState = .sentReq) (hf : h.httpHeaderFlags = 0)
    {reads : List Bytes} {rest : Bytes}
    (hreads : reads.flatten =
      upgradeReply (calculateKeyHash sha1 h.handshakeKeyBase64) ++ rest) :
    ∃ h', readReply sha1 h [] reads = (.success, h', rest) := by
  obtain ⟨header, hwhole⟩ := readServerHandshakeReply_upgradeReply hsha hc rest
  generalize hxdef : calculateKeyHash sha1 h.handshakeKeyBase64 = x at hreads hwhole
  have hx : x ≠ [] := by
    rw [← hxdef, calculateKeyHash, ne_eq, encodeBase64_eq_nil, ← List.length_eq_zero_iff, hsha]
    simp
  have hsign : ∀ c ∈ x, isBase64Sign c = true := by
    intro c hmem
    rw [← hxdef] at hmem
    exact isBase64Sign_of_mem hmem
  -- The lines of the head, each with a value of its own.
  set tail : Bytes := crlf (ascii "Upgrade: websocket") ++ (crlf (ascii "Connection: Upgrade") ++
    (crlf (ascii "Sec-WebSocket-Accept: " ++ x) ++ (crlf [] ++ rest))) with htail
  have hline : readln (upgradeReply x ++ rest) =
      some (ascii "HTTP/1.1 101 Switching Protocols", tail) := by
    rw [htail, upgradeReply]
    simp only [List.append_assoc]
    exact readln_crlf (by decide) _
  have hlines : (splitLines tail).1 = [ascii "Upgrade: websocket", ascii "Connection: Upgrade",
      ascii "Sec-WebSocket-Accept: " ++ x] ++ [] :: (splitLines rest).1 := by
    rw [htail, splitLines_of_some (readln_crlf (by decide) _),
      splitLines_of_some (readln_crlf (by decide) _),
      splitLines_of_some (readln_crlf (lineTaken_accept hx hsign []).unbroken _),
      splitLines_of_some (readln_crlf List.not_mem_nil _)]
    rfl
  have hset : Settled false (linesTaken (calculateKeyHash sha1 h.handshakeKeyBase64)
      h.httpHeaderFlags [] (splitLines tail).1) := by
    refine settled_of_tokens (fun l hl => ?_) _
    rw [hlines] at hl
    have hmem := linesTaken_of_head hl
    simp only [List.mem_cons, List.not_mem_nil, or_false] at hmem
    rcases hmem with rfl | rfl | rfl
    · decide
    · decide
    · exact ownToken_accept hx hsign
  -- Behind the status line every cut has the outcome of one read.
  have hup : IsUpgrade (ascii "HTTP/1.1 101 Switching Protocols") := by decide
  have hstatus : ∀ cut : List Bytes, cut.flatten = upgradeReply x ++ rest →
      replyOutcome (readReply sha1 h [] cut) =
        replyOutcome (readReply sha1 { h with connectState := .parsedStatus } [] [tail]) := by
    intro cut hcut
    have hst := @readReply_of_status sha1 h [] _ tail cut hc hf rfl
      (by rw [List.nil_append, hcut, hline])
    rw [if_pos hup] at hst
    obtain ⟨pieces, hpieces, hreply⟩ := hst
    rw [hreply]
    exact (@headers_cut_iff sha1 { h with connectState := .parsedStatus } rfl tail).mpr hset
      pieces hpieces
  have hone := hstatus [upgradeReply x ++ rest] (by simp)
  have hcall : readServerHandshakeReply sha1 h ([] ++ (upgradeReply x ++ rest)) = _ := hwhole
  rw [readReply_of_done hcall (by decide)] at hone
  have hout := (hstatus reads hreads).trans hone.symm
  rcases hr : readReply sha1 h [] reads with ⟨result, h', left⟩
  rw [hr] at hout
  simp only [replyOutcome, Prod.mk.injEq, if_true, List.flatten_nil, List.append_nil] at hout
  obtain ⟨rfl, -, hleft⟩ := hout
  rw [if_pos rfl] at hleft
  exact ⟨h', by rw [Option.some.inj hleft]⟩

/-! ## The conversation -/

/-- Neither handler of the application closes the connection. -/
structure App.NeverHangsUp (app : App) : Prop where
  onConnect : ∀ handler, app.onConnect = some handler → ∀ trace, AppCall.close ∉ handler trace
  onMessage : app.NeverCloses

private theorem wp_onConnectCalls_told (hf : env.NoFault) (hq : env.app.NeverHangsUp) (h : s.Open)
    (trace : List Event) :
    wp (match env.app.onConnect with
      | none => pure ()
      | some handler => runCalls env (handler trace)) (fun _ => s.Told []) (fun _ _ => False)
      s := by
  cases ha : env.app.onConnect with
  | none => exact h.told_refl
  | some handler => exact wp_runCalls_told hf h (hq.onConnect handler ha _)

/-- The connection is announced to a handler that does not close. -/
theorem wp_callOnConnect_attends (hf : env.NoFault) (hq : env.app.NeverHangsUp)
    (h : s.Attends b) :
    wp (callOnConnect env)
      (fun _ s' => s'.Attends b ∧ s'.rx = s.rx ∧
        Session.Told [] { s with io.trace := s.io.trace ++ [.onConnect] } s' ∧
        Session.Traffic { s with io.trace := s.io.trace ++ [.onConnect] } s')
      (fun _ _ => False) s := by
  have hsane := h.receiving.sane
  have hattends : Session.Attends { s with io.trace := s.io.trace ++ [.onConnect] } b :=
    ⟨{ h.receiving with sane := { hsane with } }, { h.isOpen with }, h.unrecorded, h.noReason⟩
  simp only [callOnConnect, emit, wp_bind, wp_modify, wp_get]
  refine wp_mono (wp_and (wp_onConnectCalls_told hf hq hattends.isOpen _) (wp_and
    (serves_onConnectCalls (fun _ : True => hf) _ _) (@steadies_onConnectCalls env True _ _)))
    (fun _ s' hs => ?_) fun _ _ hs => hs.1
  obtain ⟨htold, hserved, hsteady⟩ := hs
  have hv := hserved hattends.receiving.sane
  have hbev : s'.bev = some b :=
    ((hv.held trivial).resolve_left htold.stays.bev).trans hattends.receiving.bev
  have hr : s'.Receiving b :=
    ⟨hbev, h.receiving.enabled, by rw [hv.hs]; exact h.receiving.complete, hv.sane,
      hv.binary.trans h.receiving.checked⟩
  exact ⟨hattends.of_steady (hsteady hattends.not_closed) hr htold.stays, (hv.rx trivial).1, htold,
    hv.traffic⟩

/-- The key of the first connection. -/
def firstKey (env : Env) : Bytes := encodeBase64 ((List.range' 0 16).map env.rand)

/-- The session that writes the first upgrade request. -/
def requesting (env : Env) : Session :=
  { Session.initialised.connecting with
    bev := some { readEnabled := true }
    connectTimeoutEvent := .pending
    hs := { handshakeKeyBase64 := firstKey env }
    io := { trace := [.opened], randPos := 16, callPos := 5 } }

/-- The session after the first upgrade request. -/
def requested (env : Env) : Session :=
  { requesting env with
    hs := { handshakeKeyBase64 := firstKey env, connectState := .sentReq }
    io := { (requesting env).io with
      trace := [.opened, .request (handshakeRequest (requesting env))] } }

private theorem run_append (env : Env) (is js : List Input) (s : Session) :
    run env (is ++ js) s = (run env is >>= fun _ => run env js) s := runAll_append _ _ _ _

/-- Connecting writes the upgrade request. -/
theorem run_connect (hf : env.NoFault) :
    run env [.connect, .connected] Session.initialised = .ok ⟨⟩ (requested env) := by
  have hkey : encodeBase64 ((List.range' 0 16).map env.rand) ≠ [] := by
    rw [ne_eq, encodeBase64_eq_nil]
    simp
  apply eq_ok_of_wp
  simp [run, runAll, step, runCall, doConnect, setupConnectionTimeout, callFails, emit,
    onConnectEvent, sendHandshake, generateHandshakeKey, getRandomMask, hf _, hkey,
    Session.initialised, Session.connecting, requested, requesting, firstKey]

/-- What the first connection expects of the server for its key. -/
def acceptHash (env : Env) : Bytes := calculateKeyHash env.sha1 (firstKey env)

/-- No read ends inside a character of a text, when the first `skip` octets are the reply. -/
def CutsBetween (skip : Nat) (ps reads : List Bytes) : Prop :=
  ∀ earlier, earlier <+: reads → CharCut ps (earlier.flatten.length - skip)

/-- Texts in ASCII may be cut anywhere. -/
theorem cutsBetween_of_ascii {ps : List Bytes} (h : ∀ m ∈ ps, ∀ x ∈ m, x < 0x80) (skip : Nat)
    (reads : List Bytes) : CutsBetween skip ps reads := by
  have hcut : ∀ n, CharCut ps n := by
    induction ps with
    | nil => exact fun _ => trivial
    | cons m ps ih =>
      obtain ⟨hm, hms⟩ := List.forall_mem_cons.mp h
      intro n
      rw [CharCut]
      split
      · exact ih hms _
      · exact (validateUtf8_iff _).mp
          (validateUtf8_ascii fun x hx => hm x (List.mem_of_mem_take hx))
  exact fun earlier _ => hcut _

/-- What a conversation leaves behind: the request, one announcement, every text once and in order
with the writes of the handlers between them, and at the end the one Close frame that answers the
server's. -/
structure Conversed (env : Env) (ps : List Bytes) (p : Bytes) (s : Session) : Prop where
  trace : ∃ evs answer code reason key,
    s.io.trace = .opened :: .request (handshakeRequest (requesting env)) :: .onConnect ::
      (evs ++ answer) ∧
    (∀ e ∈ evs, (e.isSent = true ∨ e.isMessage = true) ∧ e.isCloseFrame = false) ∧
    evs.filter Event.isMessage = messages env (ps.map .text) ∧
    CloseReply p code reason ∧ (∀ e ∈ answer, e.isSent = true) ∧
    answer.flatMap Event.bytes = (wholeFrame key .close (closeBody code reason)).encode
  bev : s.bev = none
  sentCloseFlag : s.cl.sentCloseFlag = true
  receivedCloseFlag : s.cl.receivedCloseFlag = true

/-- The text check is not made for a Close frame. -/
theorem cutPasses_close (ts : List Frame) (p : Bytes) (m : Nat) :
    CutPasses (ts ++ [.close p]) m ↔ CutPasses ts (m - (Frame.close p).bytes.length) := by
  induction ts with
  | nil =>
    rw [List.nil_append, CutPasses, CutPasses]
    split_ifs
    · exact Iff.rfl
    · have hctl : isControlOpcode (Frame.close p).opcode = true := rfl
      exact iff_of_true (fun hd => absurd (hctl.symm.trans hd) (by decide)) trivial
  | cons t ts ih =>
    have hlen : (stream (ts ++ [.close p])).length =
        (stream ts).length + (Frame.close p).bytes.length := by
      rw [stream_append, stream_close, List.length_append]
    rw [List.cons_append, CutPasses, CutPasses, hlen]
    by_cases hm : m ≤ (stream ts).length + (Frame.close p).bytes.length
    · rw [if_pos hm, if_pos (by omega), ih]
    · rw [if_neg hm, if_neg (by omega)]
      have hn : t.payload.length + ((stream ts).length + (Frame.close p).bytes.length) - m =
          t.payload.length + (stream ts).length - (m - (Frame.close p).bytes.length) := by
        omega
      rw [hn]

/-- The reads after the reply keep the step with the texts. -/
theorem CutsBetween.cutPasses {skip : Nat} {ps reads later : List Bytes}
    (h : CutsBetween skip ps reads) (htext : ∀ m ∈ ps, ValidUtf8 m)
    (hlen : reads.flatten.length = skip + (stream (ps.map .text ++ [.close p])).length)
    (hsub : later <:+ reads)
    (hle : later.flatten.length ≤ (stream (ps.map .text ++ [.close p])).length) :
    CutPasses (ps.map .text ++ [.close p]) later.flatten.length := by
  obtain ⟨earlier, rfl⟩ := hsub
  have hcut := h earlier (List.prefix_append _ _)
  rw [stream_append, stream_close, List.length_append] at hlen hle
  rw [List.flatten_append, List.length_append] at hlen
  rw [cutPasses_close]
  by_cases hn : earlier.flatten.length - skip ≤ (stream (ps.map Frame.text)).length
  · rw [← cutPasses_iff_charCut htext hn] at hcut
    have heq : later.flatten.length - (Frame.close p).bytes.length =
        (stream (ps.map Frame.text)).length - (earlier.flatten.length - skip) := by
      omega
    rw [heq]
    exact hcut
  · have hzero : later.flatten.length - (Frame.close p).bytes.length = 0 := by omega
    rw [hzero]
    exact cutPasses_zero _

/-- The end of the stream, after the closing handshake, gives the connection up. -/
theorem step_eof_receiving (hr : s.Receiving b) (hin : b.input = []) :
    step env .eof s = .ok ⟨⟩ s.ended := by
  apply eq_ok_of_wp
  have hended := (wp_ended (Q := fun a u => a = ⟨⟩ ∧ u = s.ended) (E := fun _ _ => False) s).mpr
    ⟨rfl, rfl⟩
  simpa [step, onEofEvent, readLeftover, hr.bev, hr.enabled, hin] using hended

/-- From the announcement on: the session hears the stream and gives the connection up. -/
theorem wp_announced_conversed (hf : env.NoFault) (hq : env.app.NeverHangsUp) (h : s.Attends b)
    (hbt : s.Between) {ps reads : List Bytes} (hlen : ∀ m ∈ ps, m.length ≤ 125)
    (htext : ∀ m ∈ ps, ValidUtf8 m) (hp : p.length ≤ 123) (hw : WholeReason p)
    (hst : b.input ++ reads.flatten = stream (ps.map .text ++ [.close p]))
    (hcut : ∀ later, later <:+ reads →
      CutPasses (ps.map .text ++ [.close p]) later.flatten.length)
    (htrace : s.io.trace = [.opened, .request (handshakeRequest (requesting env))]) :
    wp (do
        callOnConnect env
        readWebsocket env
        run env (reads.map .read))
      (fun _ s' => wp (run env [.eof]) (fun _ => Conversed env ps p) (fun _ _ => False) s')
      (fun _ _ => False) s := by
  rw [wp_bind]
  refine wp_mono (wp_callOnConnect_attends hf hq h) (fun _ s₁ h₁ => ?_) fun _ _ hn => hn
  obtain ⟨ha, hrx, htold, htraffic⟩ := h₁
  have hbt₁ : s₁.Between := ⟨by rw [hrx]; exact hbt.hasHeader, by rw [hrx]; exact hbt.inMsgFlag⟩
  have hread : readWebsocket env s₁ = readLoop env (2 * b.input.length + 2) s₁ := by
    rw [readWebsocket, get_bind, ha.receiving.bev, ha.receiving.reading.inBuf]
  have hwhole : ∀ t ∈ ps.map Frame.text, t.Whole := by
    intro t ht
    obtain ⟨m, hm, rfl⟩ := List.mem_map.mp ht
    exact Frame.text_whole (hlen m hm) (htext m hm)
  rw [wp_congr (bind_eq_of_eq hread)]
  refine wp_mono (wp_and (wp_reads_concludes hf hq.onMessage ha (.of_between hbt₁ hst) hwhole hp hw
    hcut (by omega)) (wp_reads_traffic hf ha.receiving _ reads)) (fun _ s₂ h₂ => ?_)
    fun _ _ hn => hn.1
  obtain ⟨⟨s₃, code, reason, b', htold₃, hreply, hans, hr, hnil⟩, htraffic₂⟩ := h₂
  rw [run, runAll_cons, wp_bind, wp_of_eq_ok (step_eof_receiving hr hnil)]
  -- The events before the answer, of the handler of the connection and then of the messages.
  obtain ⟨evs, he, hm, hc⟩ := (htold.trans htold₃).trace
  obtain ⟨answer, hae, hsent, hbytes⟩ := hans.trace
  obtain ⟨all, hall, hkind⟩ := htraffic.trans htraffic₂
  rw [hae, he, List.append_assoc, List.append_cancel_left_eq] at hall
  subst hall
  have hevs : ∀ e ∈ evs, (e.isSent = true ∨ e.isMessage = true) ∧ e.isCloseFrame = false :=
    fun e hmem => ⟨hkind e (List.mem_append_left _ hmem), hc e hmem⟩
  refine ⟨⟨evs, answer, code, reason, _, ?_, hevs, hm, hreply, hsent, hbytes⟩, rfl,
    hans.sentCloseFlag, hans.receivedCloseFlag⟩
  change s₂.io.trace = _
  rw [hae, he, htrace]
  simp

/-- The server's side of a conversation of two texts, in reads that cut the reply, a header and
the Close frame. -/
def conversationReads : List Bytes :=
  [ascii "HTTP/1.1 101 Switching Protocols\r\nUpgrade: webso",
    ascii "cket\r\nConnection: Upgrade\r\nSec-WebSocket-Accept: AAAAAAAAA",
    ascii "AAAAAAAAAAAAAAAAAA=\r\n\r\n" ++ [0x81],
    [0x02, 0x41, 0x42, 0x81, 0x01, 0x43, 0x88, 0x05, 0x03], [0xE8, 0x62, 0x79, 0x65]]

end CppImprovement.Ws

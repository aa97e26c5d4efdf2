import CppImprovement.Net.Ws.Lifecycle
import CppImprovement.Net.Ws.Steady

/-!
# Frames behind the upgrade request

What a session may write on one connection once its request is out: one Close frame,
no frame behind it, and nothing before the server's reply has been accepted. A session
that has written its Close frame is mute, and stays so while it reads; only the
acceptance of the reply takes it back to CONNECTED. The discipline holds in the runs in
which nothing closes between the request and the acceptance.
-/

namespace CppImprovement.Ws

variable {env : Env} {s s' : Session}

/-! ## Frames in the session's past -/

/-- The opcode of the frame whose header the event writes. -/
def Event.frameOpcode : Event → Option WSOpcode
  | .sent false (x :: _) => some (.ofByte (x &&& 0xF))
  | _ => none

/-- The event writes the header of a Close frame. -/
def Event.isClose (e : Event) : Bool := e.frameOpcode = some .close

/-- The event writes the header of a data frame. -/
def Event.isData (e : Event) : Bool := e.frameOpcode.any fun op => !isControlOpcode op

/-- The event is the upgrade request. -/
def Event.isRequest : Event → Bool
  | .request _ => true
  | _ => false

/-- The upgrade request has been written. -/
def Requested (trace : List Event) : Prop := ∃ e ∈ trace, e.isRequest = true

instance : DecidablePred Requested := fun trace => by
  rw [Requested]
  infer_instance

/-- The events behind the upgrade request. -/
def afterRequest : List Event → List Event
  | [] => []
  | e :: es => if e.isRequest then es else afterRequest es

/-- Every write comes after the server's reply has been accepted. -/
def WritesAccepted (es : List Event) : Prop :=
  ∀ past e future, es = past ++ e :: future → e.isSent = true → .onConnect ∈ past

/-- One Close frame at most, no data frame behind it, and no frame before the acceptance. -/
structure Disciplined (es : List Event) : Prop where
  once : es.countP Event.isClose ≤ 1
  last : es.Pairwise fun e e' => e.isClose = true → e'.isData = false
  accepted : WritesAccepted es

/-- No frame follows a Close frame. -/
def Unfollowed (e e' : Event) : Prop := e.isClose = true → e'.frameOpcode = none

private theorem afterRequest_append {trace : List Event} (h : Requested trace) (evs : List Event) :
    afterRequest (trace ++ evs) = afterRequest trace ++ evs := by
  induction trace with
  | nil => simp [Requested] at h
  | cons e es ih =>
    rw [List.cons_append, afterRequest, afterRequest]
    split
    · rfl
    · rename_i he
      refine ih ?_
      obtain ⟨e', hmem, he'⟩ := h
      rcases List.mem_cons.mp hmem with rfl | hmem
      · exact absurd he' he
      · exact ⟨e', hmem, he'⟩

private theorem afterRequest_eq_nil {trace : List Event} (h : ¬ Requested trace) :
    afterRequest trace = [] := by
  induction trace with
  | nil => rfl
  | cons e es ih =>
    rw [afterRequest, if_neg fun he => h ⟨e, List.mem_cons_self, he⟩]
    exact ih fun ⟨e', hmem, he'⟩ => h ⟨e', List.mem_cons_of_mem e hmem, he'⟩

private theorem afterRequest_request {trace : List Event} (h : ¬ Requested trace) (text : Bytes) :
    afterRequest (trace ++ [.request text]) = [] := by
  induction trace with
  | nil => rfl
  | cons e es ih =>
    rw [List.cons_append, afterRequest, if_neg fun he => h ⟨e, List.mem_cons_self, he⟩]
    exact ih fun ⟨e', hmem, he'⟩ => h ⟨e', List.mem_cons_of_mem e hmem, he'⟩

private theorem requested_append {trace evs : List Event} (h : ∀ e ∈ evs, e.isRequest = false) :
    Requested (trace ++ evs) ↔ Requested trace := by
  constructor
  · rintro ⟨e, hmem, he⟩
    rcases List.mem_append.mp hmem with hmem | hmem
    · exact ⟨e, hmem, he⟩
    · exact absurd he (by simp [h e hmem])
  · rintro ⟨e, hmem, he⟩
    exact ⟨e, List.mem_append_left _ hmem, he⟩

/-- Where nothing was written, no write came too early. -/
theorem WritesAccepted.nil : WritesAccepted [] := fun past e future h => by simp at h

/-- Writes behind the announcement come after the reply. -/
theorem WritesAccepted.append {es evs : List Event} (h : WritesAccepted es)
    (he : ∀ e ∈ evs, e.isSent = true → .onConnect ∈ es) : WritesAccepted (es ++ evs) := by
  intro past e future heq hsent
  rcases List.append_eq_append_iff.mp heq with ⟨mid, rfl, hevs⟩ | ⟨mid, rfl, hmid⟩
  · exact List.mem_append_left _ (he e (by simp [hevs]) hsent)
  · cases mid with
    | nil =>
      have hevs : evs = e :: future := hmid.symm
      have hmem := he e (by simp [hevs]) hsent
      rwa [List.append_nil] at hmem
    | cons e' mid =>
      rw [List.cons_append, List.cons.injEq] at hmid
      obtain ⟨rfl, -⟩ := hmid
      exact h past e mid rfl hsent

private theorem Event.frameOpcode_of_not_sent {e : Event} (h : e.isSent = false) :
    e.frameOpcode = none := by
  cases e with
  | sent noCopy bytes => cases h
  | _ => rfl

private theorem Event.isSent_of_isClose {e : Event} (h : e.isClose = true) : e.isSent = true := by
  by_contra hs
  rw [Event.isClose, Event.frameOpcode_of_not_sent (eq_false_of_ne_true hs)] at h
  cases h

private theorem countP_isClose_le_one {es : List Event} (h : es.Pairwise Unfollowed) :
    es.countP Event.isClose ≤ 1 := by
  induction es with
  | nil => exact Nat.zero_le 1
  | cons e es ih =>
    obtain ⟨hhead, htail⟩ := List.pairwise_cons.mp h
    rw [List.countP_cons]
    split
    · rename_i he
      have hzero : es.countP Event.isClose = 0 :=
        List.countP_eq_zero.mpr fun e' hmem => by simp [Event.isClose, hhead e' hmem he]
      rw [hzero]
    · exact ih htail

private theorem disciplined_of_unfollowed {es : List Event} (h : es.Pairwise Unfollowed)
    (ha : WritesAccepted es) : Disciplined es where
  once := countP_isClose_le_one h
  last := h.imp fun hu hc => by simp [Event.isData, hu hc]
  accepted := ha

/-! ## Writing a frame -/

private theorem frameOpcode_packHeader (h : WSHeader) :
    (Event.sent false (packHeader h).1).frameOpcode = some h.opcode :=
  congrArg some (firstByte_fields h.fin h.rsv1 h.rsv2 h.rsv3 h.opcode).2.2.2.2

private theorem frameOpcode_data (data : Bytes) : (Event.sent true data).frameOpcode = none := rfl

/-- The events are the writes of one frame, as far as they succeeded. -/
def FrameWrites (opcode : WSOpcode) (evs : List Event) : Prop :=
  evs = [] ∨ ∃ hdr, (Event.sent false hdr).frameOpcode = some opcode ∧
    (evs = [.sent false hdr] ∨ ∃ data, evs = [.sent false hdr, .sent true data])

private theorem FrameWrites.isRequest {opcode : WSOpcode} {evs : List Event}
    (h : FrameWrites opcode evs) :
    ∀ e ∈ evs, e.isRequest = false := by
  rcases h with rfl | ⟨hdr, -, rfl | ⟨data, rfl⟩⟩ <;> simp [Event.isRequest]

private theorem FrameWrites.unfollowed {opcode : WSOpcode} {evs : List Event}
    (h : FrameWrites opcode evs) : evs.Pairwise Unfollowed := by
  rcases h with rfl | ⟨hdr, -, rfl | ⟨data, rfl⟩⟩ <;> simp [Unfollowed, Event.frameOpcode]

/-- The header of a frame with another opcode is not among the writes. -/
theorem FrameWrites.frameOpcode_ne {opcode other : WSOpcode} {evs : List Event}
    (h : FrameWrites opcode evs) (hop : opcode ≠ other) :
    ∀ e ∈ evs, e.frameOpcode ≠ some other := by
  rcases h with rfl | ⟨hdr, hhdr, rfl | ⟨data, rfl⟩⟩
  · simp
  · simp [hhdr, hop]
  · simp [hhdr, hop, frameOpcode_data]

/-- Only the header and the session's past have changed, by the writes of at most one frame. -/
def Writes (opcode : WSOpcode) (s s' : Session) : Prop :=
  ∃ h io evs, s' = { s with wsHeader := h, io := io } ∧ io.trace = s.io.trace ++ evs ∧
    FrameWrites opcode evs ∧ (evs ≠ [] → s.bev ≠ none)

private theorem writes_nothing (opcode : WSOpcode) {h : WSHeader} {io : Outside}
    (hio : io.trace = s.io.trace) : Writes opcode s { s with wsHeader := h, io := io } :=
  ⟨h, io, [], rfl, by rw [hio, List.append_nil], Or.inl rfl, fun hn => absurd rfl hn⟩

private theorem wp_sendData_writes (msg : Bytes) (noCopy : Bool) (s : Session) :
    wp (sendData env msg noCopy)
      (fun rc s' => ∃ io, s' = { s with io := io } ∧
        (rc ≠ 0 ∧ io.trace = s.io.trace ∨
          s.bev ≠ none ∧ io.trace = s.io.trace ++ [.sent noCopy msg]))
      (fun _ _ => False) s := by
  simp only [sendData, callFails, emit, wp_bind, wp_get, wp_ite, wp_modify, wp_modifyGet, wp_pure]
  split
  · exact ⟨s.io, rfl, Or.inl ⟨by decide, rfl⟩⟩
  · rename_i hb
    split
    · exact ⟨_, rfl, Or.inl ⟨by decide, rfl⟩⟩
    · exact ⟨_, rfl, Or.inr ⟨hb, rfl⟩⟩

/-- A mask is drawn, and nothing is written. -/
theorem wp_getRandomMask_writes (len : Nat) (s : Session) :
    wp (getRandomMask env len)
      (fun _ s' => ∃ io, s' = { s with io := io } ∧ io.trace = s.io.trace)
      (fun _ _ => False) s := by
  simp only [getRandomMask, callFails, wp_bind, wp_ite, wp_modifyGet, wp_pure]
  split
  · exact ⟨_, rfl, rfl⟩
  · exact ⟨_, rfl, rfl⟩

/-- `SendFrameRaw` writes at most one frame, and never traps. -/
theorem wp_sendFrameRaw_writes (opcode : WSOpcode) (data : Bytes) (s : Session) :
    wp (sendFrameRaw env opcode data) (fun _ => Writes opcode s) (fun _ _ => False) s := by
  rw [sendFrameRaw, wp_bind, wp_get, wp_ite]
  split
  · exact writes_nothing opcode rfl
  rw [wp_ite]
  split
  · exact writes_nothing opcode rfl
  rw [wp_bind, wp_modify, wp_ite]
  split
  · exact writes_nothing opcode rfl
  rw [wp_bind, wp_modify, wp_bind]
  refine wp_mono (wp_getRandomMask_writes 4 _) (fun key u hu => ?_) fun _ _ hu => hu
  obtain ⟨io, rfl, hio⟩ := hu
  cases key with
  | none => exact writes_nothing opcode hio
  | some key =>
    rw [wp_bind, wp_modify, wp_bind, wp_get, wp_bind]
    refine wp_mono (wp_sendData_writes _ false _) (fun rc v hv => ?_) fun _ _ hv => hv
    obtain ⟨io₁, rfl, ⟨hrc, hio₁⟩ | ⟨hb, hio₁⟩⟩ := hv
    · rw [if_pos hrc]
      exact writes_nothing opcode (hio₁.trans hio)
    · have hhdr : ∃ hdr, (Event.sent false hdr).frameOpcode = some opcode ∧
          io₁.trace = s.io.trace ++ [.sent false hdr] := by
        refine ⟨_, ?_, hio₁.trans (congrArg (· ++ _) hio)⟩
        exact frameOpcode_packHeader _
      obtain ⟨hdr, hhdr, htr₁⟩ := hhdr
      have hwrites : ∀ {io' : Outside} {h : WSHeader} {evs : List Event},
          io'.trace = io₁.trace ++ evs → (evs = [] ∨ ∃ data, evs = [.sent true data]) →
          Writes opcode s { s with wsHeader := h, io := io' } := by
        intro io' h evs htr hevs
        refine ⟨h, io', .sent false hdr :: evs, rfl, ?_, Or.inr ⟨hdr, hhdr, ?_⟩, fun _ => hb⟩
        · rw [htr, htr₁, List.append_assoc, List.singleton_append]
        · rcases hevs with rfl | ⟨data, rfl⟩
          · exact Or.inl rfl
          · exact Or.inr ⟨data, rfl⟩
      rw [wp_ite]
      split
      · exact hwrites (List.append_nil _).symm (Or.inl rfl)
      · rw [wp_bind]
        refine wp_mono (wp_sendData_writes _ true _) (fun rc' w hw => ?_) fun _ _ hw => hw
        obtain ⟨io₂, rfl, hio₂⟩ := hw
        have hsecond : ∃ evs, io₂.trace = io₁.trace ++ evs ∧
            (evs = [] ∨ ∃ data, evs = [.sent true data]) := by
          rcases hio₂ with ⟨-, hio₂⟩ | ⟨-, hio₂⟩
          · exact ⟨[], by rw [hio₂, List.append_nil], Or.inl rfl⟩
          · exact ⟨_, hio₂, Or.inr ⟨_, rfl⟩⟩
        obtain ⟨evs, htr, hevs⟩ := hsecond
        rw [wp_ite]
        split
        · exact hwrites htr hevs
        · exact hwrites htr hevs

/-- `SendClose` writes at most one Close frame, and never traps. -/
theorem wp_sendClose_writes (status : WSCloseStatus) (reason : Bytes) (s : Session) :
    wp (sendClose env status reason) (fun _ => Writes .close s) (fun _ _ => False) s := by
  rw [sendClose, wp_ite]
  split
  · exact writes_nothing _ rfl
  · rw [wp_ite]
    split
    · exact writes_nothing _ rfl
    · rw [wp_bind]
      refine wp_mono (wp_sendFrameRaw_writes _ _ s) (fun r u hu => ?_) fun _ _ hu => hu
      rw [wp_ite]
      split
      · exact hu
      · exact hu

/-- A message leaves by one text frame, from a CONNECTED session. -/
theorem wp_doSendMsg_writes (msg : Bytes) (s : Session) :
    wp (doSendMsg env msg) (fun _ s' => s.cl.state = .connected ∧ Writes .text s s')
      (fun _ s' => s' = s) s := by
  rw [doSendMsg, sendMsgEx, wp_bind, wp_get, wp_ite]
  split
  · rfl
  · rename_i hc
    rw [not_not] at hc
    rw [wp_ite]
    split
    · exact wp_mono (wp_sendFrameRaw_writes _ msg s) (fun _ _ hu => ⟨hc, hu⟩) fun _ _ hu => hu.elim
    · rw [wp_bind, wp_of_eq_error (onSendMsgBegin_connected hc false)]

/-! ## Progress -/

/-- The session writes no more: it is closing, and its Close frame or its bufferevent is gone. -/
def Session.Mute (s : Session) : Prop :=
  s.cl.state = .closing ∧ (s.cl.sentCloseFlag = true ∨ s.bev = none)

/-- Between `s` and `s'` no request was written, no frame followed a Close frame, a mute session
wrote nothing, and a Close frame left a mute session. -/
def Talks (s s' : Session) : Prop :=
  ∃ evs, s'.io.trace = s.io.trace ++ evs ∧ (∀ e ∈ evs, e.isRequest = false) ∧
    evs.Pairwise Unfollowed ∧ (s.Mute → s'.Mute ∧ ∀ e ∈ evs, e.isSent = false) ∧
      ((∃ e ∈ evs, e.isClose = true) → s'.Mute)

/-- Nothing was written, and the session is as mute as it was. -/
theorem Talks.of_silent (ht : s'.io.trace = s.io.trace) (hm : s.Mute → s'.Mute) : Talks s s' :=
  ⟨[], by rw [ht, List.append_nil], by simp, .nil, fun h => ⟨hm h, by simp⟩, by simp⟩

/-- Saying nothing breaks no rule. -/
theorem Talks.refl (s : Session) : Talks s s := .of_silent rfl id

/-- Talk after talk keeps the rules. -/
theorem Talks.trans (a b c : Session) (h : Talks a b) (h' : Talks b c) : Talks a c := by
  obtain ⟨evs, he, hr, hp, hm, hc⟩ := h
  obtain ⟨evs', he', hr', hp', hm', hc'⟩ := h'
  refine ⟨evs ++ evs', by rw [he', he, List.append_assoc], ?_, ?_, fun ha => ?_, ?_⟩
  · exact List.forall_mem_append.mpr ⟨hr, hr'⟩
  · refine List.pairwise_append.mpr ⟨hp, hp', fun e hmem e' hmem' hclose => ?_⟩
    exact Event.frameOpcode_of_not_sent ((hm' (hc ⟨e, hmem, hclose⟩)).2 e' hmem')
  · obtain ⟨hb, hn⟩ := hm ha
    exact ⟨(hm' hb).1, List.forall_mem_append.mpr ⟨hn, (hm' hb).2⟩⟩
  · rintro ⟨e, hmem, hclose⟩
    rcases List.mem_append.mp hmem with hmem | hmem
    · exact (hm' (hc ⟨e, hmem, hclose⟩)).1
    · exact hc' ⟨e, hmem, hclose⟩

/-- Closing leaves a mute session, and writes only on a connection without a Close frame. -/
theorem wp_closeWithStatusReason_mute (status : WSCloseStatus) (reason : Bytes) (s : Session) :
    wp (closeWithStatusReason env status reason)
      (fun _ s' => s'.Mute ∧ (s.bev = none → s'.bev = none) ∧
        ∃ evs, s'.io.trace = s.io.trace ++ evs ∧ FrameWrites .close evs ∧
          (evs ≠ [] → s.cl.sentCloseFlag = false ∧ s.bev ≠ none)) (fun _ _ => False) s := by
  have hsend : wp (sendCloseOnce env status reason)
      (fun _ u => Writes .close { s with cl.state := .closing } u ∧
        (s.cl.sentCloseFlag = true → u.io.trace = s.io.trace)) (fun _ _ => False)
      { s with cl.state := .closing } := by
    rw [sendCloseOnce, wp_bind, wp_get, wp_ite]
    split
    · exact ⟨writes_nothing _ rfl, fun _ => rfl⟩
    · rename_i hsent
      exact wp_mono (wp_sendClose_writes status reason _)
        (fun _ _ hu => ⟨hu, fun h => absurd h hsent⟩) fun _ _ hu => hu
  rw [closeWithStatusReason, wp_bind, wp_modify, wp_bind]
  refine wp_mono hsend (fun rc u hu => ?_) fun _ _ hu => hu
  obtain ⟨⟨h, io, evs, rfl, htr, hw, hne⟩, hsent⟩ := hu
  have hevs : ∃ evs, io.trace = s.io.trace ++ evs ∧ FrameWrites .close evs ∧
      (evs ≠ [] → s.cl.sentCloseFlag = false ∧ s.bev ≠ none) := by
    refine ⟨evs, htr, hw, fun hn => ⟨eq_false_of_ne_true fun hs => hn ?_, hne hn⟩⟩
    exact List.append_right_eq_self.mp (htr.symm.trans (hsent hs))
  rw [wp_ite]
  split
  · exact ⟨⟨rfl, Or.inr rfl⟩, fun _ => rfl, hevs⟩
  · simp only [closeFail, shutDown, wp_bind, wp_modify, callFails, wp_modifyGet, wp_ite, wp_pure]
    split
    · exact ⟨⟨rfl, Or.inl rfl⟩, fun _ => trivial, hevs⟩
    · split
      · exact ⟨⟨rfl, Or.inl rfl⟩, fun _ => trivial, hevs⟩
      · exact ⟨⟨rfl, Or.inl rfl⟩, id, hevs⟩

private theorem talks_closeWithStatusReason (status : WSCloseStatus) (reason : Bytes)
    (s : Session) :
    Moves Talks AnyTrap (closeWithStatusReason env status reason) s := by
  refine wp_mono (wp_closeWithStatusReason_mute status reason s) (fun _ u hu => ?_)
    fun _ _ hu => hu.elim
  obtain ⟨hmute, -, evs, htr, hw, hne⟩ := hu
  refine ⟨evs, htr, hw.isRequest, hw.unfollowed, fun hs => ⟨hmute, ?_⟩, fun _ => hmute⟩
  have hnil : evs = [] := by
    by_contra hn
    obtain ⟨hsent, hb⟩ := hne hn
    exact hs.2.elim (fun h => absurd (hsent.symm.trans h) (by decide)) hb
  simp [hnil]

private theorem talks_handleCloseFrame (s : Session) :
    Moves Talks AnyTrap (handleCloseFrame env) s :=
  moves_handleCloseFrame Talks.refl Talks.trans (fun _ => .of_silent rfl fun h => ⟨rfl, h.2⟩)
    (fun _ _ _ _ hst hsent => .of_silent rfl fun h =>
      ⟨hst.trans h.1, h.2.imp_left fun hc => hsent.trans hc⟩)
    talks_closeWithStatusReason s

private theorem Writes.talks {opcode : WSOpcode} (h : Writes opcode s s') (hop : opcode ≠ .close)
    (hm : ¬ s.Mute) : Talks s s' := by
  obtain ⟨h', io, evs, rfl, htr, hw, -⟩ := h
  refine ⟨evs, htr, hw.isRequest, hw.unfollowed, fun hs => absurd hs hm, ?_⟩
  rintro ⟨e, hmem, hclose⟩
  exact absurd (of_decide_eq_true hclose) (hw.frameOpcode_ne hop e hmem)

private theorem Session.Mute.not_connected (h : s.Mute) : s.cl.state ≠ .connected := by simp [h.1]

private theorem talks_runCall (call : AppCall) (s : Session) :
    Moves Talks AnyTrap (runCall env call) s := by
  cases call with
  | send msg =>
    refine moves_bind Talks.trans ?_ fun _ _ _ => moves_pure Talks.refl _ _
    refine wp_mono (wp_doSendMsg_writes msg s) (fun _ u hu => ?_) fun _ u hu => ?_
    · exact hu.2.talks (by decide) fun hm => hm.not_connected hu.1
    · cases hu
      exact ⟨Talks.refl s, trivial⟩
  | close =>
    exact moves_bind Talks.trans (talks_closeWithStatusReason _ _ s) fun _ _ _ =>
      moves_pure Talks.refl _ _
  | connect =>
    refine moves_bind Talks.trans (moves_get_bind ?_) fun _ _ _ => moves_pure Talks.refl _ _
    refine moves_ite (fun _ => moves_pure Talks.refl _ _) fun hn => ?_
    have hopened : ∀ u : Session, u.io.trace = s.io.trace ++ [.opened] → Talks s u := by
      refine fun u hu => ⟨[.opened], hu, by simp [Event.isRequest], by simp, fun hm => ?_, ?_⟩
      · exact absurd ⟨by simp [hm.1], by simp [hm.1]⟩ hn
      · simp [Event.isClose, Event.frameOpcode]
    simp only [Moves, setupConnectionTimeout, callFails, emit, wp_bind, wp_modify, wp_modifyGet,
      wp_ite, wp_pure]
    repeat' split
    all_goals exact hopened _ rfl

private theorem talks_rules (env : Env) : Rules env Talks where
  refl := Talks.refl
  trans := Talks.trans
  turns := fun s s' h => .of_silent h.trace fun hm => by
    rw [Session.Mute, h.cl, h.bev_iff]
    exact hm
  close := talks_closeWithStatusReason
  closeFrame := talks_handleCloseFrame
  message := fun p s hc => ⟨[_], rfl, by simp [Event.isRequest], by simp,
    fun hm => absurd hm.1 hc, by simp [Event.isClose, Event.frameOpcode]⟩
  call := talks_runCall

/-! ## The connection between two inputs -/

/-- The server's reply has been accepted. -/
def Session.Complete (s : Session) : Prop := s.hs.connectState = .handshakeComplete

instance : DecidablePred Session.Complete := fun s => by
  rw [Session.Complete]
  infer_instance

/-- What one connection keeps. -/
structure Session.Proper (s : Session) : Prop where
  unfollowed : (afterRequest s.io.trace).Pairwise Unfollowed
  accepted : WritesAccepted (afterRequest s.io.trace)
  live : s.bev ≠ none → ¬ s.Closed
  unrequested : ∀ b, s.bev = some b → b.readEnabled = false →
    ¬ Requested s.io.trace ∧ ¬ s.Complete
  complete : s.bev ≠ none → s.Complete → Requested s.io.trace →
    .onConnect ∈ afterRequest s.io.trace
  incomplete : s.bev ≠ none → ¬ s.Complete →
    s.cl.state ≠ .connected ∧ (s.cl.sentCloseFlag = true → s.cl.state = .closing)
  closed : (∃ e ∈ afterRequest s.io.trace, e.isClose = true) →
    s.bev = none ∨ s.Mute ∧ s.Complete

namespace Session.Proper

private theorem disciplined (h : s.Proper) : Disciplined (afterRequest s.io.trace) :=
  disciplined_of_unfollowed h.unfollowed h.accepted

/-- Without a bufferevent there is nothing to keep but the past. -/
theorem of_none (h : s.Proper) (ht : s'.io.trace = s.io.trace) (hb : s'.bev = none) :
    s'.Proper where
  unfollowed := by
    rw [ht]
    exact h.unfollowed
  accepted := by
    rw [ht]
    exact h.accepted
  live := fun hn => absurd hb hn
  unrequested := fun b hb' => absurd (hb.symm.trans hb') (by simp)
  complete := fun hn => absurd hb hn
  incomplete := fun hn => absurd hb hn
  closed := fun _ => Or.inl hb

/-- Nothing is behind the request. -/
theorem of_nil (hes : afterRequest s.io.trace = []) (hlive : s.bev ≠ none → ¬ s.Closed)
    (hunreq : ∀ b, s.bev = some b → b.readEnabled = false →
      ¬ Requested s.io.trace ∧ ¬ s.Complete)
    (hcom : s.bev ≠ none → s.Complete → ¬ Requested s.io.trace)
    (hinc : s.bev ≠ none → ¬ s.Complete →
      s.cl.state ≠ .connected ∧ (s.cl.sentCloseFlag = true → s.cl.state = .closing)) :
    s.Proper := by
  refine ⟨?_, ?_, hlive, hunreq, fun hb hc hr => absurd hr (hcom hb hc), hinc, ?_⟩
  · rw [hes]
    exact .nil
  · rw [hes]
    exact .nil
  · simp [hes]

/-- Traffic is proper when the session is mute, or the reply was accepted, or there is no
request. -/
theorem talks (h : s.Proper) (hb : s.bev ≠ none) (hst : Steady False s s') (ht : Talks s s')
    (hc : s.Mute ∨ s.Complete ∨ ¬ Requested s.io.trace) : s'.Proper := by
  obtain ⟨evs, htr, hreq, hp, hmute, hclose⟩ := ht
  have hcomplete : s'.Complete ↔ s.Complete := by rw [Session.Complete, hst.hs, Session.Complete]
  have hreq' : Requested s'.io.trace ↔ Requested s.io.trace := by
    rw [htr, requested_append hreq]
  have hunreq : ∀ b, s'.bev = some b → b.readEnabled = false →
      ¬ Requested s'.io.trace ∧ ¬ s'.Complete := by
    intro b' hb' hread
    obtain ⟨b, hb, hrb, -⟩ := hst.bev b' hb'
    rw [hreq', hcomplete]
    exact h.unrequested b hb (hrb.symm.trans hread)
  have hinc : s'.bev ≠ none → ¬ s'.Complete →
      s'.cl.state ≠ .connected ∧ (s'.cl.sentCloseFlag = true → s'.cl.state = .closing) := by
    intro _ hn
    rcases hst.life with hl | hl
    · rw [hl]
      exact h.incomplete hb (mt hcomplete.mpr hn)
    · exact ⟨by simp [hl], fun _ => hl⟩
  by_cases hr : Requested s.io.trace
  · have hes : afterRequest s'.io.trace = afterRequest s.io.trace ++ evs := by
      rw [htr, afterRequest_append hr]
    have hsent : ∀ e ∈ evs, e.isSent = true → s.Complete := by
      intro e hmem he
      rcases hc with hm | hc | hn
      · exact absurd ((hmute hm).2 e hmem) (by simp [he])
      · exact hc
      · exact absurd hr hn
    refine ⟨?_, ?_, fun _ => hst.live, hunreq, fun _ hc' _ => ?_, hinc, ?_⟩
    · rw [hes]
      refine List.pairwise_append.mpr ⟨h.unfollowed, hp, fun e hmem e' hmem' he => ?_⟩
      obtain ⟨hm, -⟩ := (h.closed ⟨e, hmem, he⟩).resolve_left hb
      exact Event.frameOpcode_of_not_sent ((hmute hm).2 e' hmem')
    · rw [hes]
      exact h.accepted.append fun e hmem he => h.complete hb (hsent e hmem he) hr
    · rw [hes]
      exact List.mem_append_left _ (h.complete hb (hcomplete.mp hc') hr)
    · rw [hes, hcomplete]
      rintro ⟨e, hmem, he⟩
      rcases List.mem_append.mp hmem with hmem | hmem
      · obtain ⟨hm, hcom⟩ := (h.closed ⟨e, hmem, he⟩).resolve_left hb
        exact Or.inr ⟨(hmute hm).1, hcom⟩
      · exact Or.inr ⟨hclose ⟨e, hmem, he⟩, hsent e hmem (Event.isSent_of_isClose he)⟩
  · have hes : afterRequest s'.io.trace = [] := afterRequest_eq_nil (by rwa [hreq'])
    exact .of_nil hes (fun _ => hst.live) hunreq (fun _ _ hr' => hr (hreq'.mp hr')) hinc

/-- A change of nothing that the invariant speaks of. -/
theorem of_same (h : s.Proper) (hcl : s'.cl.state = s.cl.state ∧
    s'.cl.sentCloseFlag = s.cl.sentCloseFlag) (ht : s'.io.trace = s.io.trace)
    (hs : s'.Complete ↔ s.Complete) {b b' : Bufferevent} (hb : s.bev = some b)
    (hb' : s'.bev = some b') (hr : b'.readEnabled = true) : s'.Proper := by
  have hne : s.bev ≠ none := by simp [hb]
  have hne' : s'.bev ≠ none := by simp [hb']
  refine ⟨?_, ?_, fun _ => ?_, ?_, fun _ hc hreq => ?_, fun _ hc => ?_, fun hex => Or.inr ?_⟩
  · rw [ht]
    exact h.unfollowed
  · rw [ht]
    exact h.accepted
  · rw [Session.Closed, hcl.1]
    exact h.live hne
  · intro b₁ hb₁ hread
    cases hb'.symm.trans hb₁
    exact absurd (hr.symm.trans hread) (by decide)
  · rw [ht] at hreq ⊢
    exact h.complete hne (hs.mp hc) hreq
  · rw [hcl.1, hcl.2]
    exact h.incomplete hne (mt hs.mpr hc)
  · rw [ht] at hex
    obtain ⟨hm, hc⟩ := (h.closed hex).resolve_left hne
    refine ⟨?_, hs.mpr hc⟩
    rw [Session.Mute, hcl.1, hcl.2]
    exact ⟨hm.1, Or.inl (hm.2.resolve_right hne)⟩

/-- The acceptance of the server's reply. -/
theorem announced (h : s.Proper) (hb : s.bev ≠ none) (hn : ¬ s.Complete)
    (hst : s'.cl.state = .connected) (ht : s'.io.trace = s.io.trace ++ [.onConnect])
    (hs : s'.Complete) (hr : ∀ b', s'.bev = some b' → b'.readEnabled = true) : s'.Proper := by
  have hreq : Requested s'.io.trace ↔ Requested s.io.trace := by
    rw [ht, requested_append (by simp [Event.isRequest])]
  have hnone : ¬ ∃ e ∈ afterRequest s.io.trace, e.isClose = true := fun hex =>
    (h.closed hex).elim hb fun hm => hn hm.2
  have hlive : ¬ s'.Closed := by simp [Session.Closed, hst]
  have hread : ∀ b', s'.bev = some b' → b'.readEnabled = false →
      ¬ Requested s'.io.trace ∧ ¬ s'.Complete := fun b' hb' hf =>
    absurd ((hr b' hb').symm.trans hf) (by decide)
  by_cases hrq : Requested s.io.trace
  · have hes : afterRequest s'.io.trace = afterRequest s.io.trace ++ [.onConnect] := by
      rw [ht, afterRequest_append hrq]
    refine ⟨?_, ?_, fun _ => hlive, hread, fun _ _ _ => ?_, fun _ hc => absurd hs hc, ?_⟩
    · rw [hes]
      refine List.pairwise_append.mpr ⟨h.unfollowed, by simp, fun e hmem e' _ he => ?_⟩
      exact absurd ⟨e, hmem, he⟩ hnone
    · rw [hes]
      exact h.accepted.append (by simp [Event.isSent])
    · simp [hes]
    · rw [hes]
      rintro ⟨e, hmem, he⟩
      rcases List.mem_append.mp hmem with hmem | hmem
      · exact absurd ⟨e, hmem, he⟩ hnone
      · rw [List.mem_singleton.mp hmem] at he
        cases he
  · have hes : afterRequest s'.io.trace = [] := afterRequest_eq_nil (by rwa [hreq])
    exact .of_nil hes (fun _ => hlive) hread (fun _ _ hr' => hrq (hreq.mp hr'))
      fun _ hc => absurd hs hc

end Session.Proper

/-! ## Steps -/

/-- No second connection is opened. -/
def OneConnection : Input → Session → Prop
  | .connect, s => ¬ s.Closed
  | _, _ => True

/-- Nothing is left to hold back: a Close frame was sent, or the server's reply was accepted, or
the request is not out, or the bufferevent is gone. -/
def Session.MayClose (s : Session) : Prop :=
  s.cl.sentCloseFlag = true ∨ s.Complete ∨ ¬ Requested s.io.trace ∨ s.bev = none

/-- Between the request and the acceptance of the reply the application does not close, and the
stream does not end within the reply. -/
def Patient : Input → Session → Prop
  | .close, s => s.MayClose
  | .eof, s => s.MayClose ∨ ∀ b ∈ s.bev, b.input = []
  | _, _ => True

instance : DecidablePred Session.MayClose := fun s => by
  rw [Session.MayClose]
  infer_instance

instance : ∀ i s, Decidable (OneConnection i s)
  | .connect, s => inferInstanceAs
      (Decidable (¬ (s.cl.state = .closedCleanly ∨ s.cl.state = .closedUncleanly)))
  | .close, _ | .send _, _ | .connected, _ | .read _, _ | .eof, _ | .error, _
  | .closeTimeout, _ | .connectTimeout, _ => isTrue trivial

instance : ∀ i s, Decidable (Patient i s)
  | .close, s => inferInstanceAs (Decidable s.MayClose)
  | .eof, s => inferInstanceAs (Decidable (s.MayClose ∨ ∀ b ∈ s.bev, b.input = []))
  | .connect, _ | .send _, _ | .connected, _ | .read _, _ | .error, _ | .closeTimeout, _
  | .connectTimeout, _ => isTrue trivial

private theorem Session.Proper.mayClose (h : s.Proper) (hb : s.bev ≠ none) (hs : s.MayClose) :
    s.Mute ∨ s.Complete ∨ ¬ Requested s.io.trace := by
  rcases hs with hs | hs | hs | hs
  · by_cases hc : s.Complete
    · exact Or.inr (Or.inl hc)
    · exact Or.inl ⟨(h.incomplete hb hc).2 hs, Or.inl hs⟩
  · exact Or.inr (Or.inl hs)
  · exact Or.inr (Or.inr hs)
  · exact absurd hs hb

/-- Traffic on the connection. -/
theorem Session.Proper.wp_traffic {α : Type} {m : M α} (h : s.Proper) (hb : s.bev ≠ none)
    (hc : s.Mute ∨ s.Complete ∨ ¬ Requested s.io.trace)
    (hst : Moves (Steadies False) AnyTrap m s) (ht : Moves Talks AnyTrap m s) :
    wp m (fun _ => Session.Proper) (fun _ s' => Disciplined (afterRequest s'.io.trace)) s := by
  refine wp_mono (wp_and hst ht) (fun _ u hu => ?_) fun _ u hu => ?_
  · exact h.talks hb (hu.1 (h.live hb)) hu.2 hc
  · exact (h.talks hb (hu.1.1 (h.live hb)) hu.2.1 hc).disciplined

private theorem wp_close_proper (h : s.Proper) (hs : s.MayClose) :
    wp (runCall env .close) (fun _ => Session.Proper)
      (fun _ s' => Disciplined (afterRequest s'.io.trace)) s := by
  by_cases hb : s.bev = none
  · rw [runCall, wp_bind]
    refine wp_mono (wp_closeWithStatusReason_mute _ _ s) (fun _ u hu => ?_) fun _ _ hu => hu.elim
    obtain ⟨-, hb', evs, htr, -, hne⟩ := hu
    have hnil : evs = [] := by
      by_contra hn
      exact (hne hn).2 hb
    rw [hnil, List.append_nil] at htr
    exact h.of_none htr (hb' hb)
  · exact h.wp_traffic hb (h.mayClose hb hs) (steadies_runCall .close s) (talks_runCall .close s)

private theorem wp_send_proper (h : s.Proper) (msg : Bytes) :
    wp (runCall env (.send msg)) (fun _ => Session.Proper)
      (fun _ s' => Disciplined (afterRequest s'.io.trace)) s := by
  by_cases hb : s.bev = none
  · rw [runCall, wp_bind]
    refine wp_mono (wp_doSendMsg_writes msg s) (fun _ u hu => ?_) fun _ u hu => ?_
    · obtain ⟨-, h', io, evs, rfl, htr, -, hne⟩ := hu
      have hnil : evs = [] := by
        by_contra hn
        exact hne hn hb
      rw [hnil, List.append_nil] at htr
      exact h.of_none htr hb
    · rw [hu]
      exact h.disciplined
  · by_cases hc : s.Complete
    · exact h.wp_traffic hb (Or.inr (Or.inl hc)) (steadies_runCall (.send msg) s)
        (talks_runCall (.send msg) s)
    · have hn : s.cl.state ≠ .connected := (h.incomplete hb hc).1
      rw [runCall, wp_bind, doSendMsg, sendMsgEx, wp_bind, wp_get, wp_ite, if_pos hn]
      exact h.disciplined

private theorem wp_connect_proper (h : s.Proper) (hc : ¬ s.Closed) :
    wp (runCall env .connect) (fun _ => Session.Proper)
      (fun _ s' => Disciplined (afterRequest s'.io.trace)) s := by
  have hst : s.cl.state ≠ .closedCleanly ∧ s.cl.state ≠ .closedUncleanly :=
    ⟨fun h => hc (Or.inl h), fun h => hc (Or.inr h)⟩
  rw [runCall, wp_bind, doConnect, wp_bind, wp_get, wp_ite, if_pos hst]
  exact h

/-- The connection is made. -/
theorem wp_connected_proper (h : s.Proper) :
    wp (step env .connected) (fun _ => Session.Proper)
      (fun _ s' => Disciplined (afterRequest s'.io.trace)) s := by
  rw [step, wp_bind, wp_get]
  split
  · rename_i b hb
    rw [wp_ite]
    split
    · exact h
    · rename_i hr
      have hne : s.bev ≠ none := by simp [hb]
      obtain ⟨hreq, hcom⟩ := h.unrequested b hb (eq_false_of_ne_true hr)
      have hsame : ∀ u : Session, u.cl = s.cl → u.io.trace = s.io.trace →
          u.hs.connectState = s.hs.connectState →
          u.bev = some { b with readEnabled := true } → u.Proper := fun u hcl ht hhs hu =>
        h.of_same ⟨by rw [hcl], by rw [hcl]⟩ ht (by rw [Session.Complete, hhs, Session.Complete])
          hb hu rfl
      have hasked : ∀ (u : Session) (text : Bytes), u.cl = s.cl →
          u.io.trace = s.io.trace ++ [.request text] → u.hs.connectState = .sentReq →
          u.bev = some { b with readEnabled := true } → u.Proper := by
        intro u text hcl ht hhs hu
        have hn : ¬ u.Complete := by simp [Session.Complete, hhs]
        refine .of_nil (by rw [ht, afterRequest_request hreq]) (fun _ => ?_) ?_
          (fun _ hc => absurd hc hn) fun _ _ => ?_
        · rw [Session.Closed, hcl]
          exact h.live hne
        · rw [hu]
          rintro _ ⟨⟩ hf
          cases hf
        · rw [hcl]
          exact h.incomplete hne hcom
      simp only [onConnectEvent, sendHandshake, generateHandshakeKey, getRandomMask, callFails,
        emit, wp_bind, wp_modify, wp_modifyGet, wp_get, wp_ite, wp_pure]
      have hbev : s.bev.map (fun b => { b with readEnabled := true }) =
          some { b with readEnabled := true } := by rw [hb]; rfl
      repeat' split
      all_goals first
        | exact hsame _ rfl rfl rfl hbev
        | exact hasked _ _ rfl rfl rfl hbev
  · exact h

/-- Bytes arrive. -/
theorem wp_onRead_proper (h : s.Proper) {b : Bufferevent} (hb : s.bev = some b)
    (hr : b.readEnabled = true) :
    wp (onRead env) (fun _ => Session.Proper)
      (fun _ s' => Disciplined (afterRequest s'.io.trace)) s := by
  have hne : s.bev ≠ none := by simp [hb]
  rw [onRead, wp_bind, wp_get]
  simp only [hb]
  rw [wp_ite]
  split
  · rename_i hn
    have hagrees := readServerHandshakeReply_agrees env.sha1 s.hs b.input
    generalize readServerHandshakeReply env.sha1 s.hs b.input = r at hagrees
    rw [wp_bind, wp_modify]
    split
    · rw [wp_bind, shutDown, wp_modify, readWebsocket, wp_bind, wp_get]
      exact h.disciplined
    · rename_i hres
      rw [wp_pure]
      exact h.of_same ⟨rfl, rfl⟩ rfl (iff_of_false (hagrees.needMore hres) hn) hb rfl hr
    · rename_i hres
      rw [wp_bind, wp_modify, wp_bind, callOnConnect, wp_bind, emit, wp_modify, wp_bind, wp_get]
      have hp : Session.Proper { s with
          hs := r.2.1, bev := some { b with input := r.2.2 }, cl.state := .connected
          io.trace := s.io.trace ++ [.onConnect] } := by
        refine h.announced hne hn rfl rfl (hagrees.success hres) fun b' hb' => ?_
        cases hb'
        exact hr
      have htraffic := hp.wp_traffic (by simp) (Or.inr (Or.inl (hagrees.success hres)))
        (moves_bind Steadies.trans
          ((steadies_rules env).onConnectCalls (s.io.trace ++ [.onConnect]) _)
          fun _ u _ => (steadies_rules env).readWebsocket u)
        (moves_bind Talks.trans ((talks_rules env).onConnectCalls (s.io.trace ++ [.onConnect]) _)
          fun _ u _ => (talks_rules env).readWebsocket u)
      rw [wp_bind] at htraffic
      exact htraffic
    · rename_i hres
      exact absurd hres hagrees.ne_userAbort
  · rename_i hc
    exact h.wp_traffic hne (Or.inr (Or.inl (not_not.mp hc))) ((steadies_rules env).readWebsocket s)
      ((talks_rules env).readWebsocket s)

/-- The stream ends. -/
theorem wp_onEofEvent_proper (h : s.Proper) (hp : s.MayClose ∨ ∀ b ∈ s.bev, b.input = []) :
    wp (onEofEvent env) (fun _ => Session.Proper)
      (fun _ s' => Disciplined (afterRequest s'.io.trace)) s := by
  rw [onEofEvent, wp_bind, wp_get]
  split
  · exact h
  · rename_i b hb
    have hne : s.bev ≠ none := by simp [hb]
    have hleft : wp (readLeftover env b.input) (fun _ => Session.Proper)
        (fun _ s' => Disciplined (afterRequest s'.io.trace)) s := by
      rw [readLeftover, wp_ite]
      split
      · exact h
      · rename_i hi
        have hmay : s.MayClose := hp.resolve_right fun hall => hi (hall b hb)
        exact h.wp_traffic hne (h.mayClose hne hmay) ((steadies_rules env).readWebsocket s)
          ((talks_rules env).readWebsocket s)
    rw [wp_bind]
    refine wp_mono hleft (fun _ u hu => ?_) fun _ _ hu => hu
    rw [wp_ended]
    exact hu.of_none rfl rfl

/-- Every input keeps the connection proper. -/
theorem wp_step_proper (h : s.Proper) {i : Input} (hone : OneConnection i s) (hp : Patient i s) :
    wp (step env i) (fun _ => Session.Proper)
      (fun _ s' => Disciplined (afterRequest s'.io.trace)) s := by
  cases i with
  | connect => exact wp_connect_proper h hone
  | close => exact wp_close_proper h hp
  | send msg => exact wp_send_proper h msg
  | connected => exact wp_connected_proper h
  | read bytes =>
    rw [step, wp_bind, wp_get]
    split
    · rename_i b hb
      rw [wp_ite]
      split
      · rename_i hr
        rw [wp_bind, wp_modify]
        exact wp_onRead_proper (h.of_same ⟨rfl, rfl⟩ rfl Iff.rfl hb rfl hr) rfl hr
      · exact h
    · exact h
  | eof =>
    rw [step, wp_bind, wp_get]
    split
    · rw [wp_ite]
      split
      · exact wp_onEofEvent_proper h hp
      · exact h
    · exact h
  | error => exact h
  | closeTimeout =>
    simp only [step, onCloseTimeout, shutDown, wp_bind, wp_get, wp_ite, wp_modify, wp_pure,
      wp_throw]
    split
    · split
      · exact h.disciplined
      · exact h.of_none rfl rfl
    · exact h
  | connectTimeout => exact h

/-- The connection that `DoConnect` has opened on a new session. -/
theorem proper_connected (h : step env .connect Session.initialised = .ok ⟨⟩ s) : s.Proper := by
  have hopen : ∀ u : Session, u.io.trace = [.opened] → u.hs = {} → u.cl.state = .connecting →
      u.cl.sentCloseFlag = false → u.Proper := by
    intro u ht hhs hst hsent
    have hn : ¬ u.Complete := by simp [Session.Complete, hhs]
    have hr : ¬ Requested u.io.trace := by simp [Requested, ht, Event.isRequest]
    refine .of_nil (afterRequest_eq_nil hr) (fun _ => by simp [Session.Closed, hst])
      (fun _ _ _ => ⟨hr, hn⟩) (fun _ hc => absurd hc hn) fun _ _ => ⟨by simp [hst], ?_⟩
    exact fun hs => absurd (hsent.symm.trans hs) (by decide)
  have hwp : wp (step env .connect) (fun _ => Session.Proper) (fun _ _ => False)
      Session.initialised := by
    rw [step, runCall, wp_bind, doConnect, wp_bind, wp_get, wp_ite, if_neg (by decide)]
    simp only [setupConnectionTimeout, callFails, emit, wp_bind, wp_modify, wp_modifyGet, wp_ite,
      wp_pure]
    repeat' split
    all_goals exact hopen _ rfl rfl rfl rfl
  rw [wp, h] at hwp
  exact hwp

/-- In every run of one connection in which nothing closes between the request and the acceptance
of the server's reply, the frames behind the request are disciplined. -/
theorem disciplined_of_patient (h : step env .connect Session.initialised = .ok ⟨⟩ s)
    {inputs : List Input} (hone : Along OneConnection (step env) inputs s)
    (hp : Along Patient (step env) inputs s) :
    Disciplined (afterRequest (finalState (run env inputs s)).io.trace) := by
  have hrun := wp_runAll (fun i u hu hc => wp_step_proper hu hc.1 hc.2) (proper_connected h)
    (hone.and hp)
  exact wp_final.mp (wp_mono hrun (fun _ _ hu => hu.disciplined) fun _ _ hu => hu)

/-- A new session with its connection opened. -/
def afterConnect : Session := finalState (step {} .connect Session.initialised)

/-- A message and a Close frame behind the server's reply. -/
theorem disciplined_of_patient_sample :
    ((afterRequest (finalState (run {} [.connected, .read plainReply, .send [0x41], .close]
      afterConnect)).io.trace).map Event.frameOpcode).reduceOption = [.text, .close] ∧
    Disciplined (afterRequest (finalState (run {} [.connected, .read plainReply, .send [0x41],
      .close] afterConnect)).io.trace) :=
  ⟨by decide +kernel, disciplined_of_patient rfl (by decide +kernel) (by decide +kernel)⟩

/-- The application closes before the server has replied, and a message follows the Close frame. -/
theorem data_after_early_close :
    ¬ ∀ (env : Env) (s : Session) (inputs : List Input), env.NoFault →
      step env .connect Session.initialised = .ok ⟨⟩ s → .connect ∉ inputs →
      Disciplined (afterRequest (finalState (run env inputs s)).io.trace) := by
  intro h
  have hlast := (h {} afterConnect [.connected, .close, .read plainReply, .send [0x41]]
    (fun _ => rfl) rfl (by decide)).last
  exact absurd hlast (by decide +kernel)

end CppImprovement.Ws

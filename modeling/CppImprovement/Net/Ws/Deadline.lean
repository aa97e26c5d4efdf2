import CppImprovement.Net.Ws.Lifecycle
import CppImprovement.Net.Ws.Steady

/-!
# The deadline of a closing connection

A session that has sent its Close frame waits for the server to end the connection,
and the close timer limits the wait. Closing arms the timer. `HandleCloseFrame`
disarms it on entry and arms it again only by closing: when it echoes a Close frame,
and when it answers a malformed one. A well-formed Close frame that arrives after the
session has sent its own is not answered, and leaves the connection without a
deadline.
-/

namespace CppImprovement.Ws

variable {env : Env} {s : Session}

/-- A closing connection has a deadline. -/
def Session.Deadline (s : Session) : Prop :=
  s.cl.sentCloseFlag = true → s.bev ≠ none → s.cl.closeTimeoutEvent = .pending

instance : DecidablePred Session.Deadline := fun s => by
  rw [Session.Deadline]
  infer_instance

/-! ## Late Close frames -/

namespace CloseEntry

/-- The status in the first two octets. -/
def status (e : CloseEntry) : WSCloseStatus := ⟨htons (loadLE (e.ctrlPayload.take 2))⟩

/-- The reason behind the status, in the buffer that has been terminated. -/
def reason (e : CloseEntry) : Bytes :=
  ((({ ctrlPayload := e.ctrlPayload } : Receiver).writeCtrl
    (2 + (e.ctrlLen - 2)) [0]).ctrlPayload.drop 2).take (e.ctrlLen - 2)

/-- The Close frame is empty, or has a status that a peer may send and a reason that is not
rejected as text. -/
def WellFormed (e : CloseEntry) : Prop :=
  e.ctrlLen = 0 ∨ 2 ≤ e.ctrlLen ∧ e.status.peerValid = true ∧
    validateUtf8 WS_UTF8_ACCEPT e.reason ≠ WS_UTF8_REJECT

/-- A well-formed Close frame is handled after one was sent. -/
def Late (e : CloseEntry) : Prop := e.sentCloseFlag = true ∧ e.WellFormed

instance : DecidablePred Late := fun e => by
  rw [Late, WellFormed]
  infer_instance

end CloseEntry

/-- What `HandleCloseFrame` would find now. -/
def Session.closeEntry (s : Session) : CloseEntry :=
  ⟨s.cl.sentCloseFlag, s.rx.ctrlLen, s.rx.ctrlPayload⟩

/-! ## Progress -/

/-- Between `s` and `s'` some Close frames were handled; if none was late, a deadline is kept. -/
def Timed (s s' : Session) : Prop :=
  ∃ new, s'.rx.closeEntries = s.rx.closeEntries ++ new ∧
    ((∀ e ∈ new, ¬ e.Late) → s.Deadline → s'.Deadline)

/-- Nothing was handled, and nothing is late. -/
theorem Timed.refl (s : Session) : Timed s s := ⟨[], (List.append_nil _).symm, fun _ h => h⟩

/-- Deadlines are kept from one state to the next. -/
theorem Timed.trans (a b c : Session) (h : Timed a b) (h' : Timed b c) : Timed a c := by
  obtain ⟨new, he, hd⟩ := h
  obtain ⟨new', he', hd'⟩ := h'
  refine ⟨new ++ new', by rw [he', he, List.append_assoc], fun hall ha => ?_⟩
  rw [List.forall_mem_append] at hall
  exact hd' hall.2 (hd hall.1 ha)

/-- No Close frame was handled, and the deadline is still there. -/
theorem Timed.of_kept {s' : Session} (he : s'.rx.closeEntries = s.rx.closeEntries)
    (hd : s.Deadline → s'.Deadline) : Timed s s' :=
  ⟨[], by rw [he, List.append_nil], fun _ => hd⟩

/-- Without a bufferevent there is nothing to wait for. -/
theorem Session.deadline_of_none (h : s.bev = none) : s.Deadline := fun _ hb => absurd h hb

/-- Sending keeps a deadline. -/
theorem Timed.sends {s' : Session} (h : Sends s s') : Timed s s' := by
  obtain ⟨h', io, rfl, -⟩ := h
  exact .of_kept rfl id

/-- The receiver by itself keeps a deadline. -/
theorem Timed.turns {s' : Session} (h : Turns s s') : Timed s s' := by
  refine .of_kept h.closeEntries fun hd => ?_
  rw [Session.Deadline, h.cl, Ne, h.bev_iff]
  exact hd

/-! ## Closing -/

/-- Closing arms the timer or gives up the connection. -/
theorem wp_closeWithStatusReason_deadline (status : WSCloseStatus) (reason : Bytes) (s : Session) :
    wp (closeWithStatusReason env status reason)
      (fun _ s' => s'.rx.closeEntries = s.rx.closeEntries ∧ s'.Deadline) (fun _ _ => False) s := by
  have hsend : Moves Sends (fun _ => False) (sendCloseOnce env status reason)
      { s with cl.state := .closing } :=
    moves_get_bind (moves_ite (fun _ => moves_pure Sends.refl _ _) fun _ =>
      sends_sendClose status reason _)
  have hfail : ∀ u : Session, u.rx.closeEntries = s.rx.closeEntries →
      wp closeFail (fun _ s' => s'.rx.closeEntries = s.rx.closeEntries ∧ s'.Deadline)
        (fun _ _ => False) u := fun u hu => ⟨hu, Session.deadline_of_none rfl⟩
  rw [closeWithStatusReason, wp_bind, wp_modify, wp_bind]
  refine wp_mono hsend (fun rc u hu => ?_) fun _ _ hu => hu.2
  obtain ⟨h, io, rfl, -⟩ := hu
  rw [wp_ite]
  split
  · exact hfail _ rfl
  · simp only [wp_bind, wp_modify, callFails, wp_modifyGet, wp_ite]
    split
    · exact hfail _ rfl
    · split
      · exact hfail _ rfl
      · exact ⟨rfl, fun _ _ => rfl⟩

private theorem timed_closeWithStatusReason (status : WSCloseStatus) (reason : Bytes)
    (s : Session) :
    Moves Timed AnyTrap (closeWithStatusReason env status reason) s :=
  wp_mono (wp_closeWithStatusReason_deadline status reason s)
    (fun _ _ h => .of_kept h.1 fun _ => h.2) fun _ _ h => h.elim

/-! ## Close frames -/

/-- A Close frame that is not late ends with a deadline. -/
theorem wp_handleCloseFrame_deadline (s : Session) :
    wp (handleCloseFrame env)
      (fun _ s' => s'.rx.closeEntries = s.rx.closeEntries ++ [s.closeEntry] ∧
        (¬ s.closeEntry.Late → s'.Deadline)) (fun _ _ => False) s := by
  have hclosed : ∀ (u : Session) (status : WSCloseStatus),
      u.rx.closeEntries = s.rx.closeEntries ++ [s.closeEntry] →
      wp (do let _ ← closeWithStatus env status
             pure (0 : Int))
        (fun _ s' => s'.rx.closeEntries = s.rx.closeEntries ++ [s.closeEntry] ∧
          (¬ s.closeEntry.Late → s'.Deadline)) (fun _ _ => False) u := by
    intro u status hu
    rw [wp_bind]
    exact wp_mono (wp_closeWithStatusReason_deadline status [] u)
      (fun _ _ h => ⟨h.1.trans hu, fun _ => h.2⟩) fun _ _ h => h
  have hecho : ∀ u : Session, u.rx.closeEntries = s.rx.closeEntries ++ [s.closeEntry] →
      u.cl.sentCloseFlag = s.cl.sentCloseFlag → s.closeEntry.WellFormed →
      wp (echoClose env)
        (fun _ s' => s'.rx.closeEntries = s.rx.closeEntries ++ [s.closeEntry] ∧
          (¬ s.closeEntry.Late → s'.Deadline)) (fun _ _ => False) u := by
    intro u hu hsent hwell
    rw [echoClose, wp_bind, wp_get, wp_ite]
    split
    · rename_i hs
      exact ⟨hu, fun hlate => absurd ⟨hsent.symm.trans hs, hwell⟩ hlate⟩
    · exact wp_mono (wp_closeWithStatusReason_deadline _ _ u)
        (fun _ _ h => ⟨h.1.trans hu, fun _ => h.2⟩) fun _ _ h => h
  rw [handleCloseFrame, wp_bind, wp_modify, wp_bind, wp_get, wp_ite]
  split
  · rename_i hzero
    exact hecho _ rfl rfl (Or.inl hzero)
  · rw [wp_ite]
    split
    · rw [wp_bind, wp_modify]
      exact hclosed _ _ rfl
    · rename_i hlen
      rw [wp_bind, wp_modify, wp_bind, wp_get, wp_ite]
      split
      · exact hclosed _ _ rfl
      · rename_i hpeer
        rw [wp_bind, wp_modify, wp_bind, wp_get, wp_ite]
        split
        · exact hclosed _ _ rfl
        · rename_i htext
          exact hecho _ rfl rfl (Or.inr ⟨not_lt.mp hlen, eq_true_of_ne_false hpeer, htext⟩)

private theorem timed_handleCloseFrame (s : Session) :
    Moves Timed AnyTrap (handleCloseFrame env) s := by
  refine wp_mono (wp_handleCloseFrame_deadline s) (fun _ s' h => ?_) fun _ _ h => h.elim
  exact ⟨[s.closeEntry], h.1, fun hall _ => h.2 (hall _ (List.mem_singleton.mpr rfl))⟩

/-- A late Close frame is not answered, and the timer stays disarmed. -/
theorem wp_handleCloseFrame_late (h : s.closeEntry.Late) (hb : s.bev ≠ none) :
    wp (handleCloseFrame env) (fun _ s' => ¬ s'.Deadline) (fun _ _ => False) s := by
  obtain ⟨hsent, hwell⟩ := h
  have hecho : ∀ u : Session, u.cl.sentCloseFlag = s.cl.sentCloseFlag → u.bev = s.bev →
      u.cl.closeTimeoutEvent = .null →
      wp (echoClose env) (fun _ s' => ¬ s'.Deadline) (fun _ _ => False) u := by
    intro u hu hub hut
    have hs : u.cl.sentCloseFlag = true := hu.trans hsent
    rw [echoClose, wp_bind, wp_get, wp_ite, if_pos hs, wp_pure]
    intro hd
    exact absurd (hut.symm.trans (hd hs (by rwa [hub]))) (by decide)
  rw [handleCloseFrame, wp_bind, wp_modify, wp_bind, wp_get, wp_ite]
  split
  · exact hecho _ rfl rfl rfl
  · rename_i hne
    obtain ⟨hlen, hpeer, htext⟩ := hwell.resolve_left hne
    have hpeer' : ¬ s.closeEntry.status.peerValid = false := by
      rw [hpeer]
      decide
    rw [wp_ite]
    refine (if_neg (not_lt.mpr hlen)).mpr ?_
    rw [wp_bind, wp_modify, wp_bind, wp_get, wp_ite]
    refine (if_neg hpeer').mpr ?_
    rw [wp_bind, wp_modify, wp_bind, wp_get, wp_ite]
    refine (if_neg htext).mpr ?_
    exact hecho _ rfl rfl rfl

/-- Handling a Close frame on a live connection leaves a deadline exactly when it is not late. -/
theorem deadline_after_closeFrame_iff (env : Env) (hb : s.bev ≠ none) :
    (finalState (handleCloseFrame env s)).Deadline ↔ ¬ s.closeEntry.Late := by
  refine ⟨fun hd hlate => final_of_wp (wp_handleCloseFrame_late hlate hb) hd, fun hn => ?_⟩
  have hwp : wp (handleCloseFrame env) (fun _ => Session.Deadline) (fun _ _ => False) s :=
    wp_mono (wp_handleCloseFrame_deadline s) (fun _ _ h => h.2 hn) fun _ _ h => h
  exact final_of_wp hwp

/-! ## Calls and reads -/

private theorem timed_runCall (call : AppCall) (s : Session) :
    Moves Timed AnyTrap (runCall env call) s := by
  cases call with
  | send msg =>
    refine moves_bind Timed.trans ?_ fun _ _ _ => moves_pure Timed.refl _ _
    exact wp_mono (sends_doSendMsg msg s) (fun _ _ h => .sends h) fun _ _ h => ⟨.sends h.1, h.2⟩
  | close =>
    exact moves_bind Timed.trans (timed_closeWithStatusReason _ _ s) fun _ _ _ =>
      moves_pure Timed.refl _ _
  | connect =>
    refine moves_bind Timed.trans (moves_get_bind ?_) fun _ _ _ => moves_pure Timed.refl _ _
    refine moves_ite (fun _ => moves_pure Timed.refl _ _) fun _ => ?_
    have hfresh : ∀ u : Session, u.rx.closeEntries = s.rx.closeEntries →
        u.cl.sentCloseFlag = false → Timed s u := fun u hu hc =>
      .of_kept hu fun _ hs => absurd (hc.symm.trans hs) (by decide)
    simp only [Moves, setupConnectionTimeout, callFails, emit, wp_bind, wp_modify, wp_modifyGet,
      wp_ite, wp_pure]
    repeat' split
    all_goals exact hfresh _ rfl rfl

private theorem timed_rules (env : Env) : Rules env Timed where
  refl := Timed.refl
  trans := Timed.trans
  turns := fun _ _ h => .turns h
  close := timed_closeWithStatusReason
  closeFrame := timed_handleCloseFrame
  message := fun _ _ _ => .of_kept rfl id
  call := timed_runCall

/-! ## Steps -/

private theorem timed_onRead (s : Session) : Moves Timed AnyTrap (onRead env) s := by
  refine moves_get_bind ?_
  split
  · exact moves_pure Timed.refl _ _
  · rename_i b hb
    have hlive : ∀ u : Session, u.rx.closeEntries = s.rx.closeEntries →
        u.cl.sentCloseFlag = s.cl.sentCloseFlag →
        u.cl.closeTimeoutEvent = s.cl.closeTimeoutEvent → Timed s u := fun u hu hc ht =>
      .of_kept hu fun hd hs _ => ht.trans (hd (hc.symm.trans hs) (by simp [hb]))
    refine moves_ite (fun _ => ?_) fun _ => (timed_rules env).readWebsocket s
    refine moves_modify_bind Timed.trans (hlive _ rfl rfl rfl) ?_
    split
    · refine moves_modify_bind Timed.trans (.of_kept rfl fun _ => Session.deadline_of_none rfl) ?_
      exact (timed_rules env).readWebsocket _
    · exact moves_pure Timed.refl _ _
    · refine moves_modify_bind Timed.trans (.of_kept rfl id) ?_
      refine moves_bind Timed.trans ?_ fun _ u _ => (timed_rules env).readWebsocket u
      refine moves_modify_bind Timed.trans (.of_kept rfl id) (moves_get_bind ?_)
      exact (timed_rules env).onConnectCalls _ _
    · exact (timed_rules env).readWebsocket _

private theorem timed_onEofEvent (s : Session) : Moves Timed AnyTrap (onEofEvent env) s := by
  refine moves_get_bind ?_
  split
  · exact moves_pure Timed.refl _ _
  · refine moves_bind Timed.trans ((timed_rules env).readLeftover _ s) fun _ u _ => ?_
    rw [Moves, wp_ended]
    exact .of_kept rfl fun _ => Session.deadline_of_none rfl

private theorem timed_step (i : Input) (s : Session) : Moves Timed AnyTrap (step env i) s := by
  cases i with
  | connect => exact timed_runCall .connect s
  | close => exact timed_runCall .close s
  | send msg => exact timed_runCall (.send msg) s
  | connected =>
    refine moves_get_bind ?_
    split
    · rename_i b hb
      refine moves_ite (fun _ => moves_pure Timed.refl _ _) fun _ => ?_
      have hlive : ∀ u : Session, u.rx.closeEntries = s.rx.closeEntries → u.cl = s.cl → Timed s u :=
        fun u hu hc => .of_kept hu fun hd hs _ => by
          rw [hc] at hs ⊢
          exact hd hs (by simp [hb])
      simp only [Moves, onConnectEvent, sendHandshake, generateHandshakeKey, getRandomMask,
        callFails, emit, wp_bind, wp_modify, wp_modifyGet, wp_get, wp_ite, wp_pure]
      repeat' split
      all_goals exact hlive _ rfl rfl
    · exact moves_pure Timed.refl _ _
  | read bytes =>
    refine moves_get_bind ?_
    split
    · rename_i b hb
      refine moves_ite (fun _ => ?_) fun _ => moves_pure Timed.refl _ _
      refine moves_modify_bind Timed.trans (.of_kept rfl fun hd hs _ => ?_) (timed_onRead _)
      exact hd hs (by simp [hb])
    · exact moves_pure Timed.refl _ _
  | eof =>
    refine moves_get_bind ?_
    split
    · exact moves_ite (fun _ => timed_onEofEvent s) fun _ => moves_pure Timed.refl _ _
    · exact moves_pure Timed.refl _ _
  | error => exact moves_pure Timed.refl _ _
  | closeTimeout =>
    simp only [Moves, step, onCloseTimeout, shutDown, wp_bind, wp_get, wp_ite, wp_modify, wp_pure,
      wp_throw]
    split
    · split
      · rename_i hsent
        exact ⟨.of_kept rfl fun _ hs => absurd (hsent.symm.trans hs) (by decide), trivial⟩
      · exact .of_kept rfl fun _ => Session.deadline_of_none rfl
    · exact Timed.refl s
  | connectTimeout => exact moves_pure Timed.refl _ _

/-- In every run in which no well-formed Close frame is handled after one was sent, a closing
connection has a deadline. -/
theorem deadline_of_timely {s₀ : Session} (h0 : doInit env {} = .ok 0 s₀) {inputs : List Input}
    (h : ∀ e ∈ (finalState (run env inputs s₀)).rx.closeEntries, ¬ e.Late) :
    (finalState (run env inputs s₀)).Deadline := by
  have hmoves : Moves Timed AnyTrap (run env inputs) s₀ :=
    moves_runAll Timed.refl Timed.trans timed_step inputs s₀
  have hrun : wp (run env inputs) (fun _ => Timed s₀) (fun _ => Timed s₀) s₀ :=
    wp_mono hmoves (fun _ _ ht => ht) fun _ _ ht => ht.1
  rw [eq_initialised h0] at hrun h ⊢
  obtain ⟨new, he, hd⟩ := wp_final.mp hrun
  refine hd (fun e hmem => h e ?_) (fun hs => absurd hs (by decide))
  rw [he]
  exact List.mem_append_right _ hmem

/-- The application closes an open connection, and the server has not answered. -/
theorem deadline_of_timely_sample :
    (finalState (run {} (replyThen [] ++ [.close]) Session.initialised)).cl.sentCloseFlag = true ∧
      (finalState (run {} (replyThen [] ++ [.close]) Session.initialised)).Deadline :=
  ⟨by decide +kernel, deadline_of_timely rfl (by decide +kernel)⟩

/-- The server's Close frame leaves a connection that the application has closed without a
deadline. -/
theorem no_deadline_after_late_close :
    ¬ ∀ (env : Env) (s₀ s : Session) (inputs : List Input), env.NoFault →
      doInit env {} = .ok 0 s₀ → run env inputs s₀ = .ok ⟨⟩ s → s.Deadline := by
  intro h
  have hrun : run {} (replyThen [] ++ [.close, .read [0x88, 0x00]]) Session.initialised =
      .ok ⟨⟩ (finalState (run {} (replyThen [] ++ [.close, .read [0x88, 0x00]])
        Session.initialised)) := eq_ok_of_failure (by decide +kernel)
  exact absurd (h {} _ _ _ (fun _ => rfl) rfl hrun) (by decide +kernel)

end CppImprovement.Ws

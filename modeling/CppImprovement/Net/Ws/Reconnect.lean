import CppImprovement.Net.Ws.Leftovers
import CppImprovement.Net.Ws.Twins

/-!
# Opening a connection again

`DoConnect` on a session that has had a connection resets some of its fields. What
it leaves does no harm when the receiver is outside a frame and no close timer is
waiting: the next connection then goes as it would on a new session.
-/

namespace CppImprovement.Ws

variable {env : Env} {s t : Session}

/-! ## The reply to the upgrade request -/

/-- Two handshakes that the parser cannot tell apart: it does not read the headers it stores. -/
def SameHandshake (h h' : Handshake) : Prop := ∃ header, h' = { h with header := header }

/-- Two results of the parser that agree. -/
structure SameReply (r r' : Reply) : Prop where
  result : r.1 = r'.1
  hs : SameHandshake r.2.1 r'.2.1
  rest : r.2.2 = r'.2.2

private theorem readHttpHeadersLoop_same (sha1 : Bytes → Bytes) (n : Nat) {h h' : Handshake}
    (hh : SameHandshake h h') (headerVal input : Bytes) :
    SameReply (readHttpHeadersLoop sha1 n h headerVal input)
      (readHttpHeadersLoop sha1 n h' headerVal input) := by
  induction n generalizing h h' headerVal input with
  | zero => exact ⟨rfl, hh, rfl⟩
  | succ n ih =>
    rw [readHttpHeadersLoop, readHttpHeadersLoop]
    split
    · exact ⟨rfl, hh, rfl⟩
    · split
      · exact ⟨rfl, hh, rfl⟩
      · obtain ⟨header, rfl⟩ := hh
        dsimp only
        split
        · exact ⟨rfl, ⟨_, rfl⟩, rfl⟩
        · exact ih ⟨_, rfl⟩ _ _

private theorem checkRequiredHeaders_same {h h' : Handshake} (hh : SameHandshake h h')
    (input : Bytes) :
    SameReply (checkRequiredHeaders h input) (checkRequiredHeaders h' input) := by
  obtain ⟨header, rfl⟩ := hh
  rw [checkRequiredHeaders, checkRequiredHeaders]
  dsimp only
  split
  · exact ⟨rfl, ⟨_, rfl⟩, rfl⟩
  · split
    · exact ⟨rfl, ⟨_, rfl⟩, rfl⟩
    · split
      · exact ⟨rfl, ⟨_, rfl⟩, rfl⟩
      · exact ⟨rfl, ⟨_, rfl⟩, rfl⟩

private theorem readHeaderStage_same (sha1 : Bytes → Bytes) {h h' : Handshake}
    (hh : SameHandshake h h')
    (input : Bytes) :
    SameReply (readHeaderStage sha1 h input) (readHeaderStage sha1 h' input) := by
  have hloop := readHttpHeadersLoop_same sha1 (input.length + 1) hh [] input
  rw [readHeaderStage, readHeaderStage, readHttpHeaders, readHttpHeaders]
  generalize readHttpHeadersLoop sha1 (input.length + 1) h [] input = r at hloop
  generalize readHttpHeadersLoop sha1 (input.length + 1) h' [] input = r' at hloop
  obtain ⟨result, g, rest⟩ := r
  obtain ⟨result', g', rest'⟩ := r'
  obtain ⟨rfl, ⟨header, rfl⟩, rfl⟩ := hloop
  cases result with
  | success => exact checkRequiredHeaders_same ⟨_, rfl⟩ _
  | needMore => exact ⟨rfl, ⟨_, rfl⟩, rfl⟩
  | error => exact ⟨rfl, ⟨_, rfl⟩, rfl⟩
  | userAbort => exact ⟨rfl, ⟨_, rfl⟩, rfl⟩

private theorem readStatusStage_same (sha1 : Bytes → Bytes) {h h' : Handshake}
    (hh : SameHandshake h h')
    (input : Bytes) :
    SameReply (readStatusStage sha1 h input) (readStatusStage sha1 h' input) := by
  obtain ⟨header, rfl⟩ := hh
  rw [readStatusStage, readStatusStage]
  split
  · exact ⟨rfl, ⟨_, rfl⟩, rfl⟩
  · split
    · exact ⟨rfl, ⟨_, rfl⟩, rfl⟩
    · split
      · exact ⟨rfl, ⟨_, rfl⟩, rfl⟩
      · split
        · exact ⟨rfl, ⟨_, rfl⟩, rfl⟩
        · exact readHeaderStage_same sha1 ⟨_, rfl⟩ _

/-- Two handshakes under way; the flags are reset when the status line is read. -/
def Shaking (h h' : Handshake) : Prop :=
  ∃ header flags, h' = { h with header := header, httpHeaderFlags := flags } ∧
    (h.connectState ≠ .sentReq → flags = h.httpHeaderFlags)

private theorem SameHandshake.shaking {h h' : Handshake} (hh : SameHandshake h h') :
    Shaking h h' := by
  obtain ⟨header, rfl⟩ := hh
  exact ⟨header, h.httpHeaderFlags, rfl, fun _ => rfl⟩

private theorem readServerHandshakeReply_same (sha1 : Bytes → Bytes) {h h' : Handshake}
    (hh : Shaking h h') (input : Bytes) :
    SameReply (readServerHandshakeReply sha1 h input) (readServerHandshakeReply sha1 h' input) := by
  obtain ⟨header, flags, rfl, hflags⟩ := hh
  by_cases hc : h.connectState = .sentReq
  · rw [readServerHandshakeReply, readServerHandshakeReply]
    dsimp only
    rw [hc]
    exact readStatusStage_same sha1 ⟨header, rfl⟩ input
  · rw [hflags hc, readServerHandshakeReply, readServerHandshakeReply]
    dsimp only
    split
    · exact absurd ‹_› hc
    · exact readHeaderStage_same sha1 ⟨header, rfl⟩ input
    · exact checkRequiredHeaders_same ⟨header, rfl⟩ input
    · exact ⟨rfl, ⟨header, rfl⟩, rfl⟩

/-! ## After the close -/

/-- A connection that is still open has been closed by the session, with the handshake done. -/
def Session.Frozen (s : Session) : Prop :=
  ∀ b, s.bev = some b →
    b.readEnabled = true ∧ s.hs.connectState = .handshakeComplete ∧ s.Hushed

private theorem Session.frozen_of_bev_none (h : s.bev = none) : s.Frozen := by
  intro b hb
  rw [h] at hb
  cases hb

/-- What is frozen stays frozen, and so does its past. -/
theorem Session.Frozen.steady {s' : Session} (h : s.Frozen) {b : Bufferevent}
    (hb : s.bev = some b) (hs : Steady False s s') : s'.Frozen ∧ s'.past = s.past := by
  obtain ⟨hr, hc, hh⟩ := h b hb
  refine ⟨fun b' hb' => ?_, (hs.hushed hh).2⟩
  obtain ⟨b₀, hb₀, hr₀, _⟩ := hs.bev b' hb'
  obtain rfl : b = b₀ := Option.some.inj (hb.symm.trans hb₀)
  exact ⟨hr₀.trans hr, hs.hs ▸ hc, (hs.hushed hh).1⟩

/-- Nothing is seen of the frame reader on a connection that the session has closed. -/
theorem Session.Frozen.unseen_readWebsocket (h : s.Frozen) {b : Bufferevent}
    (hb : s.bev = some b) : Unseen Session.Frozen Session.past (readWebsocket env) s := by
  have hc := Session.not_closed_of_closing (h b hb).2.2.1
  exact wp_mono ((steadies_rules env).readWebsocket s) (fun _ _ hs => h.steady hb (hs hc))
    fun _ _ hs => (h.steady hb (hs.1 hc)).2

/-- Nothing is seen of a frozen session any more, whatever the server and the timers do. -/
theorem Session.Frozen.unseen_step (h : s.Frozen) {i : Input} (hi : ¬ i.IsCall) :
    Unseen Session.Frozen Session.past (step env i) s := by
  have hidle : s.Frozen ∧ s.past = s.past := ⟨h, rfl⟩
  cases i with
  | connect => exact absurd trivial hi
  | close => exact absurd trivial hi
  | send msg => exact absurd trivial hi
  | connected =>
    rw [Unseen, step, wp_bind, wp_get]
    split
    · rename_i b hb
      rw [if_pos (h b hb).1]
      exact hidle
    · exact hidle
  | read bytes =>
    rw [Unseen, step, wp_bind, wp_get]
    split
    · rename_i b hb
      obtain ⟨hr, hc, hh⟩ := h b hb
      have hin : (s.received b bytes).Frozen := by
        rintro b' ⟨⟩
        exact ⟨hr, hc, hh⟩
      rw [if_pos hr, wp_bind, wp_modify, onRead, wp_bind, wp_get]
      dsimp only
      rw [if_neg (by simp [hc])]
      exact hin.unseen_readWebsocket rfl
    · exact hidle
  | eof =>
    rw [Unseen, step, wp_bind, wp_get]
    split
    · rename_i b hb
      have hleft : Unseen Session.Frozen Session.past (readLeftover env b.input) s := by
        rw [Unseen, readLeftover, wp_ite]
        split
        · exact hidle
        · exact h.unseen_readWebsocket hb
      rw [if_pos (h b hb).1, onEofEvent, wp_bind, wp_get]
      simp only [hb]
      rw [wp_bind]
      refine wp_mono hleft (fun _ u hu => ?_) fun _ _ hu => hu
      rw [wp_ended]
      exact ⟨Session.frozen_of_bev_none rfl, hu.2⟩
    · exact hidle
  | error => exact hidle
  | closeTimeout =>
    simp only [Unseen, step, onCloseTimeout, shutDown, wp_bind, wp_get, wp_ite, wp_modify, wp_pure,
      wp_throw]
    split
    · split
      · rfl
      · exact ⟨Session.frozen_of_bev_none rfl, rfl⟩
    · exact ⟨h, trivial⟩
  | connectTimeout => exact hidle

/-! ## One connection on two sessions -/

/-- What the upgrade request names, its key apart. -/
def Session.target (s : Session) : Bytes × Bytes × Int × Bytes × List Bytes :=
  (s.uri, s.host, s.port, s.origin, s.subprotocols)

/-- Two sessions that a connection cannot tell apart, between two inputs. -/
structure Twins (s t : Session) : Prop extends Agree s t where
  hs : ∀ b, s.Reading b → Shaking s.hs t.hs
  target : (∀ b, ¬ s.Reading b) → s.target = t.target
  outside : (∀ b, s.Reading b → s.hs.connectState ≠ .handshakeComplete) → s.rx.hasHeader = false

/-- Two runs end alike, unless nothing more can be seen of either session. -/
abbrev Beside (m : M Unit) (s t : Session) : Prop :=
  SimUnless Session.Frozen Session.past Twins m m s t

private theorem Twins.beside_pure (h : Twins s t) : Beside (pure ()) s t := (sim_pure h _).simUnless

/-- The frame reader and what it calls, on a connection whose handshake is done. -/
theorem beside_of_alongside {m : M Unit} (h : Alongside Agree m s t)
    (hs : Moves (Steadies False) AnyTrap m s) (ht : Moves (Steadies False) AnyTrap m t)
    (hcs : ¬ s.Closed) (hct : ¬ t.Closed) {b : Bufferevent} (hb : s.Reading b) (hb' : t.Reading b)
    (hc : s.hs.connectState = .handshakeComplete) (hsh : Shaking s.hs t.hs) : Beside m s t := by
  have hc' : t.hs.connectState = .handshakeComplete := by
    obtain ⟨_, _, heq, _⟩ := hsh
    rw [heq]
    exact hc
  have hreading : ∀ {u u' : Session}, u.Reading b → Steady False u u' →
      ∀ b', u'.bev = some b' → b'.readEnabled = true := by
    intro u u' hu hsteady b' hb'
    obtain ⟨b₀, hb₀, hr₀, _⟩ := hsteady.bev b' hb'
    obtain rfl : b = b₀ := Option.some.inj (hu.1.symm.trans hb₀)
    exact hr₀.trans hu.2
  have hs' : wp m (fun _ => Steady False s) (fun _ _ => True) s :=
    wp_mono hs (fun _ _ h => h hcs) fun _ _ _ => trivial
  have ht' : wp m (fun _ => Steady False t) (fun _ _ => True) t :=
    wp_mono ht (fun _ _ h => h hct) fun _ _ _ => trivial
  rcases h with h | ⟨hpast, hhs, hht⟩
  · refine Or.inl (((h.and_left hs').and_right ht').mono (fun s' t' h' => ?_) fun _ _ h => h.1.1)
    obtain ⟨⟨ha, hsteady⟩, hsteady'⟩ := h'
    obtain ⟨b', hb'⟩ := Option.ne_none_iff_exists'.mp ha.held
    have hr' : s'.Reading b' := ⟨hb', hreading hb hsteady b' hb'⟩
    refine { ha with hs := fun _ _ => ?_, target := fun hn => ?_, outside := fun hn => ?_ }
    · rw [hsteady.hs, hsteady'.hs]
      exact hsh
    · exact absurd hr' (hn b')
    · exact absurd (hsteady.hs ▸ hc) (hn b' hr')
  · refine Or.inr ⟨hpast, ?_, ?_⟩
    · refine wp_mono (wp_and hs' hhs) (fun _ s' h => ?_) fun _ _ _ => trivial
      exact fun b' hb' => ⟨hreading hb h.1 b' hb', h.1.hs ▸ hc, h.2⟩
    · refine wp_mono (wp_and ht' hht) (fun _ t' h => ?_) fun _ _ _ => trivial
      exact fun b'' hb'' => ⟨hreading hb' h.1 b'' hb'', h.1.hs ▸ hc', h.2⟩

/-- The session after `OnConnectEvent`. -/
def Session.requested (env : Env) (s : Session) (b : Bufferevent) : Session :=
  let key := encodeBase64 ((List.range' s.io.randPos 16).map env.rand)
  { s with
    bev := some { b with readEnabled := true }
    hs := { s.hs with handshakeKeyBase64 := key, connectState := .sentReq }
    io := { s.io with
      trace := s.io.trace ++ [.request (handshakeRequest { s with hs.handshakeKeyBase64 := key })]
      randPos := s.io.randPos + 16
      callPos := s.io.callPos + 1 } }

/-- On a connection that is established the request is sent. -/
theorem step_connected_ok (hf : env.NoFault) {b : Bufferevent} (hb : s.bev = some b)
    (hr : b.readEnabled = false) : step env .connected s = .ok () (s.requested env b) := by
  have hkey : encodeBase64 ((List.range' s.io.randPos 16).map env.rand) ≠ [] := by
    rw [ne_eq, encodeBase64_eq_nil]
    simp
  apply eq_ok_of_wp
  simp only [step, wp_bind, wp_get, hb, hr, Bool.false_eq_true, if_false, onConnectEvent,
    sendHandshake, generateHandshakeKey, getRandomMask, callFails, emit, wp_modify, wp_modifyGet,
    wp_ite, wp_pure, hf _, hkey, ne_eq, not_true_eq_false, Option.map_some]
  exact ⟨trivial, rfl⟩

/-- Both sessions send the same upgrade request. -/
theorem Twins.requested (h : Twins s t) {b : Bufferevent} (hb : s.bev = some b)
    (hr : b.readEnabled = false) : Twins (s.requested env b) (t.requested env b) := by
  have hn : ∀ b', ¬ s.Reading b' := by
    rintro b' ⟨hb', hr'⟩
    obtain rfl : b = b' := Option.some.inj (hb.symm.trans hb')
    rw [hr] at hr'
    cases hr'
  have htarget := h.target hn
  simp only [Session.target, Prod.mk.injEq] at htarget
  obtain ⟨huri, hhost, hport, horigin, hsub⟩ := htarget
  have htrace : (s.requested env b).io.trace = (t.requested env b).io.trace := by
    simp only [Session.requested, handshakeRequest, h.line.trace, h.line.randPos, huri, hhost,
      hport, horigin, hsub]
  have hkey : (s.requested env b).hs.handshakeKeyBase64 =
      (t.requested env b).hs.handshakeKeyBase64 := by
    simp only [Session.requested, h.line.randPos]
  exact
    { h.toAgree with
      line := { h.line with
        bev := iff_of_false nofun nofun
        trace := htrace
        randPos := by simp only [Session.requested, h.line.randPos] }
      bev := rfl
      held := nofun
      left := { h.left with }
      right := { h.right with }
      hs := fun _ _ => ⟨t.hs.header, t.hs.httpHeaderFlags, by
        simp only [Session.requested, h.line.randPos], fun hc => absurd rfl hc⟩
      target := fun hn => absurd ⟨rfl, rfl⟩ (hn { b with readEnabled := true })
      outside := fun _ => h.outside fun b' hr' => absurd hr' (hn b') }

private theorem step_connected_idle {b : Bufferevent} (hb : s.bev = some b)
    (hr : b.readEnabled = true) :
    step env .connected s = .ok () s := by
  apply eq_ok_of_wp
  simp [step, hb, hr]

private theorem Twins.beside_connected (h : Twins s t) (hf : env.NoFault) :
    Beside (step env .connected) s t := by
  obtain ⟨b, hb⟩ := Option.ne_none_iff_exists'.mp h.held
  have hb' : t.bev = some b := h.bev ▸ hb
  cases hr : b.readEnabled with
  | true =>
    exact h.beside_pure.of_eq (step_connected_idle hb hr) (step_connected_idle hb' hr)
  | false =>
    exact (h.requested hb hr).beside_pure.of_eq (step_connected_ok hf hb hr)
      (step_connected_ok hf hb' hr)

/-! ## Reads -/

/-- Sessions that agree agree after the same read. -/
theorem Agree.received (h : Agree s t) (b : Bufferevent) (bytes : Bytes) :
    Agree (s.received b bytes) (t.received b bytes) :=
  { h with
    line := { h.line with bev := iff_of_false nofun nofun }
    bev := rfl
    held := nofun
    left := { h.left with }
    right := { h.right with } }

/-- Handlers leave alone what has been gathered. -/
theorem Undisturbed.gathering {s' t' : Session} (h : Undisturbed s t s' t') (hg : Gathering s t) :
    Gathering s' t' :=
  { h.live with
    inMsgFlag := by rw [h.rx, h.rx', hg.inMsgFlag]
    binary := by rw [h.rx, h.rx', hg.binary]
    message := by
      rw [h.rx, h.rx']
      exact hg.message }

private theorem Live.alongside_callOnConnect (h : Live s t) (hf : env.NoFault) :
    Alongside (Undisturbed s t) (callOnConnect env) s t := by
  cases hc : env.app.onConnect with
  | none =>
    simp only [callOnConnect, hc]
    exact simUnless_modify_bind (sim_pure ⟨h.emitted _, rfl, rfl, rfl, rfl, rfl⟩ _).simUnless
  | some handler =>
    simp only [callOnConnect, hc]
    exact h.alongside_handler hf _ handler

/-- `onConnect_` and the frame reader behind it. -/
theorem Gathering.alongside_connected (h : Gathering s t) (hf : env.NoFault) {b : Bufferevent}
    (hr : s.Reading b) (hs : s.rx.hasHeader = false) (ht : t.rx.hasHeader = false) :
    Alongside Agree (do callOnConnect env; readWebsocket env) s t := by
  refine alongside_bind (h.toLive.alongside_callOnConnect hf) (fun _ s' t' hu => ?_) fun _ u =>
    (steadies_rules env).readWebsocket u
  exact ((hu.gathering h).agree (hu.rx ▸ hs) (hu.rx' ▸ ht)).alongside_readWebsocket hf
    ⟨hu.bev.trans hr.1, hr.2⟩

private theorem steadies_connected (h : s.cl.state ≠ .closing) :
    Moves (Steadies False) AnyTrap (do callOnConnect env; readWebsocket env) s := by
  refine moves_bind Steadies.trans ?_ fun _ u _ => (steadies_rules env).readWebsocket u
  refine moves_modify_bind Steadies.trans (fun hc => ?_) (moves_get_bind ?_)
  · exact { Steady.refl _ hc with
      hushed := fun hh => absurd hh.1 h, tacit := fun hf => absurd (hf.resolve_left id) h }
  · exact steadies_onConnectCalls _ _

/-- Both sessions parse the same reply. -/
theorem Twins.replied (h : Twins s t) {b : Bufferevent} (hb : s.Reading b)
    (hc : s.hs.connectState ≠ .handshakeComplete) (bytes : Bytes) :
    Gathering (s.replied env b bytes) (t.replied env b bytes) ∧
      (s.replied env b bytes).rx.hasHeader = false ∧ (t.replied env b bytes).rx.hasHeader = false ∧
        SameReply (s.reply env b bytes) (t.reply env b bytes) := by
  have hsame := readServerHandshakeReply_same env.sha1 (h.hs b hb) (b.input ++ bytes)
  have hh : s.rx.hasHeader = false := h.outside fun _ _ => hc
  refine ⟨?_, hh, h.hasHeader ▸ hh, hsame⟩
  exact
    { h.toLive with
      line := { h.line with bev := iff_of_false nofun nofun }
      bev := by simp only [Session.replied, Session.reply, hsame.rest]
      held := nofun
      left := { h.left with }
      right := { h.right with }
      inMsgFlag := h.inMsgFlag
      binary := h.binary
      message := h.gathering.message }

/-- A read while the handshake is under way. -/
theorem Twins.beside_reply (h : Twins s t) (hf : env.NoFault) {b : Bufferevent}
    (hb : s.Reading b) (hc : s.hs.connectState ≠ .handshakeComplete) (bytes : Bytes) :
    Beside (match (s.reply env b bytes).1 with
      | .error => do
        shutDown
        readWebsocket env
      | .needMore => pure ()
      | .success => do
        modify fun s => { s with cl.state := .connected }
        callOnConnect env
        readWebsocket env
      | .userAbort => readWebsocket env)
      (s.replied env b bytes) (t.replied env b bytes) := by
  have hreplied : Gathering (s.replied env b bytes) (t.replied env b bytes) ∧ _ :=
    h.replied hb hc bytes
  obtain ⟨hg, hs, ht, hsame⟩ := hreplied
  have hagrees := s.reply_agrees env b bytes
  have hreads : (s.replied env b bytes).Reading { b with input := (s.reply env b bytes).2.2 } :=
    ⟨rfl, hb.2⟩
  have hreads' : (t.replied env b bytes).Reading { b with input := (s.reply env b bytes).2.2 } :=
    ⟨by rw [← hg.bev]; rfl, hb.2⟩
  cases hr : (s.reply env b bytes).1 with
  | error => exact Or.inl ⟨rfl, hg.line.trace⟩
  | needMore =>
    refine Twins.beside_pure ?_
    exact
      { hg.agree hs ht with
        hs := fun _ _ => hsame.hs.shaking
        target := fun hn => absurd hreads (hn _)
        outside := fun _ => hs }
  | success =>
    have hcomplete := hagrees.success hr
    let s₁ : Session := { s.replied env b bytes with cl.state := .connected }
    let t₁ : Session := { t.replied env b bytes with cl.state := .connected }
    have hg₁ : Gathering s₁ t₁ :=
      { hg with
        line := { hg.line with state := rfl }
        left := { hg.left with notClosedCleanly := nofun, notClosedUncleanly := nofun }
        right := { hg.right with notClosedCleanly := nofun, notClosedUncleanly := nofun }
        notClosing := nofun }
    exact simUnless_modify_bind (beside_of_alongside (hg₁.alongside_connected hf hreads hs ht)
      (steadies_connected nofun) (steadies_connected nofun) hg₁.left.not_closed
      hg₁.right.not_closed hreads hreads' hcomplete hsame.hs.shaking)
  | userAbort => exact absurd hr hagrees.ne_userAbort

private theorem Twins.beside_read (h : Twins s t) (hf : env.NoFault) (bytes : Bytes) :
    Beside (step env (.read bytes)) s t := by
  obtain ⟨b, hb⟩ := Option.ne_none_iff_exists'.mp h.held
  have hb' : t.bev = some b := h.bev ▸ hb
  refine simUnless_get_bind ?_
  simp only [hb, hb']
  refine simUnless_ite Iff.rfl (fun hr => ?_) fun _ => h.beside_pure
  have hsh := h.hs b ⟨hb, hr⟩
  have hcs : s.hs.connectState = t.hs.connectState := by
    obtain ⟨_, _, heq, _⟩ := hsh
    rw [heq]
  refine simUnless_modify_bind (simUnless_get_bind ?_)
  dsimp only
  refine simUnless_ite (by rw [hcs]) (fun hc => simUnless_modify_bind ?_) fun hc => ?_
  · have hreply := h.beside_reply hf ⟨hb, hr⟩ hc bytes
    have hsame := readServerHandshakeReply_same env.sha1 hsh (b.input ++ bytes)
    rw [← hsame.result]
    exact hreply
  · rw [not_not] at hc
    exact beside_of_alongside ((h.toAgree.received b bytes).alongside_readWebsocket hf ⟨rfl, hr⟩)
      ((steadies_rules env).readWebsocket _) ((steadies_rules env).readWebsocket _)
      h.left.not_closed h.right.not_closed ⟨rfl, hr⟩ ⟨rfl, hr⟩ hc hsh

/-! ## Steps -/

private theorem Agree.alongside_readLeftover (h : Agree s t) (hf : env.NoFault) {b : Bufferevent}
    (hr : s.Reading b) (input : Bytes) : Alongside Agree (readLeftover env input) s t :=
  simUnless_ite Iff.rfl (fun _ => (sim_pure h _).simUnless) fun _ => h.alongside_readWebsocket hf hr

/-- At the end of the stream both sessions are closed. -/
theorem Twins.beside_eof (h : Twins s t) (hf : env.NoFault) : Beside (step env .eof) s t := by
  obtain ⟨b, hb⟩ := Option.ne_none_iff_exists'.mp h.held
  have hb' : t.bev = some b := h.bev ▸ hb
  refine simUnless_get_bind ?_
  simp only [hb, hb']
  refine simUnless_ite Iff.rfl (fun hr => simUnless_get_bind ?_) fun _ => h.beside_pure
  simp only [hb, hb']
  have hleft := (h.toAgree.alongside_readLeftover hf ⟨hb, hr⟩ b.input).observed fun _ _ h' =>
    h'.line.trace
  have hany : ∀ u : Session, wp (readLeftover env b.input) (fun _ _ => True) (fun _ _ => True) u :=
    fun u => by rw [wp]; split <;> trivial
  have hend : ∀ u : Session, Unseen Session.Frozen Session.past
      (do shutDown
          let s ← get
          if s.cl.receivedCloseFlag = true then
            pure ()
          else
            modify fun s => { s with cl.state := .closedUncleanly }) u := fun u =>
    (wp_ended u).mpr ⟨Session.frozen_of_bev_none rfl, rfl⟩
  have hends : ∀ u : Session, _ := fun u => Unseen.bind (P := fun _ => True) (hany u) fun _ v _ =>
    wp_mono (hend v) (fun _ _ h => ⟨trivial, h.2⟩) fun _ _ h => h
  refine Or.inr ⟨(hends s).1.trans (hleft.trans (hends t).1.symm), ?_, ?_⟩
  · rw [wp_bind]
    exact wp_mono (hany s) (fun _ v _ => (wp_ended v).mpr (Session.frozen_of_bev_none rfl))
      fun _ _ h => h
  · rw [wp_bind]
    exact wp_mono (hany t) (fun _ v _ => (wp_ended v).mpr (Session.frozen_of_bev_none rfl))
      fun _ _ h => h

private theorem Twins.beside_closeTimeout (h : Twins s t) :
    Beside (step env .closeTimeout) s t := by
  refine simUnless_get_bind ?_
  rw [if_neg h.unarmed, if_neg h.unarmed']
  exact h.beside_pure

/-- Whatever the server and the timers do, two sessions that a connection cannot tell apart go
on alike. -/
theorem Twins.beside_step (h : Twins s t) (hf : env.NoFault) {i : Input} (hi : ¬ i.IsCall) :
    Beside (step env i) s t := by
  cases i with
  | connect => exact absurd trivial hi
  | close => exact absurd trivial hi
  | send msg => exact absurd trivial hi
  | connected => exact h.beside_connected hf
  | read bytes => exact h.beside_read hf bytes
  | eof => exact h.beside_eof hf
  | error => exact h.beside_pure
  | closeTimeout => exact h.beside_closeTimeout
  | connectTimeout => exact h.beside_pure

private theorem Twins.past_run (h : Twins s t) (hf : env.NoFault) {inputs : List Input}
    (hi : ∀ i ∈ inputs, ¬ i.IsCall) :
    (finalState (run env inputs s)).past = (finalState (run env inputs t)).past := by
  have hrun : Beside (run env inputs) s t :=
    simUnless_runAll (fun i hmem _ _ h' => h'.beside_step hf (hi i hmem))
      (fun i hmem _ hP => hP.unseen_step (hi i hmem)) h
  exact hrun.observed fun _ _ h' => h'.line.trace

/-! ## The next connection -/

/-- A new session at the place of `s`: it sees the same answers of the environment. -/
def Session.renewed (s : Session) : Session := { Session.initialised with io := s.io }

/-- The session after `DoConnect`. -/
def Session.opened (s : Session) : Session :=
  { s.connecting with
    connectTimeoutEvent := .pending
    io := { s.io with trace := s.io.trace ++ [.opened], callPos := s.io.callPos + 2 } }

/-- A closed session opens a connection. -/
theorem step_connect_ok (hf : env.NoFault) (hc : s.Closed) :
    step env .connect s = .ok () s.opened := by
  have hst : ¬ (s.cl.state ≠ .closedCleanly ∧ s.cl.state ≠ .closedUncleanly) := by
    rintro ⟨h, h'⟩
    exact hc.elim h h'
  apply eq_ok_of_wp
  simp only [step, runCall, doConnect, setupConnectionTimeout, callFails, emit, wp_bind, wp_get,
    wp_ite, wp_modify, wp_modifyGet, wp_pure, if_neg hst, hf _, Bool.false_eq_true, if_false]
  exact ⟨trivial, rfl⟩

/-- A session outside a frame and without a close timer opens a connection like a new one. -/
theorem Session.Kept.twins_opened (h : s.Kept) (ht : s.Tidy) (hc : s.Closed)
    (hh : s.rx.hasHeader = false) (hp : s.cl.closeTimeoutEvent ≠ .pending) :
    Twins s.opened s.renewed.opened := by
  have hrecord := h.recorded (h.closed hc)
  simp only [Closing.record, Prod.mk.injEq] at hrecord
  obtain ⟨hstatus, hreason, hlen⟩ := hrecord
  have hg : Gathering s.opened s.renewed.opened :=
    { line := ⟨iff_of_false nofun nofun, h.tx, rfl, rfl, rfl, hstatus, hreason, hlen, rfl, rfl,
        False.elim, fun _ => rfl⟩
      bev := rfl
      held := nofun
      left := ⟨nofun, nofun, ht.sendState, ht.ctrlLen, ht.reasonLen⟩
      right := ⟨nofun, nofun, rfl, Nat.zero_le _, Nat.le_of_ble_eq_true rfl⟩
      notClosing := nofun
      unarmed := hp
      unarmed' := nofun
      inMsgFlag := rfl
      binary := h.binary
      message := nofun }
  refine { hg.agree hh rfl with hs := ?_, target := fun _ => ?_, outside := fun _ => hh }
  · rintro b ⟨⟨⟩, hr⟩
    cases hr
  · rw [Session.target, Session.target, Session.opened, Session.opened, Session.connecting,
      Session.connecting]
    dsimp only
    rw [h.subprotocols]
    rfl

/-- On a session that an earlier connection has left outside a frame and without a close timer,
the next connection goes as on a new session, whatever the server and the timers do. -/
theorem next_connection_fresh (hf : env.NoFault) (h0 : doInit env {} = .ok 0 t)
    {earlier : List Input} (h : run env earlier t = .ok ⟨⟩ s) (hc : s.cl.state = .closedUncleanly)
    (hh : s.rx.hasHeader = false) (hp : s.cl.closeTimeoutEvent ≠ .pending) {next : List Input}
    (hn : ∀ i ∈ next, ¬ i.IsCall) :
    (finalState (run env (.connect :: next) s)).io.trace =
      (finalState (run env (.connect :: next) s.renewed)).io.trace := by
  obtain ⟨ht, hk⟩ := kept_run hf h0 h
  have htwins := hk.twins_opened ht (Or.inr hc) hh hp
  have hs : run env (.connect :: next) s = run env next s.opened :=
    bind_eq_of_ok (step_connect_ok hf (Or.inr hc))
  have ht : run env (.connect :: next) s.renewed = run env next s.renewed.opened :=
    bind_eq_of_ok (step_connect_ok hf (Or.inl rfl))
  rw [hs, ht]
  exact htwins.past_run hf hn

end CppImprovement.Ws

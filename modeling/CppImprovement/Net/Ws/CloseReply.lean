import CppImprovement.Net.Ws.Outgoing
import CppImprovement.Net.Ws.Receive

/-!
# Replies to Close frames

What a Close frame calls for, as a relation between its payload and the status and reason of the
reply, and what `HandleCloseFrame` writes. The two differ in two places. The text check of the
reason only looks for a rejection, so a reason that ends inside a character is echoed. And for an
empty payload the echo takes the length of its reason from `serverReasonLen_`, which no other
Close frame but one with a status sets.
-/

namespace CppImprovement.Ws

/-! ## The reply a payload calls for -/

/-- The status code that a payload begins with. -/
def statusOf (b0 b1 : UInt8) : Nat := b0.toNat * 256 + b1.toNat

/-- The payload of a Close frame with a status code and a reason. -/
def closeBody (code : Nat) (reason : Bytes) : Bytes :=
  UInt8.ofNat (code / 256) :: UInt8.ofNat (code % 256) :: reason

/-- A Close payload, and the status code and reason of the reply to it. -/
inductive CloseReply : Bytes → Nat → Bytes → Prop
  | empty : CloseReply [] 1000 []
  | short (b : UInt8) : CloseReply [b] 1002 []
  | status {b0 b1 : UInt8} {reason : Bytes} :
      WSCloseStatus.peerValid ⟨statusOf b0 b1⟩ = false → CloseReply (b0 :: b1 :: reason) 1002 []
  | text {b0 b1 : UInt8} {reason : Bytes} :
      WSCloseStatus.peerValid ⟨statusOf b0 b1⟩ = true → ¬ ValidUtf8 reason →
      CloseReply (b0 :: b1 :: reason) 1007 []
  | echo {b0 b1 : UInt8} {reason : Bytes} :
      WSCloseStatus.peerValid ⟨statusOf b0 b1⟩ = true → ValidUtf8 reason →
      CloseReply (b0 :: b1 :: reason) (statusOf b0 b1) reason

/-- `HandleCloseFrame` writes exactly one Close frame, the reply that the payload calls for, and
leaves the session closing with both flags set. -/
def RepliesToClose (env : Env) (s : Session) (payload : Bytes) : Prop :=
  ∃ (code : Nat) (reason : Bytes) (f : WireFrame) (rc : Int) (s' : Session),
    CloseReply payload code reason ∧ handleCloseFrame env s = .ok rc s' ∧
      f.fin = true ∧ f.opcode = .close ∧ f.payload = closeBody code reason ∧
      s'.output = s.output ++ f.encode ∧
      s'.cl.sentCloseFlag = true ∧ s'.cl.receivedCloseFlag = true ∧ s'.cl.state = .closing

/-- A session in which a Close payload has arrived, with no Close frame sent before. -/
structure Session.GotClose (s : Session) (payload : Bytes) : Prop where
  bev : s.bev ≠ none
  state : s.cl.state = .connected
  sendState : s.tx.sendState = .none
  unsent : s.cl.sentCloseFlag = false
  ctrlLen : s.rx.ctrlLen = payload.length
  ctrlPayload : s.rx.ctrlPayload.take payload.length = payload
  array : s.rx.ctrlPayload.length = WS_CONTROL_MAX_PAYLOAD_LEN

/-- A reason that ends inside a character. -/
def CutText (reason : Bytes) : Prop := ¬ ValidUtf8 reason ∧ ∃ t, ValidUtf8 (reason ++ t)

/-! ## What is written -/

variable {env : Env} {s : Session}

private theorem statusOf_lt (b0 b1 : UInt8) : statusOf b0 b1 < 2 ^ 16 := by
  have h0 := b0.toNat_lt
  have h1 := b1.toNat_lt
  rw [statusOf]
  omega

/-- A status code goes out in network order. -/
theorem closePayload_eq {code : Nat} (hcode : code < 2 ^ 16) (reason : Bytes) :
    closePayload ⟨code⟩ reason = closeBody code reason := by
  rw [closePayload, Nat.mod_eq_of_lt hcode, htons, Nat.mod_eq_of_lt hcode, storeLE_byteSwap]
  have hhigh : code / 256 % 256 = code / 256 := Nat.mod_eq_of_lt (by omega)
  simp only [storeLE, hhigh, List.reverse_cons, List.reverse_nil, List.nil_append,
    List.cons_append, closeBody]

/-- A status code comes in in network order. -/
theorem htons_status (b0 b1 : UInt8) : htons (loadLE [b0, b1]) = statusOf b0 b1 := by
  have h0 := b0.toNat_lt
  have h1 := b1.toNat_lt
  have hmod : loadLE [b0, b1] % 2 ^ 16 = loadLE [b0, b1] := by
    rw [Nat.mod_eq_of_lt]
    simp only [loadLE]
    omega
  have hstore := storeLE_loadLE [b0, b1]
  rw [htons, hmod, byteSwap]
  rw [List.length_cons, List.length_cons, List.length_nil] at hstore
  rw [hstore]
  simp only [List.reverse_cons, List.reverse_nil, List.nil_append, List.cons_append, loadLE,
    statusOf]
  omega

private theorem length_encode (f : WireFrame) : f.encode.length = f.payload.length + 6 := by
  rw [WireFrame.encode, List.length_append, length_wireHeader, WireFrame.payload, unmaskPayload,
    length_maskPayload]
  simp [LenForm.extension]
  omega

/-- The session `s'` has written one Close frame since `s` and is closing. -/
structure Session.Replied (env : Env) (s : Session) (code : Nat) (reason : Bytes) (s' : Session) :
    Prop where
  output : s'.output =
    s.output ++ (wholeFrame (env.key s.io.randPos) .close (closeBody code reason)).encode
  sentCloseFlag : s'.cl.sentCloseFlag = true
  receivedCloseFlag : s'.cl.receivedCloseFlag = true
  state : s'.cl.state = .closing

/-- A session inside `HandleCloseFrame`, with everything to reply as `s` has it. -/
structure Session.Replying (s u : Session) : Prop where
  bev : u.bev ≠ none
  sendState : u.tx.sendState = .none
  unsent : u.cl.sentCloseFlag = false
  received : u.cl.receivedCloseFlag = true
  io : u.io = s.io

/-- A status and a reason that fit are sent. -/
theorem Session.Replying.close (hf : env.NoFault) {u : Session} (h : s.Replying u) {code : Nat}
    {reason : Bytes} (hcode : code < 2 ^ 16) (hst : WSCloseStatus.notUsed ⟨code⟩ = false)
    (hr : reason.length ≤ 123) :
    ∃ u', closeWithStatusReason env ⟨code⟩ reason u = .ok 0 u' ∧
      s.Replied env code reason u' := by
  have hlen : reason.length + 2 ≤ WS_CONTROL_MAX_PAYLOAD_LEN := by
    rw [WS_CONTROL_MAX_PAYLOAD_LEN]
    omega
  have hbody : (closePayload ⟨code⟩ reason).length ≤ 125 := by
    rw [closePayload_length]
    omega
  refine ⟨_, closeWithStatusReason_ok hf h.bev h.sendState hst hlen, ⟨?_, rfl, ?_, rfl⟩⟩
  · rw [Session.closeStarted, Session.closeFrameSent, if_neg (by rw [h.unsent]; decide),
      Session.output, Session.sentFrame]
    simp only [List.flatMap_append]
    rw [bytes_sentEvents env _ _ hbody, closePayload_eq hcode, h.io, Session.output]
  · rw [Session.closeStarted, Session.closeFrameSent, if_neg (by rw [h.unsent]; decide)]
    exact h.received

private theorem Session.Replying.wp_close (hf : env.NoFault) {u : Session} (h : s.Replying u)
    {code : Nat}
    {reason : Bytes} (hcode : code < 2 ^ 16) (hst : WSCloseStatus.notUsed ⟨code⟩ = false)
    (hr : reason.length ≤ 123) :
    wp (closeWithStatusReason env ⟨code⟩ reason) (fun _ => s.Replied env code reason)
      (fun _ _ => False) u := by
  obtain ⟨u', hu, hreplied⟩ := h.close hf hcode hst hr
  exact (wp_of_eq_ok hu).mpr hreplied

/-- An echo sends the status and the reason that were read. -/
theorem Session.Replying.wp_echo (hf : env.NoFault) {u : Session} (h : s.Replying u) {code : Nat}
    {reason : Bytes} (hcode : code < 2 ^ 16) (hst : WSCloseStatus.notUsed ⟨code⟩ = false)
    (hr : reason.length ≤ 123) (hstatus : u.cl.serverCloseStatus = ⟨code⟩)
    (hreason : serverReasonBytes env u = reason) :
    wp (echoClose env) (fun _ => s.Replied env code reason) (fun _ _ => False) u := by
  rw [echoClose, wp_bind, wp_get, if_neg (by rw [h.unsent]; decide), hstatus, hreason]
  exact h.wp_close hf hcode hst hr

section Arrived

variable {payload : Bytes} (h : s.GotClose payload)

include h

private theorem Session.GotClose.replying : s.Replying s.closeReceived :=
  ⟨h.bev, h.sendState, h.unsent, rfl, rfl⟩

/-- An empty payload is answered with the reason length that was left behind. -/
theorem Session.GotClose.wp_empty (hf : env.NoFault) (hp : payload = [])
    (hlen : s.cl.serverReasonLen ≤ 123) :
    wp (handleCloseFrame env)
      (fun _ => s.Replied env 1000
        ((0 :: (List.range s.cl.serverReasonLen).map env.pastLiteral).take s.cl.serverReasonLen))
      (fun _ _ => False) s := by
  have h0 : s.closeReceived.rx.ctrlLen = 0 := by
    rw [Session.closeReceived, h.ctrlLen, hp]
    rfl
  rw [handleCloseFrame, wp_bind, wp_modify, wp_bind, wp_get, if_pos h0]
  refine h.replying.wp_echo hf (by decide) (by decide) ?_ rfl rfl
  rw [List.length_take]
  omega

/-- A payload of one octet is a protocol error. -/
theorem Session.GotClose.wp_short (hf : env.NoFault) (hp : payload.length = 1) :
    wp (handleCloseFrame env) (fun _ => s.Replied env 1002 []) (fun _ _ => False) s := by
  have h1 : s.closeReceived.rx.ctrlLen = 1 := by
    rw [Session.closeReceived, h.ctrlLen, hp]
  rw [handleCloseFrame, wp_bind, wp_modify, wp_bind, wp_get, if_neg (by omega),
    if_pos (by omega), wp_bind, wp_modify, wp_bind]
  have hreplying : s.Replying { s.closeReceived with
      cl.serverCloseStatus := .statusCodeExpected1005 } :=
    ⟨h.bev, h.sendState, h.unsent, rfl, rfl⟩
  exact wp_mono (hreplying.wp_close hf (by decide) (by decide) (by decide))
    (fun _ _ hs => hs) fun _ _ hs => hs

variable {b0 b1 : UInt8} {reason : Bytes}

/-- The status and the reason are read off the payload; the NUL goes behind it. -/
theorem Session.GotClose.statusRead (hp : payload = b0 :: b1 :: reason)
    (hlen : payload.length ≤ 124) :
    s.closeReceived.closeStatusRead.cl.serverCloseStatus = ⟨statusOf b0 b1⟩ ∧
      serverReasonBytes env s.closeReceived.closeStatusRead = reason := by
  have hpay := h.ctrlPayload
  have harr := h.array
  have hctrl := h.ctrlLen
  have htwo : s.rx.ctrlPayload.take 2 = [b0, b1] := by
    have hcut := congrArg (List.take 2) hpay
    rw [List.take_take, Nat.min_eq_left (by rw [hp]; simp), hp] at hcut
    exact hcut
  constructor
  · rw [Session.closeStatusRead, Session.closeReceived]
    simp only [htwo, htons_status]
  · have hpos : 2 + (s.rx.ctrlLen - 2) = payload.length := by
      rw [hctrl, hp]
      simp
      omega
    have hkeep : s.closeReceived.closeStatusRead.rx.ctrlPayload.take payload.length = payload := by
      rw [Session.closeStatusRead, Session.closeReceived]
      simp only [Receiver.writeCtrl, hpos]
      rw [List.take_take, Nat.min_eq_left (by rw [WS_CONTROL_MAX_PAYLOAD_LEN]; omega),
        List.append_assoc, List.take_append_of_le_length, List.take_take, Nat.min_self, hpay]
      rw [List.length_take, harr, WS_CONTROL_MAX_PAYLOAD_LEN]
      omega
    have hdrop : serverReasonBytes env s.closeReceived.closeStatusRead =
        (s.closeReceived.closeStatusRead.rx.ctrlPayload.drop 2).take (payload.length - 2) := by
      rw [← hctrl]
      rfl
    rw [hdrop, ← List.drop_take, hkeep, hp]
    rfl

/-- A payload with a status is answered by the status, the text check and the echo. -/
theorem Session.GotClose.wp_status (hf : env.NoFault) (hp : payload = b0 :: b1 :: reason)
    (hlen : payload.length ≤ 123) :
    wp (handleCloseFrame env)
      (fun _ => s.Replied env
        (if WSCloseStatus.peerValid ⟨statusOf b0 b1⟩ = false then 1002
          else if validateUtf8 WS_UTF8_ACCEPT reason = WS_UTF8_REJECT then 1007
          else statusOf b0 b1)
        (if WSCloseStatus.peerValid ⟨statusOf b0 b1⟩ = false then []
          else if validateUtf8 WS_UTF8_ACCEPT reason = WS_UTF8_REJECT then []
          else reason))
      (fun _ _ => False) s := by
  obtain ⟨hstatus, hreason⟩ :=
    @Session.GotClose.statusRead env s payload h b0 b1 reason hp (by omega)
  have hctrl : s.closeReceived.rx.ctrlLen = payload.length := h.ctrlLen
  have hlong : 2 ≤ payload.length := by
    rw [hp]
    simp
  have hreplying : s.Replying s.closeReceived.closeStatusRead :=
    ⟨h.bev, h.sendState, h.unsent, rfl, rfl⟩
  rw [handleCloseFrame, wp_bind, wp_modify, wp_bind, wp_get, if_neg (by omega),
    if_neg (by omega), wp_bind, wp_modify, wp_bind, wp_get, hstatus]
  by_cases hv : WSCloseStatus.peerValid ⟨statusOf b0 b1⟩ = false
  · rw [if_pos hv, if_pos hv, if_pos hv, wp_bind]
    exact wp_mono (hreplying.wp_close hf (by decide) (by decide) (by decide))
      (fun _ _ hs => hs) fun _ _ hs => hs
  rw [if_neg hv, if_neg hv, if_neg hv, wp_bind, wp_modify, wp_bind, wp_get]
  simp only [hreason]
  have hchecked : s.Replying { s.closeReceived.closeStatusRead with
      rx.utf8State := validateUtf8 WS_UTF8_ACCEPT reason } :=
    ⟨h.bev, h.sendState, h.unsent, rfl, rfl⟩
  by_cases ht : validateUtf8 WS_UTF8_ACCEPT reason = WS_UTF8_REJECT
  · rw [if_pos ht, if_pos ht, if_pos ht, wp_bind]
    exact wp_mono (hchecked.wp_close hf (by decide) (by decide) (by decide))
      (fun _ _ hs => hs) fun _ _ hs => hs
  · rw [if_neg ht, if_neg ht, if_neg ht]
    refine hchecked.wp_echo hf (statusOf_lt b0 b1)
      (WSCloseStatus.notUsed_of_peerValid (eq_true_of_ne_false hv)) ?_ hstatus hreason
    rw [hp, List.length_cons, List.length_cons] at hlen
    omega

end Arrived

/-! ## When the reply is the one called for -/

private theorem Session.Replied.repliesToClose {payload : Bytes} {code : Nat} {reason : Bytes}
    (hw : wp (handleCloseFrame env) (fun _ => s.Replied env code reason) (fun _ _ => False) s)
    (hr : CloseReply payload code reason) : RepliesToClose env s payload := by
  obtain ⟨rc, s', hs', h⟩ := exists_ok_of_wp hw
  exact ⟨code, reason, wholeFrame (env.key s.io.randPos) .close (closeBody code reason), rc, s', hr,
    hs', rfl, rfl, payload_wholeFrame _ _ _, h.output, h.sentCloseFlag, h.receivedCloseFlag,
    h.state⟩

/-- A reply with a longer reason than the one called for is another reply. -/
theorem Session.Replied.length_eq {payload : Bytes} {code : Nat} {reason : Bytes}
    (hw : wp (handleCloseFrame env) (fun _ => s.Replied env code reason) (fun _ _ => False) s)
    (h : RepliesToClose env s payload) :
    ∃ code' reason', CloseReply payload code' reason' ∧ reason'.length = reason.length := by
  obtain ⟨code', reason', f, rc, s', hr, hs', -, -, hpay, hout, -⟩ := h
  have hreplied := (wp_of_eq_ok hs').mp hw
  refine ⟨code', reason', hr, ?_⟩
  rw [hreplied.output, List.append_cancel_left_eq] at hout
  have hlen := congrArg List.length hout
  rw [length_encode, length_encode, payload_wholeFrame, hpay] at hlen
  simp only [closeBody, List.length_cons] at hlen
  omega

/-- A reason that is too long is not sent. -/
theorem wp_close_tooLong {u : Session} (hunsent : u.cl.sentCloseFlag = false)
    {status : WSCloseStatus} {reason : Bytes}
    (hlong : WS_CONTROL_MAX_PAYLOAD_LEN < reason.length + 2) :
    wp (closeWithStatusReason env status reason) (fun _ u' => u'.io = u.io) (fun _ _ => False)
      u := by
  have hrefused : sendClose env status reason { u with cl.state := .closing } =
      .ok (-1) { u with cl.state := .closing } := by
    rw [sendClose]
    split_ifs <;> rfl
  rw [closeWithStatusReason, wp_bind, wp_modify, wp_bind, sendCloseOnce, wp_bind, wp_get,
    if_neg (by rw [hunsent]; decide), wp_of_eq_ok hrefused, if_pos (by decide)]
  rfl

private theorem Session.GotClose.not_repliesToClose {payload : Bytes} (h : s.GotClose payload)
    (hp : payload = []) (hlen : 123 < s.cl.serverReasonLen) : ¬ RepliesToClose env s payload := by
  rintro ⟨code, reason, f, rc, s', -, hs', -, -, -, hout, -⟩
  have h0 : s.closeReceived.rx.ctrlLen = 0 := by
    rw [Session.closeReceived, h.ctrlLen, hp]
    rfl
  have hreason : (serverReasonBytes env s.closeReceived).length = s.cl.serverReasonLen := by
    change ((0 :: (List.range s.cl.serverReasonLen).map env.pastLiteral).take
      s.cl.serverReasonLen).length = _
    rw [List.length_take, List.length_cons, List.length_map, List.length_range]
    omega
  have hw : wp (handleCloseFrame env) (fun _ u => u.io = s.io) (fun _ _ => False) s := by
    rw [handleCloseFrame, wp_bind, wp_modify, wp_bind, wp_get, if_pos h0, echoClose, wp_bind,
      wp_get, if_neg (by rw [h.replying.unsent]; decide)]
    refine wp_close_tooLong h.replying.unsent ?_
    rw [hreason, WS_CONTROL_MAX_PAYLOAD_LEN]
    omega
  have hsame := (wp_of_eq_ok hs').mp hw
  rw [Session.output, Session.output, hsame] at hout
  have hne := congrArg List.length hout
  rw [List.length_append, length_encode] at hne
  omega

/-- An empty Close frame is answered rightly when no reason length was left behind. -/
theorem Session.GotClose.empty_iff (hf : env.NoFault) (h : s.GotClose []) :
    RepliesToClose env s [] ↔ s.cl.serverReasonLen = 0 := by
  constructor
  · intro hr
    by_cases hlen : 123 < s.cl.serverReasonLen
    · exact absurd hr (h.not_repliesToClose rfl hlen)
    · obtain ⟨code, reason, hreply, heq⟩ :=
        Session.Replied.length_eq (h.wp_empty hf rfl (by omega)) hr
      cases hreply
      rw [List.length_nil, List.length_take, List.length_cons, List.length_map,
        List.length_range] at heq
      omega
  · intro hlen
    have hw := h.wp_empty hf rfl (by omega)
    rw [hlen, List.take_zero] at hw
    exact Session.Replied.repliesToClose hw .empty

theorem validateUtf8_reject_or_cut {reason : Bytes} (hv : ¬ ValidUtf8 reason) :
    validateUtf8 WS_UTF8_ACCEPT reason = WS_UTF8_REJECT ↔ ¬ CutText reason := by
  rw [validateUtf8_eq_reject, CutText, not_and, not_exists]
  exact ⟨fun h _ => h, fun h => h hv⟩

/-- A Close frame with a status is answered rightly unless its reason is cut. -/
theorem Session.GotClose.status_iff (hf : env.NoFault) {b0 b1 : UInt8} {reason : Bytes}
    (hp : (b0 :: b1 :: reason).length ≤ 123) (h : s.GotClose (b0 :: b1 :: reason)) :
    RepliesToClose env s (b0 :: b1 :: reason) ↔
      (WSCloseStatus.peerValid ⟨statusOf b0 b1⟩ = true → ¬ CutText reason) := by
  have hw := h.wp_status hf rfl hp
  by_cases hs : WSCloseStatus.peerValid ⟨statusOf b0 b1⟩ = false
  · rw [if_pos hs, if_pos hs] at hw
    refine iff_of_true (Session.Replied.repliesToClose hw (.status hs)) fun ht => ?_
    rw [hs] at ht
    cases ht
  rw [if_neg hs, if_neg hs] at hw
  have hs' := eq_true_of_ne_false hs
  by_cases hv : ValidUtf8 reason
  · have haccept := (validateUtf8_iff reason).mpr hv
    rw [haccept, if_neg (by decide), if_neg (by decide)] at hw
    exact iff_of_true (Session.Replied.repliesToClose hw (.echo hs' hv)) fun _ hcut => hcut.1 hv
  by_cases ht : validateUtf8 WS_UTF8_ACCEPT reason = WS_UTF8_REJECT
  · rw [if_pos ht, if_pos ht] at hw
    exact iff_of_true (Session.Replied.repliesToClose hw (.text hs' hv))
      fun _ => (validateUtf8_reject_or_cut hv).mp ht
  · rw [if_neg ht, if_neg ht] at hw
    refine iff_of_false (fun hr => ?_) fun hcut =>
      ht ((validateUtf8_reject_or_cut hv).mpr (hcut hs'))
    obtain ⟨code', reason', hreply, heq⟩ := Session.Replied.length_eq hw hr
    cases hreply with
    | status hbad => exact hs hbad
    | text => exact hv ⟨[], List.length_eq_zero_iff.mp heq.symm⟩
    | echo _ hv' => exact hv hv'

/-- A Close frame gets the reply it calls for exactly when its reason does not end inside a
character and, if it is empty, no reason length was left behind. -/
theorem repliesToClose_iff (hf : env.NoFault) {payload : Bytes} (hp : payload.length ≤ 123)
    (h : s.GotClose payload) :
    RepliesToClose env s payload ↔
      (payload = [] → s.cl.serverReasonLen = 0) ∧
        ∀ b0 b1 reason, payload = b0 :: b1 :: reason →
          WSCloseStatus.peerValid ⟨statusOf b0 b1⟩ = true → ¬ CutText reason := by
  rcases payload with _ | ⟨b0, _ | ⟨b1, reason⟩⟩
  · rw [h.empty_iff hf]
    exact ⟨fun hlen => ⟨fun _ => hlen, by simp⟩, fun hc => hc.1 rfl⟩
  · exact iff_of_true (Session.Replied.repliesToClose (h.wp_short hf rfl) (.short b0))
      ⟨by simp, by simp⟩
  · rw [h.status_iff hf hp]
    constructor
    · intro hcut
      refine ⟨by simp, fun c0 c1 r heq => ?_⟩
      cases heq
      exact hcut
    · exact fun hc => hc.2 b0 b1 reason rfl

/-- A connected session with a Close payload in its buffer. -/
def gotClose (payload : Bytes) : Session :=
  { bev := some {}, cl.state := .connected
    rx.ctrlLen := payload.length
    rx.ctrlPayload := payload ++ List.replicate (125 - payload.length) 0 }

private theorem gotClose_gotClose {payload : Bytes} (hp : payload.length ≤ 125) :
    (gotClose payload).GotClose payload where
  bev := by simp [gotClose]
  state := rfl
  sendState := rfl
  unsent := rfl
  ctrlLen := rfl
  ctrlPayload := List.take_left
  array := by
    rw [gotClose, List.length_append, List.length_replicate, WS_CONTROL_MAX_PAYLOAD_LEN]
    omega

/-- The status 1000 with the reason "bye" is echoed. -/
theorem repliesToClose_bye :
    RepliesToClose {} (gotClose [0x03, 0xE8, 0x62, 0x79, 0x65]) [0x03, 0xE8, 0x62, 0x79, 0x65] := by
  refine (repliesToClose_iff (fun _ => rfl) (by decide) (gotClose_gotClose (by decide))).mpr
    ⟨by simp, fun b0 b1 reason heq _ => ?_⟩
  cases heq
  exact fun hcut => hcut.1 ((validateUtf8_iff _).mp (by decide))

/-- A reason that ends behind the first octet of a character is echoed. -/
theorem cut_reason_not_replied :
    ¬ ∀ (env : Env) (s : Session) (payload : Bytes), env.NoFault → payload.length ≤ 123 →
      s.GotClose payload → RepliesToClose env s payload := by
  intro hall
  have hr := hall {} (gotClose [0x03, 0xE8, 0xC3]) [0x03, 0xE8, 0xC3] (fun _ => rfl) (by decide)
    (gotClose_gotClose (by decide))
  have hcut := ((gotClose_gotClose (by decide)).status_iff (fun _ => rfl) (by decide)).mp hr
    (by decide)
  have hreject := (validateUtf8_reject_or_cut fun hv =>
    absurd ((validateUtf8_iff [0xC3]).mpr hv) (by decide)).mpr hcut
  exact absurd hreject (by decide)

end CppImprovement.Ws

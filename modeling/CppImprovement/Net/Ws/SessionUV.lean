import CppImprovement.Net.Http.ResponseParser
import CppImprovement.Net.Ws.Outgoing

/-!
# The libuv WebSocket session

The other back end of the WebSocket client. `SessionImplUV` resolves and connects, sends the
upgrade request, and feeds every read to `http_parser`. It has the sending functions of
`SessionImplEV` for unfragmented messages, without the write of the payload, and calls
`connect_handler_` after every read that the parser takes whole, whatever the parser has seen.
-/

namespace CppImprovement.Ws

open Http (HttpParser Callback Phase Request Url Header)

/-! ## State -/

/-- The fields of a `Response` that the callbacks of the parser set. -/
structure Response where
  statusCode : Int := 0
  status : Bytes := []
  header : Header := OrderedMap.empty

/-- `SessionImplUV`; of `connect_handler_`, whether it holds a function. -/
structure SessionImplUV (P : HttpParser) where
  field : Bytes := []
  request : Request
  response : Response := {}
  connectHandler : Bool := false
  sendState : WSSendState := .none
  wsHeader : WSHeader := WSHeader.zero
  maxFrameSize : Nat := 0
  parser : P.State
  phase : Phase := .idle

/-- What a step shows: bytes given to `uv_write`, a callback of the parser, and a call of
`connect_handler_`. -/
inductive UvOutput
  | wrote (data : Bytes)
  | reported (callback : Callback)
  | connected
deriving DecidableEq

/-- The bytes that an output hands to the socket. -/
def UvOutput.bytes : UvOutput → Bytes
  | .wrote data => data
  | _ => []

/-- The callback of the parser that an output shows. -/
def UvOutput.callback : UvOutput → Option Callback
  | .reported c => some c
  | _ => none

/-- A message that a handler sends, with the masking key that is drawn for it, if any. -/
structure UvMessage where
  msg : Bytes
  key : Option Mask

/-- An `OnRead` event, with what the connect handler sends if it is called. -/
structure UvRead where
  nread : Int
  buf : Bytes
  sends : List UvMessage := []

/-- The data of an `OnRead` event, if it brings any. -/
def UvRead.data (read : UvRead) : Option Bytes :=
  if 0 < read.nread then some (read.buf.take read.nread.toNat) else none

/-- A call of the interface, or a callback of libuv with its outcome. -/
inductive UvStep
  | setUrl (url : Url)
  | setHandler (handler : Bool)
  | doConnect (result : Int)
  | onResolved (status connect : Int)
  | onConnect (status : Int)
  | onRead (read : UvRead)

/-- What a sending function leaves: its result, the caller's buffer, what it has shown and the
session. -/
structure UvSent (P : HttpParser) where
  result : Int
  buffer : Bytes
  outputs : List UvOutput
  session : SessionImplUV P

namespace SessionImplUV

variable {P : HttpParser}

/-- `DoInit` of a new session. -/
def doInit (P : HttpParser) : SessionImplUV P where
  request :=
    { Request.create 0 with
      method := ascii "GET"
      header := (((OrderedMap.empty.insertOrAssign (ascii "Upgrade") (ascii "websocket")
        ).insertOrAssign (ascii "Connection") (ascii "upgrade")
        ).insertOrAssign (ascii "Sec-WebSocket-Key") (ascii "dGhlIHNhbXBsZSBub25jZQ==")
        ).insertOrAssign (ascii "Sec-WebSocket-Version") (ascii "13") }
  parser := P.init

/-! ## Sending -/

/-- `Write`, which ignores the result of `uv_write`. -/
def write (data : Bytes) : List UvOutput := [.wrote data]

/-- `SendFrameRaw`: the payload is masked in place, but its write is commented out. -/
def sendFrameRaw (s : SessionImplUV P) (opcode : WSOpcode) (data : Bytes) (key : Option Mask) :
    UvSent P :=
  if s.sendState ≠ .none then ⟨-1, data, [], s⟩
  else if isControlOpcode opcode = true ∧ 125 < data.length then ⟨-1, data, [], s⟩
  else
    let s₁ := { s with wsHeader := { WSHeader.zero with fin := true, opcode := opcode } }
    if WS_MAX_PAYLOAD_LEN < data.length then ⟨-1, data, [], s₁⟩
    else
      let s₂ :=
        { s₁ with wsHeader := { s₁.wsHeader with maskBit := true }.setPayloadLen data.length }
      match key with
      | none => ⟨-1, data, [], s₂⟩
      | some mask =>
        let s₃ := { s₂ with wsHeader := { s₂.wsHeader with mask := mask } }
        ⟨0, maskPayload mask data, write (packHeader s₃.wsHeader).1, s₃⟩

/-- `SendMsgEx`: a message that does not fit the frame size is dropped. -/
def sendMsgEx (s : SessionImplUV P) (msg : Bytes) (binary : Bool) (key : Option Mask) :
    UvSent P :=
  if msg.length ≤ s.maxFrameSize ∨ s.maxFrameSize = 0 then
    s.sendFrameRaw (if binary then .binary else .text) msg key
  else ⟨0, msg, [], s⟩

/-- `DoSendMsg`. -/
def doSendMsg (s : SessionImplUV P) (msg : Bytes) (key : Option Mask) : UvSent P :=
  s.sendMsgEx msg false key

/-- The messages of a handler, in turn. -/
def sendAll (s : SessionImplUV P) : List UvMessage → List UvOutput × SessionImplUV P
  | [] => ([], s)
  | m :: ms =>
    let r := s.doSendMsg m.msg m.key
    let q := r.session.sendAll ms
    (r.outputs ++ q.1, q.2)

/-! ## The callbacks of the parser -/

/-- `OnHttpParserStatus`. -/
def onHttpParserStatus (s : SessionImplUV P) (code : Nat) (text : Bytes) : SessionImplUV P :=
  { s with response := { s.response with status := text, statusCode := code } }

/-- `OnHttpParserHeaderField`. -/
def onHttpParserHeaderField (s : SessionImplUV P) (text : Bytes) : SessionImplUV P :=
  { s with field := text }

/-- `OnHttpParserHeaderValue`: `insert_or_assign` moves from `field_` only when it inserts. -/
def onHttpParserHeaderValue (s : SessionImplUV P) (text : Bytes) : SessionImplUV P :=
  { s with
    response := { s.response with header := s.response.header.insertOrAssign s.field text }
    field := if s.response.header.contains s.field then s.field else [] }

/-- The callback the settings name; those for the body and for the ends do nothing. -/
def onCallback (s : SessionImplUV P) : Callback → SessionImplUV P
  | .status code text => s.onHttpParserStatus code text
  | .headerField text => s.onHttpParserHeaderField text
  | .headerValue text => s.onHttpParserHeaderValue text
  | .headersComplete | .body _ | .messageComplete => s

/-- The session after a call of `http_parser_execute`. -/
def parsed (s : SessionImplUV P) (data : Bytes) : SessionImplUV P :=
  let r := P.execute s.parser data
  { r.callbacks.foldl onCallback s with parser := r.parser }

/-! ## The calls and the callbacks of libuv -/

/-- `SetUrl`. -/
def setUrl (s : SessionImplUV P) (url : Url) : SessionImplUV P :=
  { s with request := { s.request with url := P.splitUrl url } }

/-- `DoConnect` and `Resolve`: a call of `uv_getaddrinfo` that fails leaves libuv with nothing
to do. -/
def doConnect (s : SessionImplUV P) (result : Int) : SessionImplUV P :=
  { s with phase := if result = 0 then .resolving else .failed }

/-- `OnResolved` and `Connect`; the result of `uv_tcp_connect` is ignored. -/
def onResolved (s : SessionImplUV P) (status connect : Int) : SessionImplUV P :=
  { s with phase := if status < 0 ∨ connect < 0 then .failed else .connecting }

/-- `DoHandshake`. -/
def doHandshake (s : SessionImplUV P) : List UvOutput × SessionImplUV P :=
  if s.request.method ≠ ascii "GET" then ([], { s with phase := .aborted })
  else
    let url := s.request.url
    let origin := ascii "http://" ++ cstr url.host ++ ascii ":" ++ ascii (toString url.port)
    let header := s.request.header.insertOrAssign (ascii "Origin") origin
    let request := { s.request with header := header }.preparePayload
    (write request.raw, { s with request := request })

/-- `OnConnect`. The status is ignored, but libuv neither reads from nor writes to a socket
that is not connected. -/
def onConnect (s : SessionImplUV P) (status : Int) : List UvOutput × SessionImplUV P :=
  let r := { s with phase := if status < 0 then .failed else .reading }.doHandshake
  if status < 0 then ([], r.2) else r

/-- The call of `connect_handler_`, which does nothing when it holds no function. -/
def callConnectHandler (s : SessionImplUV P) (sends : List UvMessage) :
    List UvOutput × SessionImplUV P :=
  let r := if s.connectHandler then s.sendAll sends else ([], s)
  (.connected :: r.1, r.2)

/-- `OnRead`. -/
def onRead (s : SessionImplUV P) (read : UvRead) : List UvOutput × SessionImplUV P :=
  if 0 < read.nread then
    let data := read.buf.take read.nread.toNat
    let r := P.execute s.parser data
    let reports := r.callbacks.map UvOutput.reported
    if r.nparsed ≠ data.length then (reports, { s.parsed data with phase := .aborted })
    else
      let q := (s.parsed data).callConnectHandler read.sends
      (reports ++ q.1, q.2)
  else ([], { s with phase := .closed })

/-- One step; libuv calls back only for the phase it is in. -/
def step : UvStep → SessionImplUV P → Option (List UvOutput × SessionImplUV P)
  | .setUrl url, s => if s.phase.atRest then some ([], s.setUrl url) else none
  | .setHandler handler, s =>
    if s.phase.atRest then some ([], { s with connectHandler := handler }) else none
  | .doConnect result, s => if s.phase.atRest then some ([], s.doConnect result) else none
  | .onResolved status connect, s =>
    if s.phase = .resolving then some ([], s.onResolved status connect) else none
  | .onConnect status, s => if s.phase = .connecting then some (s.onConnect status) else none
  | .onRead read, s =>
    if s.phase = .reading ∧ read.nread ≤ read.buf.length then some (s.onRead read) else none

/-! ## The bytes of a message -/

/-- A message that `SendFrameRaw` accepts leaves as its header alone. -/
theorem doSendMsg_ok {s : SessionImplUV P} (hs : s.sendState = .none) {msg : Bytes}
    (hfit : msg.length ≤ s.maxFrameSize ∨ s.maxFrameSize = 0)
    (hlen : msg.length ≤ WS_MAX_PAYLOAD_LEN) (env : Env) (pos : Nat) :
    (s.doSendMsg msg (some (env.key pos))).result = 0 ∧
      (s.doSendMsg msg (some (env.key pos))).outputs =
        [.wrote (packHeader (sentHeader env pos .text msg.length)).1] := by
  have htext : ¬ (isControlOpcode .text = true ∧ 125 < msg.length) :=
    fun h => absurd h.1 (by decide)
  rw [doSendMsg, sendMsgEx, if_pos hfit, if_neg Bool.false_ne_true, sendFrameRaw,
    if_neg (not_not.mpr hs), if_neg htext, if_neg (not_lt.mpr hlen)]
  exact ⟨rfl, rfl⟩

/-- Both back ends send a message, and write the same bytes for it. The libuv session draws the
key that the libevent session draws. -/
def SendsAlike (env : Env) (s : Session) (t : SessionImplUV P) (msg : Bytes) : Prop :=
  let sent := t.doSendMsg msg (some (env.key s.io.randPos))
  ∃ buf s', Ws.doSendMsg env msg s = .ok (0, buf) s' ∧ sent.result = 0 ∧
    s'.output = s.output ++ sent.outputs.flatMap UvOutput.bytes

/-- The two back ends agree on the empty message alone. -/
theorem sendsAlike_iff {env : Env} {s : Session} {t : SessionImplUV P} (hf : env.NoFault)
    (hb : s.bev ≠ none) (hc : s.cl.state = .connected) (hs : s.tx.sendState = .none)
    (ht : t.sendState = .none) (hmax : t.maxFrameSize = s.tx.maxFrameSize) {msg : Bytes}
    (hfit : msg.length ≤ s.tx.maxFrameSize ∨ s.tx.maxFrameSize = 0) :
    SendsAlike env s t msg ↔ msg = [] := by
  have htext : isControlOpcode .text = true → msg.length ≤ 125 := fun h => absurd h (by decide)
  have hwhole : Ws.doSendMsg env msg s = Ws.sendFrameRaw env .text msg s :=
    sendMsgEx_whole hc false hfit
  by_cases hlen : msg.length ≤ WS_MAX_PAYLOAD_LEN
  · have hev := hwhole.trans (sendFrameRaw_ok hf hb hs htext hlen)
    obtain ⟨hres, houts⟩ := doSendMsg_ok ht (hmax.symm ▸ hfit) hlen env s.io.randPos
    have hout : (s.sentFrame env .text msg).output =
        s.output ++ ((packHeader (sentHeader env s.io.randPos .text msg.length)).1 ++
          maskPayload (env.key s.io.randPos) msg) := by
      simp [Session.output, Session.sentFrame, sentEvents, Event.bytes]
    have huv : (t.doSendMsg msg (some (env.key s.io.randPos))).outputs.flatMap UvOutput.bytes =
        (packHeader (sentHeader env s.io.randPos .text msg.length)).1 := by
      rw [houts, List.flatMap_singleton, UvOutput.bytes]
    constructor
    · rintro ⟨buf, s', hok, -, heq⟩
      obtain ⟨-, rfl⟩ := EStateM.Result.ok.inj (hev.symm.trans hok)
      rw [hout, huv, List.append_cancel_left_eq] at heq
      have hdata := congrArg List.length heq
      rw [List.length_append, length_maskPayload] at hdata
      exact List.length_eq_zero_iff.mp (by omega)
    · rintro rfl
      refine ⟨_, _, hev, hres, ?_⟩
      rw [hout, huv]
      rfl
  · constructor
    · rintro ⟨buf, s', hok, -⟩
      rw [hwhole, sendFrameRaw_tooLong hs rfl (not_le.mp hlen)] at hok
      cases hok
    · rintro rfl
      exact absurd (Nat.zero_le _) hlen

/-- A connected libevent session. -/
def onLibevent : Session := { bev := some {}, cl.state := .connected }

theorem sendsAlike_empty : SendsAlike {} onLibevent (doInit Http.ResponseParser.parser) [] :=
  (sendsAlike_iff (fun _ => rfl) (by decide) rfl rfl rfl rfl (Or.inr rfl)).mpr rfl

/-- The payload of a greeting never leaves through libuv. -/
theorem not_sendsAlike_hello :
    ¬ ∀ (P : HttpParser) (env : Env) (s : Session) (t : SessionImplUV P) (msg : Bytes),
      env.NoFault → s.bev ≠ none → s.cl.state = .connected → s.tx.sendState = .none →
      t.sendState = .none → t.maxFrameSize = s.tx.maxFrameSize →
      msg.length ≤ s.tx.maxFrameSize ∨ s.tx.maxFrameSize = 0 → SendsAlike env s t msg := by
  intro h
  obtain ⟨buf, s', hok, -, hout⟩ := h Http.ResponseParser.parser {} onLibevent (doInit _)
    (ascii "hello") (fun _ => rfl) (by decide) rfl rfl rfl rfl (Or.inr rfl)
  cases hok
  exact absurd hout (by decide)

/-! ## Reports of a connection -/

/-- The parser has reported the end of a head whose status line has the code. -/
def HeadParsed (code : Nat) (callbacks : List Callback) : Prop :=
  ∃ before text fields after,
    callbacks = before ++ .status code text :: fields ++ .headersComplete :: after ∧
      ∀ code' text', .status code' text' ∉ fields

/-- On one connection `connect_handler_` is called at most once, and not before the parser has
seen a complete head with status 101. -/
structure ReportsConnection (tr : List UvOutput) : Prop where
  once : tr.count .connected ≤ 1
  head : ∀ before after, tr = before ++ .connected :: after →
    HeadParsed 101 (before.filterMap UvOutput.callback)

/-- The parser takes a read whole. -/
def Takes (P : HttpParser) (p : P.State) (data : Bytes) : Prop :=
  (P.execute p data).nparsed = data.length

/-- The first read, if the parser takes it whole, brings a complete head with status 101, and the
parser does not take a second one whole. -/
def Prompt (P : HttpParser) (p : P.State) : List Bytes → Prop
  | [] => True
  | data :: reads =>
    Takes P p data → HeadParsed 101 (P.execute p data).callbacks ∧
      ∀ data' ∈ reads.head?, ¬ Takes P (P.execute p data).parser data'

section reports

variable {s t u : SessionImplUV P} {o tr : List UvOutput} {read : UvRead}

private theorem sendFrameRaw_frame (s : SessionImplUV P) (opcode : WSOpcode) (data : Bytes)
    (key : Option Mask) :
    (∃ h, (s.sendFrameRaw opcode data key).session = { s with wsHeader := h }) ∧
      .connected ∉ (s.sendFrameRaw opcode data key).outputs := by
  rw [sendFrameRaw]
  split_ifs
  · exact ⟨⟨_, rfl⟩, List.not_mem_nil⟩
  · exact ⟨⟨_, rfl⟩, List.not_mem_nil⟩
  · exact ⟨⟨_, rfl⟩, List.not_mem_nil⟩
  · cases key with
    | none => exact ⟨⟨_, rfl⟩, List.not_mem_nil⟩
    | some mask => exact ⟨⟨_, rfl⟩, by simp [write]⟩

/-- Sending a message changes the frame header alone, and shows writes alone. -/
theorem doSendMsg_frame (s : SessionImplUV P) (msg : Bytes) (key : Option Mask) :
    (∃ h, (s.doSendMsg msg key).session = { s with wsHeader := h }) ∧
      .connected ∉ (s.doSendMsg msg key).outputs := by
  rw [doSendMsg, sendMsgEx]
  by_cases hfit : msg.length ≤ s.maxFrameSize ∨ s.maxFrameSize = 0
  · rw [if_pos hfit]
    exact s.sendFrameRaw_frame _ msg key
  · rw [if_neg hfit]
    exact ⟨⟨_, rfl⟩, List.not_mem_nil⟩

private theorem sendAll_frame (s : SessionImplUV P) (sends : List UvMessage) :
    (∃ h, (s.sendAll sends).2 = { s with wsHeader := h }) ∧
      .connected ∉ (s.sendAll sends).1 := by
  induction sends generalizing s with
  | nil => exact ⟨⟨_, rfl⟩, List.not_mem_nil⟩
  | cons m ms ih =>
    obtain ⟨⟨h, hs⟩, hout⟩ := s.doSendMsg_frame m.msg m.key
    obtain ⟨⟨h', hs'⟩, hout'⟩ := ih (s.doSendMsg m.msg m.key).session
    refine ⟨⟨h', hs'.trans ?_⟩, ?_⟩
    · rw [hs]
    · rw [sendAll, List.mem_append]
      exact fun hmem => hmem.elim hout hout'

/-- What an `OnRead` event does: it ends the connection, it ends the process, or it shows what the
parser reports and then one call of `connect_handler_`. -/
inductive ReadOutcome (s : SessionImplUV P) (read : UvRead) :
    List UvOutput → SessionImplUV P → Prop
  | ended {t : SessionImplUV P} (hdata : read.data = none) (ht : t.phase = .closed) :
      ReadOutcome s read [] t
  | refused {data : Bytes} {t : SessionImplUV P} (hdata : read.data = some data)
      (hrefuse : ¬ Takes P s.parser data) (ht : t.phase = .aborted) :
      ReadOutcome s read ((P.execute s.parser data).callbacks.map .reported) t
  | taken {data : Bytes} {sent : List UvOutput} {t : SessionImplUV P}
      (hdata : read.data = some data) (htake : Takes P s.parser data)
      (hsent : .connected ∉ sent) (hp : t.parser = (P.execute s.parser data).parser) :
      ReadOutcome s read
        ((P.execute s.parser data).callbacks.map .reported ++ .connected :: sent) t

private theorem callConnectHandler_frame (s : SessionImplUV P) (sends : List UvMessage) :
    ∃ sent h, s.callConnectHandler sends = (.connected :: sent, { s with wsHeader := h }) ∧
      .connected ∉ sent := by
  rw [callConnectHandler]
  by_cases hset : s.connectHandler = true
  · obtain ⟨⟨h, hs⟩, hsent⟩ := s.sendAll_frame sends
    rw [if_pos hset]
    exact ⟨_, h, by rw [hs], hsent⟩
  · rw [if_neg hset]
    exact ⟨[], s.wsHeader, rfl, List.not_mem_nil⟩

/-- An `OnRead` event comes while libuv reads, and has one of the outcomes. -/
theorem step_onRead (h : step (.onRead read) s = some (o, t)) :
    s.phase = .reading ∧ ReadOutcome s read o t := by
  rw [step] at h
  split_ifs at h with hguard
  refine ⟨hguard.1, ?_⟩
  have hr : s.onRead read = (o, t) := Option.some.inj h
  rw [onRead] at hr
  by_cases hpos : 0 < read.nread
  · have hdata : read.data = some (read.buf.take read.nread.toNat) := if_pos hpos
    rw [if_pos hpos] at hr
    generalize read.buf.take read.nread.toNat = data at hdata hr
    dsimp only at hr
    by_cases htake : (P.execute s.parser data).nparsed = data.length
    · obtain ⟨sent, hd, hcall, hsent⟩ := (s.parsed data).callConnectHandler_frame read.sends
      rw [if_neg (not_not.mpr htake), hcall] at hr
      cases hr
      exact .taken hdata htake hsent rfl
    · rw [if_pos htake] at hr
      cases hr
      exact .refused hdata htake rfl
  · rw [if_neg hpos] at hr
    cases hr
    exact .ended (if_neg hpos) rfl

/-- A run of `OnRead` events that goes on after one of them has found libuv reading. -/
theorem reads_stop {reads : List UvRead} (hs : s.phase ≠ .reading)
    (h : exec step (reads.map .onRead) s = some (tr, t)) : reads = [] ∧ tr = [] := by
  cases reads with
  | nil =>
    cases h
    exact ⟨rfl, rfl⟩
  | cons read reads =>
    obtain ⟨o, u, tr', hi, -⟩ := exec_cons_eq_some.mp h
    exact absurd (step_onRead hi).1 hs

private theorem not_connected_mem_reported (callbacks : List Callback) :
    UvOutput.connected ∉ callbacks.map UvOutput.reported := by
  simp

private theorem filterMap_callback_reported (callbacks : List Callback) :
    (callbacks.map UvOutput.reported).filterMap UvOutput.callback = callbacks := by
  rw [List.filterMap_map]
  exact List.filterMap_some

/-- Where `connect_handler_` is never called, nothing is reported. -/
theorem ReportsConnection.of_not_mem (h : .connected ∉ tr) : ReportsConnection tr where
  once := by rw [List.count_eq_zero_of_not_mem h]; exact Nat.zero_le 1
  head := by
    rintro before after rfl
    exact absurd (List.mem_append_right before List.mem_cons_self) h

/-- A first call of `connect_handler_` has to come after the head, and has to be the last. -/
theorem reportsConnection_append {before after : List UvOutput} (hb : .connected ∉ before) :
    ReportsConnection (before ++ .connected :: after) ↔
      HeadParsed 101 (before.filterMap UvOutput.callback) ∧ .connected ∉ after := by
  have hcount : (before ++ UvOutput.connected :: after).count .connected =
      after.count .connected + 1 := by
    rw [List.count_append, List.count_eq_zero_of_not_mem hb, List.count_cons_self, Nat.zero_add]
  constructor
  · intro h
    have honce := h.once
    rw [hcount] at honce
    exact ⟨h.head before after rfl, List.count_eq_zero.mp (by omega)⟩
  · rintro ⟨hhead, hafter⟩
    refine ⟨?_, fun before' after' heq => ?_⟩
    · rw [hcount, List.count_eq_zero_of_not_mem hafter]
    · have hsame : before = before' := by
        rcases List.append_eq_append_iff.mp heq with ⟨mid, rfl, hmid⟩ | ⟨mid, rfl, hmid⟩
        · cases mid with
          | nil => exact (List.append_nil before).symm
          | cons x mid =>
            obtain ⟨-, rfl⟩ := List.cons.inj hmid
            exact absurd (List.mem_append_right mid List.mem_cons_self) hafter
        · cases mid with
          | nil => exact List.append_nil before'
          | cons x mid =>
            obtain ⟨rfl, -⟩ := List.cons.inj hmid
            exact absurd (List.mem_append_right before' List.mem_cons_self) hb
      exact hsame ▸ hhead

/-- After a read that was taken, `connect_handler_` is not called again exactly when no second
read is taken. -/
theorem not_connected_iff {reads : List UvRead}
    (h : exec step (reads.map .onRead) s = some (tr, t)) :
    .connected ∉ tr ↔ ∀ data ∈ (reads.filterMap UvRead.data).head?, ¬ Takes P s.parser data := by
  cases reads with
  | nil =>
    cases h
    simp
  | cons read reads =>
    obtain ⟨o, u, tr', hi, hr, rfl⟩ := exec_cons_eq_some.mp h
    cases (step_onRead hi).2 with
    | ended hdata hu =>
      obtain ⟨rfl, rfl⟩ := reads_stop (by rw [hu]; decide) hr
      simp [hdata]
    | refused hdata hrefuse hu =>
      obtain ⟨rfl, rfl⟩ := reads_stop (by rw [hu]; decide) hr
      simp [hdata, hrefuse]
    | taken hdata htake hsent hp =>
      simp [hdata, htake]

/-- A connection is reported as it should exactly when its first data read, if the parser takes
it, brings the whole head with status 101, and no second one is taken. -/
theorem reportsConnection_iff {reads : List UvRead}
    (h : exec step (reads.map .onRead) s = some (tr, t)) :
    ReportsConnection tr ↔ Prompt P s.parser (reads.filterMap UvRead.data) := by
  cases reads with
  | nil =>
    cases h
    exact iff_of_true (.of_not_mem List.not_mem_nil) trivial
  | cons read reads =>
    obtain ⟨o, u, tr', hi, hr, rfl⟩ := exec_cons_eq_some.mp h
    cases (step_onRead hi).2 with
    | ended hdata hu =>
      obtain ⟨rfl, rfl⟩ := reads_stop (by rw [hu]; decide) hr
      rw [List.filterMap_cons_none hdata]
      exact iff_of_true (.of_not_mem List.not_mem_nil) trivial
    | refused hdata hrefuse hu =>
      obtain ⟨rfl, rfl⟩ := reads_stop (by rw [hu]; decide) hr
      rw [List.filterMap_cons_some hdata, List.append_nil]
      exact iff_of_true (.of_not_mem (not_connected_mem_reported _))
        fun htake => absurd htake hrefuse
    | taken hdata htake hsent hp =>
      rw [List.filterMap_cons_some hdata, Prompt, List.append_assoc, List.cons_append,
        reportsConnection_append (not_connected_mem_reported _), filterMap_callback_reported,
        List.mem_append, not_or, and_iff_right hsent, not_connected_iff hr, hp]
      exact ⟨fun h _ => h, fun h => h htake⟩

end reports

/-- A session that has just been connected. -/
def joined : SessionImplUV Http.ResponseParser.parser := { doInit _ with phase := .reading }

/-- An event that reads a text whole. -/
def readAll (text : String) : UvRead := ⟨(ascii text).length, ascii text, []⟩

/-- A reply that upgrades the connection, in one read. -/
theorem reportsConnection_upgrade :
    ∃ tr t, exec step ([readAll "HTTP/1.1 101 OK\r\n\r\n"].map .onRead) joined = some (tr, t) ∧
      UvOutput.connected ∈ tr ∧ ReportsConnection tr := by
  have hrun : ∃ t, exec step ([readAll "HTTP/1.1 101 OK\r\n\r\n"].map .onRead) joined =
      some ([.reported (.status 101 (ascii "OK")), .reported .headersComplete,
        .reported .messageComplete, .connected], t) := ⟨_, rfl⟩
  obtain ⟨t, ht⟩ := hrun
  refine ⟨_, t, ht, by simp, (reportsConnection_iff ht).mpr ?_⟩
  intro _
  exact ⟨⟨[], ascii "OK", [], [.messageComplete], by decide +kernel, by simp⟩, by simp⟩

/-- A refusal is reported as a connection. -/
theorem refusal_reported :
    ¬ ∀ (P : HttpParser) (s : SessionImplUV P) (reads : List UvRead) (tr : List UvOutput)
      (t : SessionImplUV P), s.phase = .reading →
      exec step (reads.map .onRead) s = some (tr, t) → ReportsConnection tr := by
  intro h
  have hreports := h _ joined [readAll "HTTP/1.1 404 Not Found\r\n\r\n"] _ _ rfl rfl
  obtain ⟨before, text, fields, after, heq, -⟩ :=
    hreports.head [.reported (.status 404 (ascii "Not Found")), .reported .headersComplete] []
      (by decide +kernel)
  have hmem : Callback.status 101 text ∈ before ++ .status 101 text :: fields ++
      .headersComplete :: after := by simp
  rw [← heq] at hmem
  simp [UvOutput.callback] at hmem

end SessionImplUV

end CppImprovement.Ws

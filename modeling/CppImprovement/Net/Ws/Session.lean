import CppImprovement.Core.Effect
import CppImprovement.Net.Ws.Header
import CppImprovement.Net.Ws.Handshake
import CppImprovement.Net.Ws.Utf8

/-!
# The session object and its sending side

`SessionImplEV` holds one connection at a time. Its state is the record of the
member variables that the modelled functions read or write, grouped by the part
of the code that owns them, and a log of what the session has done to the
outside. The frame header `wsHeader_` is shared by the receiving and the sending
side. Libevent, the random source and the application are the environment.

`std::make_shared` value-initialises the object, so members without an
initialiser start as zero. The close, ping and pong callbacks have no setter and
stay null, and so does the cleanup callback for data that is not copied.
-/

namespace CppImprovement.Ws

/-! ## State -/

/-- A `bufferevent`: the bytes of its input buffer, and whether reading is enabled. -/
structure Bufferevent where
  input : Bytes := []
  readEnabled : Bool := false
  deriving DecidableEq, Repr

/-- A timer event: no event, one waiting to fire, or one that has fired. -/
inductive TimerEvent
  | null | pending | fired
  deriving DecidableEq, Repr

/-- Where `serverReason_` points. -/
inductive ServerReason
  | null | emptyLiteral | ctrlPayload
  deriving DecidableEq, Repr

/-- What the session does to the outside, in order. -/
inductive Event
  /-- `DoConnect` made a bufferevent. -/
  | opened
  /-- The upgrade request was written. -/
  | request (text : Bytes)
  /-- `onConnect_` was called. -/
  | onConnect
  /-- `onMessage_` was called. -/
  | onMessage (payload : Bytes) (binary : Bool)
  /-- `SendData` wrote: a frame header when `noCopy` is off, frame data when it is on. -/
  | sent (noCopy : Bool) (bytes : Bytes)
  deriving DecidableEq, Repr

/-- What `HandleCloseFrame` finds when it is entered. -/
structure CloseEntry where
  sentCloseFlag : Bool
  ctrlLen : Nat
  ctrlPayload : Bytes
  deriving DecidableEq, Repr

/-- The fields of the receiving side. -/
structure Receiver where
  hasHeader : Bool := false
  /-- `recvFrameLen_`, a word of 64 bits. -/
  recvFrameLen : Nat := 0
  utf8State : Nat := WS_UTF8_ACCEPT
  inMsgFlag : Bool := false
  /-- `msgIsBinary_`, set when a message begins. -/
  msgIsBinary_ : Bool := false
  /-- `msgIsBinary`, which guards UTF-8 validation and is never assigned. -/
  msgIsBinary : Bool := false
  msg : Option Bytes := none
  frameData : Option Bytes := none
  ctrlPayload : Bytes := List.replicate WS_CONTROL_MAX_PAYLOAD_LEN 0
  ctrlLen : Nat := 0
  /-- The indices of `ctrlPayload_` written so far. -/
  ctrlWrites : List Nat := []
  /-- The states in which `HandleCloseFrame` has been entered. -/
  closeEntries : List CloseEntry := []
  deriving DecidableEq, Repr

/-- The fields of the sending side. -/
structure Sender where
  sendState : WSSendState := .none
  maxFrameSize : Nat := 0
  binaryMode : Bool := false
  deriving DecidableEq, Repr

/-- The fields of the connection's life cycle. -/
structure Closing where
  state : WSState := .dnsLookup
  sentCloseFlag : Bool := false
  receivedCloseFlag : Bool := false
  closeTimeoutEvent : TimerEvent := .null
  serverCloseStatus : WSCloseStatus := ⟨0⟩
  serverReason : ServerReason := .null
  serverReasonLen : Nat := 0
  deriving DecidableEq, Repr

/-- The session's past, as the outside sees it, and its position in the environment's answers. -/
structure Outside where
  trace : List Event := []
  randPos : Nat := 0
  callPos : Nat := 0
  scratchPos : Nat := 0
  deriving DecidableEq, Repr

/-- `SessionImplEV`. -/
structure Session where
  bev : Option Bufferevent := none
  /-- The input buffer of the last bufferevent that was freed or replaced: a read that is still
  running goes on with it. -/
  detached : Bytes := []
  connectTimeoutEvent : TimerEvent := .null
  uri : Bytes := []
  host : Bytes := []
  port : Int := 0
  origin : Bytes := []
  subprotocols : List Bytes := []
  hs : Handshake := {}
  wsHeader : WSHeader := WSHeader.zero
  rx : Receiver := {}
  tx : Sender := {}
  cl : Closing := {}
  io : Outside := {}
  deriving DecidableEq, Repr

/-- The `WTF_CHECK`s of the modelled functions that depend on the session's state. -/
inductive CheckSite
  | readWebsocketBev | readWebsocketUserAbort | handleControlFrameOpcode
  | closeTimeoutSent | sendMsgExConnected | sendMsgBeginNotConnected
  | msgFrameSendNotConnected | msgFrameDataBeginOpcode
  deriving DecidableEq, Repr

/-- How the process dies. -/
inductive Trap
  /-- A failed `WTF_CHECK`. -/
  | check (site : CheckSite)
  /-- A call through a null callback. -/
  | nullCall
  /-- An operation on a null `evbuffer`. -/
  | nullBuffer
  /-- Use of the input buffer after its bufferevent was freed. -/
  | freedBuffer
  deriving DecidableEq, Repr

/-- A call of the session's interface by the application. -/
inductive AppCall
  | send (msg : Bytes)
  | close
  | connect
  deriving DecidableEq, Repr

/-- The application's handlers: what each of them calls, given everything that happened. -/
structure App where
  onConnect : Option (List Event → List AppCall) := none
  onMessage : Option (List Event → List AppCall) := none

/-- The environment's answers. -/
structure Env where
  app : App := {}
  sha1 : Bytes → Bytes := fun _ => List.replicate 20 0
  /-- The stream of random octets. -/
  rand : Nat → UInt8 := fun _ => 0
  /-- Whether the `n`-th fallible library call fails. -/
  fault : Nat → Bool := fun _ => false
  /-- The contents of the uninitialised header buffer at its `n`-th use. -/
  scratch : Nat → Bytes := fun _ => []
  /-- The memory behind the empty string literal. -/
  pastLiteral : Nat → UInt8 := fun _ => 0
  /-- Whether a bufferevent that is freed in its own callback lives until the callback returns.
  Deferred callbacks hold a reference to it. -/
  keepsFreed : Bool := true

/-- No library call fails. -/
def Env.NoFault (env : Env) : Prop := ∀ n, env.fault n = false

/-- The effect of the session's member functions. -/
abbrev M := EStateM Trap Session

/-! ## The input buffer -/

/-- `in`, the input buffer of the read that is running. A bufferevent on which reading is not
enabled is not the one that called back. -/
def Session.inBuf (s : Session) : Bytes :=
  match s.bev with
  | none => s.detached
  | some b => if b.readEnabled = true then b.input else s.detached

/-- `evbuffer_drain(in, n)`. -/
def Session.drain (n : Nat) (s : Session) : Session :=
  match s.bev with
  | none => { s with detached := s.detached.drop n }
  | some b =>
    if b.readEnabled = true then { s with bev := some { b with input := b.input.drop n } }
    else { s with detached := s.detached.drop n }

/-- Draining changes nothing but the input buffer. -/
theorem Session.drain_eq (n : Nat) (s : Session) :
    ∃ bev detached, s.drain n = { s with bev := bev, detached := detached } ∧
      bev.map Bufferevent.readEnabled = s.bev.map Bufferevent.readEnabled := by
  rw [Session.drain]
  split
  · exact ⟨s.bev, s.detached.drop n, rfl, rfl⟩
  · rename_i b hb
    split
    · exact ⟨_, s.detached, rfl, by rw [hb]; rfl⟩
    · exact ⟨s.bev, s.detached.drop n, rfl, rfl⟩

@[simp] theorem Session.drain_wsHeader (n : Nat) (s : Session) :
    (s.drain n).wsHeader = s.wsHeader := by
  obtain ⟨_, _, heq, -⟩ := s.drain_eq n
  rw [heq]

@[simp] theorem Session.drain_rx (n : Nat) (s : Session) : (s.drain n).rx = s.rx := by
  obtain ⟨_, _, heq, -⟩ := s.drain_eq n
  rw [heq]

@[simp] theorem Session.drain_cl (n : Nat) (s : Session) : (s.drain n).cl = s.cl := by
  obtain ⟨_, _, heq, -⟩ := s.drain_eq n
  rw [heq]

@[simp] theorem Session.drain_io (n : Nat) (s : Session) : (s.drain n).io = s.io := by
  obtain ⟨_, _, heq, -⟩ := s.drain_eq n
  rw [heq]

/-- Draining takes octets off the front of the input buffer. -/
theorem Session.inBuf_drain (n : Nat) (s : Session) : (s.drain n).inBuf = s.inBuf.drop n := by
  cases hb : s.bev with
  | none => simp [Session.drain, Session.inBuf, hb]
  | some b => cases hr : b.readEnabled <;> simp [Session.drain, Session.inBuf, hb, hr]

/-- The input buffer of the read that is running is gone. -/
def Session.Freed (env : Env) (s : Session) : Prop := env.keepsFreed = false ∧ s.bev = none

instance (env : Env) (s : Session) : Decidable (s.Freed env) :=
  inferInstanceAs (Decidable (_ ∧ _))

/-- Reads are delivered from the bufferevent `b`. -/
def Session.Reading (s : Session) (b : Bufferevent) : Prop :=
  s.bev = some b ∧ b.readEnabled = true

namespace Session.Reading

variable {s : Session} {b b' : Bufferevent}

/-- There is one bufferevent. -/
theorem unique (h : s.Reading b) (h' : s.Reading b') : b = b' :=
  Option.some.inj (h.1.symm.trans h'.1)

/-- The loop reads the input of the bufferevent. -/
theorem inBuf (h : s.Reading b) : s.inBuf = b.input := by
  rw [Session.inBuf, h.1]
  exact if_pos h.2

/-- The input buffer of a bufferevent that is there is there. -/
theorem not_freed (h : s.Reading b) (env : Env) : ¬ s.Freed env := by
  rintro ⟨-, hn⟩
  exact Option.some_ne_none b (h.1.symm.trans hn)

/-- The octets are taken off the input of the bufferevent. -/
theorem drain (h : s.Reading b) (n : Nat) :
    s.drain n = { s with bev := some { b with input := b.input.drop n } } := by
  rw [Session.drain, h.1]
  exact if_pos h.2

end Session.Reading

/-! ## Primitive effects -/

/-- Record what happened. -/
def emit (e : Event) : M Unit := modify fun s => { s with io.trace := s.io.trace ++ [e] }

/-- Whether the next fallible library call fails. -/
def callFails (env : Env) : M Bool :=
  modifyGet fun s => (env.fault s.io.callPos, { s with io.callPos := s.io.callPos + 1 })

/-- `GetRandomMask`: the octets drawn, or nothing when the source fails. -/
def getRandomMask (env : Env) (len : Nat) : M (Option Bytes) := do
  if ← callFails env then
    pure none
  else
    modifyGet fun s => (some ((List.range' s.io.randPos len).map env.rand),
      { s with io.randPos := s.io.randPos + len })

/-- `MaskPayload`. -/
def maskPayload (mask : Mask) (msg : Bytes) : Bytes := msg.mapIdx fun i b => b ^^^ mask.byte i

/-- `UnmaskPayload`. -/
def unmaskPayload (mask : Mask) (msg : Bytes) : Bytes := maskPayload mask msg

/-! ## Frames -/

/-- `SendData`. -/
def sendData (env : Env) (msg : Bytes) (noCopy : Bool) : M Int := do
  let s ← get
  if s.bev = none then
    pure (-1)
  else if ← callFails env then
    pure (-1)
  else
    emit (.sent noCopy msg)
    pure 0

/-- `SendFrameRaw`: its result, and the caller's buffer, which is masked in place. -/
def sendFrameRaw (env : Env) (opcode : WSOpcode) (data : Bytes) : M (Int × Bytes) := do
  let s ← get
  if s.tx.sendState ≠ .none then
    pure (-1, data)
  else if isControlOpcode opcode = true ∧ 125 < data.length then
    pure (-1, data)
  else
    modify fun s => { s with wsHeader := { WSHeader.zero with fin := true, opcode := opcode } }
    if WS_MAX_PAYLOAD_LEN < data.length then
      pure (-1, data)
    else
      modify fun s =>
        { s with wsHeader := { s.wsHeader with maskBit := true }.setPayloadLen data.length }
      match ← getRandomMask env 4 with
      | none => pure (-1, data)
      | some key =>
        modify fun s => { s with wsHeader.mask := Mask.ofBytes key }
        let s ← get
        if (← sendData env (packHeader s.wsHeader).1 false) ≠ 0 then
          pure (-1, data)
        else if (← sendData env (maskPayload s.wsHeader.mask data) true) ≠ 0 then
          pure (-1, maskPayload s.wsHeader.mask data)
        else
          pure (0, maskPayload s.wsHeader.mask data)

/-- The payload of a Close frame: the status in network order, then the reason. -/
def closePayload (statusCode : WSCloseStatus) (reason : Bytes) : Bytes :=
  storeLE 2 (htons (statusCode.code % 2 ^ 16)) ++ reason

/-- `SendClose`. -/
def sendClose (env : Env) (statusCode : WSCloseStatus) (reason : Bytes) : M Int := do
  if statusCode.notUsed = true then
    pure (-1)
  else if WS_CONTROL_MAX_PAYLOAD_LEN < reason.length + 2 then
    pure (-1)
  else
    let r ← sendFrameRaw env .close (closePayload statusCode reason)
    if r.1 ≠ 0 then
      pure (-1)
    else
      pure 0

/-! ## Fragmented messages -/

/-- `OnSendMsgBegin`. -/
def onSendMsgBegin (binary : Bool) : M Int := do
  let s ← get
  if s.cl.state = .connected then
    throw (.check .sendMsgBeginNotConnected)
  else if s.tx.sendState ≠ .none then
    pure (-1)
  else
    modify fun s =>
      { s with
        wsHeader := { WSHeader.zero with opcode := if binary then .binary else .text }
        tx.binaryMode := binary
        tx.sendState := .messageBegin }
    pure 0

/-- A connected session dies on the check of `OnSendMsgBegin`. -/
theorem onSendMsgBegin_connected {s : Session} (hc : s.cl.state = .connected) (binary : Bool) :
    onSendMsgBegin binary s = .error (.check .sendMsgBeginNotConnected) s := by
  change (if s.cl.state = WSState.connected then _ else _ : M Int) s = _
  rw [if_pos hc]
  rfl

/-- The opcode of the next frame: the message's own on its first frame, then continuation. -/
def startMsgFrame : M Unit := do
  let s ← get
  if s.tx.sendState = .messageBegin then
    if s.wsHeader.opcode ≠ .text ∧ s.wsHeader.opcode ≠ .binary then
      throw (.check .msgFrameDataBeginOpcode)
    else
      modify fun s => { s with tx.sendState := .inMessage }
  else
    modify fun s => { s with wsHeader.opcode := .continuation }

/-- `OnMsgFrameDataBegin`. -/
def onMsgFrameDataBegin (env : Env) (datalen : Nat) : M Int := do
  let s ← get
  if s.tx.sendState ≠ .messageBegin ∧ s.tx.sendState ≠ .inMessage then
    pure (-1)
  else if WS_MAX_PAYLOAD_LEN < datalen then
    pure (-1)
  else
    modify fun s => { s with wsHeader := { s.wsHeader with maskBit := true }.setPayloadLen datalen }
    match ← getRandomMask env 4 with
    | none => pure (-1)
    | some key =>
      modify fun s => { s with wsHeader.mask := Mask.ofBytes key }
      startMsgFrame
      let s ← get
      if (← sendData env (packHeader s.wsHeader).1 false) ≠ 0 then
        pure (-1)
      else
        pure 0

/-- `OnMsgFrameDataSend`, with the caller's buffer. -/
def onMsgFrameDataSend (env : Env) (data : Bytes) : M (Int × Bytes) := do
  let s ← get
  if s.tx.sendState ≠ .inMessage then
    pure (-1, data)
  else
    let data := if s.wsHeader.maskBit then maskPayload s.wsHeader.mask data else data
    if (← sendData env data true) ≠ 0 then
      pure (-1, data)
    else
      pure (0, data)

/-- `OnMsgFrameSend`, with the caller's buffer. -/
def onMsgFrameSend (env : Env) (frameData : Bytes) : M (Int × Bytes) := do
  let s ← get
  if s.cl.state = .connected then
    throw (.check .msgFrameSendNotConnected)
  else if s.tx.sendState ≠ .messageBegin ∧ s.tx.sendState ≠ .inMessage then
    pure (-1, frameData)
  else if (← onMsgFrameDataBegin env frameData.length) ≠ 0 then
    pure (-1, frameData)
  else
    let r ← onMsgFrameDataSend env frameData
    if r.1 ≠ 0 then
      pure (-1, r.2)
    else
      pure (0, r.2)

/-- `OnSendMsgEnd`. -/
def onSendMsgEnd (env : Env) : M Int := do
  let s ← get
  if s.tx.sendState ≠ .inMessage then
    pure (-1)
  else
    modify fun s => { s with wsHeader.fin := true }
    let r ← onMsgFrameSend env []
    if r.1 ≠ 0 then
      pure (-1)
    else
      modify fun s => { s with tx.sendState := .none }
      pure 0

/-- The loop of `SendMsgEx`: one frame for every `maxFrameSize` octets. The bound is the
number of octets left, of which each round takes at least one. -/
def sendFragments (env : Env) (maxFrameSize : Nat) : Nat → Bytes → M (Int × Bytes)
  | 0, msg => pure (0, msg)
  | n + 1, msg => do
    let r ← onMsgFrameSend env (msg.take maxFrameSize)
    if r.1 ≠ 0 then
      pure (-1, r.2 ++ msg.drop maxFrameSize)
    else if msg.drop maxFrameSize = [] then
      pure (0, r.2)
    else
      let r' ← sendFragments env maxFrameSize n (msg.drop maxFrameSize)
      pure (r'.1, r.2 ++ r'.2)

/-- `SendMsgEx`, with the caller's buffer. -/
def sendMsgEx (env : Env) (msg : Bytes) (binary : Bool) : M (Int × Bytes) := do
  let s ← get
  if s.cl.state ≠ .connected then
    throw (.check .sendMsgExConnected)
  else if msg.length ≤ s.tx.maxFrameSize ∨ s.tx.maxFrameSize = 0 then
    sendFrameRaw env (if binary then .binary else .text) msg
  else if (← onSendMsgBegin binary) ≠ 0 then
    pure (-1, msg)
  else
    let r ← sendFragments env s.tx.maxFrameSize msg.length msg
    if r.1 ≠ 0 then
      pure (-1, r.2)
    else if (← onSendMsgEnd env) ≠ 0 then
      pure (-1, r.2)
    else
      pure (0, r.2)

/-- `DoSendMsg`: its result, and what the caller's string holds afterwards. -/
def doSendMsg (env : Env) (msg : Bytes) : M (Int × Bytes) := sendMsgEx env msg false

/-! ## Closing -/

/-- `ShutDown`. -/
def shutDown : M Unit :=
  modify fun s => { s with bev := none, detached := s.inBuf, connectTimeoutEvent := .null }

/-- The failure exit of `CloseWithStatusReason`. -/
def closeFail : M Int := do
  modify fun s => { s with cl.closeTimeoutEvent := .null }
  shutDown
  pure (-1)

/-- The Close frame of `CloseWithStatusReason`, unless one was sent before. -/
def sendCloseOnce (env : Env) (status : WSCloseStatus) (reason : Bytes) : M Int := do
  let s ← get
  if s.cl.sentCloseFlag = true then
    pure 0
  else
    sendClose env status reason

/-- `CloseWithStatusReason`. The old timer is freed before the new one is made. -/
def closeWithStatusReason (env : Env) (status : WSCloseStatus) (reason : Bytes) : M Int := do
  modify fun s => { s with cl.state := .closing }
  if (← sendCloseOnce env status reason) ≠ 0 then
    closeFail
  else
    modify fun s => { s with cl.sentCloseFlag := true, cl.closeTimeoutEvent := .null }
    if ← callFails env then
      closeFail
    else if ← callFails env then
      closeFail
    else
      modify fun s => { s with cl.closeTimeoutEvent := .pending }
      pure 0

/-- `CloseWithStatus`. -/
def closeWithStatus (env : Env) (status : WSCloseStatus) : M Int :=
  closeWithStatusReason env status []

/-- `DoClose`. -/
def doClose (env : Env) : M Int := closeWithStatusReason env .normal1000 []

/-! ## Connecting -/

/-- `DoInit`: the event base and the resolver are made by fallible calls. -/
def doInit (env : Env) : M Int := do
  modify fun s => { s with cl.state := .closedCleanly }
  if ← callFails env then
    pure (-1)
  else if ← callFails env then
    pure (-1)
  else
    pure 0

/-- The decimal text of a port number. -/
def decimal (n : Int) : Bytes :=
  (if n < 0 then ascii "-" else []) ++ (Nat.toDigits 10 n.natAbs).map fun c => c.toNat.toUInt8

/-- `SetupConnectionTimeout`. -/
def setupConnectionTimeout (env : Env) : M Int := do
  modify fun s => { s with connectTimeoutEvent := .null }
  if ← callFails env then
    pure (-1)
  else if ← callFails env then
    pure (-1)
  else
    modify fun s => { s with connectTimeoutEvent := .pending }
    pure 0

/-- The session with the fields that `DoConnect` sets. -/
def Session.connecting (s : Session) : Session :=
  { s with
    uri := ascii "/ajaxchattest"
    host := ascii "123.207.136.134"
    port := 9091
    origin := ascii "http://" ++ ascii "123.207.136.134" ++ ascii ":" ++ decimal 9091
    bev := some {}
    detached := s.inBuf
    rx.inMsgFlag := false
    cl.receivedCloseFlag := false
    cl.sentCloseFlag := false
    cl.state := .connecting }

/-- `DoConnect`, up to the event loop it enters. -/
def doConnect (env : Env) : M Int := do
  let s ← get
  if s.cl.state ≠ .closedCleanly ∧ s.cl.state ≠ .closedUncleanly then
    pure (-1)
  else
    modify Session.connecting
    emit .opened
    if (← setupConnectionTimeout env) ≠ 0 then
      pure (-1)
    else
      pure 0

/-- `GenerateHandshakeKey`. -/
def generateHandshakeKey (env : Env) : M Int := do
  match ← getRandomMask env 16 with
  | none => pure (-1)
  | some randKey =>
    modify fun s => { s with hs.handshakeKeyBase64 := encodeBase64 randKey }
    if encodeBase64 randKey = [] then
      pure (-1)
    else
      pure 0

/-- The subprotocol header of the request, which has no line end of its own. -/
def subprotocolHeader : List Bytes → Bytes
  | [] => []
  | p :: ps =>
    ascii "Sec-WebSocket-Protocol: " ++ cstr p ++ ps.flatMap fun q => ascii ", " ++ cstr q

/-- The text that `SendHandshake` writes. -/
def handshakeRequest (s : Session) : Bytes :=
  ascii "GET /" ++ cstr s.uri ++ ascii " HTTP/1.1\r\n" ++
  ascii "Host: " ++ cstr s.host ++ ascii ":" ++ decimal s.port ++ ascii "\r\n" ++
  ascii "Connection: Upgrade\r\n" ++
  ascii "Upgrade: websocket\r\n" ++
  ascii "Sec-Websocket-Version: 13\r\n" ++
  ascii "Sec-WebSocket-Key: " ++ cstr s.hs.handshakeKeyBase64 ++ ascii "\r\n" ++
  (if s.origin = [] then [] else ascii "Origin: " ++ cstr s.origin ++ ascii "\r\n") ++
  subprotocolHeader s.subprotocols ++ ascii "\r\n"

/-- `SendHandshake`. -/
def sendHandshake (env : Env) : M Int := do
  if (← generateHandshakeKey env) ≠ 0 then
    pure (-1)
  else
    let s ← get
    emit (.request (handshakeRequest s))
    modify fun s => { s with hs.connectState := .sentReq }
    pure 0

/-- `OnConnectEvent`. -/
def onConnectEvent (env : Env) : M Unit := do
  modify fun s => { s with bev := s.bev.map fun b => { b with readEnabled := true } }
  let _ ← sendHandshake env
  pure ()

/-! ## Calls by the application -/

/-- One call of the interface. -/
def runCall (env : Env) : AppCall → M Unit
  | .send msg => do
    let _ ← doSendMsg env msg
    pure ()
  | .close => do
    let _ ← doClose env
    pure ()
  | .connect => do
    let _ ← doConnect env
    pure ()

/-- The calls a handler makes, in order. -/
def runCalls (env : Env) (calls : List AppCall) : M Unit := runAll (runCall env) calls

end CppImprovement.Ws

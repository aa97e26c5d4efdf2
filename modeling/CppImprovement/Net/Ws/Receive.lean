import CppImprovement.Net.Ws.Session

/-!
# The receiving side

`ReadWebsocket` takes frames off the input buffer. Its progress through a frame
is kept in the session, so a frame may arrive in any number of reads. The frame
header in use is the shared `wsHeader_`: a Close frame that the loop itself sends
replaces the header of the frame being received.
-/

namespace CppImprovement.Ws

/-! ## Headers -/

/-- `ValidateHeader`. -/
def validateHeader (h : WSHeader) (inMsgFlag : Bool) : Int :=
  if h.rsv1 = true ∨ h.rsv2 = true ∨ h.rsv3 = true then -1
  else if isReservedOpcode h.opcode = true then -1
  else if isControlOpcode h.opcode = true ∧ h.fin = false then -1
  else if h.opcode = .continuation ∧ inMsgFlag = true then -1
  else if inMsgFlag = true ∧ h.opcode ≠ .continuation ∧ isControlOpcode h.opcode = false then -1
  else 0

theorem validateHeader_eq_zero {h : WSHeader} {inMsgFlag : Bool}
    (hv : validateHeader h inMsgFlag = 0) :
    isReservedOpcode h.opcode = false ∧ (h.fin = false → isControlOpcode h.opcode = false) := by
  rw [validateHeader] at hv
  split_ifs at hv with h₁ h₂ h₃
  exact ⟨eq_false_of_ne_true h₂, fun hf => eq_false_of_ne_true fun hc => h₃ ⟨hc, hf⟩⟩

/-- Inside a message no data frame is accepted. -/
theorem validateHeader_data {h : WSHeader} {inMsgFlag : Bool}
    (hv : validateHeader h inMsgFlag = 0) (hd : isControlOpcode h.opcode = false) :
    inMsgFlag = false := by
  rw [validateHeader] at hv
  split_ifs at hv with h₁ h₂ h₃ h₄ h₅
  by_contra hn
  have hin := eq_true_of_ne_false hn
  exact h₅ ⟨hin, fun ho => h₄ ⟨ho, hin⟩, hd⟩

/-! ## Frame begin -/

/-- `OnRecvMsgBegin`: a new message buffer. -/
def onRecvMsgBegin (env : Env) : M Unit := do
  let failed ← callFails env
  modify fun s => { s with rx.msg := if failed then none else some [] }

/-- `OnMsgFrameBegin`: a new frame buffer. -/
def onMsgFrameBegin (env : Env) : M Unit := do
  let failed ← callFails env
  modify fun s => { s with rx.frameData := if failed then none else some [] }

/-- The begin of a message in `HandleFrameBegin`. -/
def beginMessage (env : Env) : M Unit := do
  let s ← get
  if s.rx.inMsgFlag = true then
    pure ()
  else
    modify fun s =>
      { s with
        rx.inMsgFlag := true
        rx.utf8State := WS_UTF8_ACCEPT
        rx.msgIsBinary_ := decide (s.wsHeader.opcode = .binary) }
    onRecvMsgBegin env

/-- `HandleFrameBegin`. -/
def handleFrameBegin (env : Env) : M Unit := do
  modify fun s => { s with rx.recvFrameLen := 0 }
  let s ← get
  if isControlOpcode s.wsHeader.opcode = true then
    modify fun s =>
      { s with
        rx.ctrlPayload := List.replicate WS_CONTROL_MAX_PAYLOAD_LEN 0
        rx.ctrlLen := 0 }
  else
    beginMessage env
    onMsgFrameBegin env

/-! ## Control frames -/

/-- Store octets into `ctrlPayload_`. What lies behind the array is padding, so a store past
its end changes no field. -/
def Receiver.writeCtrl (rx : Receiver) (pos : Nat) (b : Bytes) : Receiver :=
  { rx with
    ctrlPayload := (rx.ctrlPayload.take pos ++ b ++ rx.ctrlPayload.drop (pos + b.length)).take
      WS_CONTROL_MAX_PAYLOAD_LEN
    ctrlWrites := rx.ctrlWrites ++ List.range' pos b.length }

/-- The octets that `serverReason_` and `serverReasonLen_` denote. -/
def serverReasonBytes (env : Env) (s : Session) : Bytes :=
  match s.cl.serverReason with
  | .null => []
  | .emptyLiteral =>
    (0 :: (List.range s.cl.serverReasonLen).map env.pastLiteral).take s.cl.serverReasonLen
  | .ctrlPayload => (s.rx.ctrlPayload.drop 2).take s.cl.serverReasonLen

/-- The end of `HandleCloseFrame`: echo the close unless one was sent. -/
def echoClose (env : Env) : M Int := do
  let s ← get
  if s.cl.sentCloseFlag = true then
    pure 0
  else
    closeWithStatusReason env s.cl.serverCloseStatus (serverReasonBytes env s)

/-- The session after the first assignments of `HandleCloseFrame`. -/
def Session.closeReceived (s : Session) : Session :=
  { s with
    rx.closeEntries :=
      s.rx.closeEntries ++ [⟨s.cl.sentCloseFlag, s.rx.ctrlLen, s.rx.ctrlPayload⟩]
    cl.serverCloseStatus := .normal1000
    cl.serverReason := .emptyLiteral
    cl.closeTimeoutEvent := .null
    cl.state := .closing
    cl.receivedCloseFlag := true }

/-- The session after `HandleCloseFrame` has read the status and the reason. -/
def Session.closeStatusRead (s : Session) : Session :=
  { s with
    rx := s.rx.writeCtrl (2 + (s.rx.ctrlLen - 2)) [0]
    cl.serverCloseStatus := ⟨htons (loadLE (s.rx.ctrlPayload.take 2))⟩
    cl.serverReason := .ctrlPayload
    cl.serverReasonLen := s.rx.ctrlLen - 2 }

/-- `HandleCloseFrame`. -/
def handleCloseFrame (env : Env) : M Int := do
  modify Session.closeReceived
  let s ← get
  if s.rx.ctrlLen = 0 then
    echoClose env
  else if s.rx.ctrlLen < 2 then
    modify fun s => { s with cl.serverCloseStatus := .statusCodeExpected1005 }
    let _ ← closeWithStatus env .protocolErr1002
    pure 0
  else
    modify Session.closeStatusRead
    let s ← get
    if s.cl.serverCloseStatus.peerValid = false then
      let _ ← closeWithStatus env .protocolErr1002
      pure 0
    else
      modify fun s =>
        { s with rx.utf8State := validateUtf8 WS_UTF8_ACCEPT (serverReasonBytes env s) }
      let s ← get
      if s.rx.utf8State = WS_UTF8_REJECT then
        let _ ← closeWithStatus env .inconsistentData1007
        pure 0
      else
        echoClose env

/-- `HandleControlFrame`. The ping and pong callbacks are null. -/
def handleControlFrame (env : Env) : M Int := do
  let s ← get
  if isControlOpcode s.wsHeader.opcode = false then
    throw (.check .handleControlFrameOpcode)
  else
    match s.wsHeader.opcode with
    | .close => handleCloseFrame env
    | .pong => throw .nullCall
    | .ping => throw .nullCall
    | _ => pure (-1)

/-! ## Frame end -/

/-- `OnMsgFrameEnd` with `OnMsgFrame`: the frame's data moves to the message. -/
def onMsgFrameEnd : M Unit := do
  let s ← get
  match s.rx.frameData, s.rx.msg with
  | some frame, some msg =>
    modify fun s => { s with rx.msg := some (msg ++ frame), rx.frameData := none }
  | _, _ => throw .nullBuffer

/-- `onMessage_`. -/
def callOnMessage (env : Env) (payload : Bytes) : M Unit := do
  let s ← get
  match env.app.onMessage with
  | none => pure ()
  | some handler =>
    if s.cl.state = .closing then
      pure ()
    else
      emit (.onMessage payload s.rx.msgIsBinary_)
      let s ← get
      runCalls env (handler s.io.trace)

/-- `OnRecvMsgEnd`. -/
def onRecvMsgEnd (env : Env) : M Unit := do
  let s ← get
  match s.rx.msg with
  | none => throw .nullBuffer
  | some payload =>
    callOnMessage env payload
    modify fun s => { s with rx.msg := none }

/-- The end of a message in `HandleFrameEnd`, after its final frame. -/
def endMessage (env : Env) : M Unit := do
  let s ← get
  if s.wsHeader.fin = true then
    onRecvMsgEnd env
    modify fun s => { s with rx.inMsgFlag := false }
  else
    pure ()

/-- `HandleFrameEnd`. -/
def handleFrameEnd (env : Env) : M Int := do
  let s ← get
  if isControlOpcode s.wsHeader.opcode = true then
    modify fun s => { s with rx.hasHeader := false }
    handleControlFrame env
  else
    onMsgFrameEnd
    endMessage env
    modify fun s => { s with rx.hasHeader := false }
    pure 0

/-! ## Frame data -/

/-- `HandleFrameData`. An oversized control payload is cut to the buffer, and the Close frame
sent for it replaces the header. -/
def handleFrameData (env : Env) (buf : Bytes) : M Int := do
  let s ← get
  if isControlOpcode s.wsHeader.opcode = true then
    if WS_CONTROL_MAX_PAYLOAD_LEN < s.rx.ctrlLen + buf.length then
      let _ ← closeWithStatus env .protocolErr1002
      let len := WS_CONTROL_MAX_PAYLOAD_LEN - s.rx.ctrlLen
      modify fun s =>
        { s with rx := { s.rx.writeCtrl s.rx.ctrlLen (buf.take len) with
          ctrlLen := s.rx.ctrlLen + len } }
      pure (-1)
    else
      modify fun s =>
        { s with rx := { s.rx.writeCtrl s.rx.ctrlLen buf with
          ctrlLen := s.rx.ctrlLen + buf.length } }
      pure 0
  else
    match s.rx.frameData with
    | none => throw .nullBuffer
    | some frame =>
      modify fun s => { s with rx.frameData := some (frame ++ buf) }
      pure 0

/-! ## The read loop -/

/-- `payloadLen - recvFrameLen_` in `size_t`. -/
def remainingLen (payloadLen recvFrameLen : Nat) : Nat :=
  (payloadLen + (2 ^ 64 - recvFrameLen % 2 ^ 64)) % 2 ^ 64

/-- The local header buffer: the copied octets, then whatever the stack held. -/
def headerBuf (env : Env) (s : Session) (input : Bytes) : Bytes :=
  input.take WS_HDR_MAX_SIZE ++ env.scratch s.io.scratchPos

/-- The result of header parsing with the protocol checks. -/
def headerState (u : Unpacked) (inMsgFlag : Bool) : WSParseState :=
  if u.state ≠ .needMore ∧ validateHeader u.header inMsgFlag ≠ 0 then .error else u.state

/-- The header part of the loop body: whether the body goes on to the payload part. -/
def readHeader (env : Env) (input : Bytes) : M Bool := do
  let s ← get
  let u := unpackHeader (headerBuf env s input) (min WS_HDR_MAX_SIZE input.length)
  modify fun s => { s with wsHeader := u.header, io.scratchPos := s.io.scratchPos + 1 }
  if u.state = .userAbort then
    throw (.check .readWebsocketUserAbort)
  else
    match headerState u s.rx.inMsgFlag with
    | .success =>
      modify fun s => { s with rx.hasHeader := true }
      modify (Session.drain u.headerLen)
      handleFrameBegin env
      pure true
    | .needMore => pure false
    | .error =>
      let _ ← closeWithStatus env .protocolErr1002
      pure false
    | .userAbort =>
      handleFrameBegin env
      pure true

/-- The header part is skipped inside a frame. -/
def needHeader (env : Env) (input : Bytes) : M Bool := do
  let s ← get
  if s.rx.hasHeader = true then
    pure true
  else
    readHeader env input

/-- The text check of the payload part. -/
def checkUtf8 (env : Env) (buf : Bytes) : M Unit := do
  let s ← get
  if s.rx.msgIsBinary = false ∧ isControlOpcode s.wsHeader.opcode = false then
    modify fun s => { s with rx.utf8State := validateUtf8 s.rx.utf8State buf }
    let s ← get
    if s.rx.utf8State = WS_UTF8_REJECT ∨
        (s.rx.utf8State ≠ WS_UTF8_ACCEPT ∧ s.wsHeader.fin = true) then
      let _ ← closeWithStatus env .inconsistentData1007
      pure ()
    else
      pure ()
  else
    pure ()

/-- The received octets of a chunk, unmasked. Every chunk starts at the first key octet. -/
def unmaskChunk (h : WSHeader) (chunk : Bytes) : Bytes :=
  if h.maskBit = true then unmaskPayload h.mask chunk else chunk

/-- The length of the payload that is still to come. -/
def Session.remaining (s : Session) : Nat := remainingLen s.wsHeader.payloadLen s.rx.recvFrameLen

/-- The octets that the payload part takes off the input buffer. -/
def Session.chunk (s : Session) : Bytes := s.inBuf.take s.remaining

/-- The session with `n` more octets of the frame counted. -/
def Session.counted (n : Nat) (s : Session) : Session :=
  { s with rx.recvFrameLen := (s.rx.recvFrameLen + n) % 2 ^ 64 }

/-- What is done with the octets taken: the text check, the store, and the end of the frame when
it is complete. -/
def handleChunk (env : Env) (buf : Bytes) : M Unit := do
  checkUtf8 env buf
  let rc ← handleFrameData env buf
  let s ← get
  if rc = 0 ∧ s.rx.recvFrameLen = s.wsHeader.payloadLen then
    let _ ← handleFrameEnd env
    pure ()
  else
    pure ()

/-- The payload part of the loop body. -/
def readPayload (env : Env) : M Unit := do
  let s ← get
  if s.remaining = 0 then
    let _ ← handleFrameEnd env
    pure ()
  else
    modify (Session.drain s.remaining)
    modify (Session.counted s.chunk.length)
    handleChunk env (unmaskChunk s.wsHeader s.chunk)

/-- The loop of `ReadWebsocket`, bounded by a number of rounds. -/
def readLoop (env : Env) : Nat → M Unit
  | 0 => pure ()
  | n + 1 => do
    let s ← get
    if s.Freed env then
      throw .freedBuffer
    else if s.inBuf = [] then
      pure ()
    else
      if (← needHeader env s.inBuf) = true then
        readPayload env
        readLoop env n
      else
        pure ()

/-- `ReadWebsocket`. A round that takes no octet ends a frame, so twice the length bounds the
number of rounds. -/
def readWebsocket (env : Env) : M Unit := do
  let s ← get
  match s.bev with
  | none => throw (.check .readWebsocketBev)
  | some _ => readLoop env (2 * s.inBuf.length + 2)

end CppImprovement.Ws

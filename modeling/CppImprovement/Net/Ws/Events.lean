import CppImprovement.Net.Ws.Receive

/-!
# Runs of a session

The event loop calls the session when the connection is made, when bytes have
arrived, when the peer has closed, and when a timer fires; the application calls
it in between. A run is a list of such inputs. An input that cannot happen in a
state, such as a read without a connection, leaves the state as it is.
-/

namespace CppImprovement.Ws

/-- `onConnect_`. -/
def callOnConnect (env : Env) : M Unit := do
  emit .onConnect
  let s ← get
  match env.app.onConnect with
  | none => pure ()
  | some handler => runCalls env (handler s.io.trace)

/-- `OnRead`. A failed handshake falls through to the frame reader. -/
def onRead (env : Env) : M Unit := do
  let s ← get
  match s.bev with
  | none => pure ()
  | some b =>
    if s.hs.connectState ≠ .handshakeComplete then
      let r := readServerHandshakeReply env.sha1 s.hs b.input
      modify fun s => { s with hs := r.2.1, bev := some { b with input := r.2.2 } }
      match r.1 with
      | .error =>
        shutDown
        readWebsocket env
      | .needMore => pure ()
      | .success =>
        modify fun s => { s with cl.state := .connected }
        callOnConnect env
        readWebsocket env
      | .userAbort => readWebsocket env
    else
      readWebsocket env

/-- The bytes left in the input buffer at the end of the stream go to the frame reader. -/
def readLeftover (env : Env) (input : Bytes) : M Unit := do
  if input = [] then
    pure ()
  else
    readWebsocket env

/-- `OnEofEvent`. The close callback is null. -/
def onEofEvent (env : Env) : M Unit := do
  let s ← get
  match s.bev with
  | none => pure ()
  | some b =>
    readLeftover env b.input
    shutDown
    let s ← get
    if s.cl.receivedCloseFlag = true then
      pure ()
    else
      modify fun s => { s with cl.state := .closedUncleanly }

/-- `OnCloseTimeout`. -/
def onCloseTimeout : M Unit := do
  let s ← get
  if s.cl.sentCloseFlag = false then
    throw (.check .closeTimeoutSent)
  else
    shutDown

/-- What can happen to a session. -/
inductive Input
  /-- `DoConnect`. -/
  | connect
  /-- `DoClose`. -/
  | close
  /-- `DoSendMsg`. -/
  | send (msg : Bytes)
  /-- The connection was made. -/
  | connected
  /-- Bytes arrived. -/
  | read (bytes : Bytes)
  /-- The peer closed. -/
  | eof
  /-- The bufferevent reports an error, which `OnEvent` ignores. -/
  | error
  /-- The close timer fires. -/
  | closeTimeout
  /-- The connection timer fires; its callback only logs. -/
  | connectTimeout
  deriving DecidableEq, Repr

/-- The effect of one input. -/
def step (env : Env) : Input → M Unit
  | .connect => runCall env .connect
  | .close => runCall env .close
  | .send msg => runCall env (.send msg)
  | .connected => do
    let s ← get
    match s.bev with
    | some b => if b.readEnabled = true then pure () else onConnectEvent env
    | none => pure ()
  | .read bytes => do
    let s ← get
    match s.bev with
    | some b =>
      if b.readEnabled = true then
        modify fun s => { s with bev := some { b with input := b.input ++ bytes } }
        onRead env
      else
        pure ()
    | none => pure ()
  | .eof => do
    let s ← get
    match s.bev with
    | some b => if b.readEnabled = true then onEofEvent env else pure ()
    | none => pure ()
  | .error => pure ()
  | .closeTimeout => do
    let s ← get
    if s.cl.closeTimeoutEvent = .pending then
      modify fun s => { s with cl.closeTimeoutEvent := .fired }
      onCloseTimeout
    else
      pure ()
  | .connectTimeout => pure ()

/-- A run. -/
def run (env : Env) (inputs : List Input) : M Unit := runAll (step env) inputs

/-- The bytes that an input brings. -/
def Input.bytes : Input → Bytes
  | .read c => c
  | _ => []

/-- The bytes that the inputs bring. -/
def readBytes (inputs : List Input) : Bytes := inputs.flatMap Input.bytes

end CppImprovement.Ws

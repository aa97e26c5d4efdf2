import CppImprovement.Core.Transition
import CppImprovement.Net.Http.Request

/-!
# The libuv HTTP session

`SessionImplUV` resolves, connects, sends the request and feeds what it reads to `http_parser`,
directly or through OpenSSL; the parser's callbacks collect the response, which goes to the
handler at the end of the connection. Both libraries are parameters. A step is one call of the
interface or one callback of libuv, with the outcomes libuv reports.
-/

namespace CppImprovement.Http

/-- A callback of `http_parser`, with the data it reports. -/
inductive Callback
  | status (code : Nat) (text : Bytes)
  | headerField (text : Bytes)
  | headerValue (text : Bytes)
  | headersComplete
  | body (text : Bytes)
  | messageComplete
deriving DecidableEq

/-- What a call of `http_parser_execute` does: its callbacks, the number of bytes it has parsed
and the parser it leaves. -/
structure Parsed (σ : Type) where
  callbacks : List Callback
  nparsed : Nat
  parser : σ

/-- The parts of a URL as offset and length, and the port. -/
structure ParserUrl where
  schema : Option (Nat × Nat)
  host : Option (Nat × Nat)
  port : Option Nat
  path : Option (Nat × Nat)
  query : Option (Nat × Nat)
  fragment : Option (Nat × Nat)

/-- The library `http_parser`, for responses. Every callback of the session returns 0, so a
call is a function of the parser and the data. -/
structure HttpParser where
  State : Type
  init : State
  execute : State → Bytes → Parsed State
  parseUrl : Bytes → ParserUrl

namespace HttpParser

variable (P : HttpParser)

/-- The parser after some reads. -/
def after (p : P.State) (reads : List Bytes) : P.State :=
  reads.foldl (fun p data => (P.execute p data).parser) p

/-- The callbacks of some reads. -/
def callbacks (p : P.State) : List Bytes → List Callback
  | [] => []
  | data :: reads => (P.execute p data).callbacks ++ callbacks (P.execute p data).parser reads

/-- Every read is parsed to its end. -/
def Accepts (p : P.State) : List Bytes → Prop
  | [] => True
  | data :: reads =>
    (P.execute p data).nparsed = data.length ∧ Accepts (P.execute p data).parser reads

instance decidableAccepts (p : P.State) (reads : List Bytes) : Decidable (P.Accepts p reads) :=
  match reads with
  | [] => isTrue trivial
  | data :: reads =>
    have := decidableAccepts (P.execute p data).parser reads
    inferInstanceAs (Decidable (_ ∧ _))

/-- The piece of a URL that an offset and a length name, where the parser has set them. -/
def urlField (text : Bytes) (part : Option (Nat × Nat)) (old : Bytes) : Bytes :=
  match part with
  | none => old
  | some (off, len) => (text.drop off).take len

/-- A URL with the parts that the parser finds in its text. -/
def splitUrl (url : Url) : Url :=
  let parts := P.parseUrl url.url
  let schema := urlField url.url parts.schema url.schema
  let defaultPort : Int := if schema = ascii "http" then 80 else 443
  { url with
    schema := schema
    host := urlField url.url parts.host url.host
    port := (parts.port.map Int.ofNat).getD defaultPort
    path := urlField url.url parts.path url.path
    query := urlField url.url parts.query url.query
    fragment := urlField url.url parts.fragment url.fragment }

end HttpParser

/-- OpenSSL's client side over two memory BIOs. `read` gives nothing where `SSL_read` returns
-1, and `pending` is what `write_bio_` holds. -/
structure Ssl where
  State : Type
  init : State
  isInitFinished : State → Bool
  doHandshake : State → Int × State
  getError : State → Int → Int
  write : State → Bytes → Int × State
  read : State → Nat → Option Bytes × State
  bioWrite : State → Bytes → State
  pending : State → Bytes
  drained : State → State

/-- A library that is never asked: plain connections do not use it. -/
def Ssl.unused : Ssl where
  State := Unit
  init := ()
  isInitFinished := fun _ => false
  doHandshake := fun _ => (-1, ())
  getError := fun _ _ => 1
  write := fun _ _ => (-1, ())
  read := fun _ _ => (none, ())
  bioWrite := fun _ _ => ()
  pending := fun _ => []
  drained := fun _ => ()

/-- `SSL_ERROR_WANT_READ`. -/
def sslErrorWantRead : Int := 2

/-- `ErrorCode`. -/
inductive ErrorCode
  | ok
  | timedout
  | connectionFailure
  | emptyResponse
  | hostResolutionFailure
  | internalError
  | invalidUrlFormat
  | networkReceiveError
  | networkSendFailure
  | proxyResolutionFailure
  | sslConnectError
  | sslLocalCertificateError
  | sslRemoteCertificateError
  | sslCacertError
  | genericSslError
  | unsupportedProtocol
  | unknownError
deriving DecidableEq

/-- A response. -/
structure Response where
  statusCode : Int
  status : Bytes
  error : ErrorCode
  body : Bytes
  header : Header
  url : Url

/-- The function in a `ResponseHandler`, by what it leaves of the response that is moved to it;
none for a null function. -/
abbrev ResponseHandler := Option (Response → Response)

/-- How far libuv is with a request. A `WTF_CHECK` that fails or a fatal log line aborts the
process. -/
inductive Phase
  | idle
  | resolving
  | connecting
  | reading
  | closed
  | failed
  | aborted
deriving DecidableEq

/-- No request is under way: `uv_run` has returned. -/
def Phase.atRest : Phase → Bool
  | .idle | .closed | .failed => true
  | _ => false

/-- The session. -/
structure SessionImplUV (P : HttpParser) (T : Ssl) where
  field : Bytes
  request : Request
  bodyStream : Bytes
  response : Response
  responseHandler : ResponseHandler
  parser : P.State
  ssl : T.State
  phase : Phase

/-- What a step shows: bytes given to `uv_write`, bytes given to `http_parser_execute`, the
report of a complete message, and a call of the handler. -/
inductive Output
  | wrote (data : Bytes)
  | parsed (data : Bytes)
  | messageComplete
  | response (handler : Response → Response) (r : Response)

/-- A call of the interface, or a callback of libuv with its outcome: `doRequest` with what
`uv_getaddrinfo` returns, `onResolved` with its status and what `uv_tcp_connect` returns. -/
inductive Step
  | setMethod (method : Bytes)
  | setUrl (url : Url)
  | setHandler (handler : ResponseHandler)
  | doRequest (result : Int)
  | onResolved (status connect : Int)
  | onConnect (status : Int)
  | onRead (nread : Int) (buf : Bytes)

namespace SessionImplUV

variable {P : HttpParser} {T : Ssl}

/-- `DoInit` of a new session; the status code and the port have no initial value. -/
def doInit (P : HttpParser) (T : Ssl) (statusCode port : Int) : SessionImplUV P T where
  field := []
  request := Request.create port
  bodyStream := []
  response := ⟨statusCode, [], .ok, [], OrderedMap.empty, Url.ofText [] port⟩
  responseHandler := none
  parser := P.init
  ssl := T.init
  phase := .idle

/-! ## The callbacks of the parser -/

/-- `OnHttpParserStatus`. -/
def onHttpParserStatus (s : SessionImplUV P T) (code : Nat) (text : Bytes) : SessionImplUV P T :=
  { s with response := { s.response with status := text, statusCode := code } }

/-- `OnHttpParserHeaderField`. -/
def onHttpParserHeaderField (s : SessionImplUV P T) (text : Bytes) : SessionImplUV P T :=
  { s with field := text }

/-- `OnHttpParserHeaderValue`: `insert_or_assign` moves from `field_` only when it inserts. -/
def onHttpParserHeaderValue (s : SessionImplUV P T) (text : Bytes) : SessionImplUV P T :=
  { s with
    request := { s.request with header := s.request.header.insertOrAssign s.field text }
    field := if s.request.header.contains s.field then s.field else [] }

/-- `OnRecvBody`. -/
def onRecvBody (s : SessionImplUV P T) (text : Bytes) : SessionImplUV P T :=
  { s with bodyStream := s.bodyStream ++ text }

/-- The callback the settings name. -/
def onCallback (s : SessionImplUV P T) : Callback → SessionImplUV P T
  | .status code text => s.onHttpParserStatus code text
  | .headerField text => s.onHttpParserHeaderField text
  | .headerValue text => s.onHttpParserHeaderValue text
  | .headersComplete => s
  | .body text => s.onRecvBody text
  | .messageComplete => s

/-- The callbacks of a call, in turn. -/
def collect (s : SessionImplUV P T) (callbacks : List Callback) : SessionImplUV P T :=
  callbacks.foldl onCallback s

/-- The reports of a complete message among some callbacks. -/
def completions (callbacks : List Callback) : List Output :=
  (callbacks.filter (· = .messageComplete)).map fun _ => .messageComplete

/-- The parser after a call. -/
def setParser (s : SessionImplUV P T) (parser : P.State) : SessionImplUV P T :=
  { s with parser := parser }

/-- OpenSSL after a call. -/
def setSsl (s : SessionImplUV P T) (ssl : T.State) : SessionImplUV P T :=
  { s with ssl := ssl }

/-- `http_parser_execute` and the check of its result. -/
def httpParserExecute (s : SessionImplUV P T) (data : Bytes) : List Output × SessionImplUV P T :=
  let r := P.execute s.parser data
  let t := (s.setParser r.parser).collect r.callbacks
  (.parsed data :: completions r.callbacks,
    if r.nparsed = data.length then t else { t with phase := .aborted })

/-! ## Reading and writing -/

/-- `FlushReadBio`: `write_bio_` is written in pieces of a buffer. -/
def flushReadBio (s : SessionImplUV P T) : List Output × SessionImplUV P T :=
  (((T.pending s.ssl).toChunks (1024 * 16)).map .wrote, s.setSsl (T.drained s.ssl))

/-- `HandleError`. -/
def handleError (s : SessionImplUV P T) (result : Int) : List Output × SessionImplUV P T :=
  if T.getError s.ssl result = sslErrorWantRead then s.flushReadBio
  else ([], { s with phase := .aborted })

/-- The branch of `ReadFromSSL` that goes on with the handshake and then sends the request. -/
def continueHandshake (s : SessionImplUV P T) : List Output × SessionImplUV P T :=
  let r := T.doHandshake s.ssl
  let s₁ := s.setSsl r.2
  if r.1 < 0 then s₁.handleError r.1
  else
    let request := s₁.request.preparePayload
    let w := T.write s₁.ssl request.raw
    let s₂ := { s₁ with request := request, ssl := w.2 }
    if w.1 ≤ 0 then
      let e := s₂.handleError w.1
      if e.2.phase = .aborted then e
      else
        let f := e.2.flushReadBio
        (e.1 ++ f.1, f.2)
    else s₂.flushReadBio

/-- `ReadFromSSL`. -/
def readFromSSL (s : SessionImplUV P T) (data : Bytes) : List Output × SessionImplUV P T :=
  let s₁ := s.setSsl (T.bioWrite s.ssl data)
  if T.isInitFinished s₁.ssl then
    let r := T.read s₁.ssl data.length
    let s₂ := s₁.setSsl r.2
    match r.1 with
    | none => ([], s₂)
    | some plain => s₂.httpParserExecute plain
  else s₁.continueHandshake

/-- `OnRecvComplete` and `OnResponse`. -/
def onRecvComplete (s : SessionImplUV P T) : List Output × SessionImplUV P T :=
  let r :=
    { s.response with body := s.bodyStream, url := s.request.url, header := s.request.header }
  let request := { s.request with url := s.request.url.movedFrom, header := OrderedMap.empty }
  match s.responseHandler with
  | none => ([], { s with response := r, request := request })
  | some handler => ([.response handler r],
      { s with response := handler r, request := request })

/-! ## The calls and the callbacks of libuv -/

/-- `SetUrl`. -/
def setUrl (s : SessionImplUV P T) (url : Url) : SessionImplUV P T :=
  { s with request := { s.request with url := P.splitUrl url } }

/-- `DoRequest`: a call of `uv_getaddrinfo` that fails leaves libuv with nothing to do. -/
def doRequest (s : SessionImplUV P T) (result : Int) : SessionImplUV P T :=
  { s with phase := if result = 0 then .resolving else .failed }

/-- `OnResolved` and `Connect`; the result of `uv_tcp_connect` is ignored. -/
def onResolved (s : SessionImplUV P T) (status connect : Int) : SessionImplUV P T :=
  { s with phase := if status < 0 ∨ connect < 0 then .failed else .connecting }

/-- `OnConnect`. The status is ignored, but libuv neither reads from nor writes to a socket
that is not connected. -/
def onConnect (s : SessionImplUV P T) (status : Int) : List Output × SessionImplUV P T :=
  let s₁ := { s with phase := if status < 0 then .failed else .reading }
  let r :=
    if s.request.url.isHttps then
      let h := T.doHandshake s₁.ssl
      let s₂ := s₁.setSsl h.2
      if h.1 < 0 then s₂.handleError h.1 else ([], s₂)
    else
      let request := s₁.request.preparePayload
      ([.wrote request.raw], { s₁ with request := request })
  if status < 0 then ([], r.2) else r

/-- `OnRead`. -/
def onRead (s : SessionImplUV P T) (nread : Int) (buf : Bytes) :
    List Output × SessionImplUV P T :=
  if 0 < nread then
    let data := buf.take nread.toNat
    if s.request.url.isHttps then s.readFromSSL data else s.httpParserExecute data
  else
    let r := s.onRecvComplete
    (r.1, { r.2 with phase := .closed })

/-- One step; libuv calls back only for the phase it is in. -/
def step : Step → SessionImplUV P T → Option (List Output × SessionImplUV P T)
  | .setMethod method, s =>
    if s.phase.atRest then some ([], { s with request := { s.request with method := method } })
    else none
  | .setUrl url, s => if s.phase.atRest then some ([], s.setUrl url) else none
  | .setHandler handler, s =>
    if s.phase.atRest then some ([], { s with responseHandler := handler }) else none
  | .doRequest result, s => if s.phase.atRest then some ([], s.doRequest result) else none
  | .onResolved status connect, s =>
    if s.phase = .resolving then some ([], s.onResolved status connect) else none
  | .onConnect status, s => if s.phase = .connecting then some (s.onConnect status) else none
  | .onRead nread buf, s =>
    if s.phase = .reading ∧ nread ≤ buf.length then some (s.onRead nread buf) else none

/-- `Session::Get`. -/
def get (url : Url) (handler : ResponseHandler) (result : Int) : List Step :=
  [.setMethod (ascii "GET"), .setUrl url, .setHandler handler, .doRequest result]

/-! ## What the callbacks leave alone -/

/-- What none of some callbacks changes, all of them together do not change. -/
theorem collect_keeps_of_mem {α : Type} (f : SessionImplUV P T → α) {cbs : List Callback}
    (h : ∀ c ∈ cbs, ∀ s, f (onCallback s c) = f s) (s : SessionImplUV P T) :
    f (s.collect cbs) = f s := by
  induction cbs generalizing s with
  | nil => rfl
  | cons c cbs ih =>
    rw [collect, List.foldl_cons]
    exact (ih (fun c hc => h c (List.mem_cons_of_mem _ hc)) (s.onCallback c)).trans
      (h c List.mem_cons_self s)

/-- What no callback changes. -/
theorem collect_keeps {α : Type} (f : SessionImplUV P T → α)
    (h : ∀ s c, f (onCallback s c) = f s) (s : SessionImplUV P T) (cbs : List Callback) :
    f (s.collect cbs) = f s :=
  collect_keeps_of_mem f (fun c _ s => h s c) s

theorem collect_append (s : SessionImplUV P T) (cbs cbs' : List Callback) :
    s.collect (cbs ++ cbs') = (s.collect cbs).collect cbs' := by
  rw [collect, collect, collect, List.foldl_append]

@[simp]
theorem collect_phase (s : SessionImplUV P T) (cbs : List Callback) :
    (s.collect cbs).phase = s.phase :=
  collect_keeps phase (fun _ c => by cases c <;> rfl) s cbs

@[simp]
theorem collect_ssl (s : SessionImplUV P T) (cbs : List Callback) :
    (s.collect cbs).ssl = s.ssl :=
  collect_keeps ssl (fun _ c => by cases c <;> rfl) s cbs

@[simp]
theorem collect_responseHandler (s : SessionImplUV P T) (cbs : List Callback) :
    (s.collect cbs).responseHandler = s.responseHandler :=
  collect_keeps responseHandler (fun _ c => by cases c <;> rfl) s cbs

@[simp]
theorem collect_url (s : SessionImplUV P T) (cbs : List Callback) :
    (s.collect cbs).request.url = s.request.url :=
  collect_keeps (fun s => s.request.url) (fun _ c => by cases c <;> rfl) s cbs

@[simp]
theorem collect_error (s : SessionImplUV P T) (cbs : List Callback) :
    (s.collect cbs).response.error = s.response.error :=
  collect_keeps (fun s => s.response.error) (fun _ c => by cases c <;> rfl) s cbs

/-- The callbacks do not look at the parser. -/
theorem collect_setParser (s : SessionImplUV P T) (p : P.State) (cbs : List Callback) :
    (s.setParser p).collect cbs = (s.collect cbs).setParser p := by
  induction cbs generalizing s with
  | nil => rfl
  | cons c cbs ih =>
    have hc : (s.setParser p).onCallback c = (s.onCallback c).setParser p := by cases c <;> rfl
    rw [collect, List.foldl_cons, hc]
    exact ih (s.onCallback c)

/-! ## Runs over the reads of a connection -/

/-- The calls of a handler among some outputs. -/
def calls (tr : List Output) : List ((Response → Response) × Response) :=
  tr.filterMap fun
    | .response handler r => some (handler, r)
    | _ => none

/-- The bytes given to `http_parser_execute` in some outputs. -/
def parsedBytes (tr : List Output) : Bytes :=
  tr.flatMap fun
    | .parsed data => data
    | _ => []

/-- Reads of some data, one after another. -/
def readSteps (reads : List Bytes) : List Step :=
  reads.map fun data => .onRead data.length data

/-- The response that is handed over when the connection ends. -/
def reply (s : SessionImplUV P T) : Response :=
  { s.response with body := s.bodyStream, url := s.request.url, header := s.request.header }

@[simp]
theorem calls_append (tr tr' : List Output) :
    calls (tr ++ tr') = calls tr ++ calls tr' :=
  List.filterMap_append

@[simp]
theorem calls_completions (cbs : List Callback) : calls (completions cbs) = [] := by
  rw [calls, completions, List.filterMap_map, List.filterMap_eq_nil_iff]
  intro c _
  rfl

/-- A call of the parser calls no handler. -/
theorem calls_httpParserExecute (s : SessionImplUV P T) (data : Bytes) :
    calls (s.httpParserExecute data).1 = [] :=
  calls_completions _

/-- A read that is parsed to its end. -/
theorem httpParserExecute_of_accepts {s : SessionImplUV P T} {data : Bytes}
    (h : (P.execute s.parser data).nparsed = data.length) :
    (s.httpParserExecute data).2 =
      (s.collect (P.execute s.parser data).callbacks).setParser
        (P.execute s.parser data).parser := by
  rw [httpParserExecute]
  simp only
  rw [if_pos h, collect_setParser]

/-- The report of a complete message is shown. -/
theorem messageComplete_mem_completions {cbs : List Callback} :
    Output.messageComplete ∈ completions cbs ↔ Callback.messageComplete ∈ cbs := by
  simp [completions]

/-- A call of the parser calls no handler, and shows the report of a complete message. -/
theorem httpParserExecute_outputs {s u : SessionImplUV P T} {data : Bytes} {o : List Output}
    (h : s.httpParserExecute data = (o, u)) : calls o = [] ∧
      (Output.messageComplete ∈ o ↔
        Callback.messageComplete ∈ (P.execute s.parser data).callbacks) := by
  cases h
  refine ⟨calls_httpParserExecute s data, ?_⟩
  rw [List.mem_cons, messageComplete_mem_completions]
  simp only [reduceCtorEq, false_or]

/-- What a read that is parsed to its end leaves alone. -/
theorem httpParserExecute_keeps {s u : SessionImplUV P T} {data : Bytes} {o : List Output}
    (h : s.httpParserExecute data = (o, u))
    (hok : (P.execute s.parser data).nparsed = data.length) :
    u.phase = s.phase ∧ u.request.url = s.request.url ∧ u.responseHandler = s.responseHandler ∧
      u.response.error = s.response.error ∧ u.ssl = s.ssl ∧
      u.parser = (P.execute s.parser data).parser := by
  have hu : u = _ := (congrArg Prod.snd h).symm.trans (httpParserExecute_of_accepts hok)
  rw [hu]
  exact ⟨collect_phase _ _, collect_url _ _, collect_responseHandler _ _, collect_error _ _,
    collect_ssl _ _, rfl⟩

/-- A read that is not parsed to its end aborts the process. -/
theorem httpParserExecute_aborts {s u : SessionImplUV P T} {data : Bytes} {o : List Output}
    (h : s.httpParserExecute data = (o, u))
    (hfail : (P.execute s.parser data).nparsed ≠ data.length) : u.phase = .aborted := by
  cases h
  rw [if_neg hfail]

/-- A read of data on a plain connection. -/
theorem step_read_data {s : SessionImplUV P T} {nread : Int} {buf : Bytes}
    (hphase : s.phase = .reading) (hlen : nread ≤ buf.length) (hpos : 0 < nread)
    (hhttp : s.request.url.isHttps = false) :
    step (.onRead nread buf) s = some (s.httpParserExecute (buf.take nread.toNat)) := by
  rw [step, if_pos ⟨hphase, hlen⟩, onRead, if_pos hpos]
  simp only [hhttp, Bool.false_eq_true, if_false]

/-- The end of a connection. -/
theorem step_read_end {s : SessionImplUV P T} {nread : Int} {buf : Bytes}
    {handler : Response → Response} (hphase : s.phase = .reading) (hnonpos : nread ≤ 0)
    (hhandler : s.responseHandler = some handler) :
    step (.onRead nread buf) s =
      some ([.response handler s.reply],
        { s with
          response := handler s.reply
          request :=
            { s.request with url := s.request.url.movedFrom, header := OrderedMap.empty }
          phase := .closed }) := by
  have hlen : nread ≤ buf.length := by omega
  rw [step, if_pos ⟨hphase, hlen⟩, onRead, if_neg (by omega), onRecvComplete, hhandler]
  rfl

/-- The reads of a response that the parser accepts collect their callbacks. -/
theorem exec_reads {s : SessionImplUV P T} {reads : List Bytes} (hphase : s.phase = .reading)
    (hhttp : s.request.url.isHttps = false) (hne : ∀ data ∈ reads, data ≠ [])
    (hacc : P.Accepts s.parser reads) :
    ∃ tr, exec step (readSteps reads) s =
        some (tr, (s.collect (P.callbacks s.parser reads)).setParser (P.after s.parser reads)) ∧
      calls tr = [] := by
  induction reads generalizing s with
  | nil => exact ⟨[], rfl, rfl⟩
  | cons data reads ih =>
    obtain ⟨hparsed, hrest⟩ := hacc
    have hpos : (0 : Int) < data.length := by
      have := List.length_pos_iff.mpr (hne data List.mem_cons_self)
      omega
    have hstep := step_read_data hphase le_rfl hpos hhttp
    rw [Int.toNat_natCast, List.take_length] at hstep
    have hnext := httpParserExecute_of_accepts hparsed
    obtain ⟨tr, hrun, hresp⟩ := @ih (s.httpParserExecute data).2
      (by rw [hnext]; exact (collect_phase _ _).trans hphase)
      (by rw [hnext]; exact (congrArg Url.isHttps (collect_url _ _)).trans hhttp)
      (fun d hd => hne d (List.mem_cons_of_mem _ hd))
      (by rw [hnext]; exact hrest)
    refine ⟨(s.httpParserExecute data).1 ++ tr, ?_, ?_⟩
    · rw [readSteps, List.map_cons, exec_cons_eq_some]
      refine ⟨_, (s.httpParserExecute data).2, tr, hstep, ?_, rfl⟩
      rw [readSteps] at hrun
      rw [hrun, hnext, HttpParser.callbacks, collect_append, collect_setParser]
      rfl
    · rw [calls_append, calls_httpParserExecute, hresp]
      rfl

/-- A connection whose data the parser accepts hands over one response: the one that the
callbacks of its reads collect. The body stream stays as it is. -/
theorem exec_connection {s : SessionImplUV P T} {reads : List Bytes} {nread : Int}
    {handler : Response → Response} (hphase : s.phase = .reading)
    (hhttp : s.request.url.isHttps = false) (hhandler : s.responseHandler = some handler)
    (hne : ∀ data ∈ reads, data ≠ []) (hacc : P.Accepts s.parser reads) (hnonpos : nread ≤ 0)
    (buf : Bytes) :
    ∃ tr t, exec step (readSteps reads ++ [.onRead nread buf]) s = some (tr, t) ∧
      calls tr = [(handler, (s.collect (P.callbacks s.parser reads)).reply)] ∧
      t.phase = .closed ∧ t.request.header = OrderedMap.empty ∧
      t.bodyStream = (s.collect (P.callbacks s.parser reads)).bodyStream ∧
      t.parser = P.after s.parser reads := by
  obtain ⟨tr, hrun, hresp⟩ := exec_reads hphase hhttp hne hacc
  have hend := @step_read_end P T
    ((s.collect (P.callbacks s.parser reads)).setParser (P.after s.parser reads)) nread buf handler
    ((collect_phase _ _).trans hphase) hnonpos ((collect_responseHandler _ _).trans hhandler)
  refine ⟨_, _, exec_append_eq_some.mpr ⟨_, tr, _, hrun,
    exec_cons_eq_some.mpr ⟨_, _, [], hend, rfl, rfl⟩, rfl⟩, ?_, rfl, rfl, rfl, rfl⟩
  rw [calls_append, hresp]
  rfl

end SessionImplUV

end CppImprovement.Http

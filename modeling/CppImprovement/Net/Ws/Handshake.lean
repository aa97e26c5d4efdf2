import CppImprovement.Core.Lines
import CppImprovement.Core.Text
import CppImprovement.Net.Ws.Types
import CppImprovement.Net.Ws.Base64

/-!
# The server's handshake reply

`ReadServerHandshakeReply` is a resumable parser: it keeps its stage in
`connectState_` and returns `needMore` while a line is incomplete. A header line
is taken apart by stream extraction, whose failed extraction leaves the value
of the line before in place. The model follows `evbuffer_readln` for lines,
`sscanf` for the status line and `std::istream` for header lines, all on C
strings, so a NUL cuts a line short.
-/

namespace CppImprovement.Ws

/-! ## Text -/

/-- `CompareStrIgnoreCase`. -/
def compareStrIgnoreCase (a b : Bytes) : Bool := a.map toLower == b.map toLower

/-- The colon between a header's name and its value. -/
def COLON : UInt8 := 58

/-- What `%d` stores for a number: `strtol` brings it into the range of `long`, and the low 32
bits of that are stored as an `int`. -/
def storeInt (n : Int) : Int := (max (-2 ^ 63) (min n (2 ^ 63 - 1))).bmod (2 ^ 32)

/-- The `sscanf` conversion `%d`: blanks, an optional sign, and at least one digit. -/
def scanInt (s : Bytes) : Option (Int × Bytes) :=
  let s := s.dropWhile isSpace
  let signed : Int × Bytes :=
    match s with
    | 45 :: rest => (-1, rest)
    | 43 :: rest => (1, rest)
    | _ => (1, s)
  let digits := signed.2.takeWhile isDecimalDigit
  if digits = [] then none
  else some (storeInt (signed.1 * natOfText digits), signed.2.dropWhile isDecimalDigit)

/-- A literal of a `sscanf` format. -/
def scanLiteral : Bytes → Bytes → Option Bytes
  | [], s => some s
  | c :: cs, b :: s => if c = b then scanLiteral cs s else none
  | _ :: _, [] => none

/-- `ParseHttpStatus`: the major and minor version and the status code, when all three
conversions of `"HTTP/%d.%d %d"` succeed. -/
def parseHttpStatus (line : Bytes) : Option (Int × Int × Int) := do
  let s ← scanLiteral (ascii "HTTP/") line
  let (major, s) ← scanInt s
  let s ← scanLiteral (ascii ".") s
  let (minor, s) ← scanInt s
  let (code, _) ← scanInt (s.dropWhile isSpace)
  pure (major, minor, code)

-- 2 ^ 32 + 101 is stored as 101.
example : parseHttpStatus (ascii "HTTP/1.1 4294967397 OK") = some (1, 1, 101) := by decide +kernel

/-! ## Header lines -/

/-- The name of a line: everything before its first colon, the whole line when it has none. -/
def lineName (line : Bytes) : Bytes := line.takeWhile (· != COLON)

/-- The text behind the first colon of a line, if it has one. -/
def lineRest (line : Bytes) : Option Bytes :=
  match line.dropWhile (· != COLON) with
  | [] => none
  | _ :: rest => some rest

/-- The first blank-delimited token of a text, if it has one. -/
def firstToken (s : Bytes) : Option Bytes :=
  match s.dropWhile isSpace with
  | [] => none
  | b :: rest => some ((b :: rest).takeWhile fun c => !isSpace c)

/-- `ParseHttpHeader`: `getline` up to the colon, then extraction of one token into
`headerVal`. Without a colon the stream is at its end, and with nothing but blanks behind the
colon the extraction fails: in both cases `headerVal` stays what it was. -/
def parseHttpHeader (line headerVal : Bytes) : Bytes × Bytes :=
  (lineName line, ((lineRest line).bind firstToken).getD headerVal)

/-- `header_.insert_or_assign`: the map compares names without regard to case. -/
def insertOrAssign (key val : Bytes) : List (Bytes × Bytes) → List (Bytes × Bytes)
  | [] => [(key, val)]
  | e :: es =>
    if compareStrIgnoreCase e.1 key then (e.1, val) :: es else e :: insertOrAssign key val es

/-! ## Validation -/

def WS_HAS_VALID_UPGRADE_HEADER : UInt8 := 1
def WS_HAS_VALID_CONNECTION_HEADER : UInt8 := 2
def WS_HAS_VALID_WS_ACCEPT_HEADER : UInt8 := 4

/-- `ValidateHttpHeader` on the flag word: `none` is the result `-1`. -/
def validateHttpHeader (flag : UInt8) (name val expectedName expectedVal : Bytes)
    (mustAppearOnlyOnce : Bool) (flags : UInt8) : Option UInt8 :=
  if compareStrIgnoreCase expectedName name then
    if mustAppearOnlyOnce && (flags &&& flag != 0) then none
    else if !compareStrIgnoreCase expectedVal val then none
    else some (flags ||| flag)
  else some flags

/-- The GUID appended to the key. -/
def acceptKey : Bytes := ascii "258EAFA5-E914-47DA-95CA-C5AB0DC85B11"

/-- `CalculateKeyHash`. -/
def calculateKeyHash (sha1 : Bytes → Bytes) (handshakeKeyBase64 : Bytes) : Bytes :=
  encodeBase64 (sha1 (cstr handshakeKeyBase64 ++ acceptKey))

/-- `ValidateHttpHeaders` on the flag word. The subprotocol branch returns `-1` on both of its
paths and clears a bit that nothing sets, so a failing line leaves the word as it was. -/
def validateHttpHeaders (acceptKeyHash name val : Bytes) (flags : UInt8) : Option UInt8 := do
  let flags ← validateHttpHeader WS_HAS_VALID_UPGRADE_HEADER name val
    (ascii "Upgrade") (ascii "websocket") true flags
  let flags ← validateHttpHeader WS_HAS_VALID_CONNECTION_HEADER name val
    (ascii "Connection") (ascii "upgrade") true flags
  if acceptKeyHash = [] then none
  else
    let flags ← validateHttpHeader WS_HAS_VALID_WS_ACCEPT_HEADER name val
      (ascii "Sec-WebSocket-Accept") acceptKeyHash true flags
    if compareStrIgnoreCase name (ascii "Sec-WebSocket-Extensions") then none
    else if compareStrIgnoreCase (ascii "Sec-WebSocket-Protocol") name then none
    else some flags

/-! ## The resumable parser -/

/-- The fields of the session that the handshake reads and writes. -/
structure Handshake where
  connectState : WSConnectState := .none
  httpHeaderFlags : UInt8 := 0
  /-- `header_`, the reply headers seen so far. -/
  header : List (Bytes × Bytes) := []
  handshakeKeyBase64 : Bytes := []
  deriving DecidableEq, Repr

/-- What a parsing step returns: its result, the handshake fields and the unread input. -/
abbrev Reply := WSParseState × Handshake × Bytes

/-- The loop of `ReadHttpHeaders`. `headerVal` is the variable shared by its iterations; the
bound counts lines, and a buffer has fewer lines than bytes. -/
def readHttpHeadersLoop (sha1 : Bytes → Bytes) : Nat → Handshake → Bytes → Bytes → Reply
  | 0, h, _, input => (.needMore, h, input)
  | n + 1, h, headerVal, input =>
    match readln input with
    | none => (.needMore, h, input)
    | some (line, rest) =>
      if cstr line = [] then (.success, h, rest)
      else
        let kv := parseHttpHeader (cstr line) headerVal
        let h := { h with header := insertOrAssign kv.1 kv.2 h.header }
        match validateHttpHeaders (calculateKeyHash sha1 h.handshakeKeyBase64) kv.1 kv.2
            h.httpHeaderFlags with
        | none => (.error, h, rest)
        | some flags => readHttpHeadersLoop sha1 n { h with httpHeaderFlags := flags } kv.2 rest

/-- `ReadHttpHeaders`. -/
def readHttpHeaders (sha1 : Bytes → Bytes) (h : Handshake) (input : Bytes) : Reply :=
  readHttpHeadersLoop sha1 (input.length + 1) h [] input

/-- The last stage of `ReadServerHandshakeReply`: every required header must have been seen. -/
def checkRequiredHeaders (h : Handshake) (input : Bytes) : Reply :=
  if h.httpHeaderFlags &&& WS_HAS_VALID_UPGRADE_HEADER == 0 then (.error, h, input)
  else if h.httpHeaderFlags &&& WS_HAS_VALID_CONNECTION_HEADER == 0 then (.error, h, input)
  else if h.httpHeaderFlags &&& WS_HAS_VALID_WS_ACCEPT_HEADER == 0 then (.error, h, input)
  else (.success, { h with connectState := .handshakeComplete }, input)

/-- The header stage, which falls through to the last one. -/
def readHeaderStage (sha1 : Bytes → Bytes) (h : Handshake) (input : Bytes) : Reply :=
  match readHttpHeaders sha1 h input with
  | (.success, h, rest) => checkRequiredHeaders { h with connectState := .parsedHeaders } rest
  | other => other

/-- The status stage, which falls through to the header stage. -/
def readStatusStage (sha1 : Bytes → Bytes) (h : Handshake) (input : Bytes) : Reply :=
  match readln input with
  | none => (.needMore, h, input)
  | some (line, rest) =>
    match parseHttpStatus (cstr line) with
    | none => (.error, h, rest)
    | some (major, minor, code) =>
      if major ≠ 1 ∨ minor ≠ 1 then (.error, h, rest)
      else if code ≠ 101 then (.error, h, rest)
      else readHeaderStage sha1 { h with connectState := .parsedStatus } rest

/-- `ReadServerHandshakeReply`. -/
def readServerHandshakeReply (sha1 : Bytes → Bytes) (h : Handshake) (input : Bytes) : Reply :=
  match h.connectState with
  | .sentReq => readStatusStage sha1 { h with httpHeaderFlags := 0 } input
  | .parsedStatus => readHeaderStage sha1 h input
  | .parsedHeaders => checkRequiredHeaders h input
  | _ => (.error, h, input)

/-- The reply arriving in reads: each one is appended to the unread input and parsed, until the
parser returns something other than `needMore`. The unread input of the result includes the
reads that were not needed. -/
def readReply (sha1 : Bytes → Bytes) : Handshake → Bytes → List Bytes → Reply
  | h, input, [] => (.needMore, h, input)
  | h, input, r :: rs =>
    match readServerHandshakeReply sha1 h (input ++ r) with
    | (.needMore, h, input) => readReply sha1 h input rs
    | (result, h, input) => (result, h, input ++ rs.flatten)

end CppImprovement.Ws

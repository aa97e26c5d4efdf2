import CppImprovement.Net.Http.Session

/-!
# A parser of plain responses

An instance of the parser parameter that behaves as `http_parser` does on responses of
`HTTP/1.1` with plain header lines: the body has a `Content-Length`, or it goes on to the end of
the connection. As in `http_parser`, an element that is open when a read ends is reported up to
there, and the rest of it with the next read, even when nothing of it is left.
-/

namespace CppImprovement.Http

/-- What the parser expects. -/
inductive Mode
  | version (rest : Bytes)
  | code (digits : Nat)
  | statusStart
  | status
  | lineEnd
  | fieldStart
  | field
  | valueStart
  | value
  | headersEnd
  | body (left : Nat)
  | bodyUntilEof
  | dead
deriving DecidableEq

/-- The parser: its mode, the status code, the name of the current header line in lower case
and the length the headers have announced. -/
structure ResponseParser where
  mode : Mode
  statusCode : Nat
  name : List Nat
  contentLength : Option Nat
deriving DecidableEq

namespace ResponseParser

/-- The parser at the start of a message. -/
def fresh : ResponseParser := ⟨.version (ascii "HTTP/1.1 "), 0, [], none⟩

/-- The value of a decimal digit. -/
def digit (b : UInt8) : Option Nat :=
  if 48 ≤ b.toNat ∧ b.toNat ≤ 57 then some (b.toNat - 48) else none

/-- Whether the message ends with its headers. -/
def hasNoBody (p : ResponseParser) : Bool :=
  p.statusCode / 100 = 1 || p.statusCode = 204 || p.statusCode = 304 || p.contentLength = some 0

/-- Whether the current line is the `Content-Length`. -/
def isContentLength (p : ResponseParser) : Bool :=
  p.name = caseInsensitive (ascii "Content-Length")

/-- A byte of a header value; a `Content-Length` has digits only. -/
def valueByte (p : ResponseParser) (b : UInt8) : Option ResponseParser :=
  if p.isContentLength then
    (digit b).map fun d =>
      { p with mode := .value, contentLength := some (10 * p.contentLength.getD 0 + d) }
  else some { p with mode := .value }

/-- The parser after the headers. -/
def afterHeaders (p : ResponseParser) : ResponseParser :=
  if p.hasNoBody then fresh
  else
    match p.contentLength with
    | some n => { p with mode := .body n }
    | none => { p with mode := .bodyUntilEof }

/-- The parser after one byte. -/
def next (p : ResponseParser) (b : UInt8) : Option ResponseParser :=
  match p.mode with
  | .version [] => none
  | .version (c :: rest) =>
    if b ≠ c then none
    else some { p with mode := if rest.isEmpty then .code 0 else .version rest }
  | .code n =>
    if n < 3 then
      (digit b).map fun d => { p with mode := .code (n + 1), statusCode := 10 * p.statusCode + d }
    else if b = 32 then some { p with mode := .statusStart }
    else none
  | .statusStart | .status => some { p with mode := if b = 13 then .lineEnd else .status }
  | .lineEnd => if b = 10 then some { p with mode := .fieldStart } else none
  | .fieldStart =>
    if b = 13 then some { p with mode := .headersEnd }
    else some { p with mode := .field, name := [tolower b] }
  | .field =>
    if b = 58 then some { p with mode := .valueStart }
    else some { p with name := p.name ++ [tolower b] }
  | .valueStart =>
    if b = 32 then some p
    else if b = 13 then some { p with mode := .lineEnd }
    else p.valueByte b
  | .value => if b = 13 then some { p with mode := .lineEnd } else p.valueByte b
  | .headersEnd => if b = 10 then some p.afterHeaders else none
  | .body n => if n ≤ 1 then some fresh else some { p with mode := .body (n - 1) }
  | .bodyUntilEof => some p
  | .dead => none

/-- What a byte makes the parser report, and the open piece after it. -/
def report (p : ResponseParser) (piece : Bytes) (b : UInt8) : List Callback × Bytes :=
  match p.mode with
  | .statusStart | .status =>
    if b = 13 then ([.status p.statusCode piece], []) else ([], piece ++ [b])
  | .fieldStart => ([], if b = 13 then [] else [b])
  | .field => if b = 58 then ([.headerField piece], []) else ([], piece ++ [b])
  | .valueStart =>
    if b = 32 then ([], []) else if b = 13 then ([.headerValue []], []) else ([], [b])
  | .value => if b = 13 then ([.headerValue piece], []) else ([], piece ++ [b])
  | .headersEnd =>
    (if p.hasNoBody then [.headersComplete, .messageComplete] else [.headersComplete], [])
  | .body n =>
    if n ≤ 1 then ([.body (piece ++ [b]), .messageComplete], []) else ([], piece ++ [b])
  | .bodyUntilEof => ([], piece ++ [b])
  | _ => ([], [])

/-- The open piece at the end of a read. -/
def flush (p : ResponseParser) (piece : Bytes) : List Callback :=
  match p.mode with
  | .status => [.status p.statusCode piece]
  | .field => [.headerField piece]
  | .value => [.headerValue piece]
  | .body _ | .bodyUntilEof => if piece.isEmpty then [] else [.body piece]
  | _ => []

/-- The rest of a read, with the piece of it that is open. -/
def run (p : ResponseParser) (piece : Bytes) : Bytes → Parsed ResponseParser
  | [] => ⟨p.flush piece, 0, p⟩
  | b :: bs =>
    match p.next b with
    | none => ⟨[], 0, { p with mode := .dead }⟩
    | some p' =>
      let r := run p' (p.report piece b).2 bs
      ⟨(p.report piece b).1 ++ r.callbacks, r.nparsed + 1, r.parser⟩

/-- The parts of a URL with a scheme, a host and perhaps a path. -/
def parseUrl (text : Bytes) : ParserUrl :=
  let schema := (text.takeWhile (· ≠ 58)).length
  let host := ((text.drop (schema + 3)).takeWhile (· ≠ 47)).length
  let path := (text.drop (schema + 3 + host)).length
  { schema := some (0, schema)
    host := some (schema + 3, host)
    port := none
    path := if path = 0 then none else some (schema + 3 + host, path)
    query := none
    fragment := none }

/-- The parser of plain responses. -/
def parser : HttpParser where
  State := ResponseParser
  init := fresh
  execute := fun p data => run p [] data
  parseUrl := parseUrl

/-- A read is parsed to its end exactly when every byte of it is expected. -/
theorem run_nparsed_of_isSome {p q : ResponseParser} {piece data : Bytes}
    (h : data.foldlM next p = some q) :
    (run p piece data).nparsed = data.length ∧ (run p piece data).parser = q := by
  induction data generalizing p piece with
  | nil =>
    cases h
    exact ⟨rfl, rfl⟩
  | cons b bs ih =>
    rw [List.foldlM_cons] at h
    obtain ⟨p', hp, hbs⟩ := Option.bind_eq_some_iff.mp h
    obtain ⟨hn, hq⟩ := @ih p' (p.report piece b).2 hbs
    simp only [run, hp, hn, hq, List.length_cons, and_self]

/-- Whether the parser accepts some reads depends on the bytes of the reads only. -/
theorem accepts_of_isSome {p q : ResponseParser} {reads : List Bytes}
    (h : reads.flatten.foldlM next p = some q) : parser.Accepts p reads := by
  induction reads generalizing p with
  | nil => trivial
  | cons data reads ih =>
    rw [List.flatten_cons, List.foldlM_append] at h
    obtain ⟨p', hp, hrest⟩ := Option.bind_eq_some_iff.mp h
    obtain ⟨hn, hq⟩ := @run_nparsed_of_isSome p p' [] data hp
    exact ⟨hn, hq.symm ▸ ih hrest⟩

/-- The reads of a part of an accepted response are accepted. -/
theorem accepts_of_isPrefix {p q : ResponseParser} {reads : List Bytes} {text : Bytes}
    (hpre : reads.flatten <+: text) (h : text.foldlM next p = some q) :
    parser.Accepts p reads := by
  obtain ⟨rest, rfl⟩ := hpre
  rw [List.foldlM_append] at h
  obtain ⟨p', hp, _⟩ := Option.bind_eq_some_iff.mp h
  exact accepts_of_isSome hp

end ResponseParser

end CppImprovement.Http

import Mathlib.Data.List.Flatten
import CppImprovement.Core.RequestHead
import CppImprovement.Net.Http.ResponseParser

/-!
# A request on the wire

What a server reads off the text that `SetUrl` and `PreparePayload` make of a URL. The URL comes
back in pieces from `http_parser_parse_url`, which is taken to find the components of RFC 3986.
`PreparePayload` prints the path and the host, and neither the query nor the port: the text stands
for the URL exactly when it has no query and no port but the default one.
-/

namespace CppImprovement.Http

/-! ## URLs -/

/-- The components of a URL `scheme://host[:port][/path][?query]`. -/
structure UrlParts where
  scheme : Bytes
  host : Bytes
  port : Option Bytes
  path : Bytes
  query : Option Bytes

/-- No blank and no control character. -/
def Visible (b : Bytes) : Prop := ∀ c ∈ b, 32 < c.toNat

instance Visible.decidable (b : Bytes) : Decidable (Visible b) := List.decidableBAll _ b

namespace UrlParts

/-- The text of a URL. -/
def text (u : UrlParts) : Bytes :=
  u.scheme ++ ascii "://" ++ u.host ++ (u.port.elim [] fun p => ascii ":" ++ p) ++ u.path ++
    (u.query.elim [] fun q => ascii "?" ++ q)

/-- The components are as the grammar of URLs has them. -/
structure WellFormed (u : UrlParts) : Prop where
  visible : Visible u.text
  port : ∀ p, u.port = some p → p ≠ [] ∧ ∀ d ∈ p, 48 ≤ d.toNat ∧ d.toNat ≤ 57
  path : u.path = [] ∨ u.path.head? = some 47

/-- The path that is asked for. -/
def requestPath (u : UrlParts) : Bytes := if u.path = [] then ascii "/" else u.path

/-- The target of a request for the URL. -/
def target (u : UrlParts) : Bytes := u.requestPath ++ u.query.elim [] fun q => ascii "?" ++ q

/-- The host of the request, with the port unless it is the default of the scheme. -/
def hostField (default : Bytes → Option Nat) (u : UrlParts) : Bytes :=
  u.host ++ u.port.elim [] fun p =>
    if default u.scheme = some (natOfText p) then [] else ascii ":" ++ p

end UrlParts

/-- The piece of a text that an offset and a length name. -/
def piece (text : Bytes) (part : Option (Nat × Nat)) : Option Bytes :=
  part.map fun p => (text.drop p.1).take p.2

/-- The parser has found the components of the URL. -/
structure ParserUrl.Describes (p : ParserUrl) (u : UrlParts) : Prop where
  schema : piece u.text p.schema = some u.scheme
  host : piece u.text p.host = some u.host
  port : p.port = u.port.map natOfText
  path : piece u.text p.path = if u.path = [] then none else some u.path
  query : piece u.text p.query = u.query
  fragment : p.fragment = none

private theorem urlField_eq (text : Bytes) (part : Option (Nat × Nat)) (old : Bytes) :
    HttpParser.urlField text part old = (piece text part).getD old := by
  cases part <;> rfl

section url

variable {P : HttpParser} {T : Ssl} {s : SessionImplUV P T} {u : UrlParts}

/-- What `SetUrl` stores of a URL. -/
theorem setUrl_stores (hp : (P.parseUrl u.text).Describes u) (port : Int) :
    (s.setUrl (Url.ofText u.text port)).request.url.host = u.host ∧
      (s.setUrl (Url.ofText u.text port)).request.url.path = u.path := by
  constructor
  · change HttpParser.urlField u.text (P.parseUrl u.text).host [] = _
    rw [urlField_eq, hp.host, Option.getD_some]
  · change HttpParser.urlField u.text (P.parseUrl u.text).path [] = _
    rw [urlField_eq, hp.path]
    split
    · rename_i hnil
      rw [hnil, Option.getD_none]
    · rfl

end url

/-! ## The formatter -/

/-- The largest `int`. -/
def INT_MAX : Nat := 2 ^ 31 - 1

/-- `snprintf` into a buffer of `size` octets: the length of the whole text, or an error where that
is no `int`, and what the buffer holds before the terminator. -/
def snprintf (size : Nat) (text : Bytes) : Int × Bytes :=
  (if text.length ≤ INT_MAX then text.length else -1, text.take (size - 1))

/-- `FmtString`: a text is printed into a buffer of fixed size, and where that is too small once
more into one as long as `snprintf` has said. The result is read up to a terminator. -/
def fmtString (bufsiz : Nat) (text : Bytes) : Bytes :=
  -- The result becomes a `size_t`, so that of an error `newlen` is zero.
  let newlen := (((snprintf bufsiz text).1 % 2 ^ 64).toNat + 1) % 2 ^ 64
  cstr (if bufsiz < newlen then (snprintf newlen text).2 else (snprintf bufsiz text).2)

/-- Either way the whole text comes out, if its length is an `int`. -/
theorem fmtString_eq (bufsiz : Nat) {text : Bytes} (h : (0 : UInt8) ∉ text)
    (hlen : text.length ≤ INT_MAX) : fmtString bufsiz text = text := by
  have hnew : ((((text.length : Int) % 2 ^ 64).toNat + 1) % 2 ^ 64 : Nat) = text.length + 1 := by
    rw [INT_MAX] at hlen
    omega
  rw [fmtString]
  simp only [snprintf, if_pos hlen, hnew]
  split
  · rw [Nat.add_sub_cancel, List.take_length, cstr_eq_self h]
  · rw [List.take_of_length_le (by omega), cstr_eq_self h]

private theorem nul_notMem_toString (n : Nat) : (0 : UInt8) ∉ ascii (toString n) := by
  intro hmem
  have hdigits : ascii (toString n) = (Nat.toDigits 10 n).map fun d => d.toNat.toUInt8 := by
    simp [ascii, toString, Nat.repr]
  rw [hdigits] at hmem
  exact absurd (toNat_of_mem_toDigits hmem).1 (by decide)

/-- Every line of a request is printed by `FmtString`, if the length of the request is an `int`. -/
theorem preparePayload_raw (bufsiz : Nat) (r : Request)
    (hlen : r.preparePayload.raw.length ≤ INT_MAX) :
    r.preparePayload.raw =
      fmtString bufsiz (cstr r.method ++ ascii " " ++
        (if r.url.path.isEmpty then ascii "/" else cstr r.url.path) ++ ascii " HTTP/" ++
        ascii (toString r.httpMajor) ++ ascii "." ++ ascii (toString r.httpMinor) ++
        ascii "\r\n") ++
      fmtString bufsiz (ascii "Host: " ++ cstr r.url.host ++ ascii "\r\n") ++
      r.header.entries.flatMap (fun e =>
        fmtString bufsiz (cstr e.1 ++ ascii ": " ++ cstr e.2 ++ ascii "\r\n")) ++
      ascii "\r\n" := by
  have hpath : (0 : UInt8) ∉ if r.url.path.isEmpty then ascii "/" else cstr r.url.path := by
    split
    · decide
    · exact nul_notMem_cstr _
  simp only [Request.preparePayload] at hlen ⊢
  rw [List.length_append, List.length_append, List.length_append] at hlen
  have hfield : ∀ e ∈ r.header.entries,
      fmtString bufsiz (cstr e.1 ++ ascii ": " ++ cstr e.2 ++ ascii "\r\n") =
        cstr e.1 ++ ascii ": " ++ cstr e.2 ++ ascii "\r\n" := by
    intro e he
    have hle := ((List.singleton_sublist.mpr he).flatMap
      fun e => cstr e.1 ++ ascii ": " ++ cstr e.2 ++ ascii "\r\n").length_le
    rw [List.flatMap_singleton] at hle
    refine fmtString_eq bufsiz ?_ (by omega)
    simp only [List.mem_append, not_or]
    exact ⟨⟨⟨nul_notMem_cstr _, by decide⟩, nul_notMem_cstr _⟩, by decide⟩
  rw [fmtString_eq bufsiz _ (by omega), fmtString_eq bufsiz _ (by omega),
    List.flatMap_congr hfield]
  · simp only [List.mem_append, not_or]
    exact ⟨⟨by decide, nul_notMem_cstr _⟩, by decide⟩
  · simp only [List.mem_append, not_or]
    exact ⟨⟨⟨⟨⟨⟨⟨nul_notMem_cstr _, by decide⟩, hpath⟩, by decide⟩, nul_notMem_toString _⟩,
      by decide⟩, nul_notMem_toString _⟩, by decide⟩

/-! ## The text -/

section text

variable {P : HttpParser} {T : Ssl} {s : SessionImplUV P T} {u : UrlParts}
  {default : Bytes → Option Nat}

/-- The text printed after `SetUrl`. -/
def serialised (s : SessionImplUV P T) (url : Url) : Bytes :=
  (s.setUrl url).request.preparePayload.raw

/-- The head that a server should read. Blanks around a value are not part of it. -/
def requestedHead (default : Bytes → Option Nat) (r : Request) (u : UrlParts) : RequestHead where
  method := r.method
  target := u.target
  version := ascii "HTTP/1.1"
  fields := (ascii "Host", u.hostField default) ::
    r.header.entries.map fun e => (e.1, trimBlanks e.2)

/-- The head that is printed. -/
def printedHead (r : Request) (u : UrlParts) : RequestHead where
  method := r.method
  target := u.requestPath
  version := ascii "HTTP/1.1"
  fields := (ascii "Host", u.host) :: r.header.entries

/-- What a request may be made of. -/
structure Request.Sendable (r : Request) : Prop where
  version : r.httpMajor = 1 ∧ r.httpMinor = 1
  method : Visible r.method
  header : ∀ e ∈ r.header.entries, HCOLON ∉ e.1 ∧ OneLine e.1 ∧ OneLine e.2

theorem Visible.noNul {b : Bytes} (h : Visible b) : (0 : UInt8) ∉ b :=
  fun hmem => absurd (h 0 hmem) (by decide)

theorem Visible.noCR {b : Bytes} (h : Visible b) : CR ∉ b :=
  fun hmem => absurd (h CR hmem) (by decide)

private theorem Visible.noSP {b : Bytes} (h : Visible b) : SP ∉ b :=
  fun hmem => absurd (h SP hmem) (by decide)

theorem UrlParts.WellFormed.host (h : u.WellFormed) : Visible u.host :=
  fun c hc => h.visible c (by simp [UrlParts.text, hc])

private theorem UrlParts.WellFormed.visible_path (h : u.WellFormed) : Visible u.path :=
  fun c hc => h.visible c (by simp [UrlParts.text, hc])

private theorem UrlParts.WellFormed.requestPath (h : u.WellFormed) : Visible u.requestPath := by
  rw [UrlParts.requestPath]
  split
  · decide
  · exact h.visible_path

private theorem writable_printedHead (hr : s.request.Sendable) (hu : u.WellFormed) :
    (printedHead s.request u).Writable where
  method := ⟨hr.method.noSP, hr.method.noCR⟩
  target := hu.requestPath.noCR
  version := show SP ∉ ascii "HTTP/1.1" ∧ CR ∉ ascii "HTTP/1.1" by decide
  fields := by
    refine List.forall_mem_cons.mpr ⟨RequestHead.writable_field (by decide) hu.host.noCR, ?_⟩
    intro e he
    obtain ⟨hcolon, hname, hvalue⟩ := hr.header e he
    exact ⟨hcolon, hname.noCR, hvalue.noCR⟩

/-- The text is that of the printed head, with its empty line. -/
theorem serialised_eq (hr : s.request.Sendable) (hu : u.WellFormed)
    (hp : (P.parseUrl u.text).Describes u) (port : Int) :
    serialised s (Url.ofText u.text port) = (printedHead s.request u).text ++ CRLF := by
  obtain ⟨hhost, hpath⟩ := @setUrl_stores P T s u hp port
  have hentries : s.request.header.entries.flatMap (fun e =>
      cstr e.1 ++ ascii ": " ++ cstr e.2 ++ ascii "\r\n") =
      linesText (s.request.header.entries.map RequestHead.fieldLine) := by
    rw [linesText, List.flatMap_map]
    refine List.flatMap_congr fun e he => ?_
    obtain ⟨-, hname, hvalue⟩ := hr.header e he
    rw [cstr_eq_self hname.noNul, cstr_eq_self hvalue.noNul]
    simp [RequestHead.fieldLine, ascii, HCOLON, SP, CRLF, CR, LF]
  have hpathText : (if u.path.isEmpty then ascii "/" else cstr u.path) = u.requestPath := by
    rw [UrlParts.requestPath, cstr_eq_self hu.visible_path.noNul]
    simp only [List.isEmpty_iff]
  have hraw : serialised s (Url.ofText u.text port) =
      cstr s.request.method ++ ascii " " ++
        (if (s.setUrl (Url.ofText u.text port)).request.url.path.isEmpty then ascii "/"
          else cstr (s.setUrl (Url.ofText u.text port)).request.url.path) ++
        ascii " HTTP/" ++ ascii (toString s.request.httpMajor) ++ ascii "." ++
        ascii (toString s.request.httpMinor) ++ ascii "\r\n" ++
      (ascii "Host: " ++ cstr (s.setUrl (Url.ofText u.text port)).request.url.host ++
        ascii "\r\n") ++
      s.request.header.entries.flatMap (fun e =>
        cstr e.1 ++ ascii ": " ++ cstr e.2 ++ ascii "\r\n") ++ ascii "\r\n" := rfl
  have hone : ascii (toString 1) = ascii "1" := rfl
  rw [hraw, hhost, hpath, hpathText, hr.version.1, hr.version.2, hone,
    cstr_eq_self hr.method.noNul, cstr_eq_self hu.host.noNul, hentries]
  simp [printedHead, RequestHead.text, linesText, RequestHead.requestLine, RequestHead.fieldLine,
    ascii, CRLF, CR, LF, SP, HCOLON]

/-- The text, read as the head of a request, gives the request for the URL back: the method, the
target, the host with its port, and the entries of the header map. -/
def Serialises (default : Bytes → Option Nat) (s : SessionImplUV P T) (u : UrlParts) (port : Int) :
    Prop :=
  readHead (serialised s (Url.ofText u.text port)) = some (requestedHead default s.request u, [])

private theorem target_eq_iff (u : UrlParts) : u.requestPath = u.target ↔ u.query = none := by
  rw [UrlParts.target, List.self_eq_append_right]
  cases u.query with
  | none => simp
  | some q => simp [ascii]

private theorem hostField_eq_iff (u : UrlParts) :
    u.host = u.hostField default ↔
      ∀ p, u.port = some p → default u.scheme = some (natOfText p) := by
  rw [UrlParts.hostField, List.self_eq_append_right]
  cases u.port with
  | none => simp
  | some p =>
    by_cases hd : default u.scheme = some (natOfText p)
    · simp [hd]
    · simp [hd, ascii]

end text

/-- The default ports of the two schemes of HTTP. -/
def schemePort (scheme : Bytes) : Option Nat :=
  if scheme = ascii "http" then some 80 else if scheme = ascii "https" then some 443 else none

/-- A session with its method set. -/
def getting (P : HttpParser) : SessionImplUV P Ssl.unused :=
  { SessionImplUV.doInit P Ssl.unused 0 0 with
    request := { Request.create 0 with method := ascii "GET" } }

private theorem getting_sendable (P : HttpParser) : (getting P).request.Sendable where
  version := ⟨rfl, rfl⟩
  method := show Visible (ascii "GET") by decide
  header := fun e he => absurd he List.not_mem_nil

/-- The URL "http://example/chat". -/
def chatUrl : UrlParts := ⟨ascii "http", ascii "example", none, ascii "/chat", none⟩

/-- The URL "http://h/a?b". -/
def queryUrl : UrlParts := ⟨ascii "http", ascii "h", none, ascii "/a", some (ascii "b")⟩

/-- A parser that finds its components. -/
def queryParser : HttpParser :=
  { ResponseParser.parser with
    parseUrl := fun _ => ⟨some (0, 4), some (7, 1), none, some (8, 2), some (11, 1), none⟩ }

end CppImprovement.Http

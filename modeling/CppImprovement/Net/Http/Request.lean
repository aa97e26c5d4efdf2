import CppImprovement.Core.Bytes
import CppImprovement.Core.OrderedMap
import CppImprovement.Core.Text
import Mathlib.Data.List.Lex

/-!
# HTTP requests

Header maps compare their names without regard to case. A request holds the parts of its URL,
and `PreparePayload` prints it.
-/

namespace CppImprovement.Http

/-- `std::tolower` of an octet. -/
def tolower (b : UInt8) : Nat := (toLower b).toNat

/-- What `CaseInsensitiveCompare` compares, in lexicographical order. -/
def caseInsensitive (name : Bytes) : List Nat := name.map tolower

/-- The header map. -/
abbrev Header := OrderedMap caseInsensitive Bytes

/-- A URL and the parts `SetUrl` finds in it. -/
structure Url where
  url : Bytes
  schema : Bytes
  host : Bytes
  port : Int
  path : Bytes
  query : Bytes
  fragment : Bytes
deriving DecidableEq

/-- `Url(text)`; the port has no initial value. -/
def Url.ofText (text : Bytes) (port : Int) : Url :=
  ⟨text, [], [], port, [], [], []⟩

/-- `Url::IsHttps`. -/
def Url.isHttps (u : Url) : Bool := u.schema == ascii "https"

/-- What a move leaves of a URL. -/
def Url.movedFrom (u : Url) : Url := Url.ofText [] u.port

/-- A request. -/
structure Request where
  header : Header
  method : Bytes
  url : Url
  httpMajor : Nat
  httpMinor : Nat
  raw : Bytes

namespace Request

/-- A request before any option is set. -/
def create (port : Int) : Request :=
  ⟨OrderedMap.empty, [], Url.ofText [] port, 1, 1, []⟩

/-- `Request::PreparePayload`. -/
def preparePayload (r : Request) : Request :=
  { r with
    raw :=
      cstr r.method ++ ascii " " ++ (if r.url.path.isEmpty then ascii "/" else cstr r.url.path) ++
        ascii " HTTP/" ++ ascii (toString r.httpMajor) ++ ascii "." ++
        ascii (toString r.httpMinor) ++ ascii "\r\n" ++
      (ascii "Host: " ++ cstr r.url.host ++ ascii "\r\n") ++
      r.header.entries.flatMap (fun e => cstr e.1 ++ ascii ": " ++ cstr e.2 ++ ascii "\r\n") ++
      ascii "\r\n" }

end Request

end CppImprovement.Http

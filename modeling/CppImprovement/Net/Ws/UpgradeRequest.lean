import CppImprovement.Core.RequestHead
import CppImprovement.Net.Ws.Base64Codec
import CppImprovement.Net.Ws.Session
import CppImprovement.Net.Ws.Upgrade

/-!
# The upgrade request

What a server reads off the text that `SendHandshake` writes. The request line always gets a
slash of its own before the URI, and the subprotocol header is written without a line end: the
line end behind it, which should be the empty line of the head, ends its line. The text is a head
that says what the session was asked to say exactly when the URI has no slash at its begin and
there is no subprotocol.
-/

namespace CppImprovement.Ws

variable {env : Env} {s : Session}

/-! ## What is asked for -/

/-- The slash at the begin of a target. -/
def SLASH : UInt8 := 47

/-- Subprotocols as they are listed in a header. -/
def protocolList : List Bytes → Bytes
  | [] => []
  | p :: ps => p ++ ps.flatMap fun q => ascii ", " ++ q

/-- The head asks for the upgrade that the session was set up for, with the key `rand`. -/
structure AsksUpgrade (s : Session) (rand : Bytes) (head : RequestHead) : Prop where
  method : head.method = ascii "GET"
  version : head.version = ascii "HTTP/1.1"
  target : head.target = if s.uri.head? = some SLASH then s.uri else SLASH :: s.uri
  host : head.values (ascii "Host") = [trimBlanks (s.host ++ ascii ":" ++ decimal s.port)]
  key : ∃ key, head.values (ascii "Sec-WebSocket-Key") = [key] ∧ decodeBase64 key = some rand
  origin : head.values (ascii "Origin") = if s.origin = [] then [] else [trimBlanks s.origin]
  protocol : head.values (ascii "Sec-WebSocket-Protocol") =
    if s.subprotocols = [] then [] else [trimBlanks (protocolList s.subprotocols)]

/-- The texts of the session are in one line each. -/
structure Session.OneLined (s : Session) : Prop where
  uri : OneLine s.uri
  host : OneLine s.host
  origin : OneLine s.origin
  subprotocols : ∀ p ∈ s.subprotocols, OneLine p

/-- The octets that the next key is made of. -/
def nextKey (env : Env) (s : Session) : Bytes := (List.range' s.io.randPos 16).map env.rand

/-- `SendHandshake` succeeds, and what it appends is one head that asks for the upgrade. -/
def SendsUpgrade (env : Env) (s : Session) : Prop :=
  ∃ t text head, sendHandshake env s = .ok 0 t ∧
    t.io.trace = s.io.trace ++ [.request text] ∧ readHead text = some (head, []) ∧
    AsksUpgrade s (nextKey env s) head

/-! ## What is written -/

/-- The fields that every request has. -/
def fixedFields (s : Session) (key : Bytes) : List (Bytes × Bytes) :=
  [(ascii "Host", s.host ++ ascii ":" ++ decimal s.port), (ascii "Connection", ascii "Upgrade"),
    (ascii "Upgrade", ascii "websocket"), (ascii "Sec-Websocket-Version", ascii "13"),
    (ascii "Sec-WebSocket-Key", key)]

/-- The head that the text stands for, whether or not it is ended. -/
def writtenHead (s : Session) (key : Bytes) : RequestHead where
  method := ascii "GET"
  target := SLASH :: s.uri
  version := ascii "HTTP/1.1"
  fields :=
    fixedFields s key ++ (if s.origin = [] then [] else [(ascii "Origin", s.origin)]) ++
    (if s.subprotocols = [] then []
      else [(ascii "Sec-WebSocket-Protocol", protocolList s.subprotocols)])

/-- A port number is written with digits and a sign. -/
theorem toNat_of_mem_decimal {n : Int} {c : UInt8} (h : c ∈ decimal n) :
    45 ≤ c.toNat ∧ c.toNat ≤ 57 := by
  rcases List.mem_append.mp h with h | h
  · have hsign : c = 45 := by
      split at h
      · exact List.mem_singleton.mp h
      · cases h
    rw [hsign]
    decide
  · have hdigit := toNat_of_mem_toDigits h
    omega

private theorem oneLine_decimal (n : Int) : OneLine (decimal n) where
  noCR hmem := absurd (toNat_of_mem_decimal hmem).1 (by decide)
  noLF hmem := absurd (toNat_of_mem_decimal hmem).1 (by decide)
  noNul hmem := absurd (toNat_of_mem_decimal hmem).1 (by decide)

private theorem oneLine_encodeBase64 (x : Bytes) : OneLine (encodeBase64 x) where
  noCR hmem := absurd (sign_visible (isBase64Sign_of_mem hmem)).1 (by decide)
  noLF hmem := (sign_visible (isBase64Sign_of_mem hmem)).2.1 rfl
  noNul hmem := (sign_visible (isBase64Sign_of_mem hmem)).2.2 rfl

private theorem subprotocolHeader_cons {p : Bytes} {ps : List Bytes}
    (h : ∀ q ∈ p :: ps, OneLine q) :
    subprotocolHeader (p :: ps) =
      ascii "Sec-WebSocket-Protocol: " ++ protocolList (p :: ps) := by
  rw [List.forall_mem_cons] at h
  rw [subprotocolHeader, protocolList, cstr_eq_self h.1.noNul, List.append_assoc]
  congr 2
  refine List.flatMap_congr fun q hq => ?_
  rw [cstr_eq_self (h.2 q hq).noNul]

/-- The text of the request, whose empty line is there only if no subprotocol is. -/
theorem handshakeRequest_eq (h : s.OneLined) (hkey : OneLine s.hs.handshakeKeyBase64) :
    handshakeRequest s = (writtenHead s s.hs.handshakeKeyBase64).text ++
      if s.subprotocols = [] then CRLF else [] := by
  rw [handshakeRequest, cstr_eq_self h.uri.noNul, cstr_eq_self h.host.noNul,
    cstr_eq_self h.origin.noNul, cstr_eq_self hkey.noNul]
  have hsub := h.subprotocols
  cases hs : s.subprotocols with
  | nil =>
    by_cases ho : s.origin = [] <;>
      simp [writtenHead, fixedFields, hs, ho, subprotocolHeader, RequestHead.text, linesText,
        RequestHead.requestLine, RequestHead.fieldLine, ascii, CRLF, CR, LF, SP, HCOLON, SLASH]
  | cons p ps =>
    rw [hs] at hsub
    rw [subprotocolHeader_cons hsub]
    by_cases ho : s.origin = [] <;>
      simp [writtenHead, fixedFields, hs, ho, RequestHead.text, linesText, RequestHead.requestLine,
        RequestHead.fieldLine, ascii, CRLF, CR, LF, SP, HCOLON, SLASH]

private theorem noCR_protocolList {ps : List Bytes} (h : ∀ p ∈ ps, OneLine p) :
    CR ∉ protocolList ps := by
  cases ps with
  | nil => exact List.not_mem_nil
  | cons p ps =>
    rw [List.forall_mem_cons] at h
    intro hmem
    rcases List.mem_append.mp hmem with hp | hps
    · exact h.1.noCR hp
    · obtain ⟨q, hq, hmem⟩ := List.mem_flatMap.mp hps
      rcases List.mem_append.mp hmem with hsep | hmem
      · exact absurd hsep (by decide)
      · exact (h.2 q hq).noCR hmem

private theorem writable_writtenHead (h : s.OneLined) {key : Bytes} (hkey : OneLine key) :
    (writtenHead s key).Writable where
  method := show SP ∉ ascii "GET" ∧ CR ∉ ascii "GET" by decide
  target hmem := (List.mem_cons.mp hmem).elim (by decide) h.uri.noCR
  version := show SP ∉ ascii "HTTP/1.1" ∧ CR ∉ ascii "HTTP/1.1" by decide
  fields f hf := by
    have hcolon : OneLine (ascii ":") := ⟨by decide, by decide, by decide⟩
    have hport := ((h.host.append hcolon).append (oneLine_decimal s.port)).noCR
    simp only [writtenHead, fixedFields, List.mem_append, List.mem_cons, List.not_mem_nil,
      or_false] at hf
    rcases hf with ((rfl | rfl | rfl | rfl | rfl) | hf) | hf
    · exact RequestHead.writable_field (by decide) hport
    · decide
    · decide
    · decide
    · exact RequestHead.writable_field (by decide) hkey.noCR
    · split at hf
      · cases hf
      · rw [List.mem_singleton.mp hf]
        exact RequestHead.writable_field (by decide) h.origin.noCR
    · split at hf
      · cases hf
      · rw [List.mem_singleton.mp hf]
        exact RequestHead.writable_field (by decide) (noCR_protocolList h.subprotocols)

/-- What is read off the text. -/
theorem readHead_handshakeRequest (h : s.OneLined) (hkey : OneLine s.hs.handshakeKeyBase64) :
    readHead (handshakeRequest s) =
      if s.subprotocols = [] then some ((writtenHead s s.hs.handshakeKeyBase64).trimmed, [])
      else none := by
  have hw := writable_writtenHead h hkey
  rw [handshakeRequest_eq h hkey]
  split
  · rw [← List.append_nil CRLF, RequestHead.readHead_text hw]
  · rw [List.append_nil, RequestHead.readHead_unended hw]

/-- Without subprotocols the head says what it should but for the slash. -/
theorem asksUpgrade_iff {rand : Bytes} (hrand : rand.length = 16) (hs : s.subprotocols = []) :
    AsksUpgrade s rand (writtenHead s (encodeBase64 rand)).trimmed ↔
      s.uri.head? ≠ some SLASH := by
  constructor
  · rintro hasks hslash
    have htarget := hasks.target
    rw [if_pos hslash] at htarget
    have hlen := congrArg List.length htarget
    change s.uri.length + 1 = s.uri.length at hlen
    omega
  · intro hslash
    have hne : rand ≠ [] := List.ne_nil_of_length_pos (by omega)
    have htrim : trimBlanks (encodeBase64 rand) = encodeBase64 rand := by
      refine trimBlanks_eq_self fun c hc => ?_
      have hvis := (sign_visible (isBase64Sign_of_mem hc)).1
      constructor
      · rintro rfl
        exact absurd hvis (by decide)
      · rintro rfl
        exact absurd hvis (by decide)
    have hkey : decodeBase64 (trimBlanks (encodeBase64 rand)) = some rand := by
      rw [htrim]
      exact decodeBase64_encodeBase64 hne (by rw [length_encodeBase64, hrand]; decide)
    have hfields : (writtenHead s (encodeBase64 rand)).fields = fixedFields s (encodeBase64 rand) ++
        if s.origin = [] then [] else [(ascii "Origin", s.origin)] := by simp [writtenHead, hs]
    exact
      { method := rfl
        version := rfl
        target := (if_neg hslash).symm
        host := by
          rw [RequestHead.values, RequestHead.trimmed, hfields]
          split <;> rfl
        key := by
          refine ⟨_, ?_, hkey⟩
          rw [RequestHead.values, RequestHead.trimmed, hfields]
          split <;> rfl
        origin := by
          rw [RequestHead.values, RequestHead.trimmed, hfields]
          split <;> rfl
        protocol := by
          rw [RequestHead.values, RequestHead.trimmed, hfields, if_pos hs]
          split <;> rfl }

/-- The session in which the text is printed, with the key drawn for it. -/
def Session.keyed (env : Env) (s : Session) : Session :=
  { s with hs.handshakeKeyBase64 := encodeBase64 (nextKey env s) }

/-- The key is drawn and the text appended. -/
theorem sendHandshake_ok (hf : env.fault s.io.callPos = false) :
    ∃ t, sendHandshake env s = .ok 0 t ∧
      t.io.trace = s.io.trace ++ [.request (handshakeRequest (s.keyed env))] := by
  have hkey : encodeBase64 (nextKey env s) ≠ [] := by
    rw [ne_eq, encodeBase64_eq_nil, nextKey]
    simp
  have hwp : wp (sendHandshake env)
      (fun a t => a = 0 ∧
        t.io.trace = s.io.trace ++ [.request (handshakeRequest (s.keyed env))])
      (fun _ _ => False) s := by
    rw [nextKey] at hkey
    simp only [sendHandshake, generateHandshakeKey, getRandomMask, callFails, emit, wp_modify,
      wp_modifyGet, wp_bind, wp_get, wp_ite, wp_pure, hf, hkey, Bool.false_eq_true, if_false,
      ne_eq, not_true_eq_false]
    exact ⟨trivial, rfl⟩
  obtain ⟨a, t, hrun, rfl, htrace⟩ := exists_ok_of_wp hwp
  exact ⟨t, hrun, htrace⟩

private theorem sendsUpgrade_iff_asks (hf : env.fault s.io.callPos = false) :
    SendsUpgrade env s ↔
      ∃ head, readHead (handshakeRequest (s.keyed env)) = some (head, []) ∧
        AsksUpgrade s (nextKey env s) head := by
  obtain ⟨t, hrun, htrace⟩ := sendHandshake_ok hf
  constructor
  · rintro ⟨t', text, head, hrun', htrace', hhead, hasks⟩
    cases hrun.symm.trans hrun'
    have htext := List.append_cancel_left (htrace.symm.trans htrace')
    simp only [List.cons.injEq, Event.request.injEq, and_true] at htext
    exact ⟨head, by rw [htext, hhead], hasks⟩
  · rintro ⟨head, hhead, hasks⟩
    exact ⟨t, _, head, hrun, htrace, hhead, hasks⟩

private theorem readHead_keyed (h : s.OneLined) :
    readHead (handshakeRequest (s.keyed env)) =
      if s.subprotocols = [] then
        some ((writtenHead s (encodeBase64 (nextKey env s))).trimmed, [])
      else none :=
  readHead_handshakeRequest (s := s.keyed env) ⟨h.uri, h.host, h.origin, h.subprotocols⟩
    (oneLine_encodeBase64 _)

/-- For texts of one line and any sixteen random octets: the upgrade request is well formed and
faithful exactly when the URI does not begin with a slash and there are no subprotocols. -/
theorem sendsUpgrade_iff (hf : env.fault s.io.callPos = false) (h : s.OneLined) :
    SendsUpgrade env s ↔ s.uri.head? ≠ some SLASH ∧ s.subprotocols = [] := by
  have hlen : (nextKey env s).length = 16 := by simp [nextKey]
  rw [sendsUpgrade_iff_asks hf, readHead_keyed h]
  by_cases hs : s.subprotocols = []
  · rw [if_pos hs, and_iff_left hs, ← asksUpgrade_iff hlen hs]
    constructor
    · rintro ⟨head, hhead, hasks⟩
      cases hhead
      exact hasks
    · intro hasks
      exact ⟨_, rfl, hasks⟩
  · rw [if_neg hs]
    constructor
    · rintro ⟨head, hhead, -⟩
      cases hhead
    · rintro ⟨-, hnil⟩
      exact absurd hnil hs

/-- A session that is to ask for "chat" on a host. -/
def askingChat : Session :=
  { uri := ascii "chat", host := ascii "example", port := 80, origin := ascii "http://example" }

private theorem askingChat_oneLined : askingChat.OneLined where
  uri := ⟨by decide, by decide, by decide⟩
  host := ⟨by decide, by decide, by decide⟩
  origin := ⟨by decide, by decide, by decide⟩
  subprotocols := by simp [askingChat]

/-- The request for it is well formed. -/
theorem sendsUpgrade_chat : SendsUpgrade {} askingChat :=
  (sendsUpgrade_iff rfl askingChat_oneLined).mpr ⟨by decide, rfl⟩

private theorem connecting_oneLined : (Session.connecting {}).OneLined where
  uri := ⟨by decide, by decide, by decide⟩
  host := ⟨by decide, by decide, by decide⟩
  origin := ⟨by decide, by decide, by decide⟩
  subprotocols := by simp [Session.connecting]

/-- With what `DoConnect` sets, the target is not the URI. -/
theorem connecting_not_sendsUpgrade :
    ¬ ∀ (env : Env) (s : Session), env.fault s.io.callPos = false → s.OneLined →
      SendsUpgrade env s := by
  intro hall
  obtain ⟨head, hhead, hasks⟩ :=
    (sendsUpgrade_iff_asks rfl).mp (hall {} (Session.connecting {}) rfl connecting_oneLined)
  rw [readHead_keyed connecting_oneLined] at hhead
  cases hhead
  exact absurd hasks.target (by decide)

end CppImprovement.Ws

import CppImprovement.Net.Ws.Handshake

/-!
# A reply that is accepted

A server that sends the status line, the two fixed headers and the hash of the
key, each on a line of its own, has its reply accepted, whatever the key is and
whatever follows the reply.
-/

namespace CppImprovement.Ws

/-- A line of a reply. -/
def crlf (line : Bytes) : Bytes := line ++ [CR, LF]

/-- A reply of a server that accepts the upgrade, for the hash `x` of the key. -/
def upgradeReply (x : Bytes) : Bytes :=
  crlf (ascii "HTTP/1.1 101 Switching Protocols") ++ (crlf (ascii "Upgrade: websocket") ++
    (crlf (ascii "Connection: Upgrade") ++ (crlf (ascii "Sec-WebSocket-Accept: " ++ x) ++ crlf [])))

/-- A line is read up to its line end. -/
theorem readln_crlf {line : Bytes} (h : LF ∉ line) (rest : Bytes) :
    readln (crlf line ++ rest) = some (line, rest) := by
  have hsplit : splitLF (crlf line ++ rest) = some (line ++ [CR], rest) := by
    rw [splitLF_eq_some]
    have hcr : LF ≠ CR := by decide
    exact ⟨by simp [crlf], by simp [h, hcr]⟩
  rw [readln, hsplit]
  simp [dropCR]

/-- The extraction of the hash of the key. -/
theorem parseHttpHeader_accept {x : Bytes} (hx : x ≠ []) (hs : ∀ c ∈ x, isSpace c = false)
    (v : Bytes) :
    parseHttpHeader (ascii "Sec-WebSocket-Accept: " ++ x) v =
      (ascii "Sec-WebSocket-Accept", x) := by
  have hname : lineName (ascii "Sec-WebSocket-Accept: " ++ x) = ascii "Sec-WebSocket-Accept" := by
    simp [lineName, ascii, COLON]
  have hrest : lineRest (ascii "Sec-WebSocket-Accept: " ++ x) = some (32 :: x) := by
    simp [lineRest, ascii, COLON]
  have htok : firstToken (32 :: x) = some x := by
    obtain ⟨c, x, rfl⟩ := List.exists_cons_of_ne_nil hx
    have hc := hs c List.mem_cons_self
    have h32 : isSpace 32 = true := by decide
    rw [firstToken, List.dropWhile_cons_of_pos h32, List.dropWhile_cons_of_neg (by simp [hc])]
    dsimp only
    rw [Option.some.injEq, List.takeWhile_eq_self_iff]
    intro d hd
    simp [hs d hd]
  rw [parseHttpHeader, hname, hrest, Option.bind_some, htok]
  rfl

/-- A header with another name is of no concern. -/
theorem validateHttpHeader_other {flag flags : UInt8} {name expectedName : Bytes}
    (h : compareStrIgnoreCase expectedName name = false) (val expectedVal : Bytes) (once : Bool) :
    validateHttpHeader flag name val expectedName expectedVal once flags = some flags := by
  rw [validateHttpHeader, if_neg (by simp [h])]

private theorem validateHttpHeader_found {flag flags : UInt8}
    {name expectedName val expectedVal : Bytes}
    (h : compareStrIgnoreCase expectedName name = true) (hf : (flags &&& flag != 0) = false)
    (hv : compareStrIgnoreCase expectedVal val = true) (once : Bool) :
    validateHttpHeader flag name val expectedName expectedVal once flags =
      some (flags ||| flag) := by
  rw [validateHttpHeader, if_pos h, hf, hv]
  simp

/-- The three checks of a line in turn. -/
theorem validateHttpHeaders_of {x name val : Bytes} {flags f₁ f₂ f₃ : UInt8} (hx : x ≠ [])
    (h₁ : validateHttpHeader WS_HAS_VALID_UPGRADE_HEADER name val (ascii "Upgrade")
      (ascii "websocket") true flags = some f₁)
    (h₂ : validateHttpHeader WS_HAS_VALID_CONNECTION_HEADER name val (ascii "Connection")
      (ascii "upgrade") true f₁ = some f₂)
    (h₃ : validateHttpHeader WS_HAS_VALID_WS_ACCEPT_HEADER name val (ascii "Sec-WebSocket-Accept")
      x true f₂ = some f₃)
    (he : compareStrIgnoreCase name (ascii "Sec-WebSocket-Extensions") = false)
    (hp : compareStrIgnoreCase (ascii "Sec-WebSocket-Protocol") name = false) :
    validateHttpHeaders x name val flags = some f₃ := by
  simp only [validateHttpHeaders, h₁, h₂, h₃, he, hp, if_neg hx, Option.bind_eq_bind,
    Option.bind_some, Bool.false_eq_true, if_false]

/-- A line of a reply that is taken: it leaves the value `val` and the flags `flags'`. -/
structure LineTaken (x headerVal : Bytes) (flags : UInt8) (line val : Bytes) (flags' : UInt8) :
    Prop where
  unbroken : LF ∉ line
  unended : (0 : UInt8) ∉ line
  nonempty : line ≠ []
  valid : ∃ name, parseHttpHeader line headerVal = (name, val) ∧
    validateHttpHeaders x name val flags = some flags'

/-- The loop of `ReadHttpHeaders` takes the line and goes on. -/
theorem LineTaken.loop {sha1 : Bytes → Bytes} {x headerVal line val : Bytes} {flags flags' : UInt8}
    (ht : LineTaken x headerVal flags line val flags') {h : Handshake}
    (hx : calculateKeyHash sha1 h.handshakeKeyBase64 = x) (hf : h.httpHeaderFlags = flags) (n : Nat)
    (rest : Bytes) :
    ∃ header, readHttpHeadersLoop sha1 (n + 1) h headerVal (crlf line ++ rest) =
      readHttpHeadersLoop sha1 n { h with header := header, httpHeaderFlags := flags' } val
        rest := by
  obtain ⟨name, hp, hv⟩ := ht.valid
  subst hf hx
  rw [readHttpHeadersLoop, readln_crlf ht.unbroken]
  dsimp only
  rw [cstr_eq_self ht.unended, if_neg ht.nonempty, hp]
  dsimp only
  rw [hv]
  exact ⟨_, rfl⟩

private theorem lineTaken_upgrade {x : Bytes} (hx : x ≠ []) :
    LineTaken x [] 0 (ascii "Upgrade: websocket") (ascii "websocket") 1 :=
  ⟨by decide, by decide, by decide, ascii "Upgrade", by decide,
    validateHttpHeaders_of hx (validateHttpHeader_found (by decide) (by decide) (by decide) _)
      (validateHttpHeader_other (by decide) _ _ _) (validateHttpHeader_other (by decide) _ _ _)
      (by decide) (by decide)⟩

private theorem lineTaken_connection {x : Bytes} (hx : x ≠ []) (v : Bytes) :
    LineTaken x v 1 (ascii "Connection: Upgrade") (ascii "Upgrade") 3 :=
  ⟨by decide, by decide, by decide, ascii "Connection", rfl,
    validateHttpHeaders_of hx (validateHttpHeader_other (by decide) _ _ _)
      (validateHttpHeader_found (by decide) (by decide) (by decide) _)
      (validateHttpHeader_other (by decide) _ _ _) (by decide) (by decide)⟩

/-- The signs of base64 are neither blanks nor line ends. -/
theorem sign_visible {c : UInt8} (h : isBase64Sign c = true) :
    isSpace c = false ∧ c ≠ LF ∧ c ≠ 0 := by
  rw [isBase64Sign_iff] at h
  revert c
  decide +kernel

/-- The line with the accept value is taken. -/
theorem lineTaken_accept {x : Bytes} (hx : x ≠ []) (hs : ∀ c ∈ x, isBase64Sign c = true)
    (v : Bytes) : LineTaken x v 3 (ascii "Sec-WebSocket-Accept: " ++ x) x 7 where
  unbroken := by
    rw [List.mem_append, not_or]
    exact ⟨by decide, fun hmem => (sign_visible (hs _ hmem)).2.1 rfl⟩
  unended := by
    rw [List.mem_append, not_or]
    exact ⟨by decide, fun hmem => (sign_visible (hs _ hmem)).2.2 rfl⟩
  nonempty := by simp [hx]
  valid := by
    have hself : compareStrIgnoreCase x x = true := by simp [compareStrIgnoreCase]
    exact ⟨_, parseHttpHeader_accept hx (fun c hc => (sign_visible (hs c hc)).1) v,
      validateHttpHeaders_of hx (validateHttpHeader_other (by decide) _ _ _)
        (validateHttpHeader_other (by decide) _ _ _)
        (validateHttpHeader_found (by decide) (by decide) hself _) (by decide) (by decide)⟩

/-- A server's reply is accepted, and what follows it is left in the buffer. -/
theorem readServerHandshakeReply_upgradeReply {sha1 : Bytes → Bytes}
    (hsha : ∀ b, (sha1 b).length = 20) {h : Handshake} (hc : h.connectState = .sentReq)
    (rest : Bytes) :
    ∃ header, readServerHandshakeReply sha1 h
        (upgradeReply (calculateKeyHash sha1 h.handshakeKeyBase64) ++ rest) =
      (.success, { h with header := header, httpHeaderFlags := 7,
                          connectState := .handshakeComplete }, rest) := by
  generalize hxdef : calculateKeyHash sha1 h.handshakeKeyBase64 = x
  have hx : x ≠ [] := by
    rw [← hxdef, calculateKeyHash, ne_eq, encodeBase64_eq_nil, ← List.length_eq_zero_iff, hsha]
    simp
  have hsign : ∀ c ∈ x, isBase64Sign c = true := by
    intro c hmem
    rw [← hxdef] at hmem
    exact isBase64Sign_of_mem hmem
  let tail := crlf (ascii "Upgrade: websocket") ++ (crlf (ascii "Connection: Upgrade") ++
    (crlf (ascii "Sec-WebSocket-Accept: " ++ x) ++ (crlf [] ++ rest)))
  let g : Handshake := { h with httpHeaderFlags := 0, connectState := .parsedStatus }
  have hstage : readServerHandshakeReply sha1 h (upgradeReply x ++ rest) =
      readHeaderStage sha1 g tail := by
    simp only [upgradeReply, List.append_assoc]
    rw [readServerHandshakeReply, hc]
    dsimp only
    rw [readStatusStage, readln_crlf (by decide)]
    dsimp only
    rw [cstr_eq_self (by decide), show parseHttpStatus _ = some (1, 1, 101) from by decide]
    rfl
  obtain ⟨n, hn⟩ : ∃ n, tail.length + 1 = n + 4 := ⟨tail.length - 3, by
    simp only [tail, crlf, List.length_append, List.length_cons, List.length_nil]
    omega⟩
  obtain ⟨h₁, he₁⟩ := (lineTaken_upgrade hx).loop (h := g) hxdef rfl (n + 3)
    (crlf (ascii "Connection: Upgrade") ++
      (crlf (ascii "Sec-WebSocket-Accept: " ++ x) ++ (crlf [] ++ rest)))
  obtain ⟨h₂, he₂⟩ := (lineTaken_connection hx _).loop
    (h := { g with header := h₁, httpHeaderFlags := 1 }) hxdef rfl (n + 2)
    (crlf (ascii "Sec-WebSocket-Accept: " ++ x) ++ (crlf [] ++ rest))
  obtain ⟨h₃, he₃⟩ := (lineTaken_accept hx hsign _).loop
    (h := { g with header := h₂, httpHeaderFlags := 3 }) hxdef rfl (n + 1) (crlf [] ++ rest)
  have hend : ∀ (f : Handshake) (v : Bytes),
      readHttpHeadersLoop sha1 (n + 1) f v (crlf [] ++ rest) = (.success, f, rest) := by
    intro f v
    rw [readHttpHeadersLoop, readln_crlf List.not_mem_nil]
    rfl
  refine ⟨h₃, ?_⟩
  rw [hstage, readHeaderStage, readHttpHeaders, hn, he₁, he₂, he₃, hend]
  dsimp only
  have hseen : ∀ flag ∈ [WS_HAS_VALID_UPGRADE_HEADER, WS_HAS_VALID_CONNECTION_HEADER,
      WS_HAS_VALID_WS_ACCEPT_HEADER], ¬ ((7 : UInt8) &&& flag == 0) = true := by
    decide +kernel
  rw [checkRequiredHeaders, if_neg (hseen _ (by simp)), if_neg (hseen _ (by simp)),
    if_neg (hseen _ (by simp))]

end CppImprovement.Ws

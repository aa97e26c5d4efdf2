import CppImprovement.Net.Http.Session

/-!
# The response of the libevent client

`HandleResponse` copies the body of a response through a buffer on the stack, 256 octets at a
time, and inserts the buffer into a stream as a C string: up to the first zero octet, whatever
part of the buffer the last copy has filled. What it inserts holds no zero octet, may go on with
what the buffer held before, and for a full buffer without a zero octet lies beyond the array.
-/

namespace CppImprovement.Http

/-- What `HandleResponse` reads of an `evhttp_request`. -/
structure EvHttpRequest where
  responseCode : Int
  inputBuffer : Bytes

/-- `char buffer[256]`. -/
structure StackBuffer where
  octets : Bytes
  size : octets.length = 256

namespace StackBuffer

/-- The buffer after octets have been copied to its start. -/
def copied (buffer : StackBuffer) (chunk : Bytes) : StackBuffer where
  octets := chunk.take 256 ++ buffer.octets.drop (chunk.take 256).length
  size := by
    rw [List.length_append, List.length_drop, buffer.size, List.length_take]
    omega

private theorem octets_copied (buffer : StackBuffer) (chunk : Bytes) :
    (buffer.copied chunk).octets =
      chunk.take 256 ++ buffer.octets.drop (chunk.take 256).length := rfl

/-- `oss << buffer`; nothing where no zero octet of the array ends the text. -/
def inserted (buffer : StackBuffer) : Option Bytes :=
  if (0 : UInt8) ∈ buffer.octets then some (cstr buffer.octets) else none

end StackBuffer

/-- The copy loop: `evbuffer_remove` moves up to 256 octets, and the buffer is inserted. -/
def readBody (buffer : StackBuffer) (input oss : Bytes) : Option Bytes :=
  if input = [] then some oss
  else
    (buffer.copied input).inserted.bind fun text =>
      readBody (buffer.copied input) (input.drop 256) (oss ++ text)
termination_by input.length
decreasing_by
  rw [List.length_drop]
  have hpos := List.length_pos_iff.mpr ‹_›
  omega

/-- What the failure branch finds: the errors in OpenSSL's queue, and the socket error with its
text. -/
structure EvFailure where
  sslErrors : List Nat
  socketError : Int
  socketErrorText : Bytes

/-- `HandleResponse`: the responses given to `OnResponse`; nothing where it reads beyond the
buffer. -/
def handleResponse (buffer : StackBuffer) (req : Option EvHttpRequest) (failure : EvFailure)
    (url : Url) : Option (List Response) :=
  match req with
  | some r =>
    if r.responseCode = 0 then some (failed failure url)
    else (readBody buffer r.inputBuffer []).map fun body =>
      [⟨r.responseCode, [], .ok, body, OrderedMap.empty, url⟩]
  | none => some (failed failure url)
where
  /-- A response with the socket error, unless OpenSSL has errors to log. -/
  failed (failure : EvFailure) (url : Url) : List Response :=
    if failure.sslErrors = [] then
      [⟨0, [], .unknownError, ascii "socket error = " ++ failure.socketErrorText ++ ascii ", " ++
        ascii (toString failure.socketError), OrderedMap.empty, url⟩]
    else []

/-! ## What is inserted -/

variable {buffer : StackBuffer} {input body oss text : Bytes}

private theorem readBody_nil (buffer : StackBuffer) (oss : Bytes) :
    readBody buffer [] oss = some oss := by
  rw [readBody, if_pos rfl]

private theorem readBody_chunk (h : input ≠ []) :
    readBody buffer input oss =
      (buffer.copied input).inserted.bind fun text =>
        readBody (buffer.copied input) (input.drop 256) (oss ++ text) := by
  rw [readBody, if_neg h]

private theorem inserted_eq_some (h : buffer.inserted = some text) :
    text = cstr buffer.octets ∧ (0 : UInt8) ∈ buffer.octets := by
  rw [StackBuffer.inserted] at h
  split at h
  · rename_i hmem
    exact ⟨(Option.some.inj h).symm, hmem⟩
  · cases h

/-- No zero octet ever gets into the stream. -/
theorem readBody_nonzero (h : readBody buffer input oss = some text) (hoss : (0 : UInt8) ∉ oss) :
    (0 : UInt8) ∉ text := by
  fun_induction readBody buffer input oss with
  | case1 =>
    cases h
    exact hoss
  | case2 buffer input oss hne ih =>
    obtain ⟨piece, hpiece, hrest⟩ := Option.bind_eq_some_iff.mp h
    refine ih piece hrest ?_
    rw [(inserted_eq_some hpiece).1, List.mem_append, not_or]
    exact ⟨hoss, nul_notMem_cstr _⟩

private theorem cstr_append {a b : Bytes} (h : (0 : UInt8) ∉ a) : cstr (a ++ b) = a ++ cstr b := by
  refine List.takeWhile_append_of_pos fun c hc => ?_
  simp only [bne_iff_ne, ne_eq]
  rintro rfl
  exact h hc

/-- A chunk that fills the buffer and has no zero octet is read beyond the buffer. -/
theorem inserted_full (hlen : 256 ≤ body.length) (h : (0 : UInt8) ∉ body) :
    (buffer.copied body).inserted = none := by
  have hall : (buffer.copied body).octets = body.take 256 := by
    rw [StackBuffer.octets_copied, List.length_take, Nat.min_eq_left hlen,
      List.drop_of_length_le buffer.size.le, List.append_nil]
  rw [StackBuffer.inserted, hall, if_neg]
  exact fun hmem => h (List.mem_of_mem_take hmem)

/-- A chunk that does not fill it goes on with what the buffer held before. -/
theorem inserted_short (hlen : body.length < 256) (h : (0 : UInt8) ∉ body) :
    (buffer.copied body).inserted =
      if (0 : UInt8) ∈ buffer.octets.drop body.length then
        some (body ++ cstr (buffer.octets.drop body.length))
      else none := by
  have hall : (buffer.copied body).octets = body ++ buffer.octets.drop body.length := by
    rw [StackBuffer.octets_copied, List.take_of_length_le hlen.le]
  rw [StackBuffer.inserted, hall, cstr_append h]
  simp [h]

private theorem head?_eq_zero_iff (b : Bytes) :
    b.head? = some 0 ↔ (0 : UInt8) ∈ b ∧ cstr b = [] := by
  cases b with
  | nil => simp
  | cons c b =>
    by_cases hc : c = 0
    · simp [hc, cstr]
    · simp [hc, cstr]

/-- The body is delivered octet for octet exactly when it is empty, or shorter than the buffer,
without a zero octet, and the buffer holds a zero octet where it ends. -/
theorem readBody_eq_self_iff (buffer : StackBuffer) (body : Bytes) :
    readBody buffer body [] = some body ↔
      body = [] ∨
        body.length < 256 ∧ (0 : UInt8) ∉ body ∧ buffer.octets[body.length]? = some 0 := by
  by_cases hne : body = []
  · rw [hne, readBody_nil, iff_true_right (Or.inl rfl)]
  rw [or_iff_right hne, ← List.head?_drop, head?_eq_zero_iff]
  constructor
  · intro h
    have hnz := readBody_nonzero h List.not_mem_nil
    rw [readBody_chunk hne] at h
    by_cases hlen : body.length < 256
    · rw [inserted_short hlen hnz] at h
      split at h
      · rename_i hend
        rw [Option.bind_some, List.drop_of_length_le hlen.le, readBody_nil, List.nil_append] at h
        exact ⟨hlen, hnz, hend, List.append_right_eq_self.mp (Option.some.inj h)⟩
      · cases h
    · rw [inserted_full (Nat.le_of_not_lt hlen) hnz] at h
      cases h
  · rintro ⟨hlen, hnz, hend, hstale⟩
    rw [readBody_chunk hne, inserted_short hlen hnz, if_pos hend, Option.bind_some, hstale,
      List.append_nil, List.drop_of_length_le hlen.le, readBody_nil, List.nil_append]

/-! ## What is delivered -/

/-- `OnResponse` is called once, with the body of the response. -/
def DeliversBody (buffer : StackBuffer) (r : EvHttpRequest) (failure : EvFailure) (url : Url) :
    Prop :=
  ∃ response, handleResponse buffer (some r) failure url = some [response] ∧
    response.statusCode = r.responseCode ∧ response.body = r.inputBuffer

private theorem deliversBody_iff_readBody {r : EvHttpRequest} (hcode : r.responseCode ≠ 0)
    (buffer : StackBuffer) (failure : EvFailure) (url : Url) :
    DeliversBody buffer r failure url ↔
      readBody buffer r.inputBuffer [] = some r.inputBuffer := by
  rw [DeliversBody, handleResponse]
  simp only [if_neg hcode]
  constructor
  · rintro ⟨response, hres, -, hbody⟩
    obtain ⟨body, hread, heq⟩ := Option.map_eq_some_iff.mp hres
    cases heq
    rw [hread, ← hbody]
  · intro hread
    rw [hread]
    exact ⟨_, rfl, rfl, rfl⟩

/-- For every response and whatever the buffer held before: the body is delivered octet for octet
exactly when it is empty, or shorter than the buffer, without a zero octet, and the buffer happens
to hold a zero octet where it ends. -/
theorem deliversBody_iff {r : EvHttpRequest} (hcode : r.responseCode ≠ 0) (buffer : StackBuffer)
    (failure : EvFailure) (url : Url) :
    DeliversBody buffer r failure url ↔
      r.inputBuffer = [] ∨ r.inputBuffer.length < 256 ∧ (0 : UInt8) ∉ r.inputBuffer ∧
        buffer.octets[r.inputBuffer.length]? = some 0 := by
  rw [deliversBody_iff_readBody hcode, readBody_eq_self_iff]

/-- A buffer of zero octets. -/
def zeroBuffer : StackBuffer := ⟨List.replicate 256 0, List.length_replicate⟩

/-- A URL that plays no part. -/
def noUrl : Url := Url.ofText [] 0

/-- A short body over a buffer of zero octets is delivered. -/
theorem deliversBody_ok :
    DeliversBody zeroBuffer ⟨200, ascii "ok"⟩ ⟨[], 0, []⟩ noUrl :=
  (deliversBody_iff (by decide) zeroBuffer _ _).mpr (Or.inr ⟨by decide, by decide, by decide⟩)

/-- A zero octet in the body ends it. -/
theorem zero_not_delivered :
    ¬ ∀ (buffer : StackBuffer) (r : EvHttpRequest) (failure : EvFailure) (url : Url),
      r.responseCode ≠ 0 → DeliversBody buffer r failure url := by
  intro hall
  have hdelivers := hall zeroBuffer ⟨200, [0x61, 0, 0x62]⟩ ⟨[], 0, []⟩ noUrl (by decide)
  rw [deliversBody_iff_readBody (by decide), readBody_eq_self_iff] at hdelivers
  rcases hdelivers with hnil | ⟨-, hnz, -⟩
  · exact absurd hnil (by decide)
  · exact hnz (by decide)

end CppImprovement.Http

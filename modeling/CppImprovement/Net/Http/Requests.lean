import CppImprovement.Net.Http.ReadBoundaries

/-!
# Requests and their responses

A request ends when its connection is closed, when libuv reports a failure before there is a
connection, or when the process is aborted. The handler is called by a read that brings no data,
whatever came before, and by nothing else. The body stream lives as long as the session, so a
session that is used again hands over the bodies of all its calls so far.
-/

namespace CppImprovement.Http

/-- A callback of libuv. -/
def Step.isOutcome : Step → Bool
  | .onResolved _ _ | .onConnect _ | .onRead _ _ => true
  | _ => false

/-- The request has come to its end. -/
def Phase.ended : Phase → Bool
  | .closed | .failed | .aborted => true
  | _ => false

/-- The data of a read that brings some. -/
def Step.data : Step → Option Bytes
  | .onRead nread buf => if 0 < nread then some (buf.take nread.toNat) else none
  | _ => none

/-- The data that some steps read. -/
def dataReads (steps : List Step) : List Bytes := steps.filterMap Step.data

/-- A response without an error is handed over only after the report of a complete message. -/
def Truthful (tr : List Output) : Prop :=
  ∀ pre handler r post, tr = pre ++ .response handler r :: post → r.error = .ok →
    .messageComplete ∈ pre

namespace SessionImplUV

variable {P : HttpParser} {T : Ssl}

/-! ## One request -/

/-- libuv does not call back for a request that has ended. -/
theorem step_eq_none_of_ended {s : SessionImplUV P T} (hs : s.phase.ended = true) {e : Step}
    (he : e.isOutcome = true) : step e s = none := by
  have hphase : s.phase ≠ .resolving ∧ s.phase ≠ .connecting ∧ s.phase ≠ .reading := by
    refine ⟨?_, ?_, ?_⟩ <;> intro h <;> rw [h] at hs <;> cases hs
  cases e with
  | onResolved status connect => exact if_neg hphase.1
  | onConnect status => exact if_neg hphase.2.1
  | onRead nread buf => exact if_neg fun h => hphase.2.2 h.1
  | _ => cases he

/-- The run of a request stops where the request ends. -/
theorem exec_of_ended {s t : SessionImplUV P T} (hs : s.phase.ended = true) {steps : List Step}
    (hout : ∀ e ∈ steps, e.isOutcome = true) {tr : List Output}
    (hrun : exec step steps s = some (tr, t)) : steps = [] ∧ tr = [] ∧ t = s := by
  cases steps with
  | nil =>
    cases hrun
    exact ⟨rfl, rfl, rfl⟩
  | cons e steps =>
    obtain ⟨o, u, tr', hstep, _⟩ := exec_cons_eq_some.mp hrun
    rw [step_eq_none_of_ended hs (hout e List.mem_cons_self)] at hstep
    cases hstep

/-- The only call of the handler is truthful if a complete message was reported before it. -/
theorem truthful_iff {pre : List Output} (hpre : calls pre = []) (handler : Response → Response)
    (r : Response) :
    Truthful (pre ++ [.response handler r]) ↔ (r.error = .ok → .messageComplete ∈ pre) := by
  constructor
  · intro h
    exact h pre handler r [] rfl
  · intro h pre' handler' r' post heq
    rcases List.append_eq_append_iff.mp heq with ⟨a, rfl, ha⟩ | ⟨c, rfl, hc⟩
    · cases a with
      | nil =>
        cases ha
        rw [List.append_nil]
        exact h
      | cons x a =>
        have hlen := congrArg List.length ha
        simp at hlen
    · cases c with
      | nil =>
        cases hc
        rw [List.append_nil] at h
        exact h
      | cons x c =>
        cases hc
        rw [calls_append] at hpre
        cases (List.append_eq_nil_iff.mp hpre).2

/-- What a connection hands over, from the point where `pre` has been shown: one truthful
response exactly when all data is parsed and either a complete message was reported or the
response carries an error already. -/
theorem answered_iff_of_reading {s : SessionImplUV P T} {handler : Response → Response}
    (hphase : s.phase = .reading) (hhttp : s.request.url.isHttps = false)
    (hhandler : s.responseHandler = some handler) {steps : List Step}
    (hout : ∀ e ∈ steps, e.isOutcome = true) {pre tr : List Output} {t : SessionImplUV P T}
    (hrun : exec step steps s = some (tr, t)) (hend : t.phase.ended = true)
    (hpre : calls pre = []) :
    ((calls (pre ++ tr)).length = 1 ∧ t.phase ≠ .aborted ∧ Truthful (pre ++ tr)) ↔
      P.Accepts s.parser (dataReads steps) ∧
        (.messageComplete ∈ pre ∨ .messageComplete ∈ P.callbacks s.parser (dataReads steps) ∨
          s.response.error ≠ .ok) := by
  induction steps generalizing s pre tr with
  | nil =>
    cases hrun
    rw [hphase] at hend
    cases hend
  | cons e steps ih =>
    obtain ⟨o, u, tr', hstep, hrest, rfl⟩ := exec_cons_eq_some.mp hrun
    have hout' : ∀ e ∈ steps, e.isOutcome = true := fun e he => hout e (List.mem_cons_of_mem _ he)
    cases e with
    | onRead nread buf =>
      have hlen : nread ≤ buf.length := by
        by_contra h
        rw [step, if_neg fun hc => h hc.2] at hstep
        cases hstep
      by_cases hpos : 0 < nread
      · rw [step_read_data hphase hlen hpos hhttp, Option.some.injEq] at hstep
        have hdata : dataReads (.onRead nread buf :: steps) =
            buf.take nread.toNat :: dataReads steps :=
          List.filterMap_cons_some (f := Step.data) (if_pos hpos)
        rw [hdata, HttpParser.Accepts, HttpParser.callbacks, List.mem_append]
        obtain ⟨ho, hmem⟩ := httpParserExecute_outputs hstep
        by_cases hok : (P.execute s.parser (buf.take nread.toNat)).nparsed =
            (buf.take nread.toNat).length
        · obtain ⟨hp, hurl, hh, herror, _, hparser⟩ := httpParserExecute_keeps hstep hok
          have hih := @ih u (hp.trans hphase) (hurl ▸ hhttp) (hh.trans hhandler) hout' (pre ++ o)
            tr' hrest (by rw [calls_append, hpre, ho, List.nil_append])
          rw [herror, hparser, List.mem_append, hmem, List.append_assoc, or_assoc] at hih
          rw [hih, and_iff_right hok, or_assoc]
        · have hu := httpParserExecute_aborts hstep hok
          obtain ⟨_, _, rfl⟩ := exec_of_ended (by rw [hu]; rfl) hout' hrest
          constructor
          · rintro ⟨_, habort, _⟩
            exact absurd hu habort
          · rintro ⟨⟨hacc, _⟩, _⟩
            exact absurd hacc hok
      · rw [step_read_end hphase (not_lt.mp hpos) hhandler, Option.some.injEq,
          Prod.mk.injEq] at hstep
        obtain ⟨rfl, rfl⟩ := hstep
        obtain ⟨rfl, rfl, rfl⟩ := exec_of_ended rfl hout' hrest
        have hdata : dataReads [.onRead nread buf] = [] :=
          List.filterMap_cons_none (f := Step.data) (if_neg hpos)
        rw [hdata, List.append_nil, calls_append, hpre, truthful_iff hpre]
        have herror : s.reply.error = s.response.error := rfl
        rw [herror]
        constructor
        · rintro ⟨_, _, htruth⟩
          refine ⟨trivial, ?_⟩
          by_cases hok : s.response.error = .ok
          · exact Or.inl (htruth hok)
          · exact Or.inr (Or.inr hok)
        · rintro ⟨_, hmem | hmem | hne⟩
          · exact ⟨rfl, by simp, fun _ => hmem⟩
          · cases hmem
          · exact ⟨rfl, by simp, fun h => absurd h hne⟩
    | onResolved status connect =>
      rw [step, hphase, if_neg (by decide)] at hstep
      cases hstep
    | onConnect status =>
      rw [step, hphase, if_neg (by decide)] at hstep
      cases hstep
    | _ => cases hout _ List.mem_cons_self

/-- The host is resolved and the connection opened, the parser takes all data that is read, and
it reports a complete message unless the response carries an error from before. -/
def Served (s : SessionImplUV P T) (result : Int) (steps : List Step) : Prop :=
  result = 0 ∧ ∃ status connect status' rest,
    steps = .onResolved status connect :: .onConnect status' :: rest ∧
    0 ≤ status ∧ 0 ≤ connect ∧ 0 ≤ status' ∧ P.Accepts s.parser (dataReads rest) ∧
    (.messageComplete ∈ P.callbacks s.parser (dataReads rest) ∨ s.response.error ≠ .ok)

/-- A connection of a request that has been opened. -/
theorem step_onConnect_http {s : SessionImplUV P T} {status : Int}
    (hphase : s.phase = .connecting) (hhttp : s.request.url.isHttps = false)
    (hstatus : 0 ≤ status) :
    step (.onConnect status) s =
      some ([.wrote s.request.preparePayload.raw],
        { s with request := s.request.preparePayload, phase := .reading }) := by
  rw [step, if_pos hphase, onConnect]
  simp only [hhttp, Bool.false_eq_true, if_false, if_neg (not_lt.mpr hstatus)]

/-- A connection that has failed. -/
theorem step_onConnect_failed {s : SessionImplUV P T} {status : Int}
    (hphase : s.phase = .connecting) (hhttp : s.request.url.isHttps = false)
    (hstatus : status < 0) :
    step (.onConnect status) s =
      some ([], { s with request := s.request.preparePayload, phase := .failed }) := by
  rw [step, if_pos hphase, onConnect]
  simp only [hhttp, Bool.false_eq_true, if_false, if_pos hstatus]

/-- A request that has failed has not called the handler. -/
theorem not_answered_of_failed {s t : SessionImplUV P T} (hphase : s.phase = .failed)
    {steps : List Step} (hout : ∀ e ∈ steps, e.isOutcome = true) {tr : List Output}
    (hrun : exec step steps s = some (tr, t)) :
    ¬ ((calls tr).length = 1 ∧ t.phase ≠ .aborted ∧ Truthful tr) := by
  obtain ⟨_, rfl, _⟩ := exec_of_ended (by rw [hphase]; rfl) hout hrun
  rintro ⟨hlen, _⟩
  cases hlen

/-- What comes of a connection that is being opened. -/
theorem answered_iff_of_connecting {s : SessionImplUV P T} {handler : Response → Response}
    (hphase : s.phase = .connecting) (hhttp : s.request.url.isHttps = false)
    (hhandler : s.responseHandler = some handler) {steps : List Step}
    (hout : ∀ e ∈ steps, e.isOutcome = true) {tr : List Output} {t : SessionImplUV P T}
    (hrun : exec step steps s = some (tr, t)) (hend : t.phase.ended = true) :
    ((calls tr).length = 1 ∧ t.phase ≠ .aborted ∧ Truthful tr) ↔
      ∃ status rest, steps = .onConnect status :: rest ∧ 0 ≤ status ∧
        P.Accepts s.parser (dataReads rest) ∧
        (.messageComplete ∈ P.callbacks s.parser (dataReads rest) ∨ s.response.error ≠ .ok) := by
  cases steps with
  | nil =>
    cases hrun
    rw [hphase] at hend
    cases hend
  | cons e steps =>
    obtain ⟨o, u, tr', hstep, hrest, rfl⟩ := exec_cons_eq_some.mp hrun
    have hout' : ∀ e ∈ steps, e.isOutcome = true := fun e he => hout e (List.mem_cons_of_mem _ he)
    cases e with
    | onConnect status =>
      by_cases hstatus : status < 0
      · rw [step_onConnect_failed hphase hhttp hstatus, Option.some.injEq, Prod.mk.injEq] at hstep
        obtain ⟨rfl, rfl⟩ := hstep
        refine iff_of_false (not_answered_of_failed rfl hout' hrest) ?_
        rintro ⟨status', rest, heq, hle, _⟩
        cases heq
        omega
      · have hle : 0 ≤ status := not_lt.mp hstatus
        rw [step_onConnect_http hphase hhttp hle, Option.some.injEq, Prod.mk.injEq] at hstep
        obtain ⟨rfl, rfl⟩ := hstep
        rw [@answered_iff_of_reading P T
          { s with request := s.request.preparePayload, phase := .reading } handler rfl hhttp
          hhandler steps hout' [.wrote s.request.preparePayload.raw] tr' t hrest hend rfl]
        constructor
        · rintro ⟨hacc, hpre | hmem⟩
          · cases hpre with
            | tail _ h => cases h
          · exact ⟨status, steps, rfl, hle, hacc, hmem⟩
        · rintro ⟨status', rest, heq, _, hacc, hmem⟩
          cases heq
          exact ⟨hacc, Or.inr hmem⟩
    | onResolved status connect =>
      rw [step, hphase, if_neg (by decide)] at hstep
      cases hstep
    | onRead nread buf =>
      rw [step, hphase, if_neg fun h => absurd h.1 (by decide)] at hstep
      cases hstep
    | _ => cases hout _ List.mem_cons_self

/-- A request on a plain connection ends with one call of the handler, without an abort and
without an error only for a complete message, exactly when it is served. -/
theorem truthful_response_iff_served {s : SessionImplUV P T} {handler : Response → Response}
    (hhttp : s.request.url.isHttps = false) (hhandler : s.responseHandler = some handler)
    {result : Int} {steps : List Step} (hout : ∀ e ∈ steps, e.isOutcome = true)
    {tr : List Output} {t : SessionImplUV P T}
    (hrun : exec step (.doRequest result :: steps) s = some (tr, t))
    (hend : t.phase.ended = true) :
    ((calls tr).length = 1 ∧ t.phase ≠ .aborted ∧ Truthful tr) ↔ s.Served result steps := by
  obtain ⟨o, s₁, tr₁, hstep, hrun, rfl⟩ := exec_cons_eq_some.mp hrun
  obtain ⟨_, hstep⟩ := Option.ite_none_right_eq_some.mp hstep
  cases hstep
  rw [List.nil_append, Served]
  by_cases hresult : result = 0
  · rw [and_iff_right hresult]
    have hphase : (s.doRequest result).phase = .resolving := if_pos hresult
    cases steps with
    | nil =>
      cases hrun
      rw [hphase] at hend
      cases hend
    | cons e steps =>
      obtain ⟨o, s₂, tr₂, hstep, hrun, rfl⟩ := exec_cons_eq_some.mp hrun
      have hout' : ∀ e ∈ steps, e.isOutcome = true :=
        fun e he => hout e (List.mem_cons_of_mem _ he)
      cases e with
      | onResolved status connect =>
        rw [step, if_pos hphase] at hstep
        cases hstep
        rw [List.nil_append]
        by_cases hbad : status < 0 ∨ connect < 0
        · refine iff_of_false (not_answered_of_failed (if_pos hbad) hout' hrun) ?_
          rintro ⟨status', connect', status'', rest, heq, h₁, h₂, _⟩
          cases heq
          omega
        · rw [@answered_iff_of_connecting P T ((s.doRequest result).onResolved status connect)
            handler (if_neg hbad) hhttp hhandler steps hout' tr₂ t hrun hend]
          constructor
          · rintro ⟨status', rest, rfl, hrest⟩
            exact ⟨status, connect, status', rest, rfl, by omega, by omega, hrest⟩
          · rintro ⟨_, _, status', rest, heq, _, _, hrest⟩
            cases heq
            exact ⟨status', rest, rfl, hrest⟩
      | onConnect status =>
        rw [step, hphase, if_neg (by decide)] at hstep
        cases hstep
      | onRead nread buf =>
        rw [step, hphase, if_neg fun h => absurd h.1 (by decide)] at hstep
        cases hstep
      | _ => cases hout _ List.mem_cons_self
  · exact iff_of_false (not_answered_of_failed (if_neg hresult) hout hrun) fun h => hresult h.1

/-- A session that has been told to get `http://a`. -/
def prepared : SessionImplUV ResponseParser.parser Ssl.unused :=
  { (doInit ResponseParser.parser Ssl.unused 0 0).setUrl (Url.ofText (ascii "http://a") 0) with
    responseHandler := some id }

/-- The outcomes of a request that is answered in two reads. -/
def answeredSteps : List Step :=
  [.onResolved 0 0, .onConnect 0, .onRead 22 (ascii "HTTP/1.1 200 OK\r\nConte"),
    .onRead 16 (ascii "nt-Length: 0\r\n\r\n"), .onRead (-4095) []]

theorem truthful_response_iff_served_sample :
    ∃ tr t, exec step (.doRequest 0 :: answeredSteps) prepared = some (tr, t) ∧
      (calls tr).length = 1 ∧ t.phase ≠ .aborted ∧ Truthful tr := by
  refine ⟨_, _, rfl, ?_⟩
  refine (@truthful_response_iff_served ResponseParser.parser Ssl.unused prepared id rfl rfl 0
    answeredSteps (by decide) _ _ rfl rfl).mpr ?_
  exact ⟨rfl, 0, 0, 0, answeredSteps.drop 2, rfl, by decide, by decide, by decide,
    by decide +kernel, Or.inl (by decide +kernel)⟩

/-- When the host is not resolved, the request ends and the handler is never called. -/
theorem unresolved_without_response :
    ∃ (s t : SessionImplUV ResponseParser.parser Ssl.unused) (handler : Response → Response)
      (steps : List Step) (tr : List Output),
      s.request.url.isHttps = false ∧ s.responseHandler = some handler ∧
      (∀ e ∈ steps, e.isOutcome = true) ∧
      exec step (.doRequest 0 :: steps) s = some (tr, t) ∧ t.phase.ended = true ∧
      ¬ ((calls tr).length = 1 ∧ t.phase ≠ .aborted ∧ Truthful tr) :=
  ⟨prepared, _, id, [.onResolved (-3008) 0], _, rfl, rfl, by decide, rfl, rfl,
    fun h => absurd h.1 (by decide)⟩

end SessionImplUV

/-! ## One session for several requests -/

/-- A request with its URL and handler, and the data of the response that serves it. -/
structure Exchange where
  url : Url
  handler : Response → Response
  reply : Bytes

/-- `Get`, and a connection that brings the response in one read and then ends. -/
def Exchange.steps (x : Exchange) : List Step :=
  (SessionImplUV.get x.url (some x.handler) 0 ++ [.onResolved 0 0, .onConnect 0]) ++
    (SessionImplUV.readSteps [x.reply] ++ [.onRead (-4095) []])

/-- The parser takes each of some data as a message of its own. -/
def HttpParser.AcceptsFresh (P : HttpParser) (p : P.State) : List Bytes → Prop
  | [] => True
  | data :: rest =>
    (P.execute p data).nparsed = data.length ∧
      (P.execute p data).callbacks = (P.execute P.init data).callbacks ∧
      AcceptsFresh P (P.execute p data).parser rest

/-- The callbacks of a complete response: a status line, header lines, and the report that the
message is complete. -/
structure Complete (cbs : List Callback) : Prop where
  status : ∃ c ∈ cbs, c.statusText ≠ none
  lines : ∃ lines, Lines cbs lines
  complete : .messageComplete ∈ cbs

/-- The bytes of a body that a callback reports. -/
def Callback.bodyText : Callback → Bytes
  | .body text => text
  | _ => []

/-- The body of a response. -/
def bodyOf (P : HttpParser) (reply : Bytes) : Bytes :=
  (P.execute P.init reply).callbacks.flatMap Callback.bodyText

namespace SessionImplUV

variable {P : HttpParser} {T : Ssl}

/-- The response that a new session hands over for some data. -/
def freshReply (P : HttpParser) (T : Ssl) (reply : Bytes) : Response :=
  ((doInit P T 0 0).collect (P.execute P.init reply).callbacks).reply

private theorem collect_bodyStream (s : SessionImplUV P T) (cbs : List Callback) :
    (s.collect cbs).bodyStream = s.bodyStream ++ cbs.flatMap Callback.bodyText := by
  induction cbs generalizing s with
  | nil => exact (List.append_nil _).symm
  | cons c cbs ih =>
    rw [List.flatMap_cons, ← List.append_assoc]
    refine (ih (s.onCallback c)).trans (congrArg (· ++ _) ?_)
    cases c with
    | body text => rfl
    | _ => exact (List.append_nil _).symm

/-- A status line that is reported replaces what was there before. -/
theorem collect_statusLine {cbs : List Callback} (h : ∃ c ∈ cbs, c.statusText ≠ none)
    (s s' : SessionImplUV P T) :
    (s.collect cbs).response.status = (s'.collect cbs).response.status ∧
      (s.collect cbs).response.statusCode = (s'.collect cbs).response.statusCode := by
  induction cbs generalizing s s' with
  | nil =>
    obtain ⟨c, hc, _⟩ := h
    cases hc
  | cons c cbs ih =>
    by_cases hrest : ∃ c ∈ cbs, c.statusText ≠ none
    · exact ih hrest (s.onCallback c) (s'.onCallback c)
    · have hkeep (u : SessionImplUV P T) :
          ((u.collect cbs).response.status, (u.collect cbs).response.statusCode) =
            (u.response.status, u.response.statusCode) := by
        refine collect_keeps_of_mem (fun u => (u.response.status, u.response.statusCode)) ?_ u
        intro c hc u
        cases c with
        | status code text => exact absurd ⟨_, hc, by simp [Callback.statusText]⟩ hrest
        | _ => rfl
      obtain ⟨c', hc', hstatus⟩ := h
      rcases List.mem_cons.mp hc' with rfl | hc'
      · cases c' with
        | status code text =>
          have h₁ := hkeep (s.onHttpParserStatus code text)
          have h₂ := hkeep (s'.onHttpParserStatus code text)
          exact Prod.mk.inj (h₁.trans h₂.symm)
        | _ => exact absurd rfl hstatus
      · exact absurd ⟨c', hc', hstatus⟩ hrest

/-- The session once a plain connection for `Get` is open. -/
def opened (s : SessionImplUV P T) (url : Url) (handler : ResponseHandler) : SessionImplUV P T :=
  { s with
    request := { s.request with method := ascii "GET", url := P.splitUrl url }.preparePayload
    responseHandler := handler
    phase := .reading }

/-- A request up to its first read. -/
theorem exec_get {s : SessionImplUV P T} (hrest : s.phase.atRest = true) {url : Url}
    (hplain : (P.splitUrl url).isHttps = false) (handler : ResponseHandler) :
    exec step (get url handler 0 ++ [.onResolved 0 0, .onConnect 0]) s =
      some ([.wrote (s.opened url handler).request.raw], s.opened url handler) := by
  simp [get, exec, step, hrest, setUrl, doRequest, onResolved, onConnect, opened,
    Request.preparePayload, hplain]

/-- A session whose header map is empty hands over the response of a new session, with its body
after what the stream holds. -/
theorem reply_same_freshReply {s : SessionImplUV P T}
    (hheader : s.request.header = OrderedMap.empty) {reply : Bytes}
    (hcomplete : Complete (P.execute P.init reply).callbacks) :
    (s.collect (P.execute P.init reply).callbacks).reply.Same (freshReply P T reply) ↔
      s.bodyStream = [] := by
  obtain ⟨hstatus, hcode⟩ := collect_statusLine hcomplete.status s (doInit P T 0 0)
  obtain ⟨lines, hlines⟩ := hcomplete.lines
  have hmap : (s.collect (P.execute P.init reply).callbacks).request.header =
      ((doInit P T 0 0).collect (P.execute P.init reply).callbacks).request.header := by
    rw [collect_lines hlines, collect_lines hlines, hheader]
    rfl
  have hbody : (s.collect (P.execute P.init reply).callbacks).bodyStream =
      ((doInit P T 0 0).collect (P.execute P.init reply).callbacks).bodyStream ↔
        s.bodyStream = [] := by
    rw [collect_bodyStream, collect_bodyStream, List.append_left_inj]
    rfl
  exact ⟨fun h => hbody.mp h.2.2.2, fun h => ⟨hstatus, hcode, hmap, hbody.mpr h⟩⟩

/-- A request that is served by a complete response. -/
theorem exec_exchange {s : SessionImplUV P T} (hrest : s.phase.atRest = true)
    (hheader : s.request.header = OrderedMap.empty) {x : Exchange}
    (hplain : (P.splitUrl x.url).isHttps = false) (hne : x.reply ≠ [])
    (hacc : (P.execute s.parser x.reply).nparsed = x.reply.length)
    (hcbs : (P.execute s.parser x.reply).callbacks = (P.execute P.init x.reply).callbacks)
    (hcomplete : Complete (P.execute P.init x.reply).callbacks) :
    ∃ tr t r, exec step x.steps s = some (tr, t) ∧ calls tr = [(x.handler, r)] ∧
      (r.Same (freshReply P T x.reply) ↔ s.bodyStream = []) ∧
      t.phase.atRest = true ∧ t.request.header = OrderedMap.empty ∧
      t.bodyStream = s.bodyStream ++ bodyOf P x.reply ∧
      t.parser = (P.execute s.parser x.reply).parser := by
  have hopen := exec_get hrest hplain (some x.handler)
  obtain ⟨tr, t, hrun, hresp, hphase, hempty, hbody, hparser⟩ :=
    @exec_connection P T (s.opened x.url (some x.handler)) [x.reply] (-4095) x.handler rfl hplain
      rfl (fun d hd => List.mem_singleton.mp hd ▸ hne) ⟨hacc, trivial⟩ (by decide) []
  have hcallbacks : P.callbacks s.parser [x.reply] = (P.execute P.init x.reply).callbacks := by
    rw [← hcbs]
    exact List.append_nil _
  change calls tr = [(x.handler, ((s.opened x.url (some x.handler)).collect
    (P.callbacks s.parser [x.reply])).reply)] at hresp
  change t.bodyStream = ((s.opened x.url (some x.handler)).collect
    (P.callbacks s.parser [x.reply])).bodyStream at hbody
  rw [hcallbacks] at hresp hbody
  refine ⟨_, t, _, exec_append_eq_some.mpr ⟨_, _, tr, hopen, hrun, rfl⟩, hresp,
    @reply_same_freshReply P T (s.opened x.url (some x.handler)) hheader x.reply hcomplete, ?_,
    hempty, ?_, hparser⟩
  · rw [hphase]
    rfl
  · rw [hbody, collect_bodyStream]
    rfl

/-- The calls of a session whose body stream holds something already. -/
theorem responses_same_iff {s : SessionImplUV P T} (hrest : s.phase.atRest = true)
    (hheader : s.request.header = OrderedMap.empty) {xs : List Exchange}
    (hplain : ∀ x ∈ xs, (P.splitUrl x.url).isHttps = false) (hne : ∀ x ∈ xs, x.reply ≠ [])
    (hfresh : P.AcceptsFresh s.parser (xs.map Exchange.reply))
    (hcomplete : ∀ x ∈ xs, Complete (P.execute P.init x.reply).callbacks) :
    ∃ tr t, exec step (xs.flatMap Exchange.steps) s = some (tr, t) ∧
      (calls tr).map Prod.fst = xs.map Exchange.handler ∧
      (List.Forall₂ Response.Same ((calls tr).map Prod.snd)
          (xs.map fun x => freshReply P T x.reply) ↔
        (xs ≠ [] → s.bodyStream = []) ∧ ∀ x ∈ xs.dropLast, bodyOf P x.reply = []) := by
  induction xs generalizing s with
  | nil =>
    refine ⟨[], s, rfl, rfl, iff_of_true .nil ⟨fun h => absurd rfl h, ?_⟩⟩
    exact fun x hx => absurd hx List.not_mem_nil
  | cons x xs ih =>
    obtain ⟨hacc, hcbs, hfresh⟩ := hfresh
    obtain ⟨tr, t, r, hrun, hresp, hsame, hphase, hempty, hbody, hparser⟩ :=
      exec_exchange hrest hheader (hplain x List.mem_cons_self) (hne x List.mem_cons_self) hacc
        hcbs (hcomplete x List.mem_cons_self)
    obtain ⟨tr', t', hrun', hcalls, hiff⟩ := ih hphase hempty
      (fun x hx => hplain x (List.mem_cons_of_mem _ hx))
      (fun x hx => hne x (List.mem_cons_of_mem _ hx)) (hparser ▸ hfresh)
      (fun x hx => hcomplete x (List.mem_cons_of_mem _ hx))
    refine ⟨tr ++ tr', t', ?_, ?_, ?_⟩
    · rw [List.flatMap_cons]
      exact exec_append_eq_some.mpr ⟨t, tr, tr', hrun, hrun', rfl⟩
    · rw [calls_append, hresp, List.singleton_append, List.map_cons, hcalls, List.map_cons]
    · rw [calls_append, hresp, List.singleton_append, List.map_cons, List.map_cons,
        List.forall₂_cons, hsame, hiff, hbody]
      cases xs with
      | nil => simp
      | cons y ys =>
        simp only [ne_eq, reduceCtorEq, not_false_eq_true, forall_const, List.dropLast_cons_cons,
          List.forall_mem_cons, List.append_eq_nil_iff, and_assoc]
        exact and_self_left

/-- Requests on one session, each served by a complete response in one read: every handler is
given what its own response determines exactly when all bodies but the last are empty. -/
theorem reuse_iff_bodies_empty (statusCode port : Int) {xs : List Exchange}
    (hplain : ∀ x ∈ xs, (P.splitUrl x.url).isHttps = false) (hne : ∀ x ∈ xs, x.reply ≠ [])
    (hfresh : P.AcceptsFresh P.init (xs.map Exchange.reply))
    (hcomplete : ∀ x ∈ xs, Complete (P.execute P.init x.reply).callbacks) :
    ∃ tr t, exec step (xs.flatMap Exchange.steps) (doInit P T statusCode port) = some (tr, t) ∧
      (calls tr).map Prod.fst = xs.map Exchange.handler ∧
      (List.Forall₂ Response.Same ((calls tr).map Prod.snd)
          (xs.map fun x => freshReply P T x.reply) ↔
        ∀ x ∈ xs.dropLast, bodyOf P x.reply = []) := by
  obtain ⟨tr, t, hrun, hcalls, hiff⟩ :=
    @responses_same_iff P T (doInit P T statusCode port) rfl rfl xs hplain hne hfresh hcomplete
  exact ⟨tr, t, hrun, hcalls, hiff.trans (and_iff_right fun _ => rfl)⟩

/-- A request for `http://a` that is served by some data. -/
def servedBy (reply : String) : Exchange :=
  ⟨Url.ofText (ascii "http://a") 0, id, ascii reply⟩

/-- A response without a body, and then one with a body. -/
theorem reuse_iff_bodies_empty_sample :
    ∃ tr t, exec step
        ([servedBy "HTTP/1.1 204 No\r\nA: b\r\n\r\n",
          servedBy "HTTP/1.1 200 OK\r\nContent-Length: 1\r\n\r\na"].flatMap Exchange.steps)
        (doInit ResponseParser.parser Ssl.unused 0 0) = some (tr, t) ∧
      List.Forall₂ Response.Same ((calls tr).map Prod.snd)
        [freshReply ResponseParser.parser Ssl.unused (ascii "HTTP/1.1 204 No\r\nA: b\r\n\r\n"),
          freshReply ResponseParser.parser Ssl.unused
            (ascii "HTTP/1.1 200 OK\r\nContent-Length: 1\r\n\r\na")] := by
  obtain ⟨tr, t, hrun, _, hiff⟩ :=
    @reuse_iff_bodies_empty ResponseParser.parser Ssl.unused 0 0
      [servedBy "HTTP/1.1 204 No\r\nA: b\r\n\r\n",
        servedBy "HTTP/1.1 200 OK\r\nContent-Length: 1\r\n\r\na"]
      (by decide +kernel) (by decide +kernel)
      ⟨by decide +kernel, by decide +kernel, by decide +kernel, by decide +kernel, trivial⟩
      (List.forall_mem_cons.mpr ⟨⟨by decide +kernel,
          ⟨_, .other rfl (.line (ascii "A") (ascii "b") (.other rfl (.other rfl .nil)))⟩,
          by decide +kernel⟩,
        List.forall_mem_singleton.mpr ⟨by decide +kernel,
          ⟨_, .other rfl (.line (ascii "Content-Length") (ascii "1")
            (.other rfl (.other rfl (.other rfl .nil))))⟩,
          by decide +kernel⟩⟩)
  exact ⟨tr, t, hrun, hiff.mpr (by decide +kernel)⟩

/-- The second of two handlers is given the first body as well. -/
theorem second_response_has_first_body :
    ∃ (x x' : Exchange) (tr : List Output)
      (t : SessionImplUV ResponseParser.parser Ssl.unused) (r r' : Response),
      ResponseParser.parser.AcceptsFresh ResponseParser.fresh [x.reply, x'.reply] ∧
      Complete (ResponseParser.parser.execute ResponseParser.fresh x.reply).callbacks ∧
      Complete (ResponseParser.parser.execute ResponseParser.fresh x'.reply).callbacks ∧
      exec step ([x, x'].flatMap Exchange.steps)
        (doInit ResponseParser.parser Ssl.unused 0 0) = some (tr, t) ∧
      calls tr = [(x.handler, r), (x'.handler, r')] ∧ r'.body = ascii "ab" ∧
      (freshReply ResponseParser.parser Ssl.unused x'.reply).body = ascii "b" := by
  refine ⟨servedBy "HTTP/1.1 200 OK\r\nContent-Length: 1\r\n\r\na",
    servedBy "HTTP/1.1 200 OK\r\nContent-Length: 1\r\n\r\nb", _, _, _, _,
    ⟨by decide +kernel, by decide +kernel, by decide +kernel, by decide +kernel, trivial⟩,
    ?_, ?_, rfl, rfl, by decide +kernel, by decide +kernel⟩
  · exact ⟨by decide +kernel, ⟨_, .other rfl (.line (ascii "Content-Length") (ascii "1")
      (.other rfl (.other rfl (.other rfl .nil))))⟩, by decide +kernel⟩
  · exact ⟨by decide +kernel, ⟨_, .other rfl (.line (ascii "Content-Length") (ascii "1")
      (.other rfl (.other rfl (.other rfl .nil))))⟩, by decide +kernel⟩

end SessionImplUV

end CppImprovement.Http

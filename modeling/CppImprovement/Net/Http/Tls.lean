import CppImprovement.Core.Service
import CppImprovement.Net.Http.ResponseParser

/-!
# Responses over TLS

After the handshake every read of the socket makes one call of `SSL_read`, for at most as many
bytes as were read. What a record still holds when the connection ends, and every record behind
it, is lost. The reads are slots that serve the records in order.
-/

namespace CppImprovement.Http

/-- A record that carries data: what arrives, and what is decrypted from it. Records without
data are skipped by `SSL_read` and count as a part of the next one that has some. -/
structure Record where
  ciphertext : Bytes
  plaintext : Bytes
  plaintext_ne : plaintext ≠ []

/-- What arrives for some records. -/
def ciphertexts (recs : List Record) : Bytes := recs.flatMap Record.ciphertext

/-- What some records carry. -/
def plaintexts (recs : List Record) : Bytes := recs.flatMap Record.plaintext

/-- What OpenSSL does after the handshake. `R st bio unread recs` says of the state `st` that
`read_bio_` holds `bio`, that `unread` is left of the last record, and that `recs` come next. -/
structure Ssl.Follows (T : Ssl) (R : T.State → Bytes → Bytes → List Record → Prop) : Prop where
  isInitFinished : ∀ {st bio unread recs}, R st bio unread recs → T.isInitFinished st = true
  bioWrite : ∀ {st bio unread recs} {data : Bytes}, bio ++ data <+: ciphertexts recs →
    R st bio unread recs → R (T.bioWrite st data) (bio ++ data) unread recs
  read_unread : ∀ {st bio unread recs} {n : Nat}, 0 < n → unread ≠ [] → R st bio unread recs →
    (T.read st n).1 = some (unread.take n) ∧ R (T.read st n).2 bio (unread.drop n) recs
  read_record : ∀ {st bio recs} {r : Record} {n : Nat}, 0 < n →
    R st (r.ciphertext ++ bio) [] (r :: recs) →
    (T.read st n).1 = some (r.plaintext.take n) ∧
      R (T.read st n).2 bio (r.plaintext.drop n) recs
  read_none : ∀ {st bio recs} {n : Nat}, 0 < n → (∀ r ∈ recs.head?, ¬ r.ciphertext <+: bio) →
    R st bio [] recs → (T.read st n).1 = none ∧ R (T.read st n).2 bio [] recs

/-- The records as jobs: a record is released by the last byte of its ciphertext, and its
plaintext is the work. -/
def jobsOf (start : Nat) : List Record → List Job
  | [] => []
  | r :: recs =>
    ⟨start + r.ciphertext.length, r.plaintext.length⟩ ::
      jobsOf (start + r.ciphertext.length) recs

/-- The jobs that are left when `received` bytes have arrived: the unread rest of a record, and
the records whose ciphertext is in `read_bio_` or still to come. -/
inductive Backlog (received : Nat) (bio unread : Bytes) (recs : List Record) : List Job → Prop
  | whole (start : Nat) (h : start + bio.length = received) (hu : unread = []) :
    Backlog received bio unread recs (jobsOf start recs)
  | partly (start release : Nat) (h : start + bio.length = received) (hr : release ≤ received)
    (hu : unread ≠ []) :
    Backlog received bio unread recs (⟨release, unread.length⟩ :: jobsOf start recs)

/-- A slot of capacity `n` for a record with the plaintext `text`. -/
theorem Backlog.serve {received start release n : Nat} {bio text : Bytes} {recs : List Record}
    (h : start + bio.length = received + n) (hr : release ≤ received + n) :
    ∃ jobs, Backlog (received + n) bio (text.drop n) recs jobs ∧
      ∀ zs, CppImprovement.serve received (n :: zs) (⟨release, text.length⟩ :: jobsOf start recs) =
        CppImprovement.serve (received + n) zs jobs := by
  by_cases hlen : text.length ≤ n
  · refine ⟨_, .whole start h (List.drop_eq_nil_iff.mpr hlen), fun zs => ?_⟩
    rw [CppImprovement.serve, if_pos hr, if_pos hlen]
  · have hne : text.drop n ≠ [] := fun h => hlen (List.drop_eq_nil_iff.mp h)
    refine ⟨_, .partly start release h hr hne, fun zs => ?_⟩
    rw [CppImprovement.serve, if_pos hr, if_neg hlen, List.length_drop]

/-- No job is left exactly when no plaintext is left. -/
theorem Backlog.eq_nil_iff {received : Nat} {bio unread : Bytes} {recs : List Record}
    {jobs : List Job} (h : Backlog received bio unread recs jobs) :
    jobs = [] ↔ unread ++ plaintexts recs = [] := by
  cases h with
  | whole start _ hu =>
    rw [hu, List.nil_append]
    cases recs with
    | nil => exact iff_of_true rfl rfl
    | cons r recs =>
      refine iff_of_false (List.cons_ne_nil _ _) fun h => ?_
      exact r.plaintext_ne (List.append_eq_nil_iff.mp h).1
  | partly start release _ _ hu =>
    exact iff_of_false (List.cons_ne_nil _ _) fun h => hu (List.append_eq_nil_iff.mp h).1

namespace HttpParser

variable {P : HttpParser}

private theorem accepts_append {p : P.State} (ds : List Bytes) {es : List Bytes}
    (h : P.Accepts p (ds ++ es)) : P.Accepts (P.after p ds) es := by
  induction ds generalizing p with
  | nil => exact h
  | cons d ds ih => exact ih h.2

end HttpParser

namespace SessionImplUV

variable {P : HttpParser} {T : Ssl} {R : T.State → Bytes → Bytes → List Record → Prop}

@[simp]
theorem parsedBytes_append (tr tr' : List Output) :
    parsedBytes (tr ++ tr') = parsedBytes tr ++ parsedBytes tr' :=
  List.flatMap_append

private theorem parsedBytes_httpParserExecute (s : SessionImplUV P T) (data : Bytes) :
    parsedBytes (s.httpParserExecute data).1 = data := by
  have hrest : parsedBytes (completions (P.execute s.parser data).callbacks) = [] := by
    rw [parsedBytes, completions, List.flatMap_map, List.flatMap_eq_nil_iff]
    intro c _
    rfl
  rw [httpParserExecute, parsedBytes, List.flatMap_cons]
  exact (congrArg (data ++ ·) hrest).trans (List.append_nil data)

/-- A session that reads the data of some records, in front of a parser that accepts it however
it is cut. -/
structure Reading (R : T.State → Bytes → Bytes → List Record → Prop) (s : SessionImplUV P T)
    (bio unread : Bytes) (recs : List Record) : Prop where
  phase : s.phase = .reading
  https : s.request.url.isHttps = true
  ssl : R s.ssl bio unread recs
  accepts : ∀ ds : List Bytes, ds.flatten <+: unread ++ plaintexts recs → P.Accepts s.parser ds

/-- A read on a TLS connection. -/
theorem step_read_ssl {s : SessionImplUV P T} {bio unread : Bytes} {recs : List Record}
    (h : Reading R s bio unread recs) {data : Bytes} (hne : data ≠ [])
    (hfinished : T.isInitFinished (T.bioWrite s.ssl data) = true) :
    step (.onRead data.length data) s =
      match (T.read (T.bioWrite s.ssl data) data.length).1 with
      | none => some ([], s.setSsl (T.read (T.bioWrite s.ssl data) data.length).2)
      | some plain =>
        some ((s.setSsl (T.read (T.bioWrite s.ssl data) data.length).2).httpParserExecute
          plain) := by
  have hpos : (0 : Int) < data.length := by
    have := List.length_pos_iff.mpr hne
    omega
  rw [step, if_pos ⟨h.phase, le_rfl⟩, onRead, if_pos hpos]
  simp only [h.https, if_true, Int.toNat_natCast, List.take_length, readFromSSL, setSsl,
    hfinished]
  cases (T.read (T.bioWrite s.ssl data) data.length).1 with
  | none => rfl
  | some plain => rfl

/-- A read whose `SSL_read` returns data. -/
theorem Reading.of_read {s : SessionImplUV P T} {bio unread : Bytes} {recs : List Record}
    (h : Reading R s bio unread recs) {data : Bytes} (hne : data ≠ [])
    (hfinished : T.isInitFinished (T.bioWrite s.ssl data) = true) {plain bio' unread' : Bytes}
    {recs' : List Record}
    (hread : (T.read (T.bioWrite s.ssl data) data.length).1 = some plain)
    (hR : R (T.read (T.bioWrite s.ssl data) data.length).2 bio' unread' recs')
    (hplain : unread ++ plaintexts recs = plain ++ (unread' ++ plaintexts recs')) :
    ∃ o t, step (.onRead data.length data) s = some (o, t) ∧ parsedBytes o = plain ∧
      Reading R t bio' unread' recs' := by
  have hacc := h.accepts [plain] (by
    rw [hplain, List.flatten_singleton]
    exact List.prefix_append _ _)
  have hstep := step_read_ssl h hne hfinished
  simp only [hread] at hstep
  cases hex : (s.setSsl (T.read (T.bioWrite s.ssl data) data.length).2).httpParserExecute plain with
  | mk o t =>
    rw [hex] at hstep
    obtain ⟨hphase, hurl, _, _, hssl, hparser⟩ := httpParserExecute_keeps hex hacc.1
    refine ⟨o, t, hstep, ?_, hphase.trans h.phase, hurl ▸ h.https, hssl ▸ hR, ?_⟩
    · have hbytes := parsedBytes_httpParserExecute
        (s.setSsl (T.read (T.bioWrite s.ssl data) data.length).2) plain
      rwa [hex] at hbytes
    · intro ds hds
      rw [hparser]
      refine HttpParser.accepts_append [plain] (h.accepts ([plain] ++ ds) ?_)
      rw [hplain, List.flatten_append, List.flatten_singleton]
      exact (List.prefix_append_right_inj plain).mpr hds

/-- A read whose `SSL_read` returns nothing. -/
theorem Reading.of_read_none {s : SessionImplUV P T} {bio unread bio' : Bytes}
    {recs : List Record} (h : Reading R s bio unread recs) {data : Bytes} (hne : data ≠ [])
    (hfinished : T.isInitFinished (T.bioWrite s.ssl data) = true)
    (hread : (T.read (T.bioWrite s.ssl data) data.length).1 = none)
    (hR : R (T.read (T.bioWrite s.ssl data) data.length).2 bio' unread recs) :
    ∃ t, step (.onRead data.length data) s = some ([], t) ∧ Reading R t bio' unread recs := by
  have hstep := step_read_ssl h hne hfinished
  simp only [hread] at hstep
  exact ⟨_, hstep, h.phase, h.https, hR, h.accepts⟩

/-- One read is one slot for the records. -/
theorem Reading.step {s : SessionImplUV P T} {bio unread : Bytes} {recs : List Record}
    (h : Reading R s bio unread recs) (hT : T.Follows R) {received : Nat} {jobs : List Job}
    (hjobs : Backlog received bio unread recs jobs) {data rest : Bytes} (hne : data ≠ [])
    (hcipher : bio ++ (data ++ rest) = ciphertexts recs) :
    ∃ o t bio' unread' recs' jobs',
      SessionImplUV.step (.onRead data.length data) s = some (o, t) ∧
      Reading R t bio' unread' recs' ∧
      Backlog (received + data.length) bio' unread' recs' jobs' ∧
      bio' ++ rest = ciphertexts recs' ∧
      unread ++ plaintexts recs = parsedBytes o ++ (unread' ++ plaintexts recs') ∧
      ∀ zs, serve received (data.length :: zs) jobs = serve (received + data.length) zs jobs' := by
  have hpos := List.length_pos_iff.mpr hne
  have hlen : (bio ++ data).length = bio.length + data.length := List.length_append
  rw [← List.append_assoc] at hcipher
  have hwrite := hT.bioWrite ⟨rest, hcipher⟩ h.ssl
  have hfinished := hT.isInitFinished hwrite
  cases hjobs with
  | partly start release hstart hr hu =>
    obtain ⟨hread, hR⟩ := hT.read_unread hpos hu hwrite
    have hplain : unread ++ plaintexts recs =
        unread.take data.length ++ (unread.drop data.length ++ plaintexts recs) := by
      rw [← List.append_assoc, List.take_append_drop]
    obtain ⟨o, t, hstep, hbytes, ht⟩ := h.of_read hne hfinished hread hR hplain
    obtain ⟨jobs', hback, hserve⟩ :=
      @Backlog.serve received start release data.length (bio ++ data) unread recs (by omega)
        (by omega)
    exact ⟨o, t, bio ++ data, _, recs, jobs', hstep, ht, hback, hcipher, by rw [hbytes, hplain],
      hserve⟩
  | whole start hstart hu =>
    subst hu
    cases recs with
    | nil =>
      rw [ciphertexts, List.flatMap_nil, List.append_eq_nil_iff, List.append_eq_nil_iff] at hcipher
      exact absurd hcipher.1.2 hne
    | cons r recs =>
      rw [ciphertexts, List.flatMap_cons] at hcipher
      by_cases hfull : r.ciphertext <+: bio ++ data
      · obtain ⟨bio', hbio'⟩ := hfull
        rw [← hbio'] at hwrite hlen hcipher
        obtain ⟨hread, hR⟩ := hT.read_record hpos hwrite
        have hplain : [] ++ plaintexts (r :: recs) = r.plaintext.take data.length ++
            (r.plaintext.drop data.length ++ plaintexts recs) := by
          rw [← List.append_assoc, List.take_append_drop]
          rfl
        obtain ⟨o, t, hstep, hbytes, ht⟩ := h.of_read hne hfinished hread hR hplain
        rw [List.length_append] at hlen
        obtain ⟨jobs', hback, hserve⟩ :=
          @Backlog.serve received (start + r.ciphertext.length) (start + r.ciphertext.length)
            data.length bio' r.plaintext recs (by omega) (by omega)
        rw [List.append_assoc, List.append_cancel_left_eq] at hcipher
        exact ⟨o, t, bio', _, recs, jobs', hstep, ht, hback, hcipher, by rw [hbytes, hplain],
          hserve⟩
      · obtain ⟨hread, hR⟩ := hT.read_none hpos
          (fun r' hr' => (Option.mem_some_iff.mp hr') ▸ hfull) hwrite
        obtain ⟨t, hstep, ht⟩ := h.of_read_none hne hfinished hread hR
        refine ⟨[], t, bio ++ data, [], r :: recs, _, hstep, ht, .whole start (by omega) rfl,
          hcipher, rfl, fun zs => ?_⟩
        have hrelease : ¬ start + r.ciphertext.length ≤ received + data.length := by
          intro hle
          refine hfull (List.prefix_of_prefix_length_le ⟨_, rfl⟩ ⟨rest, hcipher⟩ ?_)
          omega
        rw [jobsOf, serve, if_neg hrelease]

/-- The reads of a connection are slots for the records. -/
theorem Reading.run {reads : List Bytes} {s : SessionImplUV P T} {bio unread : Bytes}
    {recs : List Record} (h : Reading R s bio unread recs) (hT : T.Follows R) {received : Nat}
    {jobs : List Job} (hjobs : Backlog received bio unread recs jobs)
    (hne : ∀ data ∈ reads, data ≠ []) (hcipher : bio ++ reads.flatten = ciphertexts recs) :
    ∃ tr t received' bio' unread' recs',
      exec SessionImplUV.step (readSteps reads) s = some (tr, t) ∧
      Reading R t bio' unread' recs' ∧
      Backlog received' bio' unread' recs' (serve received (reads.map List.length) jobs) ∧
      unread ++ plaintexts recs = parsedBytes tr ++ (unread' ++ plaintexts recs') := by
  induction reads generalizing s bio unread recs received jobs with
  | nil => exact ⟨[], s, received, bio, unread, recs, rfl, h, hjobs, rfl⟩
  | cons data reads ih =>
    rw [List.flatten_cons] at hcipher
    obtain ⟨o, u, bio₁, unread₁, recs₁, jobs₁, hstep, h₁, hjobs₁, hcipher₁, hplain₁, hserve⟩ :=
      h.step hT hjobs (hne data List.mem_cons_self) hcipher
    obtain ⟨tr, t, received', bio', unread', recs', hrun, ht, hback, hplain⟩ :=
      ih h₁ hjobs₁ (fun d hd => hne d (List.mem_cons_of_mem _ hd)) hcipher₁
    refine ⟨o ++ tr, t, received', bio', unread', recs', ?_, ht, ?_, ?_⟩
    · exact exec_cons_eq_some.mpr ⟨o, u, tr, hstep, hrun, rfl⟩
    · rw [List.map_cons, hserve]
      exact hback
    · rw [hplain₁, hplain, parsedBytes_append, List.append_assoc]

/-- The end of a TLS connection gives nothing to the parser. -/
theorem Reading.close {s : SessionImplUV P T} {bio unread : Bytes} {recs : List Record}
    (h : Reading R s bio unread recs) {nread : Int} (hend : nread ≤ 0) (buf : Bytes) :
    ∃ o t, SessionImplUV.step (.onRead nread buf) s = some (o, t) ∧ t.phase = .closed ∧
      parsedBytes o = [] := by
  have hlen : nread ≤ buf.length := by omega
  rw [SessionImplUV.step, if_pos ⟨h.phase, hlen⟩, onRead, if_neg (by omega)]
  refine ⟨_, _, rfl, rfl, ?_⟩
  rw [onRecvComplete]
  cases s.responseHandler with
  | none => rfl
  | some handler => rfl

/-- The plaintexts of all records reach the parser before the connection ends exactly when the
reads can be divided among the records: the block of a record begins with the read that
completes it or later, and reads at least as many bytes as the record carries. -/
theorem decrypted_iff_inTime (hT : T.Follows R) {s : SessionImplUV P T} {recs : List Record}
    (h : Reading R s [] [] recs) {reads : List Bytes} (hne : ∀ data ∈ reads, data ≠ [])
    (hcipher : reads.flatten = ciphertexts recs) {nread : Int} (hend : nread ≤ 0) (buf : Bytes) :
    ∃ tr t, exec step (readSteps reads ++ [.onRead nread buf]) s = some (tr, t) ∧
      t.phase = .closed ∧
      (parsedBytes tr = plaintexts recs ↔
        InTime 0 (reads.map List.length) (jobsOf 0 recs)) := by
  obtain ⟨tr, u, received, bio, unread, recs', hrun, hu, hback, hplain⟩ :=
    h.run hT (show Backlog 0 [] [] recs (jobsOf 0 recs) from .whole 0 rfl rfl) hne hcipher
  obtain ⟨o, t, hstep, hphase, hbytes⟩ := hu.close hend buf
  refine ⟨tr ++ o, t, exec_append_eq_some.mpr ⟨u, tr, o, hrun,
    exec_cons_eq_some.mpr ⟨o, t, [], hstep, rfl, (List.append_nil o).symm⟩, rfl⟩, hphase, ?_⟩
  rw [← serve_eq_nil_iff, hback.eq_nil_iff, parsedBytes_append, hbytes, List.append_nil]
  rw [List.nil_append] at hplain
  rw [hplain]
  exact List.self_eq_append_right

end SessionImplUV

/-! ## A record layer to run -/

/-- A stand-in for OpenSSL after the handshake: a record is the length of its data and the data;
the state holds `read_bio_` and the unread rest of a record. -/
def framedRead (st : Bytes × Bytes) (n : Nat) : Option Bytes × (Bytes × Bytes) :=
  if st.2 ≠ [] then (some (st.2.take n), (st.1, st.2.drop n))
  else
    match st.1 with
    | [] => (none, st)
    | len :: bio =>
      if len.toNat ≤ bio.length then
        (some ((bio.take len.toNat).take n), (bio.drop len.toNat, (bio.take len.toNat).drop n))
      else (none, st)

/-- The library with this record layer. -/
def framedSsl : Ssl where
  State := Bytes × Bytes
  init := ([], [])
  isInitFinished := fun _ => true
  doHandshake := fun st => (1, st)
  getError := fun _ _ => 0
  write := fun st data => (data.length, st)
  read := framedRead
  bioWrite := fun st data => (st.1 ++ data, st.2)
  pending := fun _ => []
  drained := id

/-- A record of this layer. -/
def Record.Framed (r : Record) : Prop :=
  ∃ len : UInt8, len.toNat = r.plaintext.length ∧ r.ciphertext = len :: r.plaintext

/-- The state of this layer for some records. -/
def FramedState (st : Bytes × Bytes) (bio unread : Bytes) (recs : List Record) : Prop :=
  st = (bio, unread) ∧ bio <+: ciphertexts recs ∧ ∀ r ∈ recs, r.Framed

/-- The record layer does what OpenSSL documents. -/
theorem framedSsl_follows : framedSsl.Follows FramedState where
  isInitFinished := fun _ => rfl
  bioWrite := by
    rintro st bio unread recs data hpre ⟨rfl, _, hrecs⟩
    exact ⟨rfl, hpre, hrecs⟩
  read_unread := by
    rintro st bio unread recs n _ hne ⟨rfl, hpre, hrecs⟩
    have hread : framedRead (bio, unread) n = (some (unread.take n), (bio, unread.drop n)) :=
      if_pos hne
    exact ⟨congrArg Prod.fst hread, congrArg Prod.snd hread, hpre, hrecs⟩
  read_record := by
    rintro st bio recs r n _ ⟨rfl, hpre, hrecs⟩
    obtain ⟨len, hlen, hcipher⟩ := hrecs r List.mem_cons_self
    have hread : framedRead (r.ciphertext ++ bio, []) n =
        (some (r.plaintext.take n), (bio, r.plaintext.drop n)) := by
      rw [hcipher]
      simp [framedRead, hlen]
    refine ⟨congrArg Prod.fst hread, congrArg Prod.snd hread, ?_, fun r hr =>
      hrecs r (List.mem_cons_of_mem _ hr)⟩
    exact (List.prefix_append_right_inj r.ciphertext).mp hpre
  read_none := by
    rintro st bio recs n _ hnone ⟨rfl, hpre, hrecs⟩
    have hread : framedRead (bio, []) n = (none, (bio, [])) := by
      cases bio with
      | nil => rfl
      | cons b bio =>
        cases recs with
        | nil => cases List.prefix_nil.mp hpre
        | cons r recs =>
          obtain ⟨len, hlen, hcipher⟩ := hrecs r List.mem_cons_self
          have hshort : ¬ r.ciphertext <+: b :: bio := hnone r rfl
          have hor := List.prefix_or_prefix_of_prefix hpre (List.prefix_append r.ciphertext _)
          have hbio : b :: bio <+: r.ciphertext := hor.resolve_right hshort
          rw [hcipher] at hbio hshort
          obtain ⟨rfl, hrest⟩ := List.cons_prefix_cons.mp hbio
          have hlt : ¬ b.toNat ≤ bio.length := by
            intro hle
            rw [hlen] at hle
            exact hshort (hrest.eq_of_length_le hle ▸ List.prefix_rfl)
          simp [framedRead, hlt]
    exact ⟨congrArg Prod.fst hread, congrArg Prod.snd hread, hpre, hrecs⟩

/-- A record with some data. -/
def framedRecord (len : UInt8) (text : Bytes) (h : text ≠ []) : Record := ⟨len :: text, text, h⟩

/-- A response in two records. -/
def framedResponse : List Record :=
  [framedRecord 10 (ascii "HTTP/1.1 2") (by decide),
    framedRecord 8 (ascii "04 N\r\n\r\n") (by decide)]

namespace SessionImplUV

/-- A session that has finished the handshake with `https://a`. -/
def secured : SessionImplUV ResponseParser.parser framedSsl :=
  { (doInit ResponseParser.parser framedSsl 0 0).setUrl (Url.ofText (ascii "https://a") 0) with
    responseHandler := some id
    phase := .reading }

private theorem secured_reading : Reading FramedState secured [] [] framedResponse where
  phase := rfl
  https := by decide +kernel
  ssl := by
    refine ⟨rfl, List.nil_prefix, fun r hr => ?_⟩
    rcases List.mem_cons.mp hr with rfl | hr
    · exact ⟨10, by decide, rfl⟩
    · rw [List.mem_singleton.mp hr]
      exact ⟨8, by decide, rfl⟩
  accepts := fun ds hds => ResponseParser.accepts_of_isPrefix (q := ResponseParser.fresh) hds
    (by decide +kernel)

/-- Each record arrives in a read of its own. -/
theorem decrypted_iff_inTime_sample :
    ∃ tr t, exec step (readSteps (framedResponse.map Record.ciphertext) ++ [.onRead (-4095) []])
        secured = some (tr, t) ∧
      parsedBytes tr = ascii "HTTP/1.1 204 N\r\n\r\n" := by
  obtain ⟨tr, t, hrun, _, hiff⟩ := @decrypted_iff_inTime ResponseParser.parser framedSsl
    FramedState framedSsl_follows secured framedResponse secured_reading
    (framedResponse.map Record.ciphertext) (by decide) rfl (-4095) (by decide) []
  refine ⟨tr, t, hrun, hiff.mpr ?_⟩
  exact ⟨[], 11, [], [9], rfl, by decide, by decide, [], 9, [], [], rfl, by decide, by decide,
    trivial⟩

/-- Both records arrive in one read, and the second is never decrypted. -/
theorem second_record_lost :
    ∃ (reads : List Bytes) (tr : List Output)
      (t : SessionImplUV ResponseParser.parser framedSsl),
      framedSsl.Follows FramedState ∧ Reading FramedState secured [] [] framedResponse ∧
      (∀ data ∈ reads, data ≠ []) ∧ reads.flatten = ciphertexts framedResponse ∧
      exec step (readSteps reads ++ [.onRead (-4095) []]) secured = some (tr, t) ∧
      t.phase = .closed ∧ parsedBytes tr = ascii "HTTP/1.1 2" ∧
      parsedBytes tr ≠ plaintexts framedResponse :=
  ⟨[ciphertexts framedResponse], _, _, framedSsl_follows, secured_reading, by decide, rfl, rfl, rfl,
    by decide +kernel, by decide +kernel⟩

end SessionImplUV

end CppImprovement.Http

import CppImprovement.Net.Http.HostCheck

/-!
# The certificate callback

`VerifyCertCallback` wraps `X509_verify_cert`: a peer is accepted when the chain was
verified and the certificate names the host. `ValidateHostname` walks the subject
alternative names and falls back to the common name when OpenSSL gives no list of
them. OpenSSL is a parameter: the result of `X509_verify_cert` and what the
certificate holds.
-/

namespace CppImprovement.Http

/-- `HostnameValidationResult`. -/
inductive HostnameValidationResult
  | matchFound
  | matchNotFound
  | noSANPresent
  | malformedCertificate
  | error
  deriving DecidableEq, Repr

/-- The kinds of a `GENERAL_NAME`. -/
inductive GeneralNameType
  | otherName
  | email
  | dns
  | x400
  | dirName
  | ediParty
  | uri
  | ipAdd
  | rid
  deriving DecidableEq, Repr

/-- `GENERAL_NAME`. -/
structure GeneralName where
  type : GeneralNameType
  data : Bytes
  deriving DecidableEq, Repr

/-- What the validation reads of a certificate. -/
structure X509 where
  /-- The subject alternative name extensions, each with the names it decodes to. -/
  subjectAltNames : List (Option (List GeneralName))
  /-- The common names of the subject, in their order. -/
  commonNames : List Bytes
  deriving DecidableEq, Repr

/-- `X509_get_ext_d2i` without an index: null unless the extension occurs once and decodes. -/
def X509.getExtD2i (cert : X509) : Option (List GeneralName) :=
  match cert.subjectAltNames with
  | [some names] => some names
  | _ => none

/-- `matches_common_name`. -/
def matchesCommonName (hostname : Bytes) (serverCert : X509) : HostnameValidationResult :=
  match serverCert.commonNames.head? with
  | none => .error
  | some commonName =>
    if commonName.length ≠ (cstr commonName).length then .malformedCertificate
    else if curlCertHostcheck (some commonName) (some hostname) = CURL_HOST_MATCH then .matchFound
    else .matchNotFound

/-- The loop of `matches_subject_alternative_name`. -/
def matchesSanNames (hostname : Bytes) : List GeneralName → HostnameValidationResult
  | [] => .matchNotFound
  | name :: names =>
    if name.type = .dns then
      if name.data.length ≠ (cstr name.data).length then .malformedCertificate
      else if curlCertHostcheck (some name.data) (some hostname) = CURL_HOST_MATCH then .matchFound
      else matchesSanNames hostname names
    else matchesSanNames hostname names

/-- `matches_subject_alternative_name`. -/
def matchesSubjectAlternativeName (hostname : Bytes) (serverCert : X509) :
    HostnameValidationResult :=
  match serverCert.getExtD2i with
  | none => .noSANPresent
  | some names => matchesSanNames hostname names

/-- `ValidateHostname`; `none` is a null pointer. -/
def validateHostname : Option Bytes → Option X509 → HostnameValidationResult
  | some hostname, some serverCert =>
    let result := matchesSubjectAlternativeName hostname serverCert
    if result = .noSANPresent then matchesCommonName hostname serverCert else result
  | _, _ => .error

/-- `VerifyCertCallback`, for the result of `X509_verify_cert` and the current certificate. The
subject of the certificate is logged, so without one there is no result. -/
def verifyCertCallback (ignoreCert : Bool) (okSoFar : Int) (serverCert : Option X509)
    (host : Option Bytes) : Option Nat :=
  if ignoreCert then some 1
  else
    let res := if okSoFar ≠ 0 then validateHostname host serverCert else .error
    serverCert.map fun _ => if res = .matchFound then 1 else 0

/-! ## What a certificate presents -/

/-- A name of a certificate that is the name of the host. -/
structure Names (host name : Bytes) : Prop where
  whole : (0 : UInt8) ∉ name
  check : curlCertHostcheck (some name) (some host) = 1

/-- Some alternative name of the certificate is the name of the host. -/
def X509.HasDnsName (cert : X509) (host : Bytes) : Prop :=
  ∃ names, some names ∈ cert.subjectAltNames ∧ ∃ n ∈ names, n.type = .dns ∧ Names host n.data

/-- The certificate has no alternative names, and a common name that is the name of the host. -/
def X509.HasCommonName (cert : X509) (host : Bytes) : Prop :=
  cert.subjectAltNames = [] ∧ ∃ n ∈ cert.commonNames, Names host n

/-- A list of alternative names in which the name of the host stands before every name with an
embedded NUL. -/
def Finds (host : Bytes) (names : List GeneralName) : Prop :=
  ∃ before n after, names = before ++ n :: after ∧ n.type = .dns ∧ Names host n.data ∧
    ∀ m ∈ before, m.type = .dns → (0 : UInt8) ∉ m.data

/-- The first common name is the name of the host. -/
def X509.FirstCommonName (cert : X509) (host : Bytes) : Prop :=
  ∃ n, cert.commonNames.head? = some n ∧ Names host n

/-- What the certificate presents to the walk is the name of the host. -/
def X509.Presents (cert : X509) (host : Bytes) : Prop :=
  (∃ names, cert.getExtD2i = some names ∧ Finds host names) ∨
    (cert.getExtD2i = none ∧ cert.FirstCommonName host)

/-! ## What the callback accepts -/

/-- The comparison of the two lengths finds every embedded NUL. -/
theorem length_cstr {b : Bytes} : b.length = (cstr b).length ↔ (0 : UInt8) ∉ b := by
  constructor
  · intro h hm
    have hself : cstr b = b := (List.takeWhile_prefix _).eq_of_length h.symm
    rw [cstr, List.takeWhile_eq_self_iff] at hself
    exact absurd (hself 0 hm) (by decide)
  · intro h
    rw [cstr_eq_self h]

/-- One name is compared as the source does, and found exactly when it names the host. -/
theorem names_iff {host name : Bytes} :
    Names host name ↔ name.length = (cstr name).length ∧
      curlCertHostcheck (some name) (some host) = CURL_HOST_MATCH := by
  rw [length_cstr]
  exact ⟨fun h => ⟨h.whole, h.check⟩, fun h => ⟨h.1, h.2⟩⟩

private theorem finds_cons {host : Bytes} {n : GeneralName} {names : List GeneralName} :
    Finds host (n :: names) ↔ (n.type = .dns ∧ Names host n.data) ∨
      ((n.type = .dns → (0 : UInt8) ∉ n.data) ∧ Finds host names) := by
  constructor
  · rintro ⟨before, m, after, heq, htype, hname, hbefore⟩
    cases before with
    | nil =>
      cases heq
      exact Or.inl ⟨htype, hname⟩
    | cons x before =>
      cases heq
      exact Or.inr ⟨hbefore n List.mem_cons_self, before, m, after, rfl, htype, hname,
        fun k hk => hbefore k (List.mem_cons_of_mem n hk)⟩
  · rintro (⟨htype, hname⟩ | ⟨hn, before, m, after, rfl, htype, hname, hbefore⟩)
    · exact ⟨[], n, names, rfl, htype, hname, fun _ hk => absurd hk List.not_mem_nil⟩
    · exact ⟨n :: before, m, after, rfl, htype, hname, List.forall_mem_cons.mpr ⟨hn, hbefore⟩⟩

/-- The walk over the alternative names. -/
theorem matchesSanNames_iff {host : Bytes} {names : List GeneralName} :
    matchesSanNames host names = .matchFound ↔ Finds host names := by
  induction names with
  | nil =>
    refine ⟨fun h => (nomatch h), ?_⟩
    rintro ⟨before, n, after, heq, -⟩
    exact absurd heq.symm (by simp)
  | cons n names ih =>
    rw [matchesSanNames, finds_cons, names_iff]
    by_cases htype : n.type = .dns
    · rw [if_pos htype]
      by_cases hlen : n.data.length = (cstr n.data).length
      · rw [if_neg (not_not_intro hlen)]
        have hwhole := length_cstr.mp hlen
        by_cases hcheck : curlCertHostcheck (some n.data) (some host) = CURL_HOST_MATCH
        · rw [if_pos hcheck]
          exact iff_of_true rfl (Or.inl ⟨htype, hlen, hcheck⟩)
        · rw [if_neg hcheck, ih]
          exact ⟨fun h => Or.inr ⟨fun _ => hwhole, h⟩,
            fun h => h.elim (fun h => absurd h.2.2 hcheck) And.right⟩
      · rw [if_pos hlen]
        refine iff_of_false (fun h => nomatch h) ?_
        rintro (h | h)
        · exact hlen h.2.1
        · exact hlen (length_cstr.mpr (h.1 htype))
    · rw [if_neg htype, ih]
      exact ⟨fun h => Or.inr ⟨fun ht => absurd ht htype, h⟩,
        fun h => h.elim (fun h => absurd h.1 htype) And.right⟩

private theorem matchesSanNames_ne {host : Bytes} {names : List GeneralName} :
    matchesSanNames host names ≠ .noSANPresent := by
  fun_induction matchesSanNames host names <;> simp_all

private theorem matchesCommonName_iff {host : Bytes} {cert : X509} :
    matchesCommonName host cert = .matchFound ↔ cert.FirstCommonName host := by
  rw [matchesCommonName, X509.FirstCommonName]
  cases cert.commonNames.head? with
  | none => simp
  | some n =>
    simp only [Option.some.injEq, exists_eq_left', names_iff]
    by_cases hlen : n.length = (cstr n).length
    · rw [if_neg (not_not_intro hlen), and_iff_right hlen]
      split
      case isTrue h => exact iff_of_true rfl h
      case isFalse h => exact iff_of_false (fun h => nomatch h) h
    · rw [if_pos hlen]
      exact iff_of_false (fun h => nomatch h) fun h => hlen h.1

/-- `ValidateHostname` finds exactly what the certificate presents. -/
theorem validateHostname_iff {host : Bytes} {cert : X509} :
    validateHostname (some host) (some cert) = .matchFound ↔ cert.Presents host := by
  rw [validateHostname, matchesSubjectAlternativeName, X509.Presents]
  cases hext : cert.getExtD2i with
  | none => simp [matchesCommonName_iff]
  | some names => simp [matchesSanNames_ne, matchesSanNames_iff]

/-- The callback accepts when `X509_verify_cert` did not return zero and the certificate presents
the name of the host. -/
theorem verifyCertCallback_eq_one {host : Bytes} {cert : X509} {okSoFar : Int} :
    verifyCertCallback false okSoFar (some cert) (some host) = some 1 ↔
      okSoFar ≠ 0 ∧ cert.Presents host := by
  rw [verifyCertCallback, if_neg (by decide), ← validateHostname_iff]
  by_cases hz : okSoFar = 0
  · simp [hz]
  · simp only [ne_eq, hz, not_false_eq_true, if_true, true_and, Option.map_some,
      Option.some.injEq]
    split <;> simp_all

/-- A list that OpenSSL decodes is the extension of the certificate. -/
theorem X509.mem_of_getExtD2i {cert : X509} {names : List GeneralName}
    (h : cert.getExtD2i = some names) : some names ∈ cert.subjectAltNames := by
  rw [X509.getExtD2i] at h
  split at h
  case h_1 heq =>
    rw [heq]
    cases h
    exact List.mem_singleton_self _
  case h_2 => cases h

/-- The callback accepts a peer only when the chain was verified and the certificate identifies
the host. -/
def SoundAcceptance (okSoFar : Int) (cert : X509) (host : Bytes) : Prop :=
  verifyCertCallback false okSoFar (some cert) (some host) = some 1 →
    okSoFar = 1 ∧ (cert.HasDnsName host ∨ cert.HasCommonName host)

/-- The condition of sound acceptance: no name is presented when the verification of the chain
ended in an error, and an extension that OpenSSL gives no list for is not replaced by the common
name. -/
structure Guarded (okSoFar : Int) (cert : X509) (host : Bytes) : Prop where
  chain : okSoFar < 0 → ¬ cert.Presents host
  extension : okSoFar = 1 → cert.subjectAltNames ≠ [] → cert.getExtD2i = none →
    cert.FirstCommonName host → cert.HasDnsName host

/-- With a verified chain, what is presented identifies the host unless the common name stands in
for an extension. -/
theorem X509.Presents.identifies {cert : X509} {host : Bytes} (h : cert.Presents host)
    (hext : cert.subjectAltNames ≠ [] → cert.getExtD2i = none → cert.FirstCommonName host →
      cert.HasDnsName host) : cert.HasDnsName host ∨ cert.HasCommonName host := by
  rcases h with ⟨names, hnames, before, n, after, rfl, htype, hname, -⟩ | ⟨hnone, hfirst⟩
  · exact Or.inl ⟨_, X509.mem_of_getExtD2i hnames, n, by simp, htype, hname⟩
  · by_cases hnil : cert.subjectAltNames = []
    · obtain ⟨n, hn, hname⟩ := hfirst
      exact Or.inr ⟨hnil, n, List.mem_of_mem_head? hn, hname⟩
    · exact Or.inl (hext hnil hnone hfirst)

/-- Acceptance is sound exactly under the condition, for every result that OpenSSL documents. -/
theorem soundAcceptance_iff (okSoFar : Int) (hok : okSoFar ≤ 1) (cert : X509) (host : Bytes) :
    SoundAcceptance okSoFar cert host ↔ Guarded okSoFar cert host := by
  rw [SoundAcceptance, verifyCertCallback_eq_one]
  constructor
  · intro h
    refine ⟨fun hneg hp => ?_, fun hone hne hnone hfirst => ?_⟩
    · have hres := (h ⟨by omega, hp⟩).1
      omega
    · have hp : cert.Presents host := Or.inr ⟨hnone, hfirst⟩
      rcases (h ⟨by omega, hp⟩).2 with hdns | hcn
      · exact hdns
      · exact absurd hcn.1 hne
  · rintro hg ⟨hz, hp⟩
    have hone : okSoFar = 1 := by
      by_contra hne
      exact hg.chain (by omega) hp
    exact ⟨hone, hp.identifies (hg.extension hone)⟩

/-- A certificate for one DNS name. -/
def X509.single (name : Bytes) : X509 :=
  { subjectAltNames := [some [⟨.dns, name⟩]], commonNames := [] }

/-- A verified certificate for the host is accepted, and soundly so. -/
theorem soundAcceptance_single :
    SoundAcceptance 1 (X509.single (ascii "example.com")) (ascii "example.com") ∧
      verifyCertCallback false 1 (some (X509.single (ascii "example.com")))
        (some (ascii "example.com")) = some 1 :=
  ⟨(soundAcceptance_iff 1 (by decide) _ _).mpr
      ⟨fun h => absurd h (by decide), fun _ _ h => (nomatch h)⟩,
    by decide +kernel⟩

/-- A certificate whose chain could not be verified is accepted. -/
theorem unverified_accepted :
    ¬ ∀ okSoFar ≤ 1, ∀ cert host, SoundAcceptance okSoFar cert host := by
  intro h
  have hacc : verifyCertCallback false (-1) (some (X509.single (ascii "example.com")))
      (some (ascii "example.com")) = some 1 := by decide +kernel
  exact absurd (h (-1) (by decide) _ _ hacc).1 (by decide)

end CppImprovement.Http

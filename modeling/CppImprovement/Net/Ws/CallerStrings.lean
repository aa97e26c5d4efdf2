import CppImprovement.Net.Ws.Outgoing

/-!
# The strings of the caller

`DoSendMsg` takes a constant string, casts the constness away, and masks the characters where
they lie before it queues them. The strings are modelled as objects with contents; a sequence of
sends names the objects it sends, an object any number of times. The objects keep their contents,
and the frames carry them, exactly when every key is zero on the characters it masks.
-/

namespace CppImprovement.Ws

/-! ## Sending string objects -/

/-- The contents of the string objects. -/
abbrev Strings := Nat → Bytes

/-- `DoSendMsg` of one object after the other, with what the objects hold afterwards. -/
def sendStrings (env : Env) : List Nat → Strings → M Strings
  | [], strings => pure strings
  | i :: is, strings => do
    let r ← doSendMsg env (strings i)
    sendStrings env is (Function.update strings i r.2)

/-- The sends leave every object as it was, and write one frame for each send, which carries the
contents of its object. -/
def SendsKeepStrings (env : Env) (s : Session) (strings : Strings) (sends : List Nat) : Prop :=
  ∃ strings' s', sendStrings env sends strings s = .ok strings' s' ∧ strings' = strings ∧
    ∃ fs : List WireFrame, s'.output = s.output ++ fs.flatMap WireFrame.encode ∧
      fs.map WireFrame.payload = sends.map strings

/-- The keys drawn from a position on are zero on the characters they mask. -/
def ZeroKeys (env : Env) : Nat → Strings → List Nat → Prop
  | _, _, [] => True
  | pos, strings, i :: is =>
    (∀ k, k < (strings i).length → (env.key pos).byte k = 0) ∧ ZeroKeys env (pos + 4) strings is

/-! ## Masks -/

/-- A mask changes nothing exactly when it is zero on the text. -/
theorem maskPayload_eq_self_iff {key : Mask} {msg : Bytes} :
    maskPayload key msg = msg ↔ ∀ k, k < msg.length → key.byte k = 0 := by
  rw [maskPayload, List.ext_getElem_iff]
  simp only [List.length_mapIdx, true_and, List.getElem_mapIdx]
  constructor
  · intro h k hk
    have hx := (h k hk hk).trans UInt8.xor_zero.symm
    exact (UInt8.xor_right_inj _).mp hx
  · intro h k hk _
    rw [h k hk, UInt8.xor_zero]

namespace WireFrame

/-- Frames with payloads of one length are told apart by their bytes, whatever follows. -/
theorem payload_eq_of_encode {f g : WireFrame} {x y : Bytes}
    (h : f.encode ++ x = g.encode ++ y) (hlen : f.payload.length = g.payload.length) :
    f.payload = g.payload ∧ x = y := by
  have hdata : f.data.length = g.data.length := by
    simpa [payload, unmaskPayload, length_maskPayload] using hlen
  obtain ⟨hfg, hxy⟩ := List.append_inj h (by
    simp [encode, length_wireHeader, hdata])
  refine ⟨?_, hxy⟩
  obtain ⟨hhead, hdata'⟩ := List.append_inj hfg (by simp [length_wireHeader, LenForm.extension])
  simp only [wireHeader, LenForm.extension, List.nil_append, Option.map_some, Option.getD_some,
    List.cons.injEq] at hhead
  have hkey : f.key = g.key := congrArg Mask.ofBytes hhead.2.2
  rw [payload, payload, hkey, hdata']

end WireFrame

/-! ## A run of sends -/

/-- What the objects hold after the sends. -/
def stringsAfter (env : Env) : Nat → List Nat → Strings → Strings
  | _, [], strings => strings
  | pos, i :: is, strings =>
    stringsAfter env (pos + 4) is
      (Function.update strings i (maskPayload (env.key pos) (strings i)))

/-- The frames of the sends. -/
def sentFrames (env : Env) : Nat → List Nat → Strings → List WireFrame
  | _, [], _ => []
  | pos, i :: is, strings =>
    wholeFrame (env.key pos) .text (strings i) ::
      sentFrames env (pos + 4) is
        (Function.update strings i (maskPayload (env.key pos) (strings i)))

private theorem length_update_maskPayload (key : Mask) (strings : Strings) (i j : Nat) :
    (Function.update strings i (maskPayload key (strings i)) j).length = (strings j).length := by
  by_cases h : j = i
  · rw [h, Function.update_self, length_maskPayload]
  · rw [Function.update_of_ne h]

/-- A session on which sends go out whole. -/
structure Session.SendsWhole (s : Session) : Prop where
  bev : s.bev ≠ none
  state : s.cl.state = .connected
  sendState : s.tx.sendState = .none
  maxFrameSize : s.tx.maxFrameSize = 0

variable {env : Env} {s : Session} {strings : Strings} {sends : List Nat}

/-- The sends go out, each masked where it lies. -/
theorem sendStrings_ok (hf : env.NoFault) (h : s.SendsWhole)
    (hlen : ∀ i ∈ sends, (strings i).length ≤ 125) :
    ∃ s', sendStrings env sends strings s =
        .ok (stringsAfter env s.io.randPos sends strings) s' ∧
      s'.output =
        s.output ++ (sentFrames env s.io.randPos sends strings).flatMap WireFrame.encode := by
  induction sends generalizing s strings with
  | nil => exact ⟨s, rfl, (List.append_nil _).symm⟩
  | cons i is ih =>
    have hi := hlen i List.mem_cons_self
    have hsend := doSendMsg_ok hf h.bev h.sendState h.maxFrameSize h.state
      (hi.trans (by decide : 125 ≤ WS_MAX_PAYLOAD_LEN))
    have hnext : (s.sentFrame env .text (strings i)).SendsWhole :=
      ⟨h.bev, h.state, h.sendState, h.maxFrameSize⟩
    obtain ⟨s', hs', hout⟩ := @ih (s.sentFrame env .text (strings i))
      (Function.update strings i (maskPayload (env.key s.io.randPos) (strings i))) hnext
      fun j hj => (length_update_maskPayload _ _ _ _).trans_le (hlen j (List.mem_cons_of_mem _ hj))
    refine ⟨s', ?_, ?_⟩
    · rw [sendStrings, bind_eq_of_ok hsend]
      exact hs'
    · rw [hout, sentFrames, List.flatMap_cons, ← List.append_assoc]
      congr 1
      rw [Session.output, Session.sentFrame, List.flatMap_append, bytes_sentEvents env _ _ hi,
        Session.output]

/-- The frames of a run are the only ones with payloads of their lengths that make its output. -/
theorem payloads_sentFrames {pos : Nat} {fs : List WireFrame}
    (h : fs.flatMap WireFrame.encode = (sentFrames env pos sends strings).flatMap WireFrame.encode)
    {contents : Strings} (hlen : ∀ j, (contents j).length = (strings j).length)
    (hpay : fs.map WireFrame.payload = sends.map contents) :
    (sentFrames env pos sends strings).map WireFrame.payload = sends.map contents := by
  induction sends generalizing fs strings pos with
  | nil => rfl
  | cons i is ih =>
    obtain ⟨f, fs, rfl⟩ : ∃ f fs', fs = f :: fs' := by
      cases fs with
      | nil => cases hpay
      | cons f fs => exact ⟨f, fs, rfl⟩
    simp only [List.map_cons, List.cons.injEq] at hpay
    rw [sentFrames, List.flatMap_cons, List.flatMap_cons] at h
    have hf : f.payload.length =
        (wholeFrame (env.key pos) .text (strings i)).payload.length := by
      rw [hpay.1, payload_wholeFrame, hlen i]
    obtain ⟨hfirst, hrest⟩ := WireFrame.payload_eq_of_encode h hf
    rw [sentFrames, List.map_cons, List.map_cons, ← hfirst, hpay.1]
    congr 1
    exact ih hrest (fun j => (hlen j).trans (length_update_maskPayload _ _ _ _).symm) hpay.2

/-- Objects that hold at the end, and are sent with, some contents held them all along, and the
keys left them alone. -/
theorem stringsAfter_eq_iff {pos : Nat} {contents : Strings} :
    (stringsAfter env pos sends strings = contents ∧
        (sentFrames env pos sends strings).map WireFrame.payload = sends.map contents) ↔
      strings = contents ∧ ZeroKeys env pos contents sends := by
  induction sends generalizing strings pos with
  | nil => simp [stringsAfter, sentFrames, ZeroKeys]
  | cons i is ih =>
    rw [stringsAfter, sentFrames, List.map_cons, List.map_cons, payload_wholeFrame, List.cons.injEq,
      and_left_comm, ih, ZeroKeys]
    constructor
    · rintro ⟨hi, hupdate, hzero⟩
      have hmask : maskPayload (env.key pos) (strings i) = contents i := by
        rw [← hupdate, Function.update_self]
      have hsame : strings = contents := by
        rw [← Function.update_eq_self i strings, hi, ← hmask]
        exact hupdate
      rw [hi] at hmask
      exact ⟨hsame, maskPayload_eq_self_iff.mp hmask, hzero⟩
    · rintro ⟨rfl, hkey, hzero⟩
      rw [maskPayload_eq_self_iff.mpr hkey, Function.update_eq_self]
      exact ⟨rfl, rfl, hzero⟩

/-- Sends keep the strings of the caller exactly when every key is zero on the characters it
masks. -/
theorem sendsKeepStrings_iff (hf : env.NoFault) (h : s.SendsWhole)
    (hlen : ∀ i ∈ sends, (strings i).length ≤ 125) :
    SendsKeepStrings env s strings sends ↔ ZeroKeys env s.io.randPos strings sends := by
  obtain ⟨s', hs', hout⟩ := sendStrings_ok hf h hlen
  have hiff := @stringsAfter_eq_iff env strings sends s.io.randPos strings
  constructor
  · rintro ⟨strings', u, hu, hkept, fs, hfs, hpay⟩
    cases hs'.symm.trans hu
    rw [hout, List.append_cancel_left_eq] at hfs
    exact (hiff.mp ⟨hkept, payloads_sentFrames hfs.symm (fun _ => rfl) hpay⟩).2
  · intro hzero
    obtain ⟨hkept, hpay⟩ := hiff.mpr ⟨rfl, hzero⟩
    exact ⟨_, s', hs', hkept, _, hout, hpay⟩

/-- A connected session that sends messages whole. -/
def sendsWhole : Session := { bev := some {}, cl.state := .connected }

private theorem sendsWhole_sendsWhole : sendsWhole.SendsWhole :=
  ⟨by decide, rfl, rfl, rfl⟩

/-- With keys of zero one object can be sent twice. -/
theorem sendsKeepStrings_zero :
    SendsKeepStrings {} sendsWhole (fun _ => ascii "hi") [0, 0] :=
  (sendsKeepStrings_iff (fun _ => rfl) sendsWhole_sendsWhole (by decide)).mpr
    ⟨by decide, by decide, trivial⟩

/-- With a key of ones the string is no longer what it was. -/
theorem string_not_kept :
    ¬ ∀ (env : Env) (s : Session) (strings : Strings) (sends : List Nat), env.NoFault →
      s.SendsWhole → (∀ i ∈ sends, (strings i).length ≤ 125) →
      SendsKeepStrings env s strings sends := by
  intro hall
  obtain ⟨strings', s', hs', hkept, -⟩ := hall { rand := fun _ => 1 } sendsWhole
    (fun _ => ascii "A") [0] (fun _ => rfl) sendsWhole_sendsWhole (by decide)
  obtain ⟨u, hu, -⟩ := @sendStrings_ok { rand := fun _ => 1 } sendsWhole (fun _ => ascii "A") [0]
    (fun _ => rfl) sendsWhole_sendsWhole (by decide)
  cases hu.symm.trans hs'
  exact absurd (congrFun hkept 0) (by decide)

end CppImprovement.Ws

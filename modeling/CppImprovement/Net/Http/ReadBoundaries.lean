import CppImprovement.Net.Http.ResponseParser
import Mathlib.Data.List.Forall2
import Mathlib.Data.List.Perm.Subperm
import Mathlib.Algebra.BigOperators.Group.List.Basic

/-!
# Responses and the boundaries of reads

The parser reports an element in pieces when a read ends inside it. The body is put together
from its pieces. Of a status text or a header name only the last piece is kept, and a second
piece of a header value is stored under the empty name that moving from `field_` has left. The
response is the one of a single read when no status text, name or value is cut, and, for
responses with one status line and different header names, only then.
-/

namespace CppImprovement.Http

/-- Some callbacks that report one element in pieces. -/
inductive Pieces : List Callback → Callback → Prop
  | status (code : Nat) (ps : List Bytes) (h : ps ≠ []) :
    Pieces (ps.map (.status code)) (.status code ps.flatten)
  | headerField (ps : List Bytes) (h : ps ≠ []) :
    Pieces (ps.map .headerField) (.headerField ps.flatten)
  | headerValue (ps : List Bytes) (h : ps ≠ []) :
    Pieces (ps.map .headerValue) (.headerValue ps.flatten)
  | body (ps : List Bytes) (h : ps ≠ []) : Pieces (ps.map .body) (.body ps.flatten)
  | headersComplete : Pieces [.headersComplete] .headersComplete
  | messageComplete : Pieces [.messageComplete] .messageComplete

/-- The last piece of a status text or a header name is all of it, and a header value comes in
one piece. -/
def Intact (group : List Callback) (c : Callback) : Prop :=
  match c with
  | .status _ _ | .headerField _ => group.getLast? = some c
  | .headerValue _ => group = [c]
  | _ => True

/-- The text of a status line. -/
def Callback.statusText : Callback → Option Bytes
  | .status _ text => some text
  | _ => none

/-- Whether a callback reports a header name or value. -/
def Callback.isHeader : Callback → Bool
  | .headerField _ | .headerValue _ => true
  | _ => false

/-- The header lines that a list of callbacks reports, each name with its value. -/
inductive Lines : List Callback → List (Bytes × Bytes) → Prop
  | nil : Lines [] []
  | other {c : Callback} {cbs : List Callback} {lines : List (Bytes × Bytes)}
    (h : c.isHeader = false) : Lines cbs lines → Lines (c :: cbs) lines
  | line (name value : Bytes) {cbs : List Callback} {lines : List (Bytes × Bytes)} :
    Lines cbs lines →
      Lines (.headerField name :: .headerValue value :: cbs) ((name, value) :: lines)

/-- The parts of a response that come from the server. -/
def Response.Same (r r' : Response) : Prop :=
  r.status = r'.status ∧ r.statusCode = r'.statusCode ∧ r.header = r'.header ∧ r.body = r'.body

namespace SessionImplUV

variable {P : HttpParser} {T : Ssl}

/-! ## Uncut elements -/

/-- Callbacks that overwrite one another leave what the last of them leaves. -/
theorem collect_overwrite {f : Bytes → Callback}
    (hf : ∀ (s : SessionImplUV P T) a b, (s.onCallback (f a)).onCallback (f b) = s.onCallback (f b))
    (s : SessionImplUV P T) (ps : List Bytes) (p : Bytes) :
    s.collect ((ps ++ [p]).map f) = s.onCallback (f p) := by
  induction ps generalizing s with
  | nil => rfl
  | cons q ps ih => exact (ih (s.onCallback (f q))).trans (hf s q p)

/-- The pieces of a body are put together. -/
theorem collect_body (s : SessionImplUV P T) (ps : List Bytes) :
    s.collect (ps.map .body) = s.onRecvBody ps.flatten := by
  induction ps generalizing s with
  | nil => simp [collect, onRecvBody]
  | cons p ps ih =>
    have h := ih (s.onRecvBody p)
    rw [List.map_cons, collect, List.foldl_cons, List.flatten_cons]
    refine h.trans ?_
    simp only [onRecvBody, List.append_assoc]

/-- The pieces of an element that is not cut do what the element does. -/
theorem collect_pieces {group : List Callback} {c : Callback} (h : Pieces group c)
    (hi : Intact group c) (s : SessionImplUV P T) : s.collect group = s.onCallback c := by
  cases h with
  | status code ps hps =>
    obtain ⟨qs, q, rfl⟩ := List.eq_nil_or_concat' ps |>.resolve_left hps
    have hq : q = (qs ++ [q]).flatten := by
      simpa only [Intact, List.map_append, List.map_cons, List.map_nil, List.getLast?_append,
        List.getLast?_singleton, Option.some_or, Option.some.injEq, Callback.status.injEq,
        true_and] using hi
    rw [← hq]
    exact collect_overwrite (fun _ _ _ => rfl) s qs q
  | headerField ps hps =>
    obtain ⟨qs, q, rfl⟩ := List.eq_nil_or_concat' ps |>.resolve_left hps
    have hq : q = (qs ++ [q]).flatten := by
      simpa only [Intact, List.map_append, List.map_cons, List.map_nil, List.getLast?_append,
        List.getLast?_singleton, Option.some_or, Option.some.injEq,
        Callback.headerField.injEq] using hi
    rw [← hq]
    exact collect_overwrite (fun _ _ _ => rfl) s qs q
  | headerValue ps hps =>
    have hg : ps.map Callback.headerValue = [.headerValue ps.flatten] := hi
    rw [hg]
    rfl
  | body ps hps => exact collect_body s ps
  | headersComplete => rfl
  | messageComplete => rfl

/-- Reads that cut no status text, name or value collect the response of a single read. -/
theorem collect_of_intact {groups : List (List Callback)} {whole : List Callback}
    (h : List.Forall₂ Pieces groups whole) (hi : List.Forall₂ Intact groups whole)
    (s : SessionImplUV P T) : s.collect groups.flatten = s.collect whole := by
  induction h generalizing s with
  | nil => rfl
  | cons hp _ ih =>
    obtain ⟨hc, hrest⟩ := List.forall₂_cons.mp hi
    rw [List.flatten_cons, collect_append, collect_pieces hp hc]
    exact ih hrest _

/-! ## The status text -/

/-- The status of the response is the last status text that was reported. -/
theorem collect_status (s : SessionImplUV P T) (cbs : List Callback) :
    (s.collect cbs).response.status =
      (cbs.filterMap Callback.statusText).getLast?.getD s.response.status := by
  induction cbs generalizing s with
  | nil => rfl
  | cons c cbs ih =>
    refine (ih (s.onCallback c)).trans ?_
    cases c with
    | status code text =>
      rw [List.filterMap_cons_some (f := Callback.statusText) rfl, List.getLast?_cons]
      rfl
    | _ => rfl

end SessionImplUV

/-- A group of pieces reports status texts only for a status line. -/
theorem Pieces.statusTexts {group : List Callback} {c : Callback} (h : Pieces group c)
    (hc : c.statusText = none) : group.filterMap Callback.statusText = [] ∧
      (c.isHeader = false → Intact group c) := by
  cases h with
  | status => cases hc
  | headerField ps hps =>
    refine ⟨?_, fun h => nomatch h⟩
    rw [List.filterMap_map]
    exact List.filterMap_eq_nil_iff.mpr fun _ _ => rfl
  | headerValue ps hps =>
    refine ⟨?_, fun h => nomatch h⟩
    rw [List.filterMap_map]
    exact List.filterMap_eq_nil_iff.mpr fun _ _ => rfl
  | body ps hps =>
    refine ⟨?_, fun _ => trivial⟩
    rw [List.filterMap_map]
    exact List.filterMap_eq_nil_iff.mpr fun _ _ => rfl
  | headersComplete => exact ⟨rfl, fun _ => trivial⟩
  | messageComplete => exact ⟨rfl, fun _ => trivial⟩

/-- Without a status line, no status text is reported. -/
theorem no_statusTexts {groups : List (List Callback)} {whole : List Callback}
    (h : List.Forall₂ Pieces groups whole) (hs : whole.filterMap Callback.statusText = []) :
    groups.flatten.filterMap Callback.statusText = [] ∧
      List.Forall₂ (fun g c => c.isHeader = false → Intact g c) groups whole := by
  induction h with
  | nil => exact ⟨rfl, .nil⟩
  | @cons g c groups whole hp _ ih =>
    have hc : c.statusText = none := by
      cases hc : c.statusText with
      | none => rfl
      | some t =>
        rw [List.filterMap_cons_some hc] at hs
        cases hs
    rw [List.filterMap_cons_none hc] at hs
    obtain ⟨hrest, hintact⟩ := ih hs
    obtain ⟨hg, hi⟩ := hp.statusTexts hc
    refine ⟨?_, .cons hi hintact⟩
    rw [List.flatten_cons, List.filterMap_append, hg, hrest]
    rfl

/-- With one status line, the last status text is that line only if it is not cut. -/
theorem statusTexts {groups : List (List Callback)} {whole : List Callback} {text : Bytes}
    (h : List.Forall₂ Pieces groups whole) (hs : whole.filterMap Callback.statusText = [text])
    {old : Bytes}
    (hlast : (groups.flatten.filterMap Callback.statusText).getLast?.getD old = text) :
    List.Forall₂ (fun g c => c.isHeader = false → Intact g c) groups whole := by
  induction h with
  | nil => cases hs
  | @cons g c groups whole hp hrel ih =>
    rw [List.flatten_cons, List.filterMap_append] at hlast
    cases hc : c.statusText with
    | none =>
      rw [List.filterMap_cons_none hc] at hs
      obtain ⟨hg, hi⟩ := hp.statusTexts hc
      rw [hg] at hlast
      exact .cons hi (ih hs hlast)
    | some t =>
      rw [List.filterMap_cons_some hc, List.cons.injEq] at hs
      obtain ⟨rfl, hs⟩ := hs
      obtain ⟨hrest, hintact⟩ := no_statusTexts hrel hs
      refine .cons (fun _ => ?_) hintact
      rw [hrest, List.append_nil] at hlast
      cases hp with
      | status code ps hps =>
        cases hc
        rw [List.filterMap_map] at hlast
        have htext : Callback.statusText ∘ Callback.status code = some := rfl
        rw [htext, List.filterMap_some, List.getLast?_eq_some_getLast hps] at hlast
        rw [Intact, List.getLast?_map, List.getLast?_eq_some_getLast hps]
        exact congrArg (fun text => some (Callback.status code text)) hlast
      | _ => cases hc

/-! ## The header map -/

/-- The header map after the pieces of a value, when `field_` holds `name`. -/
def assignPieces (m : Header) (name : Bytes) : List Bytes → Header
  | [] => m
  | v :: vs => assignPieces (m.insertOrAssign name v) (if m.contains name then name else []) vs

/-- The header map after some lines, each the last piece of a name with the pieces of a value. -/
def assignLines (m : Header) (ls : List (Bytes × List Bytes)) : Header :=
  ls.foldl (fun m l => assignPieces m l.1 l.2) m

private theorem assignPieces_mono {m : Header} {name : Bytes} {vs : List Bytes} {b : List Nat}
    (h : b ∈ m.ranks) : b ∈ (assignPieces m name vs).ranks := by
  induction vs generalizing m name with
  | nil => exact h
  | cons v vs ih => exact ih (OrderedMap.mem_ranks_insertOrAssign.mpr (Or.inr h))

private theorem assignLines_mono {m : Header} {ls : List (Bytes × List Bytes)} {b : List Nat}
    (h : b ∈ m.ranks) : b ∈ (assignLines m ls).ranks := by
  induction ls generalizing m with
  | nil => exact h
  | cons l ls ih => exact ih (assignPieces_mono h)

/-- The pieces of a value go to a name that has an entry. -/
theorem ranks_assignPieces_of_mem {m : Header} {name : Bytes} {vs : List Bytes} {b : List Nat}
    (h : caseInsensitive name ∈ m.ranks) : b ∈ (assignPieces m name vs).ranks ↔ b ∈ m.ranks := by
  induction vs generalizing m with
  | nil => rfl
  | cons v vs ih =>
    rw [assignPieces, if_pos (OrderedMap.contains_iff.mpr h),
      ih (OrderedMap.mem_ranks_insertOrAssign.mpr (Or.inr h)),
      OrderedMap.mem_ranks_insertOrAssign]
    constructor
    · rintro (rfl | hb)
      · exact h
      · exact hb
    · exact Or.inr

/-- The names after the pieces of a value, when no entry has the empty name: a value in several
pieces belongs to a name that was there before. -/
theorem ranks_assignPieces {m : Header} {name : Bytes} {vs : List Bytes} (hvs : vs ≠ [])
    (hnil : [] ∉ (assignPieces m name vs).ranks) :
    (∀ b, b ∈ (assignPieces m name vs).ranks ↔ b = caseInsensitive name ∨ b ∈ m.ranks) ∧
      (vs.length ≠ 1 → caseInsensitive name ∈ m.ranks) := by
  by_cases hmem : caseInsensitive name ∈ m.ranks
  · refine ⟨fun b => ?_, fun _ => hmem⟩
    rw [ranks_assignPieces_of_mem hmem]
    constructor
    · exact Or.inr
    · rintro (rfl | hb)
      · exact hmem
      · exact hb
  · have hcontains : m.contains name = false :=
      Bool.eq_false_iff.mpr fun h => hmem (OrderedMap.contains_iff.mp h)
    cases vs with
    | nil => exact absurd rfl hvs
    | cons v vs =>
      cases vs with
      | nil =>
        refine ⟨fun b => ?_, fun h => absurd rfl h⟩
        exact OrderedMap.mem_ranks_insertOrAssign
      | cons w vs =>
        refine absurd ?_ hnil
        rw [assignPieces, hcontains, assignPieces]
        exact assignPieces_mono (OrderedMap.mem_ranks_insertOrAssign.mpr (Or.inl rfl))

/-- The names after some lines, when no entry has the empty name. -/
theorem ranks_assignLines {m : Header} {ls : List (Bytes × List Bytes)}
    (hne : ∀ l ∈ ls, l.2 ≠ []) (hnil : [] ∉ (assignLines m ls).ranks) (b : List Nat) :
    b ∈ (assignLines m ls).ranks ↔
      b ∈ m.ranks ∨ b ∈ ls.map fun l => caseInsensitive l.1 := by
  induction ls generalizing m with
  | nil => simp [assignLines]
  | cons l ls ih =>
    have hl : [] ∉ (assignPieces m l.1 l.2).ranks :=
      fun h => hnil (assignLines_mono (m := assignPieces m l.1 l.2) h)
    obtain ⟨hranks, _⟩ := ranks_assignPieces (hne l List.mem_cons_self) hl
    rw [assignLines, List.foldl_cons]
    refine (ih (fun l hl => hne l (List.mem_cons_of_mem _ hl)) hnil).trans ?_
    rw [hranks, List.map_cons, List.mem_cons]
    constructor
    · rintro ((h | h) | h)
      · exact Or.inr (Or.inl h)
      · exact Or.inl h
      · exact Or.inr (Or.inr h)
    · rintro (h | h | h)
      · exact Or.inl (Or.inr h)
      · exact Or.inl (Or.inl h)
      · exact Or.inr h

/-- With different names, no value is cut. -/
theorem values_whole {m : Header} {ls : List (Bytes × List Bytes)} (hne : ∀ l ∈ ls, l.2 ≠ [])
    (hnil : [] ∉ (assignLines m ls).ranks)
    (hnodup : (ls.map fun l => caseInsensitive l.1).Nodup)
    (hnew : ∀ l ∈ ls, caseInsensitive l.1 ∉ m.ranks) : ∀ l ∈ ls, l.2.length = 1 := by
  induction ls generalizing m with
  | nil => exact fun l hl => absurd hl List.not_mem_nil
  | cons l ls ih =>
    have hl : [] ∉ (assignPieces m l.1 l.2).ranks :=
      fun h => hnil (assignLines_mono (m := assignPieces m l.1 l.2) h)
    obtain ⟨hranks, hcut⟩ := ranks_assignPieces (hne l List.mem_cons_self) hl
    obtain ⟨hhead, htail⟩ := List.nodup_cons.mp hnodup
    have hrest := ih (fun l hl => hne l (List.mem_cons_of_mem _ hl)) hnil htail (by
      intro l' hl' hmem
      rcases (hranks _).mp hmem with h | h
      · exact hhead (List.mem_map.mpr ⟨l', hl', h⟩)
      · exact hnew l' (List.mem_cons_of_mem _ hl') h)
    intro l' hl'
    rcases List.mem_cons.mp hl' with rfl | hl'
    · by_contra h
      exact hnew l' List.mem_cons_self (hcut h)
    · exact hrest l' hl'

/-- The names after some lines that are not cut. -/
theorem ranks_assignLines_whole {m : Header} (lines : List (Bytes × Bytes)) (b : List Nat) :
    b ∈ (assignLines m (lines.map fun l => (l.1, [l.2]))).ranks ↔
      b ∈ m.ranks ∨ b ∈ lines.map fun l => caseInsensitive l.1 := by
  induction lines generalizing m with
  | nil => simp [assignLines]
  | cons l lines ih =>
    rw [List.map_cons, assignLines, List.foldl_cons]
    refine (ih (m := m.insertOrAssign l.1 l.2)).trans ?_
    rw [OrderedMap.mem_ranks_insertOrAssign, List.map_cons, List.mem_cons, or_assoc, or_left_comm]

/-- Numbers that are at most those of a list with the same sum are those numbers. -/
theorem eq_of_sum_eq {α β : Type} {R : α → β → Prop} {f : α → Nat} {g : β → Nat} {as : List α}
    {bs : List β} (h : List.Forall₂ R as bs) (hle : ∀ a b, R a b → f a ≤ g b)
    (hsum : (as.map f).sum = (bs.map g).sum) :
    List.Forall₂ (fun a b => R a b ∧ f a = g b) as bs := by
  have hsum_le : ∀ {as bs}, List.Forall₂ R as bs → (as.map f).sum ≤ (bs.map g).sum := by
    intro as bs h
    induction h with
    | nil => exact le_rfl
    | cons hab _ ih =>
      rw [List.map_cons, List.map_cons, List.sum_cons, List.sum_cons]
      exact Nat.add_le_add (hle _ _ hab) ih
  induction h with
  | nil => exact .nil
  | @cons a b as bs hab hrest ih =>
    rw [List.map_cons, List.map_cons, List.sum_cons, List.sum_cons] at hsum
    have h₁ := hle a b hab
    have h₂ := hsum_le hrest
    exact .cons ⟨hab, by omega⟩ (ih (by omega))

/-- A line as it is collected: the last piece of its name, and the pieces of its value. -/
def CutLine (l : Bytes × List Bytes) (line : Bytes × Bytes) : Prop :=
  l.1 <:+ line.1 ∧ l.2 ≠ [] ∧ l.2.flatten = line.2

/-- The header map of a single read, from different names that are not empty, is the header map
of cut lines only if no name and no value is cut. -/
theorem lines_whole {ls : List (Bytes × List Bytes)} {lines : List (Bytes × Bytes)}
    (h : List.Forall₂ CutLine ls lines) (hnames : ∀ l ∈ lines, l.1 ≠ [])
    (hnodup : (lines.map fun l => caseInsensitive l.1).Nodup)
    (heq : assignLines OrderedMap.empty ls =
      assignLines OrderedMap.empty (lines.map fun l => (l.1, [l.2]))) :
    List.Forall₂ (fun l line => l = (line.1, [line.2])) ls lines := by
  have hne : ∀ l ∈ ls, l.2 ≠ [] :=
    ((List.forall₂_and_left _ _).mp (h.imp fun _ _ hc => ⟨hc.2.1, hc⟩)).1
  have hwhole : ∀ b, b ∈ (assignLines OrderedMap.empty ls).ranks ↔
      b ∈ lines.map fun l => caseInsensitive l.1 := by
    intro b
    rw [heq, ranks_assignLines_whole, OrderedMap.ranks_empty]
    simp only [List.not_mem_nil, false_or]
  have hnil : [] ∉ (assignLines OrderedMap.empty ls).ranks := by
    intro hmem
    obtain ⟨line, hline, hrank⟩ := List.mem_map.mp ((hwhole _).mp hmem)
    exact hnames line hline (List.map_eq_nil_iff.mp hrank)
  have hranks : ∀ b, b ∈ (assignLines OrderedMap.empty ls).ranks ↔
      b ∈ ls.map fun l => caseInsensitive l.1 := by
    intro b
    rw [ranks_assignLines hne hnil, OrderedMap.ranks_empty]
    simp only [List.not_mem_nil, false_or]
  have hperm : (lines.map fun l => caseInsensitive l.1).Perm
      (ls.map fun l => caseInsensitive l.1) := by
    refine (List.subperm_of_subset hnodup ?_).perm_of_length_le ?_
    · intro b hb
      exact (hranks b).mp ((hwhole b).mpr hb)
    · rw [List.length_map, List.length_map, h.length_eq]
  have hvalues := values_whole hne hnil (hperm.nodup_iff.mp hnodup) (by simp)
  have hsum : (ls.map fun l => l.1.length).sum = (lines.map fun l => l.1.length).sum := by
    have hlen := (hperm.map List.length).sum_eq
    simpa only [List.map_map, Function.comp_def, caseInsensitive, List.length_map] using hlen.symm
  have hnames := eq_of_sum_eq h (fun _ _ hc => hc.1.length_le) hsum
  refine ((List.forall₂_and_left _ _).mpr ⟨hvalues, hnames⟩).imp ?_
  rintro ⟨name, vs⟩ ⟨name', value⟩ ⟨hlen, ⟨hsuffix, _, hflat⟩, heqlen⟩
  obtain ⟨v, rfl⟩ := List.length_eq_one_iff.mp hlen
  have hn : name = name' := hsuffix.eq_of_length heqlen
  have hv : v = value := by simpa using hflat
  rw [hn, hv]

/-- The group of an element that is no header name or value reports none. -/
theorem Pieces.not_isHeader {group : List Callback} {c : Callback} (h : Pieces group c)
    (hc : c.isHeader = false) : ∀ c' ∈ group, c'.isHeader = false := by
  intro c' hc'
  cases h with
  | status code ps hps =>
    obtain ⟨p, _, rfl⟩ := List.mem_map.mp hc'
    rfl
  | headerField => cases hc
  | headerValue => cases hc
  | body ps hps =>
    obtain ⟨p, _, rfl⟩ := List.mem_map.mp hc'
    rfl
  | headersComplete => exact List.mem_singleton.mp hc' ▸ rfl
  | messageComplete => exact List.mem_singleton.mp hc' ▸ rfl

namespace SessionImplUV

variable {P : HttpParser} {T : Ssl}

private theorem onCallback_header {c : Callback} (hc : c.isHeader = false) (s : SessionImplUV P T) :
    (s.onCallback c).request.header = s.request.header := by
  cases c with
  | headerField => cases hc
  | headerValue => cases hc
  | _ => rfl

private theorem collect_values (s : SessionImplUV P T) (vs : List Bytes) :
    (s.collect (vs.map .headerValue)).request.header =
      assignPieces s.request.header s.field vs := by
  induction vs generalizing s with
  | nil => rfl
  | cons v vs ih => exact ih (s.onHttpParserHeaderValue v)

/-- The header map of lines that are not cut. -/
theorem collect_lines {whole : List Callback} {lines : List (Bytes × Bytes)}
    (h : Lines whole lines) (s : SessionImplUV P T) :
    (s.collect whole).request.header =
      assignLines s.request.header (lines.map fun l => (l.1, [l.2])) := by
  induction h generalizing s with
  | nil => rfl
  | other hc _ ih =>
    rw [← onCallback_header hc s]
    exact ih (s.onCallback _)
  | line name value _ ih =>
    exact ih ((s.onHttpParserHeaderField name).onHttpParserHeaderValue value)

/-- The header map of lines in pieces. -/
theorem collect_cutLines {groups : List (List Callback)} {whole : List Callback}
    {lines : List (Bytes × Bytes)} (hl : Lines whole lines)
    (h : List.Forall₂ Pieces groups whole) :
    ∃ ls, List.Forall₂ CutLine ls lines ∧
      (∀ s : SessionImplUV P T,
        (s.collect groups.flatten).request.header = assignLines s.request.header ls) ∧
      (List.Forall₂ (fun l line => l = (line.1, [line.2])) ls lines →
        List.Forall₂ (fun g c => c.isHeader = true → Intact g c) groups whole) := by
  induction hl generalizing groups with
  | nil =>
    cases h
    exact ⟨[], .nil, fun _ => rfl, fun _ => .nil⟩
  | @other c cbs lines hc _ ih =>
    obtain ⟨g, gs, hp, hrest, rfl⟩ := List.forall₂_cons_right_iff.mp h
    obtain ⟨ls, hcut, hheader, hintact⟩ := ih hrest
    refine ⟨ls, hcut, fun s => ?_, fun hw => .cons (fun h => ?_) (hintact hw)⟩
    · rw [List.flatten_cons, collect_append, hheader]
      exact congrArg (assignLines · ls)
        (collect_keeps_of_mem (fun s => s.request.header)
          (fun c' hc' => onCallback_header (hp.not_isHeader hc c' hc')) s)
    · rw [hc] at h
      cases h
  | @line name value cbs lines _ ih =>
    obtain ⟨g₁, gs₁, hp₁, hrest₁, rfl⟩ := List.forall₂_cons_right_iff.mp h
    obtain ⟨g₂, gs, hp₂, hrest, rfl⟩ := List.forall₂_cons_right_iff.mp hrest₁
    obtain ⟨ls, hcut, hheader, hintact⟩ := ih hrest
    cases hp₁ with
    | headerField ns hns =>
      cases hp₂ with
      | headerValue vs hvs =>
        obtain ⟨qs, q, rfl⟩ := List.eq_nil_or_concat' ns |>.resolve_left hns
        have hflat : (qs ++ [q]).flatten = qs.flatten ++ q := by simp
        refine ⟨(q, vs) :: ls, .cons ⟨⟨qs.flatten, hflat.symm⟩, hvs, rfl⟩ hcut, fun s => ?_, ?_⟩
        · rw [List.flatten_cons, List.flatten_cons, collect_append, collect_append, hheader,
            collect_overwrite (fun _ _ _ => rfl) s qs q, collect_values]
          rfl
        · intro hw
          obtain ⟨hline, hw⟩ := List.forall₂_cons.mp hw
          obtain ⟨hq, hv⟩ := Prod.mk.inj hline
          refine .cons (fun _ => ?_) (.cons (fun _ => ?_) (hintact hw))
          · rw [Intact, List.map_append, List.getLast?_append]
            exact congrArg (fun text => some (Callback.headerField text)) hq
          · rw [Intact]
            exact congrArg (List.map Callback.headerValue) hv

/-! ## Responses in one read and in several -/

/-- One status line, and header names that are not empty and differ from one another. -/
structure Distinct (whole : List Callback) : Prop where
  status : ∃ text, whole.filterMap Callback.statusText = [text]
  lines : ∃ lines, Lines whole lines ∧ (∀ l ∈ lines, l.1 ≠ []) ∧
    (lines.map fun l => caseInsensitive l.1).Nodup

/-- Of a response with one status line and different header names, every cut through the status
text, a name or a value shows. -/
theorem intact_of_same {s : SessionImplUV P T} {groups : List (List Callback)}
    {whole : List Callback} (h : List.Forall₂ Pieces groups whole) (hd : Distinct whole)
    (hheader : s.request.header = OrderedMap.empty)
    (hsame : (s.collect groups.flatten).reply.Same (s.collect whole).reply) :
    List.Forall₂ Intact groups whole := by
  obtain ⟨text, htext⟩ := hd.status
  obtain ⟨lines, hlines, hnames, hnodup⟩ := hd.lines
  obtain ⟨hstatus, _, hmap, _⟩ := hsame
  obtain ⟨ls, hcut, hgroups, hintact⟩ := collect_cutLines (P := P) (T := T) hlines h
  change (s.collect groups.flatten).response.status = (s.collect whole).response.status at hstatus
  change (s.collect groups.flatten).request.header = (s.collect whole).request.header at hmap
  rw [collect_status, collect_status, htext] at hstatus
  rw [hgroups s, collect_lines hlines, hheader] at hmap
  refine (statusTexts h htext hstatus).mp ?_ (hintact (lines_whole hcut hnames hnodup hmap))
  intro g c hother hline
  cases hc : c.isHeader with
  | false => exact hother hc
  | true => exact hline hc

/-- The response that is handed over after the data of a response in several reads is the one
of a single read if no read ends inside a status text, a header name or a header value. With
one status line and different header names it is the same only then. -/
theorem response_same_iff_uncut {s : SessionImplUV P T} {handler : Response → Response}
    (hphase : s.phase = .reading) (hhttp : s.request.url.isHttps = false)
    (hhandler : s.responseHandler = some handler) {reads : List Bytes} (hreads : reads ≠ [])
    (hne : ∀ data ∈ reads, data ≠ []) (hone : P.Accepts s.parser [reads.flatten])
    (hacc : P.Accepts s.parser reads) {groups : List (List Callback)}
    (hgroups : groups.flatten = P.callbacks s.parser reads)
    (hpieces : List.Forall₂ Pieces groups (P.callbacks s.parser [reads.flatten]))
    {nread : Int} (hend : nread ≤ 0) (buf : Bytes) :
    ∃ tr t tr₁ t₁ r r₁,
      exec step (readSteps reads ++ [.onRead nread buf]) s = some (tr, t) ∧
      exec step (readSteps [reads.flatten] ++ [.onRead nread buf]) s = some (tr₁, t₁) ∧
      calls tr = [(handler, r)] ∧ calls tr₁ = [(handler, r₁)] ∧
      (List.Forall₂ Intact groups (P.callbacks s.parser [reads.flatten]) → r.Same r₁) ∧
      (Distinct (P.callbacks s.parser [reads.flatten]) →
        s.request.header = OrderedMap.empty → r.Same r₁ →
        List.Forall₂ Intact groups (P.callbacks s.parser [reads.flatten])) := by
  obtain ⟨data, hdata⟩ := List.exists_mem_of_ne_nil reads hreads
  have hone_ne : ∀ d ∈ [reads.flatten], d ≠ [] := by
    intro d hd h
    rw [List.mem_singleton.mp hd, List.flatten_eq_nil_iff] at h
    exact hne data hdata (h data hdata)
  obtain ⟨tr, t, hrun, hresp, _⟩ := exec_connection hphase hhttp hhandler hne hacc hend buf
  obtain ⟨tr₁, t₁, hrun₁, hresp₁, _⟩ :=
    exec_connection hphase hhttp hhandler hone_ne hone hend buf
  refine ⟨tr, t, tr₁, t₁, _, _, hrun, hrun₁, hresp, hresp₁, ?_, ?_⟩
  · intro hi
    rw [← hgroups, collect_of_intact hpieces hi s]
    exact ⟨rfl, rfl, rfl, rfl⟩
  · intro hd hheader hsame
    rw [← hgroups] at hsame
    exact intact_of_same hpieces hd hheader hsame

/-- A session that has connected to `http://a`. -/
def connected : SessionImplUV ResponseParser.parser Ssl.unused :=
  { (doInit ResponseParser.parser Ssl.unused 0 0).setUrl (Url.ofText (ascii "http://a") 0) with
    responseHandler := some id
    phase := .reading }

/-- A response whose reads end after its status line and inside its body. -/
theorem response_same_iff_uncut_sample :
    ∃ tr t tr₁ t₁ r r₁,
      exec step (readSteps [ascii "HTTP/1.1 200 OK\r\n", ascii "Content-Length: 2\r\n\r\nh",
        ascii "i"] ++ [.onRead (-4095) []]) connected = some (tr, t) ∧
      exec step (readSteps [ascii "HTTP/1.1 200 OK\r\nContent-Length: 2\r\n\r\nhi"] ++
        [.onRead (-4095) []]) connected = some (tr₁, t₁) ∧
      calls tr = [(id, r)] ∧ calls tr₁ = [(id, r₁)] ∧ r.Same r₁ := by
  obtain ⟨tr, t, tr₁, t₁, r, r₁, hrun, hrun₁, hr, hr₁, hsame, _⟩ :=
    @response_same_iff_uncut ResponseParser.parser Ssl.unused connected id rfl (by decide +kernel)
      rfl [ascii "HTTP/1.1 200 OK\r\n", ascii "Content-Length: 2\r\n\r\nh", ascii "i"]
      (by decide +kernel) (by decide +kernel) (by decide +kernel) (by decide +kernel)
      [[.status 200 (ascii "OK")], [.headerField (ascii "Content-Length")],
        [.headerValue (ascii "2")], [.headersComplete], [.body (ascii "h"), .body (ascii "i")],
        [.messageComplete]]
      (by decide +kernel)
      (.cons (.status 200 [ascii "OK"] (by decide)) <|
        .cons (.headerField [ascii "Content-Length"] (by decide)) <|
        .cons (.headerValue [ascii "2"] (by decide)) <| .cons .headersComplete <|
        .cons (.body [ascii "h", ascii "i"] (by decide)) <| .cons .messageComplete .nil)
      (-4095) (by decide) []
  exact ⟨tr, t, tr₁, t₁, r, r₁, hrun, hrun₁, hr, hr₁,
    hsame (.cons rfl <| .cons rfl <| .cons rfl <| .cons trivial <| .cons trivial <|
      .cons trivial .nil)⟩

/-- A read that ends inside the name `Host` makes it the name `st`. -/
theorem header_name_cut_by_read :
    ∃ (reads : List Bytes) (groups : List (List Callback)) (tr tr₁ : List Output)
      (t t₁ : SessionImplUV ResponseParser.parser Ssl.unused) (r r₁ : Response),
      (∀ data ∈ reads, data ≠ []) ∧
      ResponseParser.parser.Accepts connected.parser [reads.flatten] ∧
      ResponseParser.parser.Accepts connected.parser reads ∧
      groups.flatten = ResponseParser.parser.callbacks connected.parser reads ∧
      List.Forall₂ Pieces groups
        (ResponseParser.parser.callbacks connected.parser [reads.flatten]) ∧
      exec step (readSteps reads ++ [.onRead (-4095) []]) connected = some (tr, t) ∧
      exec step (readSteps [reads.flatten] ++ [.onRead (-4095) []]) connected = some (tr₁, t₁) ∧
      calls tr = [(id, r)] ∧ calls tr₁ = [(id, r₁)] ∧ ¬ r.Same r₁ := by
  obtain ⟨tr, t, hrun, hresp, _⟩ := @exec_connection ResponseParser.parser Ssl.unused connected
    [ascii "HTTP/1.1 204 No\r\nHo", ascii "st: a\r\n\r\n"] (-4095) id rfl (by decide +kernel) rfl
    (by decide +kernel) (by decide +kernel) (by decide) []
  obtain ⟨tr₁, t₁, hrun₁, hresp₁, _⟩ := @exec_connection ResponseParser.parser Ssl.unused connected
    [ascii "HTTP/1.1 204 No\r\nHost: a\r\n\r\n"] (-4095) id rfl (by decide +kernel) rfl
    (by decide +kernel) (by decide +kernel) (by decide) []
  refine ⟨[ascii "HTTP/1.1 204 No\r\nHo", ascii "st: a\r\n\r\n"],
    [[.status 204 (ascii "No")], [.headerField (ascii "Ho"), .headerField (ascii "st")],
      [.headerValue (ascii "a")], [.headersComplete], [.messageComplete]],
    tr, tr₁, t, t₁, _, _, by decide +kernel, by decide +kernel, by decide +kernel,
    by decide +kernel, ?_, hrun, hrun₁, hresp, hresp₁, ?_⟩
  · exact .cons (.status 204 [ascii "No"] (by decide)) <|
      .cons (.headerField [ascii "Ho", ascii "st"] (by decide)) <|
      .cons (.headerValue [ascii "a"] (by decide)) <| .cons .headersComplete <|
      .cons .messageComplete .nil
  · rintro ⟨_, _, hheader, _⟩
    have hentries := congrArg OrderedMap.entries hheader
    revert hentries
    decide +kernel

end SessionImplUV

end CppImprovement.Http

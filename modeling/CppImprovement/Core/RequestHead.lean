import CppImprovement.Core.Lines
import CppImprovement.Core.Text
import Mathlib.Data.List.DropRight

/-!
# Request heads

The head of an HTTP/1.1 request is a request line, header lines and one empty line, each ended by
a carriage return and a line feed. `readHead` reads a head off a text: the request line is cut at
its first and its last blank, a header line at its first colon, and blanks around a field value
are not part of it. Reading a text that has been written as a head gives the head back, and the
text without the empty line is not a head.
-/

namespace CppImprovement

/-! ## Cuts -/

section cuts

variable {α : Type} [DecidableEq α] {x : α} {l r : List α}

/-- The parts of a list before and after the first `x` in it. -/
def cutAt (x : α) : List α → Option (List α × List α)
  | [] => none
  | a :: l => if a = x then some ([], l) else (cutAt x l).map fun p => (a :: p.1, p.2)

/-- The parts of a list before and after the last `x` in it. -/
def cutAtLast (x : α) (l : List α) : Option (List α × List α) :=
  (cutAt x l.reverse).map fun p => (p.2.reverse, p.1.reverse)

private theorem cutAt_append (h : x ∉ l) : cutAt x (l ++ x :: r) = some (l, r) := by
  induction l with
  | nil => rw [List.nil_append, cutAt, if_pos rfl]
  | cons a l ih =>
    rw [List.mem_cons, not_or] at h
    rw [List.cons_append, cutAt, if_neg (Ne.symm h.1), ih h.2, Option.map_some]

private theorem cutAtLast_append (h : x ∉ r) : cutAtLast x (l ++ x :: r) = some (l, r) := by
  have hrev : (l ++ x :: r).reverse = r.reverse ++ x :: l.reverse := by simp
  rw [cutAtLast, hrev, cutAt_append (by simpa using h), Option.map_some, List.reverse_reverse,
    List.reverse_reverse]

end cuts

/-! ## Lines of a head -/

/-- The line end. -/
def CRLF : Bytes := [CR, LF]

/-- The lines up to the first empty one and what follows it, the begin of the first line being
given. -/
def headLines : Bytes → Bytes → Option (List Bytes × Bytes)
  | _, [] => none
  | _, [_] => none
  | line, a :: b :: rest =>
    if a = CR ∧ b = LF then
      if line = [] then some ([], rest)
      else (headLines [] rest).map fun p => (line :: p.1, p.2)
    else headLines (line ++ [a]) (b :: rest)

section lines

variable {line l r : Bytes} {ls : List Bytes}

private theorem headLines_end : headLines [] (CRLF ++ r) = some ([], r) := by
  change headLines [] (CR :: LF :: r) = _
  rw [headLines, if_pos ⟨rfl, rfl⟩, if_pos rfl]

private theorem headLines_line (h : CR ∉ l) (hne : line ++ l ≠ []) :
    headLines line (l ++ CRLF ++ r) =
      (headLines [] r).map fun p => ((line ++ l) :: p.1, p.2) := by
  induction l generalizing line with
  | nil =>
    rw [List.append_nil] at hne
    change headLines line (CR :: LF :: r) = _
    rw [headLines, if_pos ⟨rfl, rfl⟩, if_neg hne, List.append_nil]
  | cons a l ih =>
    rw [List.mem_cons, not_or] at h
    have hstep : headLines line (a :: (l ++ CRLF ++ r)) =
        headLines (line ++ [a]) (l ++ CRLF ++ r) := by
      cases l with
      | nil =>
        change headLines line (a :: CR :: LF :: r) = headLines (line ++ [a]) (CR :: LF :: r)
        rw [headLines, if_neg fun hc => h.1 hc.1.symm]
      | cons b l =>
        change headLines line (a :: b :: (l ++ CRLF ++ r)) =
          headLines (line ++ [a]) (b :: (l ++ CRLF ++ r))
        rw [headLines, if_neg fun hc => h.1 hc.1.symm]
    rw [List.cons_append, List.cons_append, hstep, ih h.2 (by simp), List.append_assoc]
    rfl

/-- The text of lines, each with its line end. -/
def linesText (ls : List Bytes) : Bytes := ls.flatMap (· ++ CRLF)

/-- Lines that are not empty are read before what follows them. -/
theorem headLines_append (h : ∀ l ∈ ls, CR ∉ l ∧ l ≠ []) :
    headLines [] (linesText ls ++ r) = (headLines [] r).map fun p => (ls ++ p.1, p.2) := by
  induction ls with
  | nil => cases hr : headLines [] r <;> simp [linesText, hr]
  | cons l ls ih =>
    rw [List.forall_mem_cons] at h
    have hsplit : linesText (l :: ls) ++ r = l ++ CRLF ++ (linesText ls ++ r) := by
      rw [linesText, List.flatMap_cons, ← linesText, List.append_assoc (l ++ CRLF)]
    rw [hsplit, headLines_line h.1.1 (show [] ++ l ≠ [] from h.1.2), ih h.2, Option.map_map]
    rfl

end lines

/-- A text in one line, without a terminator in it. -/
structure OneLine (b : Bytes) : Prop where
  noCR : CR ∉ b
  noLF : LF ∉ b
  noNul : (0 : UInt8) ∉ b

/-- Texts on one line make a text on one line. -/
theorem OneLine.append {a b : Bytes} (ha : OneLine a) (hb : OneLine b) : OneLine (a ++ b) where
  noCR hmem := (List.mem_append.mp hmem).elim ha.noCR hb.noCR
  noLF hmem := (List.mem_append.mp hmem).elim ha.noLF hb.noLF
  noNul hmem := (List.mem_append.mp hmem).elim ha.noNul hb.noNul

/-! ## Heads -/

/-- Blank. -/
def SP : UInt8 := 32

/-- Tabulator. -/
def HTAB : UInt8 := 9

/-- The colon behind a field name. -/
def HCOLON : UInt8 := 58

/-- A text without the blanks and tabulators around it. -/
def trimBlanks (b : Bytes) : Bytes :=
  (b.dropWhile fun c => c = SP ∨ c = HTAB).rdropWhile fun c => c = SP ∨ c = HTAB

private theorem trimBlanks_cons (b : Bytes) : trimBlanks (SP :: b) = trimBlanks b := by
  rw [trimBlanks, List.dropWhile_cons_of_pos (by decide), trimBlanks]

/-- Without blanks there is nothing to trim. -/
theorem trimBlanks_eq_self {b : Bytes} (h : ∀ c ∈ b, c ≠ SP ∧ c ≠ HTAB) : trimBlanks b = b := by
  have hleft : b.dropWhile (fun c => decide (c = SP ∨ c = HTAB)) = b := by
    cases b with
    | nil => rfl
    | cons c b =>
      have hc := h c List.mem_cons_self
      exact List.dropWhile_cons_of_neg (by simp [hc])
  rw [trimBlanks, hleft, List.rdropWhile_eq_self_iff]
  intro hne
  have hlast := h _ (List.getLast_mem hne)
  simp [hlast]

/-- The head of a request. -/
structure RequestHead where
  method : Bytes
  target : Bytes
  version : Bytes
  fields : List (Bytes × Bytes)
  deriving DecidableEq, Repr

/-- The parts of a request line. -/
def readRequestLine (line : Bytes) : Option (Bytes × Bytes × Bytes) :=
  (cutAt SP line).bind fun p => (cutAtLast SP p.2).map fun q => (p.1, q.1, q.2)

/-- The name and the value of a header line. -/
def readField (line : Bytes) : Option (Bytes × Bytes) :=
  (cutAt HCOLON line).map fun p => (p.1, trimBlanks p.2)

/-- The head that some lines make up. -/
def headOfLines : List Bytes → Option RequestHead
  | [] => none
  | line :: lines =>
    (readRequestLine line).bind fun p =>
      (lines.mapM readField).map fun fields => ⟨p.1, p.2.1, p.2.2, fields⟩

/-- Read a head off a text, with what follows it. -/
def readHead (text : Bytes) : Option (RequestHead × Bytes) :=
  (headLines [] text).bind fun p => (headOfLines p.1).map fun head => (head, p.2)

namespace RequestHead

/-- The request line. -/
def requestLine (h : RequestHead) : Bytes := h.method ++ SP :: (h.target ++ SP :: h.version)

/-- The line of a field. -/
def fieldLine (f : Bytes × Bytes) : Bytes := f.1 ++ HCOLON :: SP :: f.2

/-- The text of a head, up to its empty line. -/
def text (h : RequestHead) : Bytes := linesText (h.requestLine :: h.fields.map fieldLine)

/-- The head without the blanks around its values. -/
def trimmed (h : RequestHead) : RequestHead :=
  { h with fields := h.fields.map fun f => (f.1, trimBlanks f.2) }

/-- The values of the fields with a name, in whatever case it is written. -/
def values (h : RequestHead) (name : Bytes) : List Bytes :=
  (h.fields.filter fun f => f.1.map toLower = name.map toLower).map Prod.snd

/-- No part of the head can be taken for a line end or for the end of the part. -/
structure Writable (h : RequestHead) : Prop where
  method : SP ∉ h.method ∧ CR ∉ h.method
  target : CR ∉ h.target
  version : SP ∉ h.version ∧ CR ∉ h.version
  fields : ∀ f ∈ h.fields, HCOLON ∉ f.1 ∧ CR ∉ f.1 ∧ CR ∉ f.2

/-- A field can be written when its name and value can. -/
theorem writable_field {name value : Bytes} (hname : HCOLON ∉ name ∧ CR ∉ name)
    (hvalue : CR ∉ value) :
    HCOLON ∉ (name, value).1 ∧ CR ∉ (name, value).1 ∧ CR ∉ (name, value).2 :=
  ⟨hname.1, hname.2, hvalue⟩

variable {h : RequestHead}

private theorem readRequestLine_requestLine (hw : h.Writable) :
    readRequestLine h.requestLine = some (h.method, h.target, h.version) := by
  rw [readRequestLine, requestLine, cutAt_append hw.method.1, Option.bind_some,
    cutAtLast_append hw.version.1, Option.map_some]

private theorem readField_fieldLine {f : Bytes × Bytes} (hf : HCOLON ∉ f.1) :
    readField (fieldLine f) = some (f.1, trimBlanks f.2) := by
  rw [readField, fieldLine, cutAt_append hf, Option.map_some, trimBlanks_cons]

private theorem mapM_readField {fs : List (Bytes × Bytes)} (hf : ∀ f ∈ fs, HCOLON ∉ f.1) :
    (fs.map fieldLine).mapM readField = some (fs.map fun f => (f.1, trimBlanks f.2)) := by
  induction fs with
  | nil => rfl
  | cons f fs ih =>
    rw [List.forall_mem_cons] at hf
    rw [List.map_cons, List.mapM_cons, readField_fieldLine hf.1, ih hf.2]
    rfl

/-- The lines of a head that can be written hold no line end and are not empty. -/
theorem Writable.lines (hw : h.Writable) :
    ∀ l ∈ h.requestLine :: h.fields.map fieldLine, CR ∉ l ∧ l ≠ [] := by
  have hsp : CR ≠ SP := by decide
  have hcolon : CR ≠ HCOLON := by decide
  refine List.forall_mem_cons.mpr ⟨⟨?_, by simp [requestLine]⟩, ?_⟩
  · simp [requestLine, hw.method.2, hw.target, hw.version.2, hsp]
  · intro l hl
    obtain ⟨f, hf, rfl⟩ := List.mem_map.mp hl
    obtain ⟨-, hname, hvalue⟩ := hw.fields f hf
    exact ⟨by simp [fieldLine, hname, hvalue, hsp, hcolon], by simp [fieldLine]⟩

/-- A head that has been written is read back. -/
theorem readHead_text (hw : h.Writable) (rest : Bytes) :
    readHead (h.text ++ (CRLF ++ rest)) = some (h.trimmed, rest) := by
  rw [readHead, text, headLines_append hw.lines, headLines_end, Option.map_some, Option.bind_some,
    List.append_nil, headOfLines, readRequestLine_requestLine hw, Option.bind_some,
    mapM_readField fun f hf => (hw.fields f hf).1]
  rfl

/-- Without its empty line a head is not read. -/
theorem readHead_unended (hw : h.Writable) : readHead h.text = none := by
  rw [readHead, ← List.append_nil h.text, text, headLines_append hw.lines]
  rfl

end RequestHead

end CppImprovement

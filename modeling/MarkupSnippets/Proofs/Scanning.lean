import MarkupSnippets.Proofs.ByteOrder
import MarkupSnippets.Proofs.Search
import MarkupSnippets.Proofs.Trimming

namespace MarkupSnippets

namespace Placeholder

/-- Whether a placeholder is the next one of a text from an offset on: its opening is the first one,
its closing the first one behind that, and its path is what stands in between, trimmed. -/
structure IsNext (cs : List Char) (bound : Nat) (p : Placeholder) : Prop where
  opens : Text.FirstFrom Piece.opening cs bound p.start
  closes : ∃ close, Text.FirstFrom Piece.closing cs (p.start + 2) close ∧ p.stop = close + 2
  encloses : ∃ path, Text.OccursAt (Piece.reference path).source cs p.start ∧
    p.stop = p.start + Text.byteSize (Piece.reference path).source ∧
    p.path = Text.trim (String.ofList path)

/-- The placeholders of a text from an offset on. -/
inductive Scanned (cs : List Char) : Nat → List Placeholder → Prop where
  | done {bound : Nat} (h : ∀ start close, bound ≤ start → Text.OccursAt Piece.opening cs start →
      start + 2 ≤ close → ¬Text.OccursAt Piece.closing cs close) : Scanned cs bound []
  | next {bound : Nat} {p : Placeholder} {rest : List Placeholder} (h : p.IsNext cs bound)
      (hrest : Scanned cs p.stop rest) : Scanned cs bound (p :: rest)

variable {cs : List Char} {bound : Nat}

theorem IsNext.unique {p q : Placeholder} (hp : p.IsNext cs bound) (hq : q.IsNext cs bound) :
    p = q := by
  have hstart : p.start = q.start := hp.opens.unique hq.opens
  obtain ⟨close, hclose, hpstop⟩ := hp.closes
  obtain ⟨other, hother, hqstop⟩ := hq.closes
  rw [← hstart] at hother
  have hstop : p.stop = q.stop := by rw [hpstop, hqstop, hclose.unique hother]
  obtain ⟨path, hoccurs, hsize, hpath⟩ := hp.encloses
  obtain ⟨path', hoccurs', hsize', hpath'⟩ := hq.encloses
  rw [← hstart] at hoccurs' hsize'
  have hsource := hoccurs.unique hoccurs'
    (Nat.add_left_cancel (hsize.symm.trans (hstop.trans hsize')))
  obtain rfl : path = path' := List.append_cancel_right (List.append_cancel_left hsource)
  cases p
  cases q
  simp_all

theorem Scanned.unique {found others : List Placeholder} (h : Scanned cs bound found)
    (hothers : Scanned cs bound others) : found = others := by
  induction h generalizing others with
  | done hnone =>
    cases hothers with
    | done => rfl
    | next hnext _ =>
      obtain ⟨close, hclose, -⟩ := hnext.closes
      exact absurd hclose.2.1 (hnone _ _ hnext.opens.1 hnext.opens.2.1 hclose.1)
  | next hnext _ ih =>
    cases hothers with
    | done hnone =>
      obtain ⟨close, hclose, -⟩ := hnext.closes
      exact absurd hclose.2.1 (hnone _ _ hnext.opens.1 hnext.opens.2.1 hclose.1)
    | next hother hrest =>
      obtain rfl := hnext.unique hother
      rw [ih hrest]

theorem byteSize_opening : Text.byteSize Piece.opening = 2 := by decide

theorem byteSize_source (path : List Char) :
    Text.byteSize (Piece.reference path).source = Text.byteSize path + 4 := by
  have hclosing : Text.byteSize Piece.closing = 2 := by decide
  rw [Piece.source, Text.byteSize_append, Text.byteSize_append, byteSize_opening, hclosing]
  omega

variable {rest before inner path after : List Char}

theorem append_eq_opening (start : List Char)
    (hopen : Text.splitAt? Piece.opening rest = some (before, inner)) :
    start ++ rest = start ++ before ++ Piece.opening ++ inner := by
  rw [Text.eq_of_splitAt? hopen, List.append_assoc, List.append_assoc]

theorem append_eq_source (start : List Char)
    (hopen : Text.splitAt? Piece.opening rest = some (before, inner))
    (hclose : Text.splitAt? Piece.closing inner = some (path, after)) :
    start ++ rest = start ++ before ++ (Piece.reference path).source ++ after := by
  rw [append_eq_opening start hopen, Text.eq_of_splitAt? hclose]
  simp [Piece.source]

theorem isNext_of_splitAt? (start : List Char)
    (hopen : Text.splitAt? Piece.opening rest = some (before, inner))
    (hclose : Text.splitAt? Piece.closing inner = some (path, after)) :
    IsNext (start ++ rest) (Text.byteSize start) {
      start := Text.byteSize start + Text.byteSize before
      stop := Text.byteSize start + Text.byteSize before +
        Text.byteSize (Piece.reference path).source
      path := Text.trim (String.ofList path) } where
  opens := Text.firstFrom_of_splitAt? start hopen
  closes := by
    have hfirst := Text.firstFrom_of_splitAt? (start ++ before ++ Piece.opening) hclose
    rw [← append_eq_opening start hopen, Text.byteSize_append, Text.byteSize_append,
      byteSize_opening] at hfirst
    exact ⟨_, hfirst, by simp only [byteSize_source]; omega⟩
  encloses := by
    refine ⟨path, ⟨start ++ before, after, ?_, Text.byteSize_append start before⟩, rfl, rfl⟩
    rw [append_eq_source start hopen hclose, List.append_assoc]

theorem scanned_locate (start rest : List Char) :
    Scanned (start ++ rest) (Text.byteSize start)
      (locate (Text.byteSize start) (Piece.pieces rest)) := by
  fun_induction Piece.pieces rest generalizing start with
  | case1 rest hopen =>
    exact .done fun i _ hi hoccurs => absurd hoccurs (Text.not_occursAt_of_splitAt? start hopen hi)
  | case2 rest before inner hopen hclose =>
    -- No opening is closed if the first one is not: the others are behind it.
    refine .done fun i close hi hoccurs hbehind => ?_
    have hfirst := (Text.firstFrom_of_splitAt? start hopen).2.2 i hi hoccurs
    rw [append_eq_opening start hopen]
    refine Text.not_occursAt_of_splitAt? _ hclose ?_
    rw [Text.byteSize_append, Text.byteSize_append, byteSize_opening]
    omega
  | case3 rest before inner hopen path after hclose _ ih =>
    have hrest := ih (start ++ before ++ (Piece.reference path).source)
    rw [← append_eq_source start hopen hclose, Text.byteSize_append, Text.byteSize_append] at hrest
    exact .next (isNext_of_splitAt? start hopen hclose) hrest

theorem IsNext.start_lt_stop {p : Placeholder} (h : p.IsNext cs bound) : p.start < p.stop := by
  obtain ⟨close, hclose, hstop⟩ := h.closes
  have hbehind := hclose.1
  omega

theorem Scanned.le_start {found : List Placeholder} (h : Scanned cs bound found) :
    ∀ p ∈ found, bound ≤ p.start := by
  induction h with
  | done => exact List.forall_mem_nil _
  | next hnext _ ih =>
    refine List.forall_mem_cons.2 ⟨hnext.opens.1, fun q hq => ?_⟩
    exact hnext.opens.1.trans (hnext.start_lt_stop.le.trans (ih q hq))

theorem Scanned.pairwise {found : List Placeholder} (h : Scanned cs bound found) :
    found.Pairwise fun p q => p.stop ≤ q.start := by
  induction h with
  | done => exact .nil
  | next _ hrest ih => exact .cons hrest.le_start ih

theorem Scanned.exists_isNext {found : List Placeholder} (h : Scanned cs bound found) :
    ∀ p ∈ found, ∃ bound, p.IsNext cs bound := by
  induction h with
  | done => exact List.forall_mem_nil _
  | next hnext _ ih => exact List.forall_mem_cons.2 ⟨⟨_, hnext⟩, ih⟩

end Placeholder

namespace Text

theorem utf8_ofList (cs : List Char) :
    utf8 (String.ofList cs) = cs.flatMap String.utf8EncodeChar := by
  rw [utf8_eq_flatMap, String.toList_ofList]

theorem length_flatMap_utf8EncodeChar (cs : List Char) :
    (cs.flatMap String.utf8EncodeChar).length = byteSize cs := by
  induction cs with
  | nil => rfl
  | cons c cs ih =>
    rw [List.flatMap_cons, List.length_append, ih, String.length_utf8EncodeChar, byteSize_cons]

theorem utf8ByteSize_eq (s : String) : s.utf8ByteSize = byteSize s.toList := by
  rw [← length_flatMap_utf8EncodeChar, ← utf8_eq_flatMap]
  rfl

theorem OccursAt.isValid {pattern : List Char} {text : String} {offset : Nat}
    (h : OccursAt pattern text.toList offset) : (⟨offset⟩ : String.Pos.Raw).IsValid text := by
  obtain ⟨before, after, hsplit, rfl⟩ := h
  refine String.Pos.Raw.isValid_iff_exists_append.2
    ⟨String.ofList before, String.ofList (pattern ++ after), ?_, ?_⟩
  · rw [← String.ofList_append, ← hsplit, String.ofList_toList]
  · rw [String.rawEndPos, utf8ByteSize_eq, String.toList_ofList]

end Text

def textAt (data : Data) (path : String) : String :=
  match resolve? data path with
  | some v => v.toText
  | none => ""

theorem Piece.fill_reference (data : Data) (path : List Char) :
    fill data (.reference path) = (textAt data (Text.trim (String.ofList path))).toList := by
  rw [textAt, resolve?_trim, fill]
  cases resolve? data (String.ofList path) <;> rfl

namespace Placeholder

/-- The bytes of a text from an offset on, with other texts in the places of the placeholders. -/
def splice (text : String) (value : Placeholder → String) : Nat → List Placeholder → List UInt8
  | offset, [] => (Text.utf8 text).drop offset
  | offset, p :: rest =>
    ((Text.utf8 text).take p.start).drop offset ++
      (Text.utf8 (value p) ++ splice text value p.stop rest)

theorem drop_utf8_append (start rest : List Char) :
    (Text.utf8 (String.ofList (start ++ rest))).drop (Text.byteSize start) =
      Text.utf8 (String.ofList rest) := by
  rw [Text.utf8_ofList, Text.utf8_ofList, List.flatMap_append,
    List.drop_left' (Text.length_flatMap_utf8EncodeChar start)]

theorem drop_take_utf8_append (start before rest : List Char) :
    ((Text.utf8 (String.ofList (start ++ before ++ rest))).take
        (Text.byteSize start + Text.byteSize before)).drop (Text.byteSize start) =
      Text.utf8 (String.ofList before) := by
  have htake : (Text.utf8 (String.ofList (start ++ before ++ rest))).take
      (Text.byteSize start + Text.byteSize before) =
        Text.utf8 (String.ofList (start ++ before)) := by
    rw [Text.utf8_ofList, Text.utf8_ofList, List.flatMap_append, ← Text.byteSize_append,
      List.take_left' (Text.length_flatMap_utf8EncodeChar (start ++ before))]
  rw [htake, drop_utf8_append]

theorem splice_locate (data : Data) (start rest : List Char) :
    splice (String.ofList (start ++ rest)) (fun p => textAt data p.path) (Text.byteSize start)
        (locate (Text.byteSize start) (Piece.pieces rest)) =
      Text.utf8 (String.ofList ((Piece.pieces rest).flatMap (Piece.fill data))) := by
  fun_induction Piece.pieces rest generalizing start with
  | case1 rest hopen =>
    simpa [locate, splice, Piece.fill] using drop_utf8_append start rest
  | case2 rest before inner hopen hclose =>
    simpa [locate, splice, Piece.fill] using drop_utf8_append start rest
  | case3 rest before inner hopen path after hclose _ ih =>
    have hcut := append_eq_source start hopen hclose
    have hrest := ih (start ++ before ++ (Piece.reference path).source)
    rw [← hcut, Text.byteSize_append, Text.byteSize_append] at hrest
    have hbefore := drop_take_utf8_append start before ((Piece.reference path).source ++ after)
    rw [← List.append_assoc, ← hcut] at hbefore
    simp only [locate, splice, hbefore, hrest, List.flatMap_cons, Piece.fill_reference]
    simp [Piece.fill, Text.utf8_eq_flatMap]

end Placeholder

/-- The placeholders of a text are exactly those between the first opening behind the one before and
the first closing behind that. They lie inside the text, begin and end where characters do and come
one behind the other, and to substitute is to put the texts of the values in their places, byte for
byte. -/
theorem placeholders_exact (text : String) :
    (∀ found, Placeholder.Scanned text.toList 0 found ↔ found = Placeholder.all text) ∧
      (∀ p ∈ Placeholder.all text, p.start < p.stop ∧ p.stop ≤ text.utf8ByteSize ∧
        (⟨p.start⟩ : String.Pos.Raw).IsValid text ∧ (⟨p.stop⟩ : String.Pos.Raw).IsValid text) ∧
      (Placeholder.all text).Pairwise (fun p q => p.stop ≤ q.start) ∧
      ∀ data, Text.utf8 (substitute data text) =
        Placeholder.splice text (fun p => textAt data p.path) 0 (Placeholder.all text) := by
  have hscanned : Placeholder.Scanned text.toList 0 (Placeholder.all text) :=
    Placeholder.scanned_locate [] text.toList
  refine ⟨fun found => ⟨fun h => h.unique hscanned, fun h => h ▸ hscanned⟩, fun p hp => ?_,
    hscanned.pairwise, fun data => ?_⟩
  · obtain ⟨bound, hnext⟩ := hscanned.exists_isNext p hp
    obtain ⟨path, hoccurs, hstop, -⟩ := hnext.encloses
    refine ⟨hnext.start_lt_stop, ?_, hoccurs.isValid, ?_⟩
    · rw [hstop, Text.utf8ByteSize_eq]
      exact hoccurs.add_le
    · rw [hstop]
      exact hoccurs.end.isValid
  · rw [substitute, ← Placeholder.splice_locate data [] text.toList, List.nil_append,
      String.ofList_toList]
    rfl

end MarkupSnippets

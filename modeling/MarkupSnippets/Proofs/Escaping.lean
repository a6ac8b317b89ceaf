import MarkupSnippets.Markup.Document
import MarkupSnippets.Output.Writer

namespace MarkupSnippets

namespace Markup

def entityNames : List String := ["lt", "gt", "amp", "apos", "quot"]

def RefersTo (cs : List Char) (c : Char) : Prop :=
  ∃ name ∈ entityNames, entity? name.toList = some c ∧ cs = '&' :: (name.toList ++ [';'])

instance (cs : List Char) (c : Char) : Decidable (RefersTo cs c) :=
  inferInstanceAs (Decidable (∃ name ∈ entityNames, _))

theorem not_mem_entityName {name : String} (hname : name ∈ entityNames) {d : Char}
    (hd : d ∈ [';', '&', '<', '#', '"']) : d ∉ name.toList := by
  have hall : entityNames.all (fun name =>
      [';', '&', '<', '#', '"'].all fun d => !name.toList.contains d) = true := by
    decide
  simpa using List.all_eq_true.1 (List.all_eq_true.1 hall name hname) d hd

theorem RefersTo.not_mem {cs : List Char} {c d : Char} (h : RefersTo cs c) (hd : d ∈ ['"', '<']) :
    d ∉ cs := by
  obtain ⟨name, hname, -, rfl⟩ := h
  have hsub : ['"', '<'] ⊆ [';', '&', '<', '#', '"'] := by decide
  have hnot : d ∉ name.toList := not_mem_entityName hname (hsub hd)
  have hother : d ≠ '&' ∧ d ≠ ';' := by
    simp only [List.mem_cons, List.not_mem_nil, or_false] at hd
    obtain rfl | rfl := hd <;> decide
  simp [hnot, hother]

theorem takeWhile_append_cons {p : Char → Bool} {name : List Char} {last : Char}
    (hname : ∀ d ∈ name, p d = true) (hlast : p last = false) (cs : List Char) :
    (name ++ last :: cs).takeWhile p = name := by
  rw [List.takeWhile_append_of_pos hname, List.takeWhile_cons_of_neg (by simp [hlast]),
    List.append_nil]

theorem dropWhile_append_cons {p : Char → Bool} {name : List Char} {last : Char}
    (hname : ∀ d ∈ name, p d = true) (hlast : p last = false) (cs : List Char) :
    (name ++ last :: cs).dropWhile p = last :: cs := by
  rw [List.dropWhile_append_of_pos hname, List.dropWhile_cons_of_neg (by simp [hlast])]

section Value

variable {total offset : Nat} {c : Char} {cs : List Char}

theorem unescapeFrom_plain (hc : c ≠ '&') :
    unescapeFrom total offset (c :: cs) =
      (unescapeFrom total (offset + c.utf8Size) cs).map (c :: ·) := by
  rw [unescapeFrom, if_neg hc]
  cases unescapeFrom total (offset + c.utf8Size) cs <;> rfl

theorem unescapeFrom_ended {body : List Char} (hbody : ∀ d ∈ body, (d != ';' && d != '&') = true) :
    ∃ start stop next, unescapeFrom total offset ('&' :: (body ++ ';' :: cs)) =
      valueReference start stop body >>= fun c => (unescapeFrom total next cs).map (c :: ·) := by
  have hdrop : (body ++ ';' :: cs).dropWhile (fun d => d != ';' && d != '&') = ';' :: cs :=
    dropWhile_append_cons hbody (by decide) cs
  have htake : (body ++ ';' :: cs).takeWhile (fun d => d != ';' && d != '&') = body :=
    takeWhile_append_cons hbody (by decide) cs
  refine ⟨offset + 1, offset + 1 + Text.byteSize body, offset + 1 + Text.byteSize body + 1, ?_⟩
  rw [unescapeFrom, if_pos rfl]
  split
  · next after hafter =>
    rw [hdrop] at hafter
    obtain rfl := (List.cons.inj hafter).2
    simp only [htake]
    refine congrArg _ (funext fun c => ?_)
    cases unescapeFrom total (offset + 1 + Text.byteSize body + 1) cs <;> rfl
  · next hother => exact absurd hdrop (hother cs)

theorem unescapeFrom_reference {reference : List Char} (h : RefersTo reference c) :
    ∃ next, unescapeFrom total offset (reference ++ cs) =
      (unescapeFrom total next cs).map (c :: ·) := by
  obtain ⟨name, hname, hentity, rfl⟩ := h
  have hplain : ∀ d ∈ name.toList, (d != ';' && d != '&') = true := by
    intro d hd
    have hsub : [';', '&'] ⊆ [';', '&', '<', '#', '"'] := by decide
    have hne : d ∉ [';', '&'] := fun hmem => not_mem_entityName hname (hsub hmem) hd
    simpa using hne
  have hvalue (start stop : Nat) : valueReference start stop name.toList = .ok c := by
    rw [valueReference]
    · rw [hentity]
    · intro number hnumber
      exact not_mem_entityName hname (by decide : '#' ∈ _) (hnumber ▸ List.mem_cons_self)
  obtain ⟨start, stop, next, hended⟩ := @unescapeFrom_ended total offset cs _ hplain
  refine ⟨next, ?_⟩
  rw [List.cons_append, List.append_assoc, List.singleton_append, hended, hvalue]
  rfl

end Value

def readReference (cs : List Char) : Except Fault (Option Event × List Char) :=
  match cs.dropWhile fun c => !endsReference c with
  | ';' :: rest =>
    (textReference (cs.takeWhile fun c => !endsReference c)).map fun content =>
      (some (.text content), rest)
  | _ => .error .referenceNotClosed

theorem readReference_append {body : List Char} (hbody : ∀ c ∈ body, (!endsReference c) = true)
    (rest : List Char) : readReference (body ++ ';' :: rest) =
      (textReference body).map fun content => (some (.text content), rest) := by
  have hend : (!endsReference ';') = false := by decide
  rw [readReference, dropWhile_append_cons hbody hend, takeWhile_append_cons hbody hend]
  rfl

/-- What stands first in a text. A plain character is read by itself. -/
def readPiece (c : Char) (cs : List Char) : Except Fault (Option Event × List Char) :=
  if c = '<' then readMarkup cs
  else if c = '&' then readReference cs
  else .ok (some (.text [c]), cs)

namespace Reading

/-- Read on, up to the end of a text. -/
def run (r : Reading) (cs : List Char) : Except Error Reading := (events cs).foldlM step r

theorem run_nil (r : Reading) : r.run [] = .ok r := by
  rw [run, events]
  rfl

theorem text_text (r : Reading) (s t : String) : (r.text s).text t = r.text (s ++ t) := by
  cases r with
  | mk elements root =>
    cases elements with
    | nil => rfl
    | cons e outer =>
      cases hchildren : e.children with
      | nil => simp [text, hchildren, pushText]
      | cons node rest =>
        cases node with
        | text previous => simp [text, hchildren, pushText, String.append_assoc]
        | element tag children => simp [text, hchildren, pushText]

theorem run_plain {c : Char} (hc : isPlain c = true) (r : Reading) (cs : List Char) :
    r.run (c :: cs) = (r.text (String.singleton c)).run cs := by
  obtain ⟨hopen, hand⟩ : c ≠ '<' ∧ c ≠ '&' := by simpa [isPlain] using hc
  have hfirst : r.run (c :: cs) =
      (r.text (String.ofList (c :: cs.takeWhile isPlain))).run (cs.dropWhile isPlain) := by
    rw [run, events, if_neg hopen, if_neg hand]
    rfl
  rw [hfirst]
  cases cs with
  | nil => rfl
  | cons d cs =>
    by_cases hd : isPlain d = true
    · obtain ⟨hopen, hand⟩ : d ≠ '<' ∧ d ≠ '&' := by simpa [isPlain] using hd
      have hnext (r : Reading) : r.run (d :: cs) =
          (r.text (String.ofList (d :: cs.takeWhile isPlain))).run (cs.dropWhile isPlain) := by
        rw [run, events, if_neg hopen, if_neg hand]
        rfl
      rw [hnext, text_text, List.takeWhile_cons_of_pos hd, List.dropWhile_cons_of_pos hd,
        String.ofList_cons]
    · rw [List.takeWhile_cons_of_neg hd, List.dropWhile_cons_of_neg hd]
      rfl

def stepOver (r : Reading) (event : Option Event) : Except Error Reading :=
  event.toList.foldlM step r

@[simp] theorem stepOver_none (r : Reading) : r.stepOver none = .ok r := rfl

@[simp] theorem stepOver_some (r : Reading) (event : Event) :
    r.stepOver (some event) = r.step event := by
  rw [stepOver, Option.toList_some, List.foldlM_cons]
  cases r.step event <;> rfl

theorem run_cons (r : Reading) (c : Char) (cs : List Char) :
    r.run (c :: cs) =
      match readPiece c cs with
      | .error fault => .error (.fault fault)
      | .ok (event, rest) => r.stepOver event >>= fun next => next.run rest := by
  -- The reader takes plain characters in one go, but it joins texts: one by one is the same.
  by_cases hopen : c = '<'
  · rw [run, events, readPiece, if_pos hopen, if_pos hopen]
    split
    · next fault hread =>
      rw [hread]
      rfl
    · next event rest hread =>
      change List.foldlM step r (event.toList ++ events rest) = _
      rw [hread]
      exact List.foldlM_append
  · by_cases hand : c = '&'
    · rw [run, events, readPiece, if_neg hopen, if_pos hand, if_neg hopen, if_pos hand]
      split
      · next rest hdrop =>
        simp only [readReference, hdrop]
        cases textReference (cs.takeWhile fun c => !endsReference c) <;> rfl
      · next hdrop =>
        have hread : readReference cs = .error .referenceNotClosed := by
          unfold readReference
          split
          · next rest hrest => exact absurd hrest (hdrop rest)
          · rfl
        rw [hread]
        rfl
    · rw [run_plain (by simp [isPlain, hopen, hand]), readPiece, if_neg hopen, if_neg hand]
      rfl

theorem run_reference {reference : List Char} {c : Char} (h : RefersTo reference c) (r : Reading)
    (cs : List Char) : r.run (reference ++ cs) = (r.text (String.singleton c)).run cs := by
  obtain ⟨name, hname, hentity, rfl⟩ := h
  have hplain : ∀ d ∈ name.toList, (!endsReference d) = true := by
    intro d hd
    have hsub : [';', '&', '<'] ⊆ [';', '&', '<', '#', '"'] := by decide
    have hne : d ∉ [';', '&', '<'] := fun hmem => not_mem_entityName hname (hsub hmem) hd
    simpa [endsReference, and_assoc] using hne
  have htext : textReference name.toList = .ok [c] := by
    unfold textReference
    rw [hentity]
  rw [List.cons_append, List.append_assoc, List.singleton_append, run_cons, readPiece,
    if_neg (by decide), if_pos rfl, readReference_append hplain, htext]
  rfl

end Reading

end Markup

namespace Output

open Markup (RefersTo Reading)

theorem escapeText_cases (c : Char) :
    RefersTo (escapeText c) c ∨ c ∉ ['<', '>', '&'] ∧ escapeText c = [c] := by
  by_cases hmem : c ∈ ['<', '>', '&']
  · left
    simp only [List.mem_cons, List.not_mem_nil, or_false] at hmem
    obtain rfl | rfl | rfl := hmem <;> decide
  · refine .inr ⟨hmem, ?_⟩
    simp only [List.mem_cons, List.not_mem_nil, or_false, not_or] at hmem
    unfold escapeText
    split <;> simp_all

def escaped : List Char := ['\'', '"', '<', '>', '&']

/-- Whether nothing in a text is escaped in a value. -/
def isLiteral (text : String) : Bool := text.toList.all fun c => !escaped.contains c

theorem escapeValue_eq {c : Char} (h : c ∉ escaped) : escapeValue c = [c] := by
  simp only [escaped, List.mem_cons, List.not_mem_nil, or_false, not_or] at h
  unfold escapeValue escapeText
  split <;> simp_all

theorem escapeValue_cases (c : Char) :
    RefersTo (escapeValue c) c ∨ c ∉ escaped ∧ escapeValue c = [c] := by
  by_cases hmem : c ∈ escaped
  · left
    simp only [escaped, List.mem_cons, List.not_mem_nil, or_false] at hmem
    obtain rfl | rfl | rfl | rfl | rfl := hmem <;> decide
  · exact .inr ⟨hmem, escapeValue_eq hmem⟩

theorem not_mem_valueMarkup {d : Char} (hd : d ∈ ['"', '<']) (value : String) :
    d ∉ valueMarkup value := by
  intro hmem
  obtain ⟨c, -, hc⟩ := List.mem_flatMap.1 hmem
  obtain href | ⟨hplain, heq⟩ := escapeValue_cases c
  · exact href.not_mem hd hc
  · rw [heq, List.mem_singleton] at hc
    have hsub : ['"', '<'] ⊆ escaped := by decide
    exact hplain (hc ▸ hsub hd)

theorem valueMarkup_eq {value : String} (h : isLiteral value = true) :
    valueMarkup value = value.toList := by
  have hall (cs : List Char) (h : ∀ c ∈ cs, c ∉ escaped) : cs.flatMap escapeValue = cs := by
    induction cs with
    | nil => rfl
    | cons c cs ih =>
      rw [List.flatMap_cons, escapeValue_eq (h c List.mem_cons_self),
        ih fun d hd => h d (List.mem_cons_of_mem c hd), List.singleton_append]
  refine hall value.toList fun c hc => ?_
  simpa using List.all_eq_true.1 h c hc

theorem unescape_valueMarkup (value : String) :
    Markup.unescape (valueMarkup value) = .ok value.toList := by
  have hall (cs : List Char) (total offset : Nat) :
      Markup.unescapeFrom total offset (cs.flatMap escapeValue) = .ok cs := by
    induction cs generalizing offset with
    | nil =>
      rw [List.flatMap_nil, Markup.unescapeFrom]
    | cons c cs ih =>
      rw [List.flatMap_cons]
      obtain href | ⟨hplain, heq⟩ := escapeValue_cases c
      · obtain ⟨next, hnext⟩ := Markup.unescapeFrom_reference href
        rw [hnext, ih]
        rfl
      · have hand : c ≠ '&' := fun h => hplain (by simp [h, escaped])
        rw [heq, List.singleton_append, Markup.unescapeFrom_plain hand, ih]
        rfl
  exact hall value.toList _ _

theorem valueMarkup_injective : Function.Injective valueMarkup := by
  intro value other h
  have hread := unescape_valueMarkup value
  rw [h, unescape_valueMarkup] at hread
  exact (String.toList_inj.1 (Except.ok.inj hread)).symm

theorem valueMarkup_eq_toList_iff {value other : String} (h : isLiteral other = true) :
    valueMarkup value = other.toList ↔ value = other := by
  rw [← valueMarkup_eq h, valueMarkup_injective.eq_iff]

theorem valueMarkup_eq_nil_iff {value : String} : valueMarkup value = [] ↔ value = "" :=
  valueMarkup_eq_toList_iff (rfl : isLiteral "" = true)

theorem one_lt_length_escapeValue {c : Char} (h : c ∈ escaped) : 1 < (escapeValue c).length := by
  simp only [escaped, List.mem_cons, List.not_mem_nil, or_false] at h
  obtain rfl | rfl | rfl | rfl | rfl := h <;> decide

theorem length_le_length_escaped (cs : List Char) :
    cs.length ≤ (cs.flatMap escapeValue).length := by
  induction cs with
  | nil => exact Nat.le_refl 0
  | cons c cs ih =>
    have hc : 1 ≤ (escapeValue c).length := by
      by_cases hmem : c ∈ escaped
      · exact Nat.le_of_lt (one_lt_length_escapeValue hmem)
      · simp [escapeValue_eq hmem]
    rw [List.flatMap_cons, List.length_append, List.length_cons]
    omega

theorem isLiteral_of_valueMarkup {value : String} (h : valueMarkup value = value.toList) :
    isLiteral value = true := by
  have hall (cs : List Char) (h : cs.flatMap escapeValue = cs) : ∀ c ∈ cs, c ∉ escaped := by
    induction cs with
    | nil => exact nofun
    | cons c cs ih =>
      rw [List.flatMap_cons] at h
      have hc : c ∉ escaped := by
        intro hmem
        have hlength := congrArg List.length h
        have hfirst := one_lt_length_escapeValue hmem
        have hrest := length_le_length_escaped cs
        rw [List.length_append, List.length_cons] at hlength
        omega
      rw [escapeValue_eq hc, List.singleton_append] at h
      exact List.forall_mem_cons.2 ⟨hc, ih (List.cons.inj h).2⟩
  refine List.all_eq_true.2 fun c hc => ?_
  simpa using hall value.toList h c hc

theorem run_escapeText (r : Reading) (c : Char) (rest : List Char) :
    r.run (escapeText c ++ rest) = (r.text (String.singleton c)).run rest := by
  obtain href | ⟨hplain, heq⟩ := escapeText_cases c
  · exact Reading.run_reference href r rest
  · have hc : Markup.isPlain c = true := by
      simp only [List.mem_cons, List.not_mem_nil, or_false, not_or] at hplain
      simp [Markup.isPlain, hplain]
    rw [heq]
    exact Reading.run_plain hc r rest

/-- A text is added to the element that is open, unless it is empty. -/
theorem run_textMarkup (r : Reading) (content : String) (rest : List Char) :
    r.run (textMarkup content ++ rest) =
      (if content = "" then r else r.text content).run rest := by
  have hall (cs : List Char) (r : Reading) : r.run (cs.flatMap escapeText ++ rest) =
      (if cs = [] then r else r.text (String.ofList cs)).run rest := by
    induction cs generalizing r with
    | nil => rfl
    | cons c cs ih =>
      rw [List.flatMap_cons, List.append_assoc, run_escapeText, ih, if_neg (List.cons_ne_nil c cs),
        String.ofList_cons]
      cases cs with
      | nil => rw [if_pos rfl, String.ofList_nil, String.append_empty]
      | cons d cs => rw [if_neg (List.cons_ne_nil d cs), Reading.text_text]
  have hempty : content.toList = [] ↔ content = "" := by simp
  rw [textMarkup, hall, String.ofList_toList]
  simp only [hempty]

end Output

end MarkupSnippets

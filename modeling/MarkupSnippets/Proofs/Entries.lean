import Mathlib.Data.List.Nodup
import MarkupSnippets.Proofs.Escaping
import MarkupSnippets.Proofs.Names

namespace MarkupSnippets

namespace Text

theorem splitAt?_of_not_mem {c : Char} {cs : List Char} (h : c ∉ cs) : splitAt? [c] cs = none := by
  induction cs with
  | nil => rfl
  | cons d cs ih =>
    obtain ⟨hne, hnot⟩ := not_or.1 (mt List.mem_cons.2 h)
    simp [splitAt?, dropStart?, hne, ih hnot]

theorem splitAt?_append {c : Char} {cs : List Char} (h : c ∉ cs) (rest : List Char) :
    splitAt? [c] (cs ++ c :: rest) = some (cs, rest) := by
  induction cs with
  | nil => simp [splitAt?, dropStart?]
  | cons d cs ih =>
    obtain ⟨hne, hnot⟩ := not_or.1 (mt List.mem_cons.2 h)
    simp [splitAt?, dropStart?, hne, ih hnot]

end Text

namespace Markup

/-- Whether no tag ends inside of a text. -/
def Passes (cs : List Char) : Prop :=
  ∀ rest, cutTag none (cs ++ rest) = (cutTag none rest).map fun (before, after) =>
    (cs ++ before, after)

namespace Passes

variable {cs ds : List Char}

theorem nil : Passes [] := by
  intro rest
  rw [List.nil_append]
  cases cutTag none rest <;> rfl

theorem append (hcs : Passes cs) (hds : Passes ds) : Passes (cs ++ ds) := by
  intro rest
  rw [List.append_assoc, hcs, hds]
  cases cutTag none rest with
  | error fault => rfl
  | ok pair => simp [Except.map, List.append_assoc]

theorem singleton {c : Char} (h : c ∉ ['>', '"', '\'']) : Passes [c] := by
  obtain ⟨hend, hquotes⟩ : c ≠ '>' ∧ ¬(c = '"' ∨ c = '\'') := by simpa using h
  intro rest
  rw [List.singleton_append, cutTag, if_neg hend, if_neg hquotes]
  rfl

theorem of_forall (h : ∀ c ∈ cs, c ∉ ['>', '"', '\'']) : Passes cs := by
  induction cs with
  | nil => exact nil
  | cons c cs ih =>
    have hrest := ih fun d hd => h d (List.mem_cons_of_mem c hd)
    exact (singleton (h c List.mem_cons_self)).append hrest

theorem quoted (h : '"' ∉ cs) : Passes ('"' :: (cs ++ ['"'])) := by
  have hinner (rest : List Char) : cutTag (some '"') (cs ++ '"' :: rest) =
      (cutTag none rest).map fun (before, after) => (cs ++ '"' :: before, after) := by
    induction cs with
    | nil => rfl
    | cons c cs ih =>
      obtain ⟨hne, hnot⟩ := not_or.1 (mt List.mem_cons.2 h)
      rw [List.cons_append, cutTag, if_neg (Ne.symm hne), ih hnot]
      cases cutTag none rest <;> rfl
  intro rest
  rw [List.cons_append, List.append_assoc, List.singleton_append, cutTag, if_neg (by decide),
    if_pos (.inl rfl), hinner]
  cases cutTag none rest with
  | error fault => rfl
  | ok pair => simp [Except.map]

theorem of_bare (h : Bare cs) : Passes cs := by
  have hsub : ['>', '"', '\''] ⊆ delimiters := by decide
  exact of_forall fun c hc hmem => h.not_mem c (hsub hmem) hc

theorem flatMap {α : Type} {f : α → List Char} {entries : List α}
    (h : ∀ entry ∈ entries, Passes (f entry)) : Passes (entries.flatMap f) := by
  induction entries with
  | nil => exact nil
  | cons entry rest ih =>
    have hrest := ih fun other hother => h other (List.mem_cons_of_mem entry hother)
    exact (h entry List.mem_cons_self).append hrest

theorem cutTag_eq (h : Passes cs) (rest : List Char) :
    cutTag none (cs ++ '>' :: rest) = .ok (cs, rest) := by
  rw [h, cutTag, if_pos rfl]
  simp [Except.map]

end Passes

theorem readEquals_equals (total position : Nat) (rest : List Char) :
    readEquals total position ('=' :: rest) = .ok rest := by
  simp [readEquals, isSpace]

theorem readValue_quoted (total position : Nat) {value : List Char} (h : '"' ∉ value)
    (rest : List Char) : readValue total position ('"' :: (value ++ '"' :: rest)) =
      .ok (value, rest) := by
  have hplain : ∀ c ∈ value, (c != '"') = true := by
    intro c hc
    have hne : c ≠ '"' := fun heq => h (heq ▸ hc)
    simp [hne]
  have htake := takeWhile_append_cons hplain (by decide : ('"' != '"') = false) rest
  have hdrop := dropWhile_append_cons hplain (by decide : ('"' != '"') = false) rest
  simp [readValue, isSpace, htake, hdrop]

theorem rawAttributes_cons {total : Nat} {cs key value text rest : List Char} {c : Char}
    (hstart : cs.dropWhile isSpace = c :: (key ++ '=' :: text))
    (hkey : ∀ d ∈ key, d ≠ '=' ∧ isSpace d = false)
    (hvalue : ∀ position, readValue total position text = .ok (value, rest)) :
    ∃ position, rawAttributes total cs =
      (⟨position, c :: key, value⟩ :: (rawAttributes total rest).1,
        (rawAttributes total rest).2) := by
  have hplain : ∀ d ∈ key, (!(d == '=' || isSpace d)) = true := by
    intro d hd
    simp [hkey d hd]
  have hequals : (!('=' == '=' || isSpace '=')) = false := by decide
  have htake := takeWhile_append_cons hplain hequals text
  have hdrop := dropWhile_append_cons hplain hequals text
  refine ⟨total - Text.byteSize (cs.dropWhile isSpace), ?_⟩
  rw [rawAttributes]
  split
  · next hnil =>
    rw [hstart] at hnil
    cases hnil
  · next first more hmore =>
    rw [hstart] at hmore
    obtain ⟨rfl, rfl⟩ := List.cons.inj hmore
    simp only [htake]
    split
    · next fault hequals =>
      rw [hdrop, readEquals_equals] at hequals
      cases hequals
    · next found hequals =>
      rw [hdrop, readEquals_equals] at hequals
      obtain rfl := Except.ok.inj hequals
      split
      · next fault hfound =>
        rw [hvalue] at hfound
        cases hfound
      · next other others hfound =>
        rw [hvalue] at hfound
        obtain ⟨rfl, rfl⟩ := Prod.mk.inj (Except.ok.inj hfound)
        rfl

end Markup

namespace Output

open Markup (Bare Passes RawAttribute Scope)

def entriesMarkup (entries : List (String × String)) : List Char :=
  entries.flatMap fun entry => attributeMarkup entry.1 entry.2

/-- Whether the reader finds an entry as it was written. -/
def Finds (a : RawAttribute) (entry : String × String) : Prop :=
  a.key = entry.1.toList ∧ a.value = valueMarkup entry.2

variable {entries : List (String × String)} {raw : List RawAttribute}

theorem passes_attributeMarkup {key : String} (h : Bare key.toList) (value : String) :
    Passes (attributeMarkup key value) := by
  have hvalue : '"' ∉ valueMarkup value := not_mem_valueMarkup (by decide) value
  have hequals : '=' ∉ ['>', '"', '\''] := by decide
  have hspace : ' ' ∉ ['>', '"', '\''] := by decide
  have hquoted := (Passes.singleton hequals).append (Passes.quoted hvalue)
  exact (Passes.singleton hspace).append ((Passes.of_bare h).append hquoted)

theorem rawAttributes_attributeMarkup {key : String} (h : Bare key.toList) (total : Nat)
    (value : String) (rest : List Char) :
    ∃ position, Markup.rawAttributes total (attributeMarkup key value ++ rest) =
      (⟨position, key.toList, valueMarkup value⟩ :: (Markup.rawAttributes total rest).1,
        (Markup.rawAttributes total rest).2) := by
  obtain ⟨c, cs, hkey⟩ := List.exists_cons_of_ne_nil h.ne_nil
  have hvalue : '"' ∉ valueMarkup value := not_mem_valueMarkup (by decide) value
  have hc : Markup.isSpace c = false := h.isSpace_of_mem (hkey ▸ List.mem_cons_self)
  have hmarkup : attributeMarkup key value ++ rest =
      ' ' :: c :: (cs ++ '=' :: '"' :: (valueMarkup value ++ '"' :: rest)) := by
    simp [attributeMarkup, hkey]
  have hstart : (attributeMarkup key value ++ rest).dropWhile Markup.isSpace =
      c :: (cs ++ '=' :: '"' :: (valueMarkup value ++ '"' :: rest)) := by
    rw [hmarkup, List.dropWhile_cons_of_pos (by decide), List.dropWhile_cons_of_neg (by simp [hc])]
  rw [hkey]
  refine Markup.rawAttributes_cons hstart (fun d hd => ?_) fun position =>
    Markup.readValue_quoted total position hvalue rest
  have hd : d ∈ key.toList := hkey ▸ List.mem_cons_of_mem c hd
  exact ⟨h.ne_of_mem hd (by decide), h.isSpace_of_mem hd⟩

theorem rawAttributes_entries (h : ∀ entry ∈ entries, Bare entry.1.toList) (total : Nat) :
    ∃ raw, Markup.rawAttributes total (entriesMarkup entries) = (raw, none) ∧
      List.Forall₂ Finds raw entries := by
  induction entries with
  | nil =>
    refine ⟨[], ?_, .nil⟩
    rw [Markup.rawAttributes]
    rfl
  | cons entry rest ih =>
    obtain ⟨raw, hraw, hfinds⟩ := ih fun other hother => h other (List.mem_cons_of_mem entry hother)
    obtain ⟨position, hposition⟩ := rawAttributes_attributeMarkup (h entry List.mem_cons_self) total
      entry.2 (entriesMarkup rest)
    rw [hraw] at hposition
    exact ⟨_, hposition, .cons ⟨rfl, rfl⟩ hfinds⟩

theorem readTag_entries {name : List Char} (hname : Bare name)
    (h : ∀ entry ∈ entries, Bare entry.1.toList) :
    ∃ raw, Markup.readTag (name ++ entriesMarkup entries) = (name, raw, none) ∧
      List.Forall₂ Finds raw entries := by
  obtain ⟨raw, hraw, hfinds⟩ :=
    rawAttributes_entries h (Text.byteSize (name ++ entriesMarkup entries))
  have hplain : ∀ c ∈ name, (!Markup.isSpace c) = true := by
    intro c hc
    rw [hname.isSpace_of_mem hc]
    rfl
  have hends : entriesMarkup entries = [] ∨ ∃ rest, entriesMarkup entries = ' ' :: rest := by
    cases entries with
    | nil => exact .inl rfl
    | cons entry rest => exact .inr ⟨_, rfl⟩
  have htake : (name ++ entriesMarkup entries).takeWhile (fun c => !Markup.isSpace c) = name := by
    obtain hnil | ⟨rest, hrest⟩ := hends
    · rw [hnil, List.takeWhile_append_of_pos hplain, List.takeWhile_nil, List.append_nil]
    · rw [hrest, Markup.takeWhile_append_cons hplain (by decide)]
  have hdrop : (name ++ entriesMarkup entries).dropWhile (fun c => !Markup.isSpace c) =
      entriesMarkup entries := by
    obtain hnil | ⟨rest, hrest⟩ := hends
    · rw [hnil, List.dropWhile_append_of_pos hplain, List.dropWhile_nil]
    · rw [hrest, Markup.dropWhile_append_cons hplain (by decide)]
  refine ⟨raw, ?_, hfinds⟩
  rw [Markup.readTag, htake, hdrop, hraw]

def binding? (entry : String × String) : Option (List Char × List Char) :=
  (Scope.declared? entry.1.toList).map fun pfx => (pfx.getD [], valueMarkup entry.2)

/-- Whether a declaration has nothing that is reserved. -/
def Binds (entry : String × String) : Prop :=
  ∀ pfx, Scope.declared? entry.1.toList = some pfx → ∀ scope : Scope,
    scope.bind pfx (valueMarkup entry.2) = .ok ((pfx.getD [], valueMarkup entry.2) :: scope)

theorem enter_of_finds (hfinds : List.Forall₂ Finds raw entries)
    (h : ∀ entry ∈ entries, Binds entry)
    (scope : Scope) : scope.enter raw = .ok ((entries.filterMap binding?).reverse ++ scope) := by
  induction hfinds generalizing scope with
  | nil => rfl
  | @cons a entry raw rest hfind _ ih =>
    have hrest := ih fun other hother => h other (List.mem_cons_of_mem entry hother)
    obtain ⟨hkey, hvalue⟩ := hfind
    rw [Scope.enter, hkey, hvalue]
    cases hdeclared : Scope.declared? entry.1.toList with
    | none =>
      have hnone : binding? entry = none := by rw [binding?, hdeclared]; rfl
      rw [List.filterMap_cons_none hnone]
      exact hrest scope
    | some pfx =>
      have hsome : binding? entry = some (pfx.getD [], valueMarkup entry.2) := by
        rw [binding?, hdeclared]; rfl
      simp only [h entry List.mem_cons_self pfx hdeclared]
      rw [List.filterMap_cons_some hsome, hrest]
      simp

def attributeOf? (scope : Scope) (entry : String × String) : Option Markup.Attribute :=
  if (Scope.declared? entry.1.toList).isSome then none
  else
    let (pfx, name) := Markup.splitName entry.1.toList
    some ⟨scope.attribute? pfx, pfx.map String.ofList, String.ofList name, entry.2⟩

theorem readAttributes_of_finds (hfinds : List.Forall₂ Finds raw entries)
    (hnodup : (entries.map Prod.fst).Nodup) (scope : Scope) (seen : List RawAttribute)
    (hseen : ∀ a ∈ seen, ∀ entry ∈ entries, a.key ≠ entry.1.toList) :
    Markup.readAttributes scope seen none raw = .ok (entries.filterMap (attributeOf? scope)) := by
  induction hfinds generalizing seen with
  | nil => rfl
  | @cons a entry raw rest hfind _ ih =>
    obtain ⟨hkey, hvalue⟩ := hfind
    obtain ⟨hnew, hnodup⟩ := List.nodup_cons.1 hnodup
    have hnot : seen.find? (fun earlier => earlier.key == a.key) = none := by
      refine List.find?_eq_none.2 fun earlier hmem => ?_
      simpa [hkey] using hseen earlier hmem entry List.mem_cons_self
    have hrest := ih hnodup (seen ++ [a]) (by
      intro b hb other hother heq
      obtain hb | rfl := (List.mem_append.1 hb).imp_right List.mem_singleton.1
      · exact hseen b hb other (List.mem_cons_of_mem entry hother) heq
      · have hsame : entry.1 = other.1 := String.toList_inj.1 (hkey.symm.trans heq)
        exact hnew (hsame ▸ List.mem_map_of_mem hother))
    rw [Markup.readAttributes, hnot, hkey]
    by_cases hdeclared : (Scope.declared? entry.1.toList).isSome = true
    · have hnone : attributeOf? scope entry = none := by rw [attributeOf?, if_pos hdeclared]
      simp only [if_pos hdeclared]
      rw [List.filterMap_cons_none hnone, hrest]
    · have hsome : attributeOf? scope entry = some
          ⟨scope.attribute? (Markup.splitName entry.1.toList).1,
            (Markup.splitName entry.1.toList).1.map String.ofList,
            String.ofList (Markup.splitName entry.1.toList).2, entry.2⟩ := by
        rw [attributeOf?, if_neg hdeclared]
      simp only [if_neg hdeclared]
      rw [List.filterMap_cons_some hsome, hrest, hvalue, unescape_valueMarkup]
      change Except.ok (Markup.Attribute.mk _ _ _ (String.ofList entry.2.toList) :: _) = _
      rw [String.ofList_toList]

end Output

end MarkupSnippets

import MarkupSnippets.Markup.Attributes

namespace MarkupSnippets.Markup

def nameStarts : List (Nat × Nat) :=
  [(0x41, 0x5A), (0x5F, 0x5F), (0x61, 0x7A), (0xC0, 0xD6), (0xD8, 0xF6), (0xF8, 0x2FF),
    (0x370, 0x37D), (0x37F, 0x1FFF), (0x200C, 0x200D), (0x2070, 0x218F), (0x2C00, 0x2FEF),
    (0x3001, 0xD7FF), (0xF900, 0xFDCF), (0xFDF0, 0xFFFD), (0x10000, 0xEFFFF)]

def nameParts : List (Nat × Nat) :=
  [(0x2D, 0x2E), (0x30, 0x39), (0xB7, 0xB7), (0x300, 0x36F), (0x203F, 0x2040)]

def isInRanges (ranges : List (Nat × Nat)) (c : Char) : Bool :=
  ranges.any fun range => range.1 ≤ c.toNat && c.toNat ≤ range.2

def isNameStart (c : Char) : Bool := isInRanges nameStarts c

def isNameChar (c : Char) : Bool := isNameStart c || isInRanges nameParts c

def isNcName (name : String) : Bool :=
  match name.toList with
  | [] => false
  | c :: cs => isNameStart c && cs.all isNameChar

/-- The characters that have a meaning inside of a tag. -/
def delimiters : List Char :=
  [' ', '\t', '\n', '\r', '=', '"', '\'', '<', '>', '/', '!', '?', '&', ';']

/-- Whether a text can stand for a name in a tag. -/
structure Bare (cs : List Char) : Prop where
  ne_nil : cs ≠ []
  not_mem : ∀ d ∈ delimiters, d ∉ cs

theorem isNameChar_of_mem_delimiters : ∀ d ∈ ':' :: delimiters, isNameChar d = false := by
  have hall : (':' :: delimiters).all (fun d => !isNameChar d) = true := by decide
  intro d hd
  simpa using List.all_eq_true.1 hall d hd

theorem isNameChar_of_isDigit {c : Char} (h : c.isDigit = true) : isNameChar c = true := by
  have hc : isInRanges nameParts c = true := by
    refine List.any_eq_true.2 ⟨(0x30, 0x39), by decide, ?_⟩
    simpa [Char.isDigit, UInt32.le_iff_toNat_le] using h
  rw [isNameChar, hc, Bool.or_true]

variable {name : String}

theorem isNameChar_of_mem (h : isNcName name = true) {c : Char} (hc : c ∈ name.toList) :
    isNameChar c = true := by
  rw [isNcName] at h
  split at h
  · cases h
  · next first rest hname =>
    rw [hname] at hc
    obtain ⟨hfirst, hrest⟩ := Bool.and_eq_true_iff.1 h
    obtain rfl | hc := List.mem_cons.1 hc
    · rw [isNameChar, hfirst, Bool.true_or]
    · exact List.all_eq_true.1 hrest c hc

theorem not_mem_of_isNcName (h : isNcName name = true) {d : Char} (hd : d ∈ ':' :: delimiters) :
    d ∉ name.toList := by
  intro hmem
  have hname := isNameChar_of_mem h hmem
  rw [isNameChar_of_mem_delimiters d hd] at hname
  cases hname

theorem colon_not_mem_of_isNcName (h : isNcName name = true) : ':' ∉ name.toList :=
  not_mem_of_isNcName h List.mem_cons_self

theorem bare_of_isNcName (h : isNcName name = true) : Bare name.toList where
  ne_nil := by
    intro hnil
    rw [isNcName, hnil] at h
    cases h
  not_mem d hd := not_mem_of_isNcName h (List.mem_cons_of_mem _ hd)

namespace Bare

variable {cs ds : List Char}

theorem qualified (hcs : Bare cs) (hds : Bare ds) : Bare (cs ++ ':' :: ds) where
  ne_nil := by simp
  not_mem d hd := by
    have hcolon : d ≠ ':' := by
      rintro rfl
      exact absurd hd (by decide)
    simp [hcs.not_mem d hd, hds.not_mem d hd, hcolon]

theorem ne_of_mem (h : Bare cs) {c d : Char} (hc : c ∈ cs) (hd : d ∈ delimiters) : c ≠ d := by
  rintro rfl
  exact h.not_mem c hd hc

theorem isSpace_of_mem (h : Bare cs) {c : Char} (hc : c ∈ cs) : isSpace c = false := by
  have hsub : [' ', '\t', '\n', '\r'] ⊆ delimiters := by simp [delimiters]
  have hspace : c ∉ [' ', '\t', '\n', '\r'] := fun hmem => h.not_mem c (hsub hmem) hc
  simpa [isSpace, and_assoc] using hspace

end Bare

end MarkupSnippets.Markup

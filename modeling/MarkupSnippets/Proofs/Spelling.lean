import MarkupSnippets.Expr.Error

namespace MarkupSnippets

namespace Text

variable {p : Char → Bool} {word rest : List Char}

theorem takeWhile_append_of_stop (hword : ∀ c ∈ word, p c = true)
    (hstop : ∀ c ∈ rest.head?, p c = false) : (word ++ rest).takeWhile p = word := by
  rw [List.takeWhile_append_of_pos hword]
  cases rest with
  | nil => exact List.append_nil word
  | cons c rest => rw [List.takeWhile_cons_of_neg (by simp [hstop c rfl]), List.append_nil]

theorem dropWhile_append_of_stop (hword : ∀ c ∈ word, p c = true)
    (hstop : ∀ c ∈ rest.head?, p c = false) : (word ++ rest).dropWhile p = rest := by
  rw [List.dropWhile_append_of_pos hword]
  cases rest with
  | nil => rfl
  | cons c rest => rw [List.dropWhile_cons_of_neg (by simp [hstop c rfl])]

end Text

/-- A literal of a number: perhaps a minus sign, digits, and perhaps a point with further digits. -/
structure NumberLiteral where
  negative : Bool
  whole : List Char
  fraction : List Char
  whole_ne_nil : whole ≠ []
  isDigit_whole : ∀ c ∈ whole, c.isDigit = true
  isDigit_fraction : ∀ c ∈ fraction, c.isDigit = true

namespace NumberLiteral

variable (n : NumberLiteral)

def sign : List Char := if n.negative then ['-'] else []

def pointed : List Char := if n.fraction.isEmpty then [] else '.' :: n.fraction

def chars : List Char := n.sign ++ (n.whole ++ n.pointed)

def toDecimal : Decimal :=
  ⟨n.negative, digitsValue (n.whole ++ n.fraction), -(n.fraction.length : Int)⟩

end NumberLiteral

def escapeQuoted : List Char → List Char
  | [] => []
  | c :: cs => if c = '\\' ∨ c = '"' then '\\' :: c :: escapeQuoted cs else c :: escapeQuoted cs

def EndsOperand (rest : List Char) : Prop := ∀ c ∈ rest.head?, c = ' ' ∨ c = ')'

theorem endsOperand_space (rest : List Char) : EndsOperand (' ' :: rest) := by
  simp [EndsOperand]

theorem endsOperand_parenClose (rest : List Char) : EndsOperand (')' :: rest) := by
  simp [EndsOperand]

def EndsNumber (rest : List Char) : Prop := ∀ c ∈ rest.head?, c.isDigit = false ∧ c ≠ '.'

theorem EndsOperand.endsNumber {rest : List Char} (h : EndsOperand rest) : EndsNumber rest := by
  intro c hc
  obtain rfl | rfl := h c hc <;> decide

namespace Token

theorem readFixed?_eq_none {c : Char} (hc : ∀ entry ∈ spellings, entry.1.toList.head? ≠ some c)
    (cs : List Char) : readFixed? (c :: cs) = none := by
  apply List.findSome?_eq_none_iff.2
  intro entry hentry
  have hhead := hc entry hentry
  cases hspelling : entry.1.toList with
  | nil => exact absurd hspelling (toList_ne_nil_of_mem_spellings entry hentry)
  | cons d spelling =>
    rw [hspelling] at hhead
    have hne : d ≠ c := fun h => hhead (congrArg some h)
    simp [hspelling, Text.dropStart?, hne]

theorem read?_comparison (c : Comparison) (rest : List Char) :
    read? (c.symbol.toList ++ ' ' :: rest) = some (comparison c, ' ' :: rest) := by
  cases c <;> rfl

theorem read?_not {c : Char} (hc : c ≠ '=') (rest : List Char) :
    read? ('!' :: c :: rest) = some (not, c :: rest) := by
  simp [read?, readFixed?, spellings, Text.dropStart?, hc.symm]

theorem read?_bool (b : Bool) (rest : List Char) :
    read? ((if b then "true" else "false").toList ++ rest) = some (bool b, rest) := by
  cases b <;> rfl

theorem read?_braced {path : List Char} (hbrace : '}' ∉ path) (rest : List Char) :
    read? ('{' :: '{' :: (path ++ '}' :: '}' :: rest)) =
      some (reference (Text.trim (String.ofList path)), rest) := by
  have hplain : ∀ c ∈ path, (c != '}') = true := by
    intro c hc
    exact bne_iff_ne.2 fun h => hbrace (h ▸ hc)
  have hstop : ∀ c ∈ ('}' :: '}' :: rest).head?, (c != '}') = false := by simp
  have htake := Text.takeWhile_append_of_stop hplain hstop
  have hdrop := Text.dropWhile_append_of_stop hplain hstop
  have hread : readReference? ('{' :: '{' :: (path ++ '}' :: '}' :: rest)) =
      some (reference (Text.trim (String.ofList path)), rest) := by
    simp only [readReference?, htake, hdrop]
  rw [read?, readFixed?_eq_none (by decide), hread]
  rfl

theorem read?_reference {path : String} (hbrace : '}' ∉ path.toList)
    (htrim : Text.trim path = path) (rest : List Char) :
    read? ('{' :: '{' :: (path.toList ++ '}' :: '}' :: rest)) = some (reference path, rest) := by
  rw [read?_braced hbrace, String.ofList_toList, htrim]

theorem read?_brace (cs : List Char) : read? ('{' :: cs) = readReference? ('{' :: cs) := by
  have htext : readText? ('{' :: cs) = none := by simp [readText?, isQuote]
  have hnumber : readNumber? ('{' :: cs) = none := by
    simp [readNumber?, readDigits?, Char.isDigit]
  rw [read?, readFixed?_eq_none (by decide), htext, hnumber]
  simp

theorem Quotable.quotedRun_append {quote : Char} (hquote : quote ≠ '\\') {run : List Char}
    (h : Quotable quote run) (rest : List Char) :
    quotedRun quote (run ++ quote :: rest) = (run, quote :: rest) := by
  induction h with
  | nil => simp [quotedRun, hquote]
  | escaped hc _ ih => simp [quotedRun, hc, ih]
  | plain hne hbackslash _ ih => simp [quotedRun, hne, hbackslash, ih]

theorem quotable_of_forall {quote : Char} {cs : List Char}
    (h : ∀ c ∈ cs, c ≠ quote ∧ c ≠ '\\') : Quotable quote cs := by
  induction cs with
  | nil => exact .nil
  | cons c cs ih =>
    obtain ⟨⟨hquote, hbackslash⟩, h⟩ := List.forall_mem_cons.1 h
    exact .plain hquote hbackslash (ih h)

theorem unquote_of_not_mem {cs : List Char} (h : '\\' ∉ cs) : unquote cs = cs := by
  induction cs with
  | nil => rfl
  | cons c cs ih =>
    obtain ⟨hc, h⟩ := not_or.1 (mt List.mem_cons.2 h)
    simp [unquote, Ne.symm hc, ih h]

theorem read?_quotable {quote : Char} (hquote : isQuote quote = true) {run : List Char}
    (hrun : Quotable quote run) (rest : List Char) :
    read? (quote :: (run ++ quote :: rest)) = some (text (String.ofList (unquote run)), rest) := by
  have hfixed : ∀ cs, readFixed? (quote :: cs) = none := by
    intro cs
    obtain rfl | rfl : quote = '"' ∨ quote = '\'' := by simpa [isQuote] using hquote
    · exact readFixed?_eq_none (by decide) cs
    · exact readFixed?_eq_none (by decide) cs
  have hbrace : quote ≠ '{' := by rintro rfl; cases hquote
  have hbackslash : quote ≠ '\\' := by rintro rfl; cases hquote
  have hreference : readReference? (quote :: (run ++ quote :: rest)) = none := by
    simp [readReference?, hbrace]
  have htext : readText? (quote :: (run ++ quote :: rest)) =
      some (text (String.ofList (unquote run)), rest) := by
    simp [readText?, hquote, hrun.quotedRun_append hbackslash]
  rw [read?, hfixed, hreference, htext]
  rfl

theorem quotable_escapeQuoted (cs : List Char) : Quotable '"' (escapeQuoted cs) := by
  induction cs with
  | nil => exact .nil
  | cons c cs ih =>
    rw [escapeQuoted]
    split
    · next hc =>
      have hline : c ≠ '\n' := by
        rintro rfl
        revert hc
        decide
      exact .escaped hline ih
    · next hc =>
      obtain ⟨hbackslash, hquote⟩ := not_or.1 hc
      exact .plain hquote hbackslash ih

theorem unquote_escapeQuoted (cs : List Char) : unquote (escapeQuoted cs) = cs := by
  induction cs with
  | nil => rfl
  | cons c cs ih =>
    by_cases hc : c = '\\' ∨ c = '"'
    · rw [escapeQuoted, if_pos hc]
      obtain rfl | rfl := hc <;> simp [unquote, ih]
    · obtain ⟨hbackslash, hquote⟩ := not_or.1 hc
      simp [escapeQuoted, unquote, hbackslash, hquote, ih]

theorem read?_quoted (s : String) (rest : List Char) :
    read? ('"' :: (escapeQuoted s.toList ++ '"' :: rest)) = some (text s, rest) := by
  rw [read?_quotable rfl (quotable_escapeQuoted s.toList), unquote_escapeQuoted,
    String.ofList_toList]

end Token

namespace NumberLiteral

variable (n : NumberLiteral) {rest : List Char}

theorem isDigit_of_ends (hrest : EndsNumber rest) : ∀ c ∈ rest.head?, c.isDigit = false :=
  fun c hc => (hrest c hc).1

theorem isDigit_of_pointed (hrest : EndsNumber rest) :
    ∀ c ∈ (n.pointed ++ rest).head?, c.isDigit = false := by
  rw [pointed]
  split
  · exact isDigit_of_ends hrest
  · intro c hc
    obtain rfl : '.' = c := by simpa using hc
    decide

theorem readDigits?_chars (hrest : EndsNumber rest) :
    Token.readDigits? n.negative (n.whole ++ (n.pointed ++ rest)) =
      some (.number n.toDecimal.toNumber, rest) := by
  have htake := Text.takeWhile_append_of_stop n.isDigit_whole (n.isDigit_of_pointed hrest)
  have hdrop := Text.dropWhile_append_of_stop n.isDigit_whole (n.isDigit_of_pointed hrest)
  have hwhole : n.whole.isEmpty = false := by simpa using n.whole_ne_nil
  simp only [Token.readDigits?, htake, hdrop, hwhole, Bool.false_eq_true, ↓reduceIte]
  cases hfraction : n.fraction with
  | nil =>
    have hpointed : n.pointed = [] := by simp [pointed, hfraction]
    rw [hpointed, toDecimal, hfraction, List.nil_append]
    split
    · exact absurd rfl (hrest '.' rfl).2
    · rfl
  | cons d ds =>
    have hpointed : n.pointed = '.' :: d :: ds := by simp [pointed, hfraction]
    have hdigits : ∀ c ∈ d :: ds, c.isDigit = true := hfraction ▸ n.isDigit_fraction
    have htake := Text.takeWhile_append_of_stop hdigits (isDigit_of_ends hrest)
    have hdrop := Text.dropWhile_append_of_stop hdigits (isDigit_of_ends hrest)
    rw [List.cons_append] at htake hdrop
    simp only [hpointed, List.cons_append, hdigits d List.mem_cons_self, htake, hdrop, toDecimal,
      hfraction, ↓reduceIte]

theorem exists_head_chars : ∃ c cs, n.chars = c :: cs ∧ (c = '-' ∨ c.isDigit = true) := by
  cases hnegative : n.negative with
  | true => exact ⟨'-', n.whole ++ n.pointed, by simp [chars, sign, hnegative], .inl rfl⟩
  | false =>
    obtain ⟨c, whole, hwhole⟩ := List.exists_cons_of_ne_nil n.whole_ne_nil
    refine ⟨c, whole ++ n.pointed, by simp [chars, sign, hnegative, hwhole], .inr ?_⟩
    exact n.isDigit_whole c (hwhole ▸ List.mem_cons_self)

theorem readNumber?_chars (hrest : EndsNumber rest) :
    Token.readNumber? (n.chars ++ rest) = some (.number n.toDecimal.toNumber, rest) := by
  have hdigits := n.readDigits?_chars hrest
  cases hnegative : n.negative with
  | true =>
    rw [hnegative] at hdigits
    simpa [chars, sign, hnegative, Token.readNumber?] using hdigits
  | false =>
    rw [hnegative] at hdigits
    obtain ⟨c, whole, hwhole⟩ := List.exists_cons_of_ne_nil n.whole_ne_nil
    have hdigit : c.isDigit = true := n.isDigit_whole c (hwhole ▸ List.mem_cons_self)
    have hsign : c ≠ '-' := by
      rintro rfl
      cases hdigit
    rw [hwhole] at hdigits
    simpa [chars, sign, hnegative, hwhole, Token.readNumber?, hsign] using hdigits

theorem read?_chars (hrest : EndsNumber rest) :
    Token.read? (n.chars ++ rest) = some (.number n.toDecimal.toNumber, rest) := by
  have hnumber := n.readNumber?_chars hrest
  obtain ⟨c, cs, hchars, hc⟩ := n.exists_head_chars
  rw [hchars, List.cons_append] at hnumber ⊢
  have hspelling : ∀ entry ∈ Token.spellings, ∀ d ∈ entry.1.toList.head?,
      d ≠ '-' ∧ d.isDigit = false := by simp [Token.spellings]
  have hfixed : ∀ entry ∈ Token.spellings, entry.1.toList.head? ≠ some c := by
    intro entry hentry hhead
    obtain ⟨hsign, hdigit⟩ := hspelling entry hentry c hhead
    rw [hdigit] at hc
    exact hc.elim hsign Bool.false_ne_true
  have hbrace : c ≠ '{' := by rintro rfl; revert hc; decide
  have hquote : Token.isQuote c = false := by
    rw [Token.isQuote, Bool.or_eq_false_iff, beq_eq_false_iff_ne, beq_eq_false_iff_ne]
    constructor <;> rintro rfl <;> revert hc <;> decide
  have hreference : Token.readReference? (c :: (cs ++ rest)) = none := by
    simp [Token.readReference?, hbrace]
  have htext : Token.readText? (c :: (cs ++ rest)) = none := by
    simp [Token.readText?, hquote]
  rw [Token.read?, Token.readFixed?_eq_none hfixed, hreference, htext, hnumber]
  rfl

/-- A literal is read as the same number in a test and on its own. -/
theorem number_read?_chars : Number.read? n.chars = some n.toDecimal.toNumber := by
  have hnil : EndsNumber [] := nofun
  have hstop : ∀ c ∈ n.pointed.head?, c.isDigit = false := by
    simpa using n.isDigit_of_pointed hnil
  have hsignificand : Number.significand? (n.whole ++ n.pointed) =
      some (digitsValue (n.whole ++ n.fraction), -(n.fraction.length : Int), []) := by
    have htake := Text.takeWhile_append_of_stop n.isDigit_whole hstop
    have hdrop := Text.dropWhile_append_of_stop n.isDigit_whole hstop
    have htakeFraction := Text.takeWhile_append_of_stop n.isDigit_fraction (isDigit_of_ends hnil)
    have hdropFraction := Text.dropWhile_append_of_stop n.isDigit_fraction (isDigit_of_ends hnil)
    rw [List.append_nil] at htakeFraction hdropFraction
    simp only [Number.significand?, htake, hdrop]
    cases hfraction : n.fraction.isEmpty with
    | true => simp [pointed, List.isEmpty_iff.1 hfraction, n.whole_ne_nil]
    | false => simp [pointed, hfraction, htakeFraction, hdropFraction]
  have hread : Number.readMagnitude? n.negative (n.whole ++ n.pointed) =
      some n.toDecimal.toNumber := by
    rw [Number.readMagnitude?, hsignificand]
    simp [Number.exponent?, toDecimal]
  cases hnegative : n.negative with
  | true =>
    rw [hnegative] at hread
    simpa [chars, sign, hnegative, Number.read?] using hread
  | false =>
    rw [hnegative] at hread
    obtain ⟨c, whole, hwhole⟩ := List.exists_cons_of_ne_nil n.whole_ne_nil
    have hdigit : c.isDigit = true := n.isDigit_whole c (hwhole ▸ List.mem_cons_self)
    have hsign : c ≠ '-' ∧ c ≠ '+' := by constructor <;> rintro rfl <;> cases hdigit
    rw [hwhole] at hread
    simpa [chars, sign, hnegative, hwhole, Number.read?, hsign.1, hsign.2] using hread

theorem read?_chars_of_reads {x : Number} (h : Number.read? n.chars = some x)
    (hrest : EndsOperand rest) : Token.read? (n.chars ++ rest) = some (.number x, rest) := by
  rw [number_read?_chars] at h
  rw [n.read?_chars hrest.endsNumber, Option.some.inj h]

end NumberLiteral

theorem eq_of_isSeparator {c : Char} (hc : isSeparator c = true) :
    c = ' ' ∨ c = '\t' ∨ c = '\n' ∨ c = '\r' := by
  simpa [isSeparator, or_assoc] using hc

theorem Token.isSeparator_of_read? {c : Char} {cs rest : List Char} {t : Token}
    (h : read? (c :: cs) = some (t, rest)) : isSeparator c = false := by
  cases hc : isSeparator c with
  | false => rfl
  | true => obtain rfl | rfl | rfl | rfl := eq_of_isSeparator hc <;> cases h

theorem tokenize_of_read? {cs rest : List Char} {t : Token} {offset : Nat}
    {ts : List (Token × Span)} (hread : Token.read? cs = some (t, rest))
    (hrest : tokenize (offset + (Text.byteSize cs - Text.byteSize rest)) rest = .ok ts) :
    tokenize offset cs =
      .ok ((t, ⟨offset, offset + (Text.byteSize cs - Text.byteSize rest)⟩) :: ts) := by
  cases cs with
  | nil => cases hread
  | cons c cs =>
    rw [tokenize, Token.isSeparator_of_read? hread]
    simp only [Bool.false_eq_true, ↓reduceIte]
    split
    · next hnone =>
      rw [hread] at hnone
      cases hnone
    · next t' rest' hsome =>
      rw [hread] at hsome
      cases hsome
      rw [hrest]

theorem tokenize_of_read?_eq_none {c : Char} {cs : List Char} (hc : isSeparator c = false)
    (hread : Token.read? (c :: cs) = none) (offset : Nat) :
    tokenize offset (c :: cs) = .error ⟨offset, Token.strayText (c :: cs)⟩ := by
  rw [tokenize, hc]
  simp only [Bool.false_eq_true, ↓reduceIte]
  split
  · rfl
  · next hsome => cases hread.symm.trans hsome

/-- A text is cut into tokens, wherever it starts. -/
def Tokenizes (cs : List Char) (ts : List Token) : Prop :=
  ∀ offset, ∃ spanned, tokenize offset cs = .ok spanned ∧ spanned.map Prod.fst = ts

namespace Tokenizes

theorem nil : Tokenizes [] [] := by
  intro offset
  exact ⟨[], by rw [tokenize], rfl⟩

theorem separator {c : Char} (hc : isSeparator c = true) {cs : List Char} {ts : List Token}
    (h : Tokenizes cs ts) : Tokenizes (c :: cs) ts := by
  intro offset
  obtain ⟨spanned, htokenize, hspanned⟩ := h (offset + 1)
  refine ⟨spanned, ?_, hspanned⟩
  rw [tokenize, if_pos hc]
  exact htokenize

theorem space {cs : List Char} {ts : List Token} (h : Tokenizes cs ts) :
    Tokenizes (' ' :: cs) ts :=
  h.separator rfl

theorem token {cs rest : List Char} {t : Token} {ts : List Token}
    (hread : Token.read? cs = some (t, rest)) (h : Tokenizes rest ts) :
    Tokenizes cs (t :: ts) := by
  intro offset
  obtain ⟨spanned, htokenize, hspanned⟩ :=
    h (offset + (Text.byteSize cs - Text.byteSize rest))
  exact ⟨_, tokenize_of_read? hread htokenize, by rw [List.map_cons, hspanned]⟩

end Tokenizes

end MarkupSnippets

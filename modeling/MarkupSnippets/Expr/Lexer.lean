import MarkupSnippets.Expr.Syntax
import MarkupSnippets.Number.Literal
import MarkupSnippets.Text.Cut

namespace MarkupSnippets

structure Span where
  start : Nat
  stop : Nat
deriving DecidableEq

namespace Token

def readFixed? (cs : List Char) : Option (Token × List Char) :=
  spellings.findSome? fun (spelling, t) => (Text.dropStart? spelling.toList cs).map (t, ·)

/-- A path between double braces. It runs up to the next closing brace, which has to be a double
one. -/
def readReference? (cs : List Char) : Option (Token × List Char) :=
  match cs with
  | '{' :: '{' :: inner =>
    match inner.dropWhile (· != '}') with
    | '}' :: '}' :: rest =>
      some (reference (Text.trim (String.ofList (inner.takeWhile (· != '}')))), rest)
    | _ => none
  | _ => none

/-- The characters of a text up to a quote that no backslash precedes, and what follows. A
backslash takes the next character along, unless there is none or a line ends. -/
def quotedRun (quote : Char) : List Char → List Char × List Char
  | [] => ([], [])
  | ['\\'] => ([], ['\\'])
  | '\\' :: c :: cs =>
    if c = '\n' then ([], '\\' :: c :: cs)
    else
      let (run, rest) := quotedRun quote cs
      ('\\' :: c :: run, rest)
  | c :: cs =>
    if c = quote then ([], c :: cs)
    else
      let (run, rest) := quotedRun quote cs
      (c :: run, rest)

def unquote : List Char → List Char
  | [] => []
  | '\\' :: 'n' :: cs => '\n' :: unquote cs
  | '\\' :: 't' :: cs => '\t' :: unquote cs
  | '\\' :: c :: cs => c :: unquote cs
  | c :: cs => c :: unquote cs

def isQuote (c : Char) : Bool := c == '"' || c == '\''

def readText? (cs : List Char) : Option (Token × List Char) :=
  match cs with
  | quote :: inner =>
    if isQuote quote then
      match quotedRun quote inner with
      | (run, q :: rest) =>
        if q = quote then some (text (String.ofList (unquote run)), rest) else none
      | (_, []) => none
    else none
  | [] => none

def readDigits? (negative : Bool) (cs : List Char) : Option (Token × List Char) :=
  let whole := cs.takeWhile Char.isDigit
  let rest := cs.dropWhile Char.isDigit
  let token (fraction : List Char) : Token :=
    number (Decimal.toNumber ⟨negative, digitsValue (whole ++ fraction), -(fraction.length : Int)⟩)
  if whole.isEmpty then none
  else
    match rest with
    | '.' :: d :: more =>
      if d.isDigit then
        some (token ((d :: more).takeWhile Char.isDigit), (d :: more).dropWhile Char.isDigit)
      else some (token [], rest)
    | _ => some (token [], rest)

def readNumber? : List Char → Option (Token × List Char)
  | '-' :: cs => readDigits? true cs
  | cs => readDigits? false cs

/-- The longest token that the text starts with, and the text after it. -/
def read? (cs : List Char) : Option (Token × List Char) :=
  (readFixed? cs).or ((readReference? cs).or ((readText? cs).or (readNumber? cs)))

theorem readFixed?_eq_some {cs rest : List Char} {t : Token} (h : readFixed? cs = some (t, rest)) :
    ∃ spelling, (spelling, t) ∈ spellings ∧ cs = spelling.toList ++ rest := by
  obtain ⟨⟨spelling, t'⟩, hmem, hdrop⟩ := List.exists_of_findSome?_eq_some h
  obtain ⟨r, hr, he⟩ := Option.map_eq_some_iff.1 hdrop
  obtain ⟨rfl, rfl⟩ := Prod.mk.inj he
  exact ⟨spelling, hmem, Text.dropStart?_eq_some.1 hr⟩

theorem toList_ne_nil_of_mem_spellings : ∀ entry ∈ spellings, entry.1.toList ≠ [] := by decide

theorem readReference?_eq_some {cs rest : List Char} {t : Token}
    (h : readReference? cs = some (t, rest)) :
    ∃ path, '}' ∉ path ∧ cs = '{' :: '{' :: (path ++ '}' :: '}' :: rest) ∧
      t = reference (Text.trim (String.ofList path)) := by
  unfold readReference? at h
  split at h
  · next inner =>
    split at h
    · next rest' hrest =>
      obtain ⟨rfl, rfl⟩ := Prod.mk.inj (Option.some.inj h)
      refine ⟨inner.takeWhile (· != '}'), fun hmem => ?_, ?_, rfl⟩
      · simpa using List.all_eq_true.1 List.all_takeWhile _ hmem
      · rw [← hrest, List.takeWhile_append_dropWhile]
    · cases h
  · cases h

theorem quotedRun_append (quote : Char) (cs : List Char) :
    (quotedRun quote cs).1 ++ (quotedRun quote cs).2 = cs := by
  fun_induction quotedRun quote cs <;> simp_all

/-- Whether a text can stand between two quotes: the quote and the backslash stand in it only behind
a backslash, which takes any character along but a line feed. -/
inductive Quotable (quote : Char) : List Char → Prop where
  | nil : Quotable quote []
  | escaped {c : Char} {cs : List Char} (hc : c ≠ '\n') (h : Quotable quote cs) :
      Quotable quote ('\\' :: c :: cs)
  | plain {c : Char} {cs : List Char} (hquote : c ≠ quote) (hbackslash : c ≠ '\\')
      (h : Quotable quote cs) : Quotable quote (c :: cs)

theorem quotable_quotedRun (quote : Char) (cs : List Char) :
    Quotable quote (quotedRun quote cs).1 := by
  fun_induction quotedRun quote cs with
  | case1 | case2 | case3 | case5 => exact .nil
  | case4 c cs hc run rest hrun ih =>
    rw [hrun] at ih
    exact .escaped hc ih
  | case6 c cs hlone hpair hquote run rest hrun ih =>
    rw [hrun] at ih
    have hbackslash : c ≠ '\\' := by
      intro hc
      cases cs with
      | nil => exact hlone hc rfl
      | cons d cs => exact hpair d cs hc rfl
    exact .plain hquote hbackslash ih

theorem readText?_eq_some {cs rest : List Char} {t : Token} (h : readText? cs = some (t, rest)) :
    ∃ quote run, isQuote quote = true ∧ Quotable quote run ∧
      cs = quote :: (run ++ quote :: rest) ∧ t = text (String.ofList (unquote run)) := by
  unfold readText? at h
  split at h
  · next quote inner =>
    split at h
    · next hquote =>
      split at h
      · next run q rest' hrun =>
        split at h
        · next heq =>
          obtain ⟨rfl, rfl⟩ := Prod.mk.inj (Option.some.inj h)
          have hsplit := quotedRun_append quote inner
          have hquotable := quotable_quotedRun quote inner
          rw [hrun] at hsplit hquotable
          exact ⟨quote, run, hquote, hquotable, by rw [← hsplit, heq], rfl⟩
        · cases h
      · cases h
    · cases h
  · cases h

theorem readDigits?_eq_some {negative : Bool} {cs rest : List Char} {t : Token}
    (h : readDigits? negative cs = some (t, rest)) :
    ∃ whole fraction, whole ≠ [] ∧ (∀ c ∈ whole, c.isDigit = true) ∧
      (∀ c ∈ fraction, c.isDigit = true) ∧
      cs = whole ++ ((if fraction.isEmpty then [] else '.' :: fraction) ++ rest) ∧
      t = number (Decimal.toNumber
        ⟨negative, digitsValue (whole ++ fraction), -(fraction.length : Int)⟩) := by
  have hsplit := List.takeWhile_append_dropWhile (p := Char.isDigit) (l := cs)
  have hwhole : ∀ c ∈ cs.takeWhile Char.isDigit, c.isDigit = true :=
    List.all_eq_true.1 List.all_takeWhile
  simp only [readDigits?] at h
  split at h
  · cases h
  · next hne =>
    have hne : cs.takeWhile Char.isDigit ≠ [] := by simpa using hne
    split at h
    · next d more hrest =>
      split at h
      · next hd =>
        obtain ⟨rfl, rfl⟩ := Prod.mk.inj (Option.some.inj h)
        refine ⟨cs.takeWhile Char.isDigit, (d :: more).takeWhile Char.isDigit, hne, hwhole,
          List.all_eq_true.1 List.all_takeWhile, ?_, rfl⟩
        have hfraction : ((d :: more).takeWhile Char.isDigit).isEmpty = false := by simp [hd]
        rw [hfraction, if_neg Bool.false_ne_true, List.cons_append, List.takeWhile_append_dropWhile,
          ← hrest, hsplit]
      · obtain ⟨rfl, rfl⟩ := Prod.mk.inj (Option.some.inj h)
        exact ⟨_, [], hne, hwhole, List.forall_mem_nil _, hsplit.symm, rfl⟩
    · obtain ⟨rfl, rfl⟩ := Prod.mk.inj (Option.some.inj h)
      exact ⟨_, [], hne, hwhole, List.forall_mem_nil _, hsplit.symm, rfl⟩

theorem readNumber?_eq_some {cs rest : List Char} {t : Token}
    (h : readNumber? cs = some (t, rest)) :
    ∃ negative digits, cs = (if negative then ['-'] else []) ++ digits ∧
      readDigits? negative digits = some (t, rest) := by
  unfold readNumber? at h
  split at h
  · next digits => exact ⟨true, digits, rfl, h⟩
  · exact ⟨false, cs, rfl, h⟩

theorem read?_eq_some {cs rest : List Char} {t : Token} (h : read? cs = some (t, rest)) :
    ∃ lexeme, lexeme ≠ [] ∧ cs = lexeme ++ rest := by
  simp only [read?, Option.or_eq_some_iff] at h
  rcases h with h | ⟨_, h | ⟨_, h | ⟨_, h⟩⟩⟩
  · obtain ⟨spelling, hmem, rfl⟩ := readFixed?_eq_some h
    exact ⟨_, toList_ne_nil_of_mem_spellings _ hmem, rfl⟩
  · obtain ⟨path, -, rfl, -⟩ := readReference?_eq_some h
    exact ⟨'{' :: '{' :: (path ++ ['}', '}']), by simp, by simp⟩
  · obtain ⟨quote, run, -, -, rfl, -⟩ := readText?_eq_some h
    exact ⟨quote :: (run ++ [quote]), by simp, by simp⟩
  · obtain ⟨negative, digits, rfl, hdigits⟩ := readNumber?_eq_some h
    obtain ⟨whole, fraction, hne, -, -, rfl, -⟩ := readDigits?_eq_some hdigits
    exact ⟨(if negative then ['-'] else []) ++
      (whole ++ if fraction.isEmpty then [] else '.' :: fraction), by simp [hne], by simp⟩

theorem read?_length_lt {cs rest : List Char} {t : Token} (h : read? cs = some (t, rest)) :
    rest.length < cs.length := by
  obtain ⟨lexeme, hne, rfl⟩ := read?_eq_some h
  have := List.length_pos_iff.2 hne
  simp only [List.length_append]
  omega

/-- The characters at fault where no token can be read: what an unclosed brace pair or quote takes
in, or else a single character. -/
def strayText : List Char → List Char
  | '{' :: '{' :: inner => '{' :: '{' :: inner.takeWhile (· != '}')
  | c :: cs => if isQuote c then c :: (quotedRun c cs).1 else [c]
  | [] => []

end Token

def isSeparator (c : Char) : Bool :=
  c == ' ' || c == '\t' || c == '\n' || c == '\r'

structure Stray where
  start : Nat
  text : List Char

def Stray.span (stray : Stray) : Span :=
  ⟨stray.start, stray.start + Text.byteSize stray.text⟩

def tokenize (offset : Nat) (cs : List Char) : Except Stray (List (Token × Span)) :=
  match cs with
  | [] => .ok []
  | c :: rest =>
    if isSeparator c then tokenize (offset + 1) rest
    else
      match h : Token.read? (c :: rest) with
      | none => .error ⟨offset, Token.strayText (c :: rest)⟩
      | some (t, rest') =>
        have := Token.read?_length_lt h
        let stop := offset + (Text.byteSize (c :: rest) - Text.byteSize rest')
        match tokenize stop rest' with
        | .ok ts => .ok ((t, ⟨offset, stop⟩) :: ts)
        | .error stray => .error stray
termination_by cs.length
decreasing_by
  · exact Nat.lt_succ_self rest.length
  · exact this

end MarkupSnippets

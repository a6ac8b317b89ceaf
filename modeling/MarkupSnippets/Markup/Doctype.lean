import MarkupSnippets.Markup.Attributes
import MarkupSnippets.Markup.Tag

namespace MarkupSnippets.Markup

def quotingStarts : List String := ["!ENTITY", "!ATTLIST", "!NOTATION"]

/-- The text behind a piece of markup inside the bracket, read from behind its `<`. A comment or an
instruction hides everything up to its end, of which its start is no part. -/
def skipBracketMarkup (cs : List Char) : Option (List Char) :=
  match Text.dropStart? "!--".toList cs with
  | some body => Text.behind? "-->".toList body
  | none =>
    match Text.dropStart? "?".toList cs with
    | some body => Text.behind? "?>".toList body
    | none =>
      if quotingStarts.any fun start => start.toList.isPrefixOf cs then
        (cutTag none cs).toOption.map (·.2)
      else Text.behind? ">".toList cs

theorem skipBracketMarkup_length_le {cs rest : List Char}
    (h : skipBracketMarkup cs = some rest) : rest.length ≤ cs.length := by
  have behind {start pattern body : List Char} (hs : Text.dropStart? start cs = some body)
      (h : Text.behind? pattern body = some rest) : rest.length ≤ cs.length := by
    have := Text.behind?_length_le h
    rw [Text.dropStart?_eq_some.1 hs, List.length_append]
    omega
  unfold skipBracketMarkup at h
  split at h
  · next hs => exact behind hs h
  · split at h
    · next hs => exact behind hs h
    · split at h
      · match hcut : cutTag none cs with
        | .error _ => rw [hcut] at h; cases h
        | .ok (content, rest') =>
          rw [hcut] at h
          obtain rfl := Option.some.inj h
          exact Nat.le_of_lt (cutTag_length_lt hcut)
      · exact Text.behind?_length_le h

def skipBracket (cs : List Char) : Option (List Char) :=
  match cs with
  | [] => none
  | c :: rest =>
    if c = ']' then some rest
    else if c = '<' then
      match h : skipBracketMarkup rest with
      | none => none
      | some rest' =>
        have : rest'.length < rest.length + 1 :=
          Nat.lt_succ_of_le (skipBracketMarkup_length_le h)
        skipBracket rest'
    else skipBracket rest
termination_by cs.length

theorem skipBracket_length_lt {cs rest : List Char} (h : skipBracket cs = some rest) :
    rest.length < cs.length := by
  fun_induction skipBracket cs with
  | case1 => cases h
  | case2 => obtain rfl := Option.some.inj h; simp
  | case3 => cases h
  | case4 _ _ _ hlt _ ih => exact Nat.lt_trans (ih h) hlt
  | case5 _ _ _ _ ih => exact Nat.lt_succ_of_lt (ih h)

def behindDoctype (quote : Option Char) : List Char → Option (List Char)
  | [] => none
  | c :: cs =>
    match quote with
    | some q => behindDoctype (if c = q then none else some q) cs
    | none =>
      if c = '>' then some cs
      else if c = '[' then (skipBracket cs).bind (Text.behind? ">".toList)
      else behindDoctype (if c = '"' ∨ c = '\'' then some c else none) cs

theorem behindDoctype_length_lt {quote : Option Char} {cs rest : List Char}
    (h : behindDoctype quote cs = some rest) : rest.length < cs.length := by
  induction cs generalizing quote with
  | nil => cases h
  | cons c cs ih =>
    simp only [behindDoctype] at h
    split at h
    · exact Nat.lt_succ_of_lt (ih h)
    · split at h
      · obtain rfl := Option.some.inj h
        simp
      · split at h
        · obtain ⟨cs', hskip, hbehind⟩ := Option.bind_eq_some_iff.1 h
          have := skipBracket_length_lt hskip
          have := Text.behind?_length_le hbehind
          simp only [List.length_cons]
          omega
        · exact Nat.lt_succ_of_lt (ih h)

/-- The text behind a document type declaration, read from its keyword. The keyword may be in any
case, and a name has to follow. Up to the bracket a quoted text hides what is in it; inside the
bracket stand pieces of markup, each with an end of its own; behind the bracket the first `>` ends
the declaration. -/
def skipDoctype (cs : List Char) : Except Fault (List Char) :=
  match behindDoctype none cs with
  | none => .error .doctypeNotClosed
  | some rest =>
    if (cs.take 7).map Char.toUpper = "DOCTYPE".toList then
      if ((cs.drop 7).dropWhile isSpace).head? = some '>' then .error .missingDoctypeName
      else .ok rest
    else .error .doctypeNotClosed

theorem skipDoctype_length_le {cs rest : List Char} (h : skipDoctype cs = .ok rest) :
    rest.length ≤ cs.length := by
  unfold skipDoctype at h
  split at h
  · cases h
  · next heq =>
    split at h
    · split at h
      · cases h
      · obtain rfl := Except.ok.inj h
        exact Nat.le_of_lt (behindDoctype_length_lt heq)
    · cases h

end MarkupSnippets.Markup

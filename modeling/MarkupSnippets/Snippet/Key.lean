import MarkupSnippets.Text.Cut

namespace MarkupSnippets

namespace Key

/-- Drop each slash that follows a slash. -/
def squeeze (afterSlash : Bool) : List Char → List Char
  | [] => []
  | c :: cs =>
    if c = '/' then
      if afterSlash then squeeze true cs else '/' :: squeeze true cs
    else c :: squeeze false cs

def normalize (cs : List Char) : List Char := '/' :: squeeze true cs

theorem squeeze_squeeze (afterSlash : Bool) (cs : List Char) :
    squeeze afterSlash (squeeze afterSlash cs) = squeeze afterSlash cs := by
  induction cs generalizing afterSlash with
  | nil => rfl
  | cons c cs ih =>
    by_cases hc : c = '/'
    · cases afterSlash <;> simp [squeeze, hc, ih]
    · simp [squeeze, hc, ih]

theorem normalize_normalize (cs : List Char) : normalize (normalize cs) = normalize cs := by
  simp [normalize, squeeze, squeeze_squeeze]

end Key

/-- The key of a snippet: a path that starts with a slash and never has two slashes in a row. It is
a group, which ends in a slash, followed by a name without slashes. -/
structure Key where
  chars : List Char
  normal : Key.normalize chars = chars
deriving DecidableEq

namespace Key

def ofChars (cs : List Char) : Key := ⟨normalize cs, normalize_normalize cs⟩

def ofString (text : String) : Key := ofChars text.toList

def joinSegments (segments : List String) : String := String.intercalate "/" segments

def ofSegments (segments : List String) : Key := ofString (joinSegments segments)

def text (key : Key) : String := String.ofList key.chars

theorem text_inj {k l : Key} : k.text = l.text ↔ k = l := by
  constructor
  · intro h
    have hchars : k.chars = l.chars := String.ofList_injective h
    cases k
    cases l
    cases hchars
    rfl
  · exact congrArg text

def group (key : Key) : String := String.ofList (Text.throughLast '/' key.chars)

def name (key : Key) : String := String.ofList (Text.afterLast '/' key.chars)

def groupChars (cs : List Char) : List Char :=
  let path := normalize cs
  if path.getLast? = some '/' then path else path ++ ['/']

def groupPath (path : String) : String := String.ofList (groupChars path.toList)

end Key

end MarkupSnippets

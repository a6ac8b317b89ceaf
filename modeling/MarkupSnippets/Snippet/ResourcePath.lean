import MarkupSnippets.Text.Cut

namespace MarkupSnippets.ResourcePath

def isAbsolute (path : List Char) : Bool :=
  "/".toList.isPrefixOf path || "http://".toList.isPrefixOf path ||
    "https://".toList.isPrefixOf path

/-- Take one more segment. A step up takes back the segment before it, unless that one is empty or
a step up itself. The segments taken are kept in reverse order. -/
def push (taken : List (List Char)) (segment : List Char) : List (List Char) :=
  match taken with
  | last :: before =>
    if segment = ['.', '.'] ∧ last ≠ [] ∧ last ≠ ['.', '.'] then before else segment :: taken
  | [] => [segment]

def collapse (segments : List (List Char)) : List (List Char) :=
  (segments.foldl push []).reverse

/-- The directory of the source, then the path without a leading step to the same place. -/
def join (source path : List Char) : List Char :=
  Text.throughLast '/' source ++ (Text.dropStart? "./".toList path).getD path

def resolveChars (source path : List Char) : List Char :=
  if isAbsolute path then path
  else ['/'].intercalate (collapse (Text.splitChars '/' (join source path)))

def resolve (source path : String) : String :=
  String.ofList (resolveChars source.toList path.toList)

end MarkupSnippets.ResourcePath

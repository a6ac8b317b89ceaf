namespace MarkupSnippets

structure Frame where
  tag : String
  location : String
deriving DecidableEq

def Frame.render (frame : Frame) : String :=
  frame.tag ++ "\t@" ++ frame.location

/-- The opening tags that lead to a place in a template, outermost first. -/
abbrev Origin := List Frame

namespace Origin

/-- Each frame on a line of its own, two spaces deeper than the one around it. -/
def lines (depth : Nat) : Origin → List String
  | [] => []
  | frame :: frames =>
    (String.ofList (List.replicate (2 * depth) ' ') ++ frame.render) :: lines (depth + 1) frames

def render (origin : Origin) : String :=
  String.intercalate "\n" (lines 0 origin)

def suffix (origin : Origin) : String :=
  if origin.isEmpty then "" else "\n" ++ origin.render

end Origin

end MarkupSnippets

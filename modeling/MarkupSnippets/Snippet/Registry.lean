import MarkupSnippets.Markup.Syntax
import MarkupSnippets.Record
import MarkupSnippets.Snippet.Group

namespace MarkupSnippets

/-- A stored definition: the root template and the namespace that its output element gets. -/
structure Snippet where
  key : Key
  source : String
  ns : String
  template : Markup.Element

/-- How the snippet is called in a chain of productions. -/
def Snippet.token (snippet : Snippet) : String :=
  snippet.source ++ ":" ++ snippet.key.text

structure Registry where
  snippets : Record Snippet
  sources : List String

namespace Registry

def empty : Registry := ⟨.empty, []⟩

def get? (r : Registry) (key : Key) : Option Snippet := r.snippets.get? key.text

def has (r : Registry) (key : Key) : Bool := (r.get? key).isSome

def put (r : Registry) (snippet : Snippet) : Registry :=
  { r with snippets := r.snippets.insert snippet.key.text snippet }

def markSource (r : Registry) (source : String) : Registry :=
  if r.sources.contains source then r else { r with sources := source :: r.sources }

def hasSource (r : Registry) (source : String) : Bool := r.sources.contains source

def keys (r : Registry) : List Key := r.snippets.toList.map fun (_, snippet) => snippet.key

def listSnippets (r : Registry) (path : String) (recursive : Bool) : List Key :=
  if recursive then Key.below r.keys (Key.groupPath path)
  else Key.members r.keys (Key.groupPath path)

/-- The sub-groups of a group. The recursive list has each followed by its own sub-groups. -/
def listGroups (r : Registry) (path : String) (recursive : Bool) : List String :=
  if recursive then Key.groupsBelow r.keys (Key.groupPath path)
  else Key.subgroups r.keys (Key.groupPath path)

end Registry

end MarkupSnippets

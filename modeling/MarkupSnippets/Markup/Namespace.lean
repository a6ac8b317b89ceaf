import MarkupSnippets.Markup.Attributes

namespace MarkupSnippets.Markup

/-- Bindings of prefixes to namespaces, innermost first. The empty prefix is that of the default
namespace, and an empty namespace takes a binding back. -/
abbrev Scope := List (List Char × List Char)

namespace Scope

def initial : Scope :=
  [("xml".toList, xmlNs.toList), ("xmlns".toList, xmlnsNs.toList)]

def namespace? (scope : Scope) (pfx : List Char) : Option String :=
  match scope.lookup pfx with
  | some ns => if ns.isEmpty then none else some (String.ofList ns)
  | none => none

def element? (scope : Scope) : Option (List Char) → Option String
  | none => scope.namespace? []
  | some pfx => if pfx.isEmpty then none else scope.namespace? pfx

/-- The namespace of an attribute name. Without a prefix it has none. -/
def attribute? (scope : Scope) : Option (List Char) → Option String
  | none => none
  | some pfx => if pfx.isEmpty then none else scope.namespace? pfx

def declared? (key : List Char) : Option (Option (List Char)) :=
  if key = "xmlns".toList then some none
  else (Text.dropStart? "xmlns:".toList key).map some

/-- Bind a prefix. The two reserved prefixes and their namespaces belong to each other. -/
def bind (scope : Scope) (pfx : Option (List Char)) (ns : List Char) : Except Fault Scope :=
  match pfx with
  | none => .ok (([], ns) :: scope)
  | some pfx =>
    if pfx = "xml".toList then
      if ns = xmlNs.toList then .ok scope else .error (.reservedPrefixXml ns)
    else if pfx = "xmlns".toList then .error (.reservedPrefixXmlns ns)
    else if ns = xmlNs.toList then .error (.reservedXml pfx)
    else if ns = xmlnsNs.toList then .error (.reservedXmlns pfx)
    else .ok ((pfx, ns) :: scope)

def enter (scope : Scope) : List RawAttribute → Except Fault Scope
  | [] => .ok scope
  | a :: attributes =>
    match declared? a.key with
    | some pfx =>
      match scope.bind pfx a.value with
      | .ok inner => inner.enter attributes
      | .error fault => .error fault
    | none => scope.enter attributes

end Scope

def splitName (name : List Char) : Option (List Char) × List Char :=
  match Text.splitAt? [':'] name with
  | some (pfx, localName) => (some pfx, localName)
  | none => (none, name)

end MarkupSnippets.Markup

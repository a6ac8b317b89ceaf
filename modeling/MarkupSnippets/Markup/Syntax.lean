namespace MarkupSnippets.Markup

def qualify (pfx : Option String) (name : String) : String :=
  match pfx with
  | some p => p ++ ":" ++ name
  | none => name

structure Attribute where
  ns : Option String
  pfx : Option String
  name : String
  value : String
deriving DecidableEq

def Attribute.qualifiedName (a : Attribute) : String := qualify a.pfx a.name

structure Tag where
  ns : Option String
  pfx : Option String
  name : String
  attributes : List Attribute
deriving DecidableEq

namespace Tag

def isIn (tag : Tag) (ns : String) : Bool := tag.ns == some ns

def qualifiedName (tag : Tag) : String := qualify tag.pfx tag.name

def attributeIn? (tag : Tag) (ns : Option String) (name : String) : Option String :=
  (tag.attributes.find? fun a => a.name == name && a.ns == ns).map (·.value)

def attribute? (tag : Tag) (name : String) : Option String := tag.attributeIn? none name

/-- The value of an attribute that may be written with or without the namespace. With it wins. -/
def attributeEither? (tag : Tag) (ns name : String) : Option String :=
  (tag.attributeIn? (some ns) name).or (tag.attribute? name)

def opening (tag : Tag) : String :=
  "<" ++ tag.qualifiedName ++
    String.join (tag.attributes.map fun a => " " ++ a.qualifiedName ++ "=\"" ++ a.value ++ "\"") ++
    ">"

end Tag

inductive Node where
  | text (content : String)
  | element (tag : Tag) (children : List Node)

instance : Inhabited Node := ⟨.text ""⟩

structure Element where
  tag : Tag
  children : List Node

namespace Element

def toNode (e : Element) : Node := .element e.tag e.children

/-- The first child, if it is a text. -/
def firstText? (children : List Node) : Option String :=
  match children with
  | .text content :: _ => some content
  | _ => none

def childElements : List Node → List Element
  | [] => []
  | .text _ :: rest => childElements rest
  | .element tag children :: rest => ⟨tag, children⟩ :: childElements rest

end Element

end MarkupSnippets.Markup

import MarkupSnippets.Record

namespace MarkupSnippets.Output

/-- An attribute; the prefix is only a wish. -/
structure Attribute where
  ns : Option String
  pfx : Option String
  name : String
  value : String
deriving DecidableEq

/-- Handlers are known by a binding name and stand for callables of the host. They are never
written. -/
structure Tag where
  ns : String
  name : String
  attributes : List Attribute
  handlers : Record String
deriving DecidableEq

inductive Node where
  | text (content : String)
  | element (tag : Tag) (children : List Node)

instance : Inhabited Node := ⟨.text ""⟩

structure Element where
  tag : Tag
  children : List Node

def Attribute.sameName (a b : Attribute) : Bool := a.name == b.name && a.ns == b.ns

/-- Put an attribute in the place of the first one with its name, or else behind all others. -/
def setAttribute (a : Attribute) : List Attribute → List Attribute
  | [] => [a]
  | b :: rest => if b.sameName a then a :: rest else b :: setAttribute a rest

mutual

def Node.textContent : Node → String
  | .text content => content
  | .element _ children => textContents children

def textContents : List Node → String
  | [] => ""
  | node :: rest => node.textContent ++ textContents rest

end

mutual

/-- Whether two trees are equal, of the handlers only the binding names being compared. -/
def Node.same : Node → Node → Bool
  | .text s, .text t => s == t
  | .element a xs, .element b ys =>
    a.ns == b.ns && a.name == b.name && a.attributes == b.attributes && sameNodes xs ys &&
      a.handlers.keys == b.handlers.keys
  | _, _ => false

def sameNodes : List Node → List Node → Bool
  | [], [] => true
  | x :: xs, y :: ys => x.same y && sameNodes xs ys
  | _, _ => false

end

namespace Element

def new (ns name : String) : Element := ⟨⟨ns, name, [], .empty⟩, []⟩

instance : Inhabited Element := ⟨new "" ""⟩

def toNode (e : Element) : Node := .element e.tag e.children

def setAttribute (e : Element) (a : Attribute) : Element :=
  { e with tag := { e.tag with attributes := Output.setAttribute a e.tag.attributes } }

def attributeIn? (e : Element) (ns : Option String) (name : String) : Option String :=
  (e.tag.attributes.find? fun a => a.name == name && a.ns == ns).map (·.value)

def attribute? (e : Element) (name : String) : Option String := e.attributeIn? none name

def isPlainNamed (name : String) (a : Attribute) : Bool := a.name == name && a.ns == none

def removeAttribute (e : Element) (name : String) : Option Attribute × Element :=
  (e.tag.attributes.find? (isPlainNamed name),
    { e with tag := { e.tag with attributes := e.tag.attributes.eraseP (isPlainNamed name) } })

def append (e : Element) (node : Node) : Element := { e with children := e.children ++ [node] }

def appendText (e : Element) (content : String) : Element := e.append (.text content)

def appendChild (e : Element) (child : Element) : Element := e.append child.toNode

def setHandler (e : Element) (name callable : String) : Element :=
  { e with tag := { e.tag with handlers := e.tag.handlers.insert name callable } }

def handler? (e : Element) (name : String) : Option String := e.tag.handlers.get? name

def textContent (e : Element) : String := textContents e.children

def childElements (e : Element) : List Element :=
  e.children.filterMap fun node =>
    match node with
    | .text _ => none
    | .element tag children => some ⟨tag, children⟩

def same (e f : Element) : Bool := e.toNode.same f.toNode

end Element

end MarkupSnippets.Output

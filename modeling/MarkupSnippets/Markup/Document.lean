import MarkupSnippets.Markup.Event
import MarkupSnippets.Markup.Namespace
import MarkupSnippets.Markup.Syntax

namespace MarkupSnippets.Markup

def readAttributes (scope : Scope) (seen : List RawAttribute) (flaw : Option Flaw) :
    List RawAttribute → Except Fault (List Attribute)
  | [] =>
    match flaw with
    | none => .ok []
    | some (.key fault) => .error fault
    | some (.value position key fault) =>
      match seen.find? fun earlier => earlier.key == key with
      | some earlier => .error (.duplicate position earlier.position)
      | none => .error fault
  | a :: rest =>
    match seen.find? fun earlier => earlier.key == a.key with
    | some earlier => .error (.duplicate a.position earlier.position)
    | none =>
      if (Scope.declared? a.key).isSome then readAttributes scope (seen ++ [a]) flaw rest
      else do
        let (pfx, name) := splitName a.key
        let value ← unescape a.value
        let attributes ← readAttributes scope (seen ++ [a]) flaw rest
        return {
          ns := scope.attribute? pfx
          pfx := pfx.map String.ofList
          name := String.ofList name
          value := String.ofList value } :: attributes

def readOpening (scope : Scope) (content : List Char) : Except Fault (Tag × Scope) := do
  let (name, raw, flaw) := readTag content
  let inner ← scope.enter raw
  let (pfx, localName) := splitName name
  let attributes ← readAttributes inner [] flaw raw
  return ({
    ns := inner.element? pfx
    pfx := pfx.map String.ofList
    name := String.ofList localName
    attributes }, inner)

/-- An element that is still open, its children in reverse order. -/
structure OpenElement where
  tag : Tag
  scope : Scope
  children : List Node

def pushText (text : String) : List Node → List Node
  | .text previous :: rest => .text (previous ++ text) :: rest
  | children => .text text :: children

/-- The elements that are open, innermost first, and the root element once it is closed. -/
structure Reading where
  elements : List OpenElement
  root : Option Element

namespace Reading

def start : Reading := ⟨[], none⟩

def scope (r : Reading) : Scope :=
  match r.elements with
  | e :: _ => e.scope
  | [] => Scope.initial

def text (r : Reading) (content : String) : Reading :=
  match r.elements with
  | e :: outer => { r with elements := { e with children := pushText content e.children } :: outer }
  | [] => r

def add (r : Reading) (element : Element) : Except Error Reading :=
  match r.elements with
  | e :: outer =>
    .ok { r with elements := { e with children := element.toNode :: e.children } :: outer }
  | [] =>
    match r.root with
    | some _ => .error .trailing
    | none => .ok { r with root := some element }

def open? (r : Reading) (content : List Char) : Except Error Reading :=
  match readOpening r.scope content with
  | .error fault => .error (.fault fault)
  | .ok (tag, inner) =>
    match r.root with
    | some _ => .error .trailing
    | none => .ok { r with elements := ⟨tag, inner, []⟩ :: r.elements }

def empty? (r : Reading) (content : List Char) : Except Error Reading :=
  match readOpening r.scope content with
  | .error fault => .error (.fault fault)
  | .ok (tag, _) => r.add ⟨tag, []⟩

def close? (r : Reading) (name : List Char) : Except Error Reading :=
  match r.elements with
  | [] => .error (.fault (.unmatchedEnd (String.ofList name)))
  | e :: outer =>
    if e.tag.qualifiedName = String.ofList name then
      { r with elements := outer }.add ⟨e.tag, e.children.reverse⟩
    else .error (.fault (.mismatchedEnd e.tag.qualifiedName (String.ofList name)))

def finish (r : Reading) : Except Error Element :=
  match r.elements with
  | e :: _ => .error (.unexpectedEnd e.tag.qualifiedName)
  | [] =>
    match r.root with
    | some root => .ok root
    | none => .error .noRoot

def step (r : Reading) : Event → Except Error Reading
  | .opening content => r.open? content
  | .empty content => r.empty? content
  | .closing name => r.close? name
  | .text content => .ok (r.text (String.ofList content))
  | .fault fault => .error (.fault fault)

end Reading

def build (events : List Event) : Except Error Element :=
  match events.foldlM Reading.step Reading.start with
  | .ok r => r.finish
  | .error e => .error e

/-- The root element of a document, which may start with a byte order mark. Texts next to each other
become one, and what stands outside of the root is dropped. -/
def parse (text : String) : Except Error Element :=
  let cs := text.toList
  build (events (if cs.head? = some '\uFEFF' then cs.tail else cs))

end MarkupSnippets.Markup

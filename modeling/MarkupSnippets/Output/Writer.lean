import MarkupSnippets.Markup.Fault
import MarkupSnippets.Output.Syntax

namespace MarkupSnippets.Output

def escapeText (c : Char) : List Char :=
  match c with
  | '<' => "&lt;".toList
  | '>' => "&gt;".toList
  | '&' => "&amp;".toList
  | c => [c]

def escapeValue (c : Char) : List Char :=
  match c with
  | '\'' => "&apos;".toList
  | '"' => "&quot;".toList
  | c => escapeText c

def textMarkup (content : String) : List Char := content.toList.flatMap escapeText

def valueMarkup (value : String) : List Char := value.toList.flatMap escapeValue

abbrev Declarations := List (String × String)

namespace Declarations

def taken (declared : Declarations) (pfx : String) : Bool :=
  pfx == "xml" || pfx == "xmlns" || declared.any fun entry => entry.1 == pfx

def generated (n : Nat) : String := "ns" ++ toString n

/-- The first generated prefix that is free. There are more candidates than declared prefixes. -/
def fresh (declared : Declarations) : String :=
  (((List.range (declared.length + 1)).map generated).find? fun pfx => !declared.taken pfx).getD ""

def choose (declared : Declarations) (preferred : Option String) : String :=
  match preferred with
  | some pfx => if pfx != "" && !declared.taken pfx then pfx else declared.fresh
  | none => declared.fresh

def prefixFor (declared : Declarations) (preferred : Option String) (ns : String) :
    String × Declarations :=
  match declared.find? fun entry => entry.2 == ns with
  | some entry => (entry.1, declared)
  | none =>
    let pfx := declared.choose preferred
    (pfx, declared ++ [(pfx, ns)])

/-- The declarations for the attributes of an element, and the names to write for them. -/
def allocate (declared : Declarations) : List Attribute → Declarations × List String
  | [] => (declared, [])
  | a :: rest =>
    match a.ns with
    | none =>
      let (final, names) := allocate declared rest
      (final, a.name :: names)
    | some ns =>
      if ns = Markup.xmlNs then
        let (final, names) := allocate declared rest
        (final, ("xml:" ++ a.name) :: names)
      else
        let (pfx, declared) := declared.prefixFor a.pfx ns
        let (final, names) := allocate declared rest
        (final, (pfx ++ ":" ++ a.name) :: names)

end Declarations

def attributeMarkup (name value : String) : List Char :=
  ' ' :: (name.toList ++ '=' :: '"' :: (valueMarkup value ++ ['"']))

def tagMarkup (outer : Option String) (tag : Tag) : List Char :=
  let (declared, names) := Declarations.allocate [] tag.attributes
  let ownNs := if outer = some tag.ns then [] else attributeMarkup "xmlns" tag.ns
  let declarations := declared.flatMap fun (pfx, ns) => attributeMarkup ("xmlns:" ++ pfx) ns
  let attributes := (names.zip tag.attributes).flatMap fun (name, a) => attributeMarkup name a.value
  '<' :: (tag.name.toList ++ ownNs ++ declarations ++ attributes)

mutual

/-- The markup of a node inside an element of a namespace. A namespace is declared where an element
has another one than the element around it, prefixes for attributes on each element anew. -/
def Node.markup (outer : Option String) : Node → List Char
  | .text content => textMarkup content
  | .element tag children =>
    tagMarkup outer tag ++
      if children.isEmpty then "/>".toList
      else '>' :: (nodesMarkup tag.ns children ++ "</".toList ++ tag.name.toList ++ ['>'])

def nodesMarkup (outer : String) : List Node → List Char
  | [] => []
  | node :: rest => node.markup (some outer) ++ nodesMarkup outer rest

end

def Element.toXml (e : Element) : String := String.ofList (e.toNode.markup none)

end MarkupSnippets.Output

import MarkupSnippets.Proofs.Escaping
import MarkupSnippets.Proofs.Prefixes

namespace MarkupSnippets

namespace Markup

variable (f : String → String)

def Attribute.mapNs (a : Attribute) : Attribute := { a with ns := a.ns.map f }

def Tag.mapNs (tag : Tag) : Tag :=
  { tag with ns := tag.ns.map f, attributes := tag.attributes.map (Attribute.mapNs f) }

mutual

def Node.mapNs : Node → Node
  | .text content => .text content
  | .element tag children => .element (tag.mapNs f) (mapNodesNs children)

def mapNodesNs : List Node → List Node
  | [] => []
  | node :: rest => node.mapNs :: mapNodesNs rest

end

def Element.mapNs (e : Element) : Element := ⟨e.tag.mapNs f, mapNodesNs f e.children⟩

end Markup

namespace Output

structure Attribute.Writable (a : Attribute) : Prop where
  name : Markup.isNcName a.name = true
  pfx : ∀ pfx, a.pfx = some pfx → Markup.isNcName pfx = true
  ne_xmlns : a.ns = none → a.name ≠ "xmlns"
  ns_ne_empty : a.ns ≠ some ""
  ns_ne_xmlnsNs : a.ns ≠ some Markup.xmlnsNs
  ns_literal : ∀ ns, a.ns = some ns → isLiteral ns = true

structure Tag.Writable (tag : Tag) : Prop where
  name : Markup.isNcName tag.name = true
  ns_ne_xmlNs : tag.ns ≠ Markup.xmlNs
  ns_ne_xmlnsNs : tag.ns ≠ Markup.xmlnsNs
  ns_literal : isLiteral tag.ns = true
  attributes : ∀ a ∈ tag.attributes, a.Writable
  distinct : (tag.attributes.map fun a => (a.ns, a.name)).Nodup

inductive Node.Writable : Node → Prop where
  | text (content : String) : Writable (.text content)
  | element {tag : Tag} {children : List Node} (htag : tag.Writable)
      (hchildren : ∀ child ∈ children, Writable child) : Writable (.element tag children)

structure Attribute.Named (a : Attribute) : Prop where
  name : Markup.isNcName a.name = true
  pfx : ∀ pfx, a.pfx = some pfx → Markup.isNcName pfx = true
  ne_xmlns : a.ns = none → a.name ≠ "xmlns"
  ns_ne_empty : a.ns ≠ some ""
  ns_ne_xmlnsNs : a.ns ≠ some Markup.xmlnsNs

structure Tag.Named (tag : Tag) : Prop where
  name : Markup.isNcName tag.name = true
  ns_ne_xmlNs : tag.ns ≠ Markup.xmlNs
  ns_ne_xmlnsNs : tag.ns ≠ Markup.xmlnsNs
  attributes : ∀ a ∈ tag.attributes, a.Named
  distinct : (tag.attributes.map fun a => (a.ns, a.name)).Nodup

inductive Node.Named : Node → Prop where
  | text (content : String) : Named (.text content)
  | element {tag : Tag} {children : List Node} (htag : tag.Named)
      (hchildren : ∀ child ∈ children, Named child) : Named (.element tag children)

theorem Attribute.Writable.named {a : Attribute} (h : a.Writable) : a.Named :=
  ⟨h.name, h.pfx, h.ne_xmlns, h.ns_ne_empty, h.ns_ne_xmlnsNs⟩

theorem Tag.Writable.named {tag : Tag} (h : tag.Writable) : tag.Named :=
  ⟨h.name, h.ns_ne_xmlNs, h.ns_ne_xmlnsNs, fun a ha => (h.attributes a ha).named, h.distinct⟩

theorem Node.Writable.named {node : Node} (h : node.Writable) : node.Named := by
  induction h with
  | text content => exact .text content
  | element htag _ ih => exact .element htag.named ih

def Attribute.readBack (declared : Declarations) (a : Attribute) : Markup.Attribute where
  ns := a.ns
  pfx := declared.writtenPfx? a
  name := a.name
  value := a.value

def Tag.declared (tag : Tag) : Declarations := (Declarations.allocate [] tag.attributes).1

def Tag.readBack (tag : Tag) : Markup.Tag where
  ns := if tag.ns = "" then none else some tag.ns
  pfx := none
  name := tag.name
  attributes := tag.attributes.map (Attribute.readBack tag.declared)

def consText (content : String) (nodes : List Markup.Node) : List Markup.Node :=
  if content = "" then nodes
  else
    match nodes with
    | .text next :: rest => .text (content ++ next) :: rest
    | nodes => .text content :: nodes

mutual

/-- What is read for a node in front of others. -/
def Node.readBefore (rest : List Markup.Node) : Node → List Markup.Node
  | .text content => consText content rest
  | .element tag children => .element tag.readBack (readNodes children) :: rest

def readNodes : List Node → List Markup.Node
  | [] => []
  | node :: rest => node.readBefore (readNodes rest)

end

def Element.readBack (e : Element) : Markup.Element := ⟨e.tag.readBack, readNodes e.children⟩

/-- A namespace as the reader takes it from its declaration. -/
def asWritten (ns : String) : String := String.ofList (valueMarkup ns)

theorem asWritten_eq_iff {ns : String} : asWritten ns = ns ↔ isLiteral ns = true := by
  rw [asWritten, ← String.toList_inj, String.toList_ofList]
  exact ⟨isLiteral_of_valueMarkup, valueMarkup_eq⟩

theorem mapNodesNs_consText (f : String → String) (content : String) (nodes : List Markup.Node) :
    Markup.mapNodesNs f (consText content nodes) =
      consText content (Markup.mapNodesNs f nodes) := by
  unfold consText
  split
  · rfl
  · cases nodes with
    | nil => rfl
    | cons node rest => cases node <;> rfl

theorem Attribute.Writable.mapNs_readBack {a : Attribute} (h : a.Writable)
    (declared : Declarations) : (a.readBack declared).mapNs asWritten = a.readBack declared := by
  have hns : a.ns.map asWritten = a.ns := by
    cases hns : a.ns with
    | none => rfl
    | some ns => exact congrArg some (asWritten_eq_iff.2 (h.ns_literal ns hns))
  rw [Markup.Attribute.mapNs, Attribute.readBack, hns]

theorem Tag.Writable.mapNs_readBack {tag : Tag} (h : tag.Writable) :
    tag.readBack.mapNs asWritten = tag.readBack := by
  have hns : tag.readBack.ns.map asWritten = tag.readBack.ns := by
    unfold readBack
    split
    · rfl
    · exact congrArg some (asWritten_eq_iff.2 h.ns_literal)
  have hattributes : tag.readBack.attributes.map (Markup.Attribute.mapNs asWritten) =
      tag.readBack.attributes := by
    rw [readBack, List.map_map]
    exact List.map_congr_left fun a ha => (h.attributes a ha).mapNs_readBack tag.declared
  rw [Markup.Tag.mapNs, hns, hattributes]

theorem mapNodesNs_readNodes {nodes : List Node}
    (h : ∀ tag children, .element tag children ∈ nodes →
      (Element.mk tag children).readBack.mapNs asWritten = (Element.mk tag children).readBack) :
    Markup.mapNodesNs asWritten (readNodes nodes) = readNodes nodes := by
  induction nodes with
  | nil => rfl
  | cons node rest ih =>
    have hrest := ih fun tag children hmem => h tag children (List.mem_cons_of_mem node hmem)
    cases node with
    | text content => rw [readNodes, Node.readBefore, mapNodesNs_consText, hrest]
    | element tag children =>
      obtain ⟨htag, hchildren⟩ := Markup.Element.mk.inj (h tag children List.mem_cons_self)
      rw [readNodes, Node.readBefore, Markup.mapNodesNs, Markup.Node.mapNs, hrest]
      exact congrArg (· :: readNodes rest) (congrArg₂ Markup.Node.element htag hchildren)

theorem Node.Writable.mapNs_readBack {node : Node} (h : node.Writable) :
    ∀ tag children, node = .element tag children →
      (Element.mk tag children).readBack.mapNs asWritten = (Element.mk tag children).readBack := by
  induction h with
  | text content => exact nofun
  | element htag _ ih =>
    rintro tag children ⟨⟩
    have hchildren := mapNodesNs_readNodes fun other nodes hmem => ih _ hmem other nodes rfl
    exact congrArg₂ Markup.Element.mk htag.mapNs_readBack hchildren

end Output

end MarkupSnippets

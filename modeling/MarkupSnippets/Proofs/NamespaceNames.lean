import MarkupSnippets.Proofs.ReadBack
import MarkupSnippets.Proofs.WholeDocuments

namespace MarkupSnippets

namespace Markup

def Tag.namespaces (tag : Tag) : List (Option String) := tag.ns :: tag.attributes.map Attribute.ns

mutual

/-- The namespaces of elements and attributes, in the order of the document. -/
def Node.namespaces : Node → List (Option String)
  | .text _ => []
  | .element tag children => tag.namespaces ++ namespacesOf children

def namespacesOf : List Node → List (Option String)
  | [] => []
  | node :: rest => node.namespaces ++ namespacesOf rest

end

def Element.namespaces (e : Element) : List (Option String) :=
  e.tag.namespaces ++ namespacesOf e.children

variable (f : String → String)

theorem Tag.namespaces_mapNs (tag : Tag) :
    (tag.mapNs f).namespaces = tag.namespaces.map (Option.map f) := by
  simp [namespaces, mapNs, Attribute.mapNs, Function.comp_def]

mutual

theorem Node.namespaces_mapNs (node : Node) :
    (node.mapNs f).namespaces = node.namespaces.map (Option.map f) := by
  cases node with
  | text content => rfl
  | element tag children =>
    rw [Node.mapNs, Node.namespaces, Node.namespaces, Tag.namespaces_mapNs,
      namespacesOf_mapNodesNs, List.map_append]

theorem namespacesOf_mapNodesNs (nodes : List Node) :
    namespacesOf (mapNodesNs f nodes) = (namespacesOf nodes).map (Option.map f) := by
  cases nodes with
  | nil => rfl
  | cons node rest =>
    rw [mapNodesNs, namespacesOf, namespacesOf, Node.namespaces_mapNs, namespacesOf_mapNodesNs,
      List.map_append]

end

theorem Element.namespaces_mapNs (e : Element) :
    (e.mapNs f).namespaces = e.namespaces.map (Option.map f) := by
  rw [mapNs, namespaces, namespaces, Tag.namespaces_mapNs, namespacesOf_mapNodesNs,
    List.map_append]

end Markup

namespace Output

open Markup (Reading)

def Tag.namespaces (tag : Tag) : List (Option String) :=
  (if tag.ns = "" then none else some tag.ns) :: tag.attributes.map Attribute.ns

mutual

/-- The namespaces of elements and attributes, in the order in which they are written. -/
def Node.namespaces : Node → List (Option String)
  | .text _ => []
  | .element tag children => tag.namespaces ++ namespacesOf children

def namespacesOf : List Node → List (Option String)
  | [] => []
  | node :: rest => node.namespaces ++ namespacesOf rest

end

def Element.namespaces (e : Element) : List (Option String) :=
  e.tag.namespaces ++ namespacesOf e.children

theorem Tag.namespaces_readBack (tag : Tag) : tag.readBack.namespaces = tag.namespaces := by
  rw [Markup.Tag.namespaces, readBack, List.map_map]
  rfl

theorem namespacesOf_consText (content : String) (nodes : List Markup.Node) :
    Markup.namespacesOf (consText content nodes) = Markup.namespacesOf nodes := by
  unfold consText
  split
  · rfl
  · cases nodes with
    | nil => rfl
    | cons node rest => cases node <;> rfl

mutual

theorem Node.namespaces_readBefore (rest : List Markup.Node) (node : Node) :
    Markup.namespacesOf (node.readBefore rest) = node.namespaces ++ Markup.namespacesOf rest := by
  cases node with
  | text content => exact namespacesOf_consText content rest
  | element tag children =>
    rw [Node.readBefore, Markup.namespacesOf, Markup.Node.namespaces, Node.namespaces,
      Tag.namespaces_readBack, namespacesOf_readNodes]

theorem namespacesOf_readNodes (nodes : List Node) :
    Markup.namespacesOf (readNodes nodes) = namespacesOf nodes := by
  cases nodes with
  | nil => rfl
  | cons node rest =>
    rw [readNodes, namespacesOf, Node.namespaces_readBefore, namespacesOf_readNodes]

end

theorem Element.namespaces_readBack (e : Element) : e.readBack.namespaces = e.namespaces := by
  rw [readBack, Markup.Element.namespaces, namespaces, Tag.namespaces_readBack,
    namespacesOf_readNodes]

variable {e : Element}

theorem body_toXml : Markup.body e.toXml = e.toNode.markup none := by
  have hmark : (e.toNode.markup none).head? ≠ some '\uFEFF' := by
    rw [Element.toNode, Node.markup, tagMarkup_eq]
    exact fun hc => absurd (Option.some.inj hc) (by decide)
  rw [Markup.body, Element.toXml, String.toList_ofList, if_neg hmark]

/-- What is written for a tree is read as the tree, but for its namespaces: those come back with
their escapes. -/
theorem parse_toXml_of_named (h : e.toNode.Named) :
    Markup.parse e.toXml = .ok (e.readBack.mapNs asWritten) := by
  have hread := readsAs_of_named h e.tag e.children rfl Reading.start none [] rfl ⟨rfl, nofun⟩
  rw [List.append_nil] at hread
  rw [Markup.parse_eq_ok_iff, body_toXml]
  exact hread.trans (Reading.run_nil _)

/-- A tree can be read, and wherever it has a namespace, this is read exactly if nothing in it is
escaped. -/
theorem namespace_survives_iff (h : e.toNode.Named) :
    ∃ root, Markup.parse e.toXml = .ok root ∧ root = e.readBack.mapNs asWritten ∧
      ∀ (place : Nat) (ns : String), e.namespaces[place]? = some (some ns) →
        (root.namespaces[place]? = some (some ns) ↔ isLiteral ns = true) := by
  refine ⟨_, parse_toXml_of_named h, rfl, fun place ns hns => ?_⟩
  rw [Markup.Element.namespaces_mapNs, Element.namespaces_readBack, List.getElem?_map, hns]
  change some (some (asWritten ns)) = some (some ns) ↔ _
  rw [Option.some_inj, Option.some_inj, asWritten_eq_iff]

def escapedNamespace : Element where
  tag := ⟨"u", "p", [⟨some "a<b", some "x", "k", "v"⟩], .empty⟩
  children := [.text "t", .element ⟨"u", "q", [], .empty⟩ []]

theorem escapedNamespace_named : escapedNamespace.toNode.Named := by
  have hattribute : Attribute.Named ⟨some "a<b", some "x", "k", "v"⟩ :=
    ⟨by decide, by rintro _ ⟨⟩; decide, nofun, by decide, by decide⟩
  have hroot : escapedNamespace.tag.Named :=
    ⟨by decide, by decide, by decide, List.forall_mem_singleton.2 hattribute, by decide⟩
  have hinner : Tag.Named ⟨"u", "q", [], .empty⟩ :=
    ⟨by decide, by decide, by decide, nofun, List.nodup_nil⟩
  exact .element hroot (List.forall_mem_cons.2 ⟨.text "t",
    List.forall_mem_singleton.2 (.element hinner nofun)⟩)

theorem namespace_survives_iff_escaped :
    escapedNamespace.toNode.Named ∧ escapedNamespace.namespaces = [some "u", some "a<b", some "u"] ∧
      ∃ root, Markup.parse escapedNamespace.toXml = .ok root ∧
        root.namespaces[0]? = some (some "u") ∧
        root.namespaces[1]? ≠ some (some "a<b") ∧ root.namespaces[2]? = some (some "u") := by
  obtain ⟨root, hparse, -, hplaces⟩ := namespace_survives_iff escapedNamespace_named
  exact ⟨escapedNamespace_named, rfl, root, hparse, (hplaces 0 "u" rfl).2 (by decide),
    mt (hplaces 1 "a<b" rfl).1 (by decide), (hplaces 2 "u" rfl).2 (by decide)⟩

def ampersand : Element where
  tag := ⟨"a&b", "p", [⟨some "a&b", none, "k", "v"⟩], .empty⟩
  children := [.element ⟨"a&b", "q", [], .empty⟩ []]

theorem ampersand_named : ampersand.toNode.Named := by
  have hattribute : Attribute.Named ⟨some "a&b", none, "k", "v"⟩ :=
    ⟨by decide, nofun, nofun, by decide, by decide⟩
  have hroot : ampersand.tag.Named :=
    ⟨by decide, by decide, by decide, List.forall_mem_singleton.2 hattribute, by decide⟩
  have hinner : Tag.Named ⟨"a&b", "q", [], .empty⟩ :=
    ⟨by decide, by decide, by decide, nofun, List.nodup_nil⟩
  exact .element hroot (List.forall_mem_singleton.2 (.element hinner nofun))

/-- The namespace is read as the reference that is written for it, in all three places. -/
theorem ampersand_not_read :
    ampersand.toXml = "<p xmlns=\"a&amp;b\" xmlns:ns0=\"a&amp;b\" ns0:k=\"v\"><q/></p>" ∧
      ampersand.namespaces = [some "a&b", some "a&b", some "a&b"] ∧
      ∃ root, Markup.parse ampersand.toXml = .ok root ∧
        root.namespaces = [some "a&amp;b", some "a&amp;b", some "a&amp;b"] :=
  ⟨by decide, rfl, _, parse_toXml_of_named ampersand_named, by decide⟩

end Output

end MarkupSnippets

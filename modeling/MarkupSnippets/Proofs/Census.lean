import Mathlib.Data.List.Forall2
import MarkupSnippets.Proofs.Imported

namespace MarkupSnippets

namespace Markup

/-- The elements on the way to a place, outermost first. A place is given by the number of a node
among its siblings, one level after another. -/
def way? : List Node → List Nat → Option (List Element)
  | _, [] => some []
  | nodes, i :: place =>
    match nodes[i]? with
    | some (.element tag children) => (way? children place).map (⟨tag, children⟩ :: ·)
    | _ => none

mutual

def Node.places (settings : Settings) : Node → List (List Nat)
  | .text _ => []
  | .element tag children =>
    [] :: if (groupName? settings tag).isSome then placesOf settings children else []

def placesOf (settings : Settings) : List Node → List (List Nat)
  | [] => []
  | child :: rest =>
    (child.places settings).map (0 :: ·) ++ (placesOf settings rest).map (List.modifyHead (· + 1))

end

theorem way?_modifyHead (child : Node) (rest : List Node) {place : List Nat} (h : place ≠ []) :
    way? (child :: rest) (place.modifyHead (· + 1)) = way? rest place := by
  cases place with
  | nil => exact absurd rfl h
  | cons i place => simp [way?]

variable {settings : Settings}

theorem mem_placesOf {nodes : List Node} {place : List Nat} :
    place ∈ placesOf settings nodes ↔
      ∃ i inner child, place = i :: inner ∧ nodes[i]? = some child ∧
        inner ∈ child.places settings := by
  induction nodes generalizing place with
  | nil => simp [placesOf]
  | cons child rest ih =>
    rw [placesOf, List.mem_append, List.mem_map, List.mem_map]
    constructor
    · rintro (⟨inner, hinner, rfl⟩ | ⟨other, hother, rfl⟩)
      · exact ⟨0, inner, child, rfl, rfl, hinner⟩
      · obtain ⟨i, inner, node, rfl, hnode, hinner⟩ := ih.1 hother
        exact ⟨i + 1, inner, node, rfl, hnode, hinner⟩
    · rintro ⟨i, inner, node, rfl, hnode, hinner⟩
      cases i with
      | zero => exact .inl ⟨inner, Option.some.inj hnode ▸ hinner, rfl⟩
      | succ i => exact .inr ⟨i :: inner, ih.2 ⟨i, inner, node, rfl, hnode, hinner⟩, rfl⟩

/-- Whether the way to a place ends at an element and leads through groups with names only. -/
def Visited (settings : Settings) (nodes : List Node) (place : List Nat) : Prop :=
  ∃ around element, way? nodes place = some (around ++ [element]) ∧
    ∀ outer ∈ around, (groupName? settings outer.tag).isSome

theorem mem_placesOf_of_visited {nodes : List Node} {place : List Nat}
    (h : Visited settings nodes place) : place ∈ placesOf settings nodes := by
  induction place generalizing nodes with
  | nil =>
    obtain ⟨around, element, hway, -⟩ := h
    simp [way?] at hway
  | cons i inner ih =>
    obtain ⟨around, element, hway, hgroups⟩ := h
    rw [way?] at hway
    split at hway
    · next tag children hnode =>
      refine mem_placesOf.2 ⟨i, inner, _, rfl, hnode, ?_⟩
      obtain ⟨below, hbelow, hsplit⟩ := Option.map_eq_some_iff.1 hway
      rw [Node.places]
      -- Either the way ends here, or it leads through here as through a group with a name.
      cases around with
      | nil =>
        obtain ⟨-, rfl⟩ := List.cons.inj hsplit
        cases inner with
        | nil => exact List.mem_cons_self
        | cons j inner =>
          rw [way?] at hbelow
          split at hbelow
          · simp at hbelow
          · cases hbelow
      | cons outer around =>
        obtain ⟨rfl, rfl⟩ := List.cons.inj hsplit
        obtain ⟨hgroup, hgroups⟩ := List.forall_mem_cons.1 hgroups
        rw [if_pos hgroup]
        exact List.mem_cons_of_mem _ (ih ⟨around, element, hbelow, hgroups⟩)
    · cases hway

theorem modifyHead_succ_lt {place other : List Nat} (h : place < other) :
    place.modifyHead (· + 1) < other.modifyHead (· + 1) := by
  cases place with
  | nil =>
    cases other with
    | nil => exact absurd h (List.lt_irrefl _)
    | cons j other => exact List.nil_lt_cons _ _
  | cons i place =>
    cases other with
    | nil => exact absurd h (List.not_lt_nil _)
    | cons j other =>
      rw [List.modifyHead_cons, List.modifyHead_cons, List.cons_lt_cons_iff]
      exact (List.cons_lt_cons_iff.1 h).imp Nat.succ_lt_succ fun h => ⟨congrArg _ h.1, h.2⟩

mutual

theorem Node.pairwise_places (node : Node) : (node.places settings).Pairwise (· < ·) := by
  cases node with
  | text content => exact List.Pairwise.nil
  | element tag children =>
    rw [Node.places]
    split
    · refine List.pairwise_cons.2 ⟨fun place hplace => ?_, pairwise_placesOf children⟩
      obtain ⟨i, inner, -, rfl, -⟩ := mem_placesOf.1 hplace
      exact List.nil_lt_cons _ _
    · exact List.pairwise_singleton _ _

theorem pairwise_placesOf (nodes : List Node) : (placesOf settings nodes).Pairwise (· < ·) := by
  cases nodes with
  | nil => exact List.Pairwise.nil
  | cons child rest =>
    rw [placesOf, List.pairwise_append, List.pairwise_map, List.pairwise_map]
    refine ⟨child.pairwise_places.imp fun h => List.cons_lt_cons_iff.2 (.inr ⟨rfl, h⟩),
      (pairwise_placesOf rest).imp modifyHead_succ_lt, ?_⟩
    rintro _ hfirst _ hother
    obtain ⟨inner, -, rfl⟩ := List.mem_map.1 hfirst
    obtain ⟨place, hplace, rfl⟩ := List.mem_map.1 hother
    obtain ⟨i, inner, -, rfl, -⟩ := mem_placesOf.1 hplace
    exact List.cons_lt_cons_iff.2 (.inl (Nat.succ_pos i))

end

end Markup

variable {settings : Settings} {source : String}

def Markup.trail (source : String) (elements : List Markup.Element) : Origin :=
  elements.map fun e => ⟨e.tag.opening, source⟩

/-- Whether an element stands at a place among some nodes: those around it are groups with names,
and its origin is the opening tags on the way to it. The nodes themselves stand in groups, at an
origin. -/
def Visit.StandsAt (settings : Settings) (source : String) (groups : List String) (origin : Origin)
    (nodes : List Markup.Node) (place : List Nat) (v : Visit) : Prop :=
  ∃ (around : List Markup.Element) (names : List String),
    Markup.way? nodes place = some (around ++ [⟨v.tag, v.children⟩]) ∧
    around.map (fun outer => groupName? settings outer.tag) = names.map some ∧
    v.groups = groups ++ names ∧
    v.origin = origin ++ Markup.trail source (around ++ [⟨v.tag, v.children⟩])

namespace Visit

variable {groups : List String} {origin : Origin} {v : Visit}

theorem StandsAt.visited {nodes : List Markup.Node} {place : List Nat}
    (h : v.StandsAt settings source groups origin nodes place) :
    Markup.Visited settings nodes place := by
  obtain ⟨around, names, hway, hnames, -⟩ := h
  refine ⟨around, _, hway, fun outer houter => ?_⟩
  have hmem : groupName? settings outer.tag ∈ names.map some :=
    hnames ▸ List.mem_map_of_mem (f := fun outer => groupName? settings outer.tag) houter
  obtain ⟨name, -, hname⟩ := List.mem_map.1 hmem
  rw [← hname, Option.isSome_some]

theorem StandsAt.enter {tag : Markup.Tag} {children rest : List Markup.Node} {name : String}
    {place : List Nat} (hname : groupName? settings tag = some name)
    (h : v.StandsAt settings source (groups ++ [name]) (origin ++ [⟨tag.opening, source⟩])
      children place) :
    v.StandsAt settings source groups origin (.element tag children :: rest) (0 :: place) := by
  obtain ⟨around, names, hway, hnames, hgroups, horigin⟩ := h
  refine ⟨⟨tag, children⟩ :: around, name :: names, ?_, ?_, ?_, ?_⟩
  · simp [Markup.way?, hway]
  · simp [hname, hnames]
  · simp [hgroups]
  · simp [horigin, Markup.trail]

theorem StandsAt.behind {child : Markup.Node} {rest : List Markup.Node} {place : List Nat}
    (h : v.StandsAt settings source groups origin rest place) :
    v.StandsAt settings source groups origin (child :: rest) (place.modifyHead (· + 1)) := by
  obtain ⟨around, names, hway, hrest⟩ := h
  refine ⟨around, names, ?_, hrest⟩
  rw [Markup.way?_modifyHead, hway]
  rintro rfl
  simp [Markup.way?] at hway

end Visit

mutual

theorem Markup.Node.forall₂_places (groups : List String) (origin : Origin) (node : Markup.Node)
    (rest : List Markup.Node) :
    List.Forall₂ (fun place (v : Visit) =>
        v.StandsAt settings source groups origin (node :: rest) (0 :: place))
      (node.places settings) (node.visits settings source groups origin) := by
  cases node with
  | text content => exact .nil
  | element tag children =>
    rw [Markup.Node.places, Markup.Node.visits]
    refine .cons ⟨[], [], by simp [Markup.way?], rfl, by simp,
      by simp [Markup.trail]⟩ ?_
    cases hname : groupName? settings tag with
    | none => exact .nil
    | some name =>
      exact (forall₂_placesOf _ _ children).imp fun _ _ h => h.enter hname

theorem forall₂_placesOf (groups : List String) (origin : Origin) (nodes : List Markup.Node) :
    List.Forall₂ (fun place (v : Visit) => v.StandsAt settings source groups origin nodes place)
      (Markup.placesOf settings nodes) (visitsOf settings source groups origin nodes) := by
  cases nodes with
  | nil => exact .nil
  | cons child rest =>
    rw [Markup.placesOf, visitsOf]
    refine List.rel_append ?_ ?_
    · exact List.forall₂_map_left_iff.2 (child.forall₂_places groups origin rest)
    · exact List.forall₂_map_left_iff.2 ((forall₂_placesOf groups origin rest).imp
        fun _ _ h => h.behind)

end

def Warning.isMultipleRoots (w : Warning) : Bool := w.kind == .multipleRootElements

namespace Visit

variable {v : Visit}

def isNamedGroup (settings : Settings) (v : Visit) : Bool := (groupName? settings v.tag).isSome

theorem isNamedGroup_of_ne (h : Importing.Item.ofName? v.tag.name ≠ some .group) :
    v.isNamedGroup settings = false := by
  cases hname : groupName? settings v.tag with
  | none => rw [isNamedGroup, hname, Option.isSome_none]
  | some name => exact absurd (Importing.groupName?_eq_some hname).2.1 h

/-- What the element leads to and what is said against it, counted: one thing, or two if it is a
snippet with more than one element inside. -/
def Balanced (settings : Settings) (source : String) (v : Visit) : Prop :=
  1 + (v.warning? settings).toList.countP Warning.isMultipleRoots =
    (v.definition? settings source).toList.length +
      ((v.resource? settings source .stylesheet).toList.length +
        (v.resource? settings source .script).toList.length) +
      (if v.isNamedGroup settings then 1 else 0) + (v.warning? settings).toList.length

theorem balanced_of_snippet (hin : v.tag.isIn settings.directiveNs = true)
    (hitem : Importing.Item.ofName? v.tag.name = some .snippet) :
    v.Balanced settings source := by
  have hname : v.tag.name = "snippet" := Importing.Item.ofName?_eq_some_iff.1 hitem
  have hdefinition : v.definition? settings source =
      MarkupSnippets.definition? settings source v.groups v.tag v.children := by
    simp [Visit.definition?, hin, hname]
  have hresource (kind : ResourceKind) : v.resource? settings source kind = none :=
    Importing.resource?_of_ne (by simp [hitem]) kind
  have hgroup : v.isNamedGroup settings = false := isNamedGroup_of_ne (by simp [hitem])
  rw [Balanced, hdefinition, hresource, hresource, hgroup]
  simp only [Visit.warning?, hin, hitem, ↓reduceIte]
  cases hown : v.tag.attributeEither? settings.directiveNs "name" with
  | none => simp [MarkupSnippets.definition?, Warning.isMultipleRoots, hown]
  | some name =>
    cases hchildren : Markup.Element.childElements v.children with
    | nil => simp [MarkupSnippets.definition?, Warning.isMultipleRoots, hown, hchildren]
    | cons template others =>
      cases others <;> simp [MarkupSnippets.definition?, Warning.isMultipleRoots, hown, hchildren]

theorem balanced_of_resource {kind : ResourceKind} (hin : v.tag.isIn settings.directiveNs = true)
    (hitem : Importing.Item.ofName? v.tag.name = some (.resource kind)) :
    v.Balanced settings source := by
  have hname : v.tag.name = kind.label := Importing.Item.ofName?_eq_some_iff.1 hitem
  have hdefinition : v.definition? settings source = none :=
    Importing.definition?_of_ne (by simp [hitem])
  have hgroup : v.isNamedGroup settings = false := isNamedGroup_of_ne (by simp [hitem])
  rw [Balanced, hdefinition, hgroup]
  simp only [Visit.warning?, hin, hitem, ↓reduceIte]
  simp only [Visit.resource?, Markup.Tag.resource?, hin, hname]
  by_cases hroot : v.groups = []
  · cases hsrc : v.tag.attribute? "src" <;> cases kind <;>
      simp [Warning.isMultipleRoots, ResourceKind.label, hroot]
  · simp [Warning.isMultipleRoots, hroot]

theorem balanced_of_group (hin : v.tag.isIn settings.directiveNs = true)
    (hitem : Importing.Item.ofName? v.tag.name = some .group) :
    v.Balanced settings source := by
  have hname : v.tag.name = "snippet-group" := Importing.Item.ofName?_eq_some_iff.1 hitem
  have hdefinition : v.definition? settings source = none :=
    Importing.definition?_of_ne (by simp [hitem])
  have hresource (kind : ResourceKind) : v.resource? settings source kind = none :=
    Importing.resource?_of_ne (by simp [hitem]) kind
  rw [Balanced, hdefinition, hresource, hresource]
  simp only [Visit.warning?, hin, hitem, ↓reduceIte]
  cases hown : v.tag.attributeEither? settings.directiveNs "name" <;>
    simp [isNamedGroup, groupName?, Warning.isMultipleRoots, hin, hname, hown]

theorem balanced (settings : Settings) (source : String) (v : Visit) :
    v.Balanced settings source := by
  cases hin : v.tag.isIn settings.directiveNs with
  | false =>
    simp [Balanced, Visit.warning?, Visit.definition?, Visit.resource?, isNamedGroup, groupName?,
      Markup.Tag.resource?, Warning.isMultipleRoots, hin]
  | true =>
    cases hitem : Importing.Item.ofName? v.tag.name with
    | none =>
      rw [Balanced, Importing.definition?_of_ne (by simp [hitem]),
        Importing.resource?_of_ne (by simp [hitem]), Importing.resource?_of_ne (by simp [hitem]),
        isNamedGroup_of_ne (by simp [hitem])]
      simp [Visit.warning?, Warning.isMultipleRoots, hin, hitem]
    | some item =>
      cases item with
      | snippet => exact balanced_of_snippet hin hitem
      | group => exact balanced_of_group hin hitem
      | resource kind => exact balanced_of_resource hin hitem

theorem origin_of_warning? {w : Warning} (h : v.warning? settings = some w) :
    w.origin = v.origin := by
  grind [Visit.warning?]

theorem balance (settings : Settings) (source : String) (visits : List Visit) :
    visits.length + (visits.filterMap (Visit.warning? settings)).countP Warning.isMultipleRoots =
      (visits.filterMap (Visit.definition? settings source)).length +
        ((visits.filterMap (Visit.resource? settings source · .stylesheet)).length +
          (visits.filterMap (Visit.resource? settings source · .script)).length) +
        visits.countP (isNamedGroup settings) +
        (visits.filterMap (Visit.warning? settings)).length := by
  induction visits with
  | nil => rfl
  | cons v visits ih =>
    have hsplit {α : Type} (f : Visit → Option α) :
        (v :: visits).filterMap f = (f v).toList ++ visits.filterMap f := by
      cases h : f v <;> simp [h]
    have hv := v.balanced settings source
    rw [Balanced] at hv
    simp only [hsplit, List.countP_append, List.length_append, List.length_cons, List.countP_cons]
    omega

end Visit

/-- Nothing is dropped silently by an import. The visited elements and the snippets with more than
one element inside are as many as the keys stored, the resources, the groups entered and the
warnings together. The visited elements are those to which the way leads through groups with names
only, in document order; the warnings are those against them, in the same order, and the origin of
each is the opening tags on the way to its element. -/
theorem load_accounts {registry : Registry} {document : Markup.Element}
    (hnew : registry.hasSource source = false) (haccepts : settings.accepts document = true) :
    let places := Markup.placesOf settings document.children
    let visits := document.visits settings source
    ∃ report, (registry.load settings source document).outcome = .ok report ∧
      (visits.length + report.warnings.countP Warning.isMultipleRoots =
        report.snippets.length + report.resources.length +
          visits.countP (Visit.isNamedGroup settings) + report.warnings.length) ∧
      List.Forall₂ (fun place (v : Visit) =>
        v.StandsAt settings source [] [] document.children place) places visits ∧
      (∀ place, place ∈ places ↔
        ∃ v : Visit, v.StandsAt settings source [] [] document.children place) ∧
      places.Pairwise (· < ·) ∧
      report.warnings = visits.filterMap (Visit.warning? settings) ∧
      ∀ v ∈ visits, ∀ w, v.warning? settings = some w → w.origin = v.origin := by
  intro places visits
  have hstands : List.Forall₂ (fun place (v : Visit) =>
      v.StandsAt settings source [] [] document.children place) places visits :=
    forall₂_placesOf [] [] document.children
  refine ⟨_, congrArg Imported.outcome (Registry.load_of_accepts hnew haccepts), ?_, hstands,
    fun place => ⟨fun hplace => ?_, ?_⟩, Markup.pairwise_placesOf document.children, rfl,
    fun v _ w => Visit.origin_of_warning?⟩
  · have hbalance :=
      Visit.balance settings source (visitsOf settings source [] [] document.children)
    rw [filterMap_resource?, filterMap_resource?, filterMap_definition?] at hbalance
    simp only [List.length_map, List.length_append]
    exact hbalance
  · obtain ⟨i, hi, rfl⟩ := List.mem_iff_getElem.1 hplace
    exact ⟨_, hstands.get hi (hstands.length_eq ▸ hi)⟩
  · rintro ⟨v, hv⟩
    exact Markup.mem_placesOf_of_visited hv.visited

/-- An element of each kind that is taken up, and the ways in which one is not. -/
def refusals : Markup.Element where
  tag := ⟨some "d", none, "doc", []⟩
  children := [
    .text " ",
    .element (directiveNamed "snippet" "two") [
      .element ⟨none, none, "p", []⟩ [], .element ⟨none, none, "q", []⟩ []],
    .element ⟨some "d", none, "snippet-group", []⟩ [.element (directiveNamed "snippet" "a") []],
    .element (directiveNamed "snippet-group" "g") [
      sourced "stylesheet" "inner.css",
      .element ⟨some "d", none, "snippet", []⟩ [],
      .element (directiveNamed "snippet-group" "h") [
        .element (directiveNamed "snippet" "b") [.element ⟨none, none, "p", []⟩ []]]],
    sourced "script" "one.js",
    .element ⟨some "d", none, "stylesheet", []⟩ [],
    .element ⟨none, none, "p", []⟩ []]

theorem load_accounts_refusals :
    Registry.empty.hasSource "s" = false ∧ Settings.accepts ⟨"d", "h", "doc"⟩ refusals = true ∧
      Markup.placesOf ⟨"d", "h", "doc"⟩ refusals.children =
        [[1], [2], [3], [3, 0], [3, 1], [3, 2], [3, 2, 0], [4], [5], [6]] ∧
      ∃ report, (Registry.empty.load ⟨"d", "h", "doc"⟩ "s" refusals).outcome = .ok report ∧
        report.warnings.map Warning.kind = [.multipleRootElements, .missingAttribute,
          .elementNotAllowed, .missingAttribute, .missingAttribute, .unexpectedElement] ∧
        10 + 1 = report.snippets.length + report.resources.length + 2 + 6 := by
  have hnew : Registry.empty.hasSource "s" = false := by decide
  have haccepts : Settings.accepts ⟨"d", "h", "doc"⟩ refusals = true := by decide
  obtain ⟨report, hload, hcount, -, -, -, hwarnings, -⟩ := load_accounts hnew haccepts
  have hvisits : (refusals.visits ⟨"d", "h", "doc"⟩ "s").length = 10 := by decide +kernel
  have hgroups : (refusals.visits ⟨"d", "h", "doc"⟩ "s").countP
      (Visit.isNamedGroup ⟨"d", "h", "doc"⟩) = 2 := by decide +kernel
  have hkinds : report.warnings.map Warning.kind = [.multipleRootElements,
      .missingAttribute, .elementNotAllowed, .missingAttribute, .missingAttribute,
      .unexpectedElement] := by
    rw [hwarnings]
    decide +kernel
  have hmultiple : report.warnings.countP Warning.isMultipleRoots = 1 := by
    rw [hwarnings]
    decide +kernel
  refine ⟨hnew, haccepts, by decide +kernel, report, hload, hkinds, ?_⟩
  have hlength : report.warnings.length = 6 := by
    simpa using congrArg List.length hkinds
  rwa [hvisits, hgroups, hmultiple, hlength] at hcount

end MarkupSnippets

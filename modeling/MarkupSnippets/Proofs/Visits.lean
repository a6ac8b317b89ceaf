import MarkupSnippets.Proofs.Definitions

namespace MarkupSnippets

namespace Key

def pathOf (names : List String) : String := String.join (names.map ("/" ++ ·))

theorem pathOf_concat (names : List String) (name : String) :
    pathOf (names ++ [name]) = pathOf names ++ "/" ++ name := by
  rw [pathOf, pathOf, List.map_append, String.join_append, String.append_assoc]
  simp

/-- The path is empty at the root only: a group without a name in it still has its slash. -/
theorem pathOf_eq_empty_iff {names : List String} : pathOf names = "" ↔ names = [] := by
  cases names with
  | nil => exact iff_of_true rfl rfl
  | cons name names =>
    rw [pathOf, List.map_cons, String.join_cons]
    simp [String.append_eq_empty_iff]

theorem toList_pathOf (name : String) (names : List String) :
    (pathOf (name :: names)).toList = '/' :: (joinSegments (name :: names)).toList := by
  induction names generalizing name with
  | nil => simp [pathOf, joinSegments]
  | cons second names ih =>
    rw [pathOf, List.map_cons, String.join_cons, String.toList_append, ← pathOf, ih]
    simp [joinSegments, String.toList_intercalate]

theorem ofString_pathOf (names : List String) (name : String) :
    ofString (pathOf names ++ "/" ++ name) = ofSegments (names ++ [name]) := by
  obtain ⟨first, rest, hnames⟩ := List.exists_cons_of_ne_nil (List.concat_ne_nil name names)
  rw [← pathOf_concat, hnames, ofSegments, ofString, toList_pathOf, ofString]
  simp [ofChars, normalize, squeeze]

end Key

/-- An element that an import looks at, with the names of the groups around it. -/
structure Visit where
  groups : List String
  origin : Origin
  tag : Markup.Tag
  children : List Markup.Node

def groupName? (settings : Settings) (tag : Markup.Tag) : Option String :=
  if tag.isIn settings.directiveNs && tag.name == "snippet-group" then
    tag.attributeEither? settings.directiveNs "name"
  else none

mutual

/-- The elements visited in a node, in document order. -/
def Markup.Node.visits (settings : Settings) (source : String) (groups : List String)
    (origin : Origin) : Markup.Node → List Visit
  | .text _ => []
  | .element tag children =>
    let here := origin ++ [⟨tag.opening, source⟩]
    ⟨groups, here, tag, children⟩ ::
      match groupName? settings tag with
      | some name => visitsOf settings source (groups ++ [name]) here children
      | none => []

def visitsOf (settings : Settings) (source : String) (groups : List String) (origin : Origin) :
    List Markup.Node → List Visit
  | [] => []
  | child :: rest =>
    child.visits settings source groups origin ++ visitsOf settings source groups origin rest

end

def Markup.Element.visits (settings : Settings) (source : String) (document : Markup.Element) :
    List Visit :=
  visitsOf settings source [] [] document.children

def Markup.Tag.resource? (settings : Settings) (source : String) (kind : ResourceKind)
    (tag : Markup.Tag) : Option Resource :=
  if tag.isIn settings.directiveNs && tag.name == kind.label then
    (tag.attribute? "src").map fun src => ⟨kind, ResourcePath.resolve source src⟩
  else none

namespace Visit

variable (settings : Settings) (source : String) (v : Visit)

def definition? : Option Snippet :=
  if v.tag.isIn settings.directiveNs && v.tag.name == "snippet" then
    MarkupSnippets.definition? settings source v.groups v.tag v.children
  else none

def resource? (kind : ResourceKind) : Option Resource :=
  if v.groups.isEmpty then v.tag.resource? settings source kind else none

def warning? : Option Warning :=
  let warn (kind : WarningKind) (message : String) : Option Warning :=
    some ⟨kind, message, v.origin⟩
  if v.tag.isIn settings.directiveNs then
    match Importing.Item.ofName? v.tag.name with
    | some .snippet =>
      if (v.tag.attributeEither? settings.directiveNs "name").isNone then
        warn .missingAttribute "Snippet without \"name\" attribute."
      else
        match Markup.Element.childElements v.children with
        | [] => warn .emptySnippet "Snippet has no element."
        | [_] => none
        | _ :: _ :: _ => warn .multipleRootElements "Only one child element allowed."
    | some .group =>
      if (v.tag.attributeEither? settings.directiveNs "name").isNone then
        warn .missingAttribute "Snippet group without \"name\" attribute."
      else none
    | some (.resource kind) =>
      if v.groups.isEmpty then
        if (v.tag.attribute? "src").isNone then
          warn .missingAttribute ("The " ++ kind.label ++ " has no \"src\" attribute.")
        else none
      else warn .elementNotAllowed "Element not allowed here."
    | none => warn .elementNotAllowed "Element not allowed here."
  else warn .unexpectedElement "Unexpected element."

end Visit

namespace Importing

def Item.label : Item → String
  | snippet => "snippet"
  | group => "snippet-group"
  | resource kind => kind.label

theorem Item.ofName?_eq_some_iff {name : String} {item : Item} :
    ofName? name = some item ↔ name = item.label := by
  constructor
  · intro h
    rw [ofName?.eq_def] at h
    split at h <;> cases h <;> rfl
  · rintro rfl
    cases item with
    | resource kind => cases kind <;> rfl
    | _ => rfl

/-- An import under way once the visited elements have been taken up. -/
def after (settings : Settings) (source : String) (st : Importing) (visits : List Visit) :
    Importing where
  registry := st.registry.putAll (visits.filterMap (Visit.definition? settings source))
  report := { st.report with
    snippets := st.report.snippets ++
      (visits.filterMap (Visit.definition? settings source)).map Snippet.key
    resources := st.report.resources ++
      visits.filterMap (Visit.resource? settings source · .stylesheet)
    warnings := st.report.warnings ++ visits.filterMap (Visit.warning? settings) }
  told := st.told ++ visits.filterMap (Visit.resource? settings source · .stylesheet)
  scripts := st.scripts ++ visits.filterMap (Visit.resource? settings source · .script)

variable {settings : Settings} {source : String}

theorem after_nil (st : Importing) : st.after settings source [] = st := by
  simp [after]

theorem after_append (st : Importing) (visits others : List Visit) :
    st.after settings source (visits ++ others) =
      (st.after settings source visits).after settings source others := by
  simp [after, Registry.putAll_append]

variable {v : Visit}

theorem after_of_inert (hdefinition : v.definition? settings source = none)
    (hresource : ∀ kind, v.resource? settings source kind = none) (st : Importing) :
    st.after settings source [v] = { st with
      report.warnings := st.report.warnings ++ (v.warning? settings).toList } := by
  cases hwarning : v.warning? settings <;> simp [after, hdefinition, hresource, hwarning]

theorem warn_eq (hdefinition : v.definition? settings source = none)
    (hresource : ∀ kind, v.resource? settings source kind = none) {kind : WarningKind}
    {message : String} (hwarning : v.warning? settings = some ⟨kind, message, v.origin⟩)
    (st : Importing) : st.warn kind message v.origin = st.after settings source [v] := by
  rw [after_of_inert hdefinition hresource, hwarning]
  rfl

theorem definition?_of_ne (h : Item.ofName? v.tag.name ≠ some .snippet) :
    v.definition? settings source = none := by
  rw [ne_eq, Item.ofName?_eq_some_iff] at h
  simp [Visit.definition?, show v.tag.name ≠ "snippet" from h]

theorem resource?_of_ne (h : ∀ kind, Item.ofName? v.tag.name ≠ some (.resource kind))
    (kind : ResourceKind) : v.resource? settings source kind = none := by
  have hname : v.tag.name ≠ kind.label := fun hname => h kind (Item.ofName?_eq_some_iff.2 hname)
  simp [Visit.resource?, Markup.Tag.resource?, hname]

theorem define_eq (hin : v.tag.isIn settings.directiveNs = true)
    (hitem : Item.ofName? v.tag.name = some .snippet) (st : Importing) :
    st.define settings source (Key.pathOf v.groups) v.origin v.tag v.children =
      st.after settings source [v] := by
  have hname : v.tag.name = "snippet" := Item.ofName?_eq_some_iff.1 hitem
  have hresource (kind : ResourceKind) : v.resource? settings source kind = none :=
    resource?_of_ne (by simp [hitem]) kind
  rw [define]
  cases hown : v.tag.attributeEither? settings.directiveNs "name" with
  | none =>
    apply warn_eq _ hresource
    · simp [Visit.warning?, hin, hitem, hown]
    · simp [Visit.definition?, definition?, hown]
  | some name =>
    cases hchildren : Markup.Element.childElements v.children with
    | nil =>
      apply warn_eq _ hresource
      · simp [Visit.warning?, hin, hitem, hown, hchildren]
      · simp [Visit.definition?, definition?, hown, hchildren]
    | cons template others =>
      have hdefinition : v.definition? settings source = some {
          key := Key.ofSegments (v.groups ++ [name])
          source, template
          ns := template.tag.ns.getD settings.defaultNs } := by
        simp [Visit.definition?, definition?, hin, hname, hown, hchildren]
      -- Elements behind the template change the warning and nothing else.
      cases others <;>
        simp [after, hdefinition, hresource, Visit.warning?, hin, hitem, hown, hchildren, warn,
          Key.ofString_pathOf, Registry.putAll]

theorem refer_eq {kind : ResourceKind} (hin : v.tag.isIn settings.directiveNs = true)
    (hitem : Item.ofName? v.tag.name = some (.resource kind)) (hroot : v.groups = [])
    (st : Importing) :
    st.refer source kind v.origin v.tag = st.after settings source [v] := by
  have hdefinition : v.definition? settings source = none := definition?_of_ne (by simp [hitem])
  have hresource (other : ResourceKind) : v.resource? settings source other =
      if other = kind then
        (v.tag.attribute? "src").map fun src => ⟨kind, ResourcePath.resolve source src⟩
      else none := by
    have hname : v.tag.name = kind.label := Item.ofName?_eq_some_iff.1 hitem
    simp only [Visit.resource?, Markup.Tag.resource?, hroot, hin, hname]
    cases kind <;> cases other <;> simp [ResourceKind.label]
  rw [refer]
  cases hsrc : v.tag.attribute? "src" with
  | none =>
    apply warn_eq hdefinition
    · intro other
      rw [hresource, hsrc, Option.map_none, ite_self]
    · simp [Visit.warning?, hin, hitem, hroot, hsrc]
  | some src =>
    have hwarning : v.warning? settings = none := by
      simp [Visit.warning?, hin, hitem, hroot, hsrc]
    cases kind <;> simp [after, hdefinition, hresource, hsrc, hwarning, tell]

theorem groupName?_eq_some {tag : Markup.Tag} {name : String}
    (h : groupName? settings tag = some name) :
    tag.isIn settings.directiveNs = true ∧ Item.ofName? tag.name = some .group ∧
      tag.attributeEither? settings.directiveNs "name" = some name := by
  rw [groupName?] at h
  split at h
  · next hgroup =>
    rw [Bool.and_eq_true, beq_iff_eq] at hgroup
    exact ⟨hgroup.1, Item.ofName?_eq_some_iff.2 hgroup.2, h⟩
  · cases h

theorem node_of_group {groups : List String} {origin : Origin} {tag : Markup.Tag} {name : String}
    (h : groupName? settings tag = some name) (st : Importing) (children : List Markup.Node) :
    node settings source (Key.pathOf groups) origin st (.element tag children) =
      nodes settings source (Key.pathOf (groups ++ [name])) (origin ++ [⟨tag.opening, source⟩])
        (st.after settings source [⟨groups, origin ++ [⟨tag.opening, source⟩], tag, children⟩])
        children := by
  obtain ⟨hin, hitem, hname⟩ := groupName?_eq_some h
  let v : Visit := ⟨groups, origin ++ [⟨tag.opening, source⟩], tag, children⟩
  have hdefinition : v.definition? settings source = none := definition?_of_ne (by simp [v, hitem])
  have hresource (kind : ResourceKind) : v.resource? settings source kind = none :=
    resource?_of_ne (by simp [v, hitem]) kind
  have hwarning : v.warning? settings = none := by simp [v, Visit.warning?, hin, hitem, hname]
  rw [after_of_inert hdefinition hresource, hwarning, Key.pathOf_concat]
  simp [node, hin, hitem, hname]

theorem node_of_leaf {groups : List String} {origin : Origin} {tag : Markup.Tag}
    (h : groupName? settings tag = none) (st : Importing) (children : List Markup.Node) :
    node settings source (Key.pathOf groups) origin st (.element tag children) =
      st.after settings source [⟨groups, origin ++ [⟨tag.opening, source⟩], tag, children⟩] := by
  let v : Visit := ⟨groups, origin ++ [⟨tag.opening, source⟩], tag, children⟩
  rw [node]
  cases hin : tag.isIn settings.directiveNs with
  | false =>
    apply warn_eq (v := v)
    · simp [v, Visit.definition?, hin]
    · simp [v, Visit.resource?, Markup.Tag.resource?, hin]
    · simp [v, Visit.warning?, hin]
  | true =>
    cases hitem : Item.ofName? tag.name with
    | none =>
      apply warn_eq (v := v)
      · exact definition?_of_ne (by simp [v, hitem])
      · exact resource?_of_ne (by simp [v, hitem])
      · simp [v, Visit.warning?, hin, hitem]
    | some item =>
      cases item with
      | snippet => exact define_eq (v := v) hin hitem st
      | group =>
        have hname : tag.attributeEither? settings.directiveNs "name" = none := by
          simpa [groupName?, hin, Item.ofName?_eq_some_iff.1 hitem, Item.label] using h
        simp only [hname]
        apply warn_eq (v := v)
        · exact definition?_of_ne (by simp [v, hitem])
        · exact resource?_of_ne (by simp [v, hitem])
        · simp [v, Visit.warning?, hin, hitem, hname]
      | resource kind =>
        by_cases hroot : groups = []
        · simp only [Key.pathOf_eq_empty_iff.2 hroot, beq_self_eq_true, ↓reduceIte]
          exact refer_eq (v := v) hin hitem hroot st
        · have hpath : ¬Key.pathOf groups = "" := mt Key.pathOf_eq_empty_iff.1 hroot
          simp only [beq_iff_eq, hpath, ↓reduceIte]
          apply warn_eq (v := v)
          · exact definition?_of_ne (by simp [v, hitem])
          · simp [v, Visit.resource?, hroot]
          · simp [v, Visit.warning?, hin, hitem, hroot]

mutual

/-- Taking up a node takes up the elements visited in it, one after another. -/
theorem node_eq (groups : List String) (origin : Origin) (st : Importing) (child : Markup.Node) :
    node settings source (Key.pathOf groups) origin st child =
      st.after settings source (child.visits settings source groups origin) := by
  cases child with
  | text content => rw [node, Markup.Node.visits, after_nil]
  | element tag children =>
    rw [Markup.Node.visits]
    cases hgroup : groupName? settings tag with
    | none => exact node_of_leaf hgroup st children
    | some name =>
      rw [node_of_group hgroup, nodes_eq, ← after_append]
      rfl

theorem nodes_eq (groups : List String) (origin : Origin) (st : Importing)
    (children : List Markup.Node) :
    nodes settings source (Key.pathOf groups) origin st children =
      st.after settings source (visitsOf settings source groups origin children) := by
  cases children with
  | nil => rw [nodes, visitsOf, after_nil]
  | cons child rest => rw [nodes, visitsOf, after_append, node_eq, nodes_eq]

end

end Importing

end MarkupSnippets

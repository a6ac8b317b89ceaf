import MarkupSnippets.Proofs.Loading
import MarkupSnippets.Proofs.Visits

namespace MarkupSnippets

variable {settings : Settings} {source : String}

mutual

theorem Markup.Node.filterMap_definition? (groups : List String) (origin : Origin)
    (node : Markup.Node) :
    (node.visits settings source groups origin).filterMap (Visit.definition? settings source) =
      node.definitions settings source groups := by
  cases node with
  | text content => rfl
  | element tag children =>
    let v : Visit := ⟨groups, origin ++ [⟨tag.opening, source⟩], tag, children⟩
    rw [Markup.Node.visits, Markup.Node.definitions]
    cases hgroup : groupName? settings tag with
    | some name =>
      obtain ⟨hin, hitem, hname⟩ := Importing.groupName?_eq_some hgroup
      have hnone : v.definition? settings source = none :=
        Importing.definition?_of_ne (by simp [v, hitem])
      simp only [hin, hitem, hname, ↓reduceIte]
      rw [List.filterMap_cons_none hnone]
      exact filterMap_definition? _ _ children
    | none =>
      rw [List.filterMap_cons, List.filterMap_nil]
      cases hin : tag.isIn settings.directiveNs with
      | false => simp [Visit.definition?, hin]
      | true =>
        cases hitem : Importing.Item.ofName? tag.name with
        | none =>
          rw [Importing.definition?_of_ne (by simp [hitem])]
          rfl
        | some item =>
          have hname : tag.name = item.label := Importing.Item.ofName?_eq_some_iff.1 hitem
          cases item with
          | snippet =>
            simp only [Visit.definition?, hin, hname, Importing.Item.label, beq_self_eq_true,
              Bool.and_self, ↓reduceIte]
            cases MarkupSnippets.definition? settings source groups tag children <;> rfl
          | group =>
            have hunnamed : tag.attributeEither? settings.directiveNs "name" = none := by
              simpa [groupName?, hin, hname, Importing.Item.label] using hgroup
            rw [Importing.definition?_of_ne (by simp [hitem]), hunnamed]
            rfl
          | resource kind =>
            rw [Importing.definition?_of_ne (by simp [hitem])]
            rfl

theorem filterMap_definition? (groups : List String) (origin : Origin)
    (children : List Markup.Node) :
    (visitsOf settings source groups origin children).filterMap
        (Visit.definition? settings source) =
      definitionsOf settings source groups children := by
  cases children with
  | nil => rfl
  | cons child rest =>
    rw [visitsOf, definitionsOf, List.filterMap_append, child.filterMap_definition?,
      filterMap_definition?]

end

theorem fields_of_mem_definitions {document : Markup.Element} {snippet : Snippet}
    (h : snippet ∈ document.definitions settings source) :
    snippet.source = source ∧ snippet.ns = snippet.template.tag.ns.getD settings.defaultNs := by
  rw [Markup.Element.definitions, ← filterMap_definition? [] [], List.mem_filterMap] at h
  obtain ⟨v, -, hv⟩ := h
  rw [Visit.definition?] at hv
  split at hv
  · obtain ⟨name, -, hv⟩ := Option.bind_eq_some_iff.1 hv
    obtain ⟨template, -, hv⟩ := Option.bind_eq_some_iff.1 hv
    obtain rfl := Option.some.inj hv
    exact ⟨rfl, rfl⟩
  · cases hv

mutual

theorem Markup.Node.groups_isPrefix {groups : List String} {origin : Origin} {v : Visit}
    (node : Markup.Node) (h : v ∈ node.visits settings source groups origin) :
    groups <+: v.groups := by
  cases node with
  | text content => cases h
  | element tag children =>
    rw [Markup.Node.visits] at h
    obtain rfl | h := List.mem_cons.1 h
    · exact List.prefix_rfl
    · split at h
      · next name _ => exact (List.prefix_append groups [name]).trans (groups_isPrefix children h)
      · cases h

theorem groups_isPrefix {groups : List String} {origin : Origin} {v : Visit}
    (children : List Markup.Node) (h : v ∈ visitsOf settings source groups origin children) :
    groups <+: v.groups := by
  cases children with
  | nil => cases h
  | cons child rest =>
    rw [visitsOf, List.mem_append] at h
    obtain h | h := h
    · exact child.groups_isPrefix h
    · exact groups_isPrefix rest h

end

def Markup.Element.resources (settings : Settings) (source : String) (kind : ResourceKind)
    (document : Markup.Element) : List Resource :=
  (Markup.Element.childElements document.children).filterMap fun child =>
    child.tag.resource? settings source kind

theorem filterMap_resource?_eq_nil {groups : List String} (hgroups : groups ≠ [])
    (kind : ResourceKind) (origin : Origin) (children : List Markup.Node) :
    (visitsOf settings source groups origin children).filterMap
      (Visit.resource? settings source · kind) = [] := by
  rw [List.filterMap_eq_nil_iff]
  intro v hv
  have hne : v.groups ≠ [] := (groups_isPrefix children hv).ne_nil hgroups
  simp [Visit.resource?, hne]

/-- Of all elements visited only those at the root are taken for resources. -/
theorem filterMap_resource? (kind : ResourceKind) (origin : Origin)
    (children : List Markup.Node) :
    (visitsOf settings source [] origin children).filterMap
        (Visit.resource? settings source · kind) =
      (Markup.Element.childElements children).filterMap fun child =>
        child.tag.resource? settings source kind := by
  induction children with
  | nil => rfl
  | cons child rest ih =>
    rw [visitsOf, List.filterMap_append, ih]
    cases child with
    | text content => rfl
    | element tag children =>
      have hinner (name : String) :
          (visitsOf settings source [name] (origin ++ [⟨tag.opening, source⟩]) children).filterMap
            (Visit.resource? settings source · kind) = [] :=
        filterMap_resource?_eq_nil (List.cons_ne_nil name []) kind _ children
      have hself : (⟨[], origin ++ [⟨tag.opening, source⟩], tag, children⟩ : Visit).resource?
          settings source kind = tag.resource? settings source kind := rfl
      rw [Markup.Node.visits, Markup.Element.childElements, List.filterMap_cons, hself,
        List.filterMap_cons]
      cases groupName? settings tag with
      | none => cases tag.resource? settings source kind <;> rfl
      | some name =>
        simp only [List.nil_append, hinner]
        cases tag.resource? settings source kind <;> rfl

namespace Registry

variable {registry : Registry} {document : Markup.Element}

theorem load_of_known (hknown : registry.hasSource source = true) :
    registry.load settings source document = ⟨registry, [], .ok (.skip source)⟩ :=
  if_pos hknown

theorem loadText_of_known (hknown : registry.hasSource source = true) (text : String) :
    registry.loadText settings source text = ⟨registry, [], .ok (.skip source)⟩ :=
  if_pos hknown

/-- A document from a new source is imported, and what is left is made up of what is found in it. -/
theorem load_of_accepts (hnew : registry.hasSource source = false)
    (haccepts : settings.accepts document = true) :
    let definitions := document.definitions settings source
    let resources := document.resources settings source .stylesheet ++
      document.resources settings source .script
    registry.load settings source document = {
      registry := (registry.putAll definitions).markSource source
      told := resources
      outcome := .ok {
        source
        skipped := false
        snippets := definitions.map Snippet.key
        resources
        warnings := (document.visits settings source).filterMap (Visit.warning? settings) } } := by
  intro definitions resources
  have hdone : Importing.nodes settings source "" [] ⟨registry, .start source, [], []⟩
      document.children =
      Importing.after settings source ⟨registry, .start source, [], []⟩
        (document.visits settings source) :=
    Importing.nodes_eq [] [] _ document.children
  rw [load, hnew, if_neg Bool.false_ne_true]
  refine (if_pos haccepts).trans ?_
  simp only [hdone, Importing.finish_eq]
  simp only [Importing.after, ImportReport.start, List.nil_append, Markup.Element.visits,
    filterMap_definition?, filterMap_resource?]
  rfl

theorem load_of_not_accepts (hnew : registry.hasSource source = false)
    (haccepts : settings.accepts document = false) :
    registry.load settings source document =
      ⟨registry, [], .error (.notSnippetDocument source document.tag.qualifiedName)⟩ := by
  rw [load, hnew, if_neg Bool.false_ne_true]
  exact if_neg (by rwa [← Bool.not_eq_true] at haccepts)

end Registry

/-- What an import stores. The report lists the keys of the definitions, each made of the names of
the groups around it and its own; under each listed key the store has the last definition of it, and
under all other keys what it had before. -/
theorem load_stores {registry : Registry} {document : Markup.Element}
    (hnew : registry.hasSource source = false) (haccepts : settings.accepts document = true) :
    let imported := registry.load settings source document
    ∃ report, imported.outcome = .ok report ∧
      report.snippets = (document.definitions settings source).map Snippet.key ∧
      (∀ key ∈ report.snippets, ∃ snippet,
        lastOf? key (document.definitions settings source) = some snippet ∧
          imported.registry.get? key = some snippet ∧ snippet.key = key ∧
          snippet.source = source ∧
          snippet.ns = snippet.template.tag.ns.getD settings.defaultNs) ∧
      ∀ key ∉ report.snippets, imported.registry.get? key = registry.get? key := by
  intro imported
  have hload : imported = _ := Registry.load_of_accepts hnew haccepts
  have hget (key : Key) : imported.registry.get? key =
      (lastOf? key (document.definitions settings source)).or (registry.get? key) := by
    rw [hload, Registry.get?_markSource, Registry.get?_putAll]
  refine ⟨_, congrArg Imported.outcome hload, rfl, fun key hkey => ?_, fun key hkey => ?_⟩
  · obtain ⟨snippet, hlast⟩ := Option.isSome_iff_exists.1 (lastOf?_isSome_iff.2 hkey)
    obtain ⟨hmem, hkey⟩ := mem_of_lastOf? hlast
    refine ⟨snippet, hlast, ?_, hkey, fields_of_mem_definitions hmem⟩
    rw [hget, hlast, Option.some_or]
  · have hlast : lastOf? key (document.definitions settings source) = none := by
      rw [← Option.not_isSome_iff_eq_none, lastOf?_isSome_iff]
      exact hkey
    rw [hget, hlast, Option.none_or]

def directiveNamed (directive name : String) : Markup.Tag :=
  ⟨some "d", none, directive, [⟨none, none, "name", name⟩]⟩

/-- Two definitions of one key in a group whose name ends in a slash, and what is no definition: an
empty snippet, and one in a group without a name. -/
def repeatedKey : Markup.Element where
  tag := ⟨some "d", none, "doc", []⟩
  children := [
    .element (directiveNamed "snippet" "a") [.element ⟨none, none, "p", []⟩ []],
    .element (directiveNamed "snippet-group" "g/") [
      .element (directiveNamed "snippet" "b") [.element ⟨none, none, "q", []⟩ []],
      .element (directiveNamed "snippet" "/b") [.text " ", .element ⟨some "n", none, "r", []⟩ []]],
    .element (directiveNamed "snippet" "e") [.text "empty"],
    .element ⟨some "d", none, "snippet-group", []⟩ [
      .element (directiveNamed "snippet" "u") [.element ⟨none, none, "p", []⟩ []]]]

theorem load_stores_repeated_key :
    Registry.empty.hasSource "s" = false ∧ Settings.accepts ⟨"d", "h", "doc"⟩ repeatedKey = true ∧
      let imported := Registry.empty.load ⟨"d", "h", "doc"⟩ "s" repeatedKey
      ∃ report, imported.outcome = .ok report ∧
        report.snippets.map Key.text = ["/a", "/g/b", "/g/b"] ∧
        imported.registry.get? (Key.ofString "/g/b") = some {
          key := Key.ofString "/g/b"
          source := "s", ns := "n"
          template := ⟨⟨some "n", none, "r", []⟩, []⟩ } := by
  have hnew : Registry.empty.hasSource "s" = false := by decide
  have haccepts : Settings.accepts ⟨"d", "h", "doc"⟩ repeatedKey = true := by decide
  obtain ⟨report, hload, hkeys, hstored, -⟩ := load_stores hnew haccepts
  have hdefinitions : (repeatedKey.definitions ⟨"d", "h", "doc"⟩ "s").map Snippet.key =
      [Key.ofString "/a", Key.ofString "/g/b", Key.ofString "/g/b"] := by decide +kernel
  refine ⟨hnew, haccepts, report, hload, by rw [hkeys, hdefinitions]; decide +kernel, ?_⟩
  obtain ⟨snippet, hlast, hget, -⟩ := hstored (Key.ofString "/g/b") (by simp [hkeys, hdefinitions])
  rw [hget, ← hlast]
  rfl

/-- The resources of an import. The host is told of what the report has, which are the stylesheets
at the root of the document and then the scripts there, each in document order. A resource that is
visited in a group is not taken up, and there is one warning for it. -/
theorem load_resources {registry : Registry} {document : Markup.Element}
    (hnew : registry.hasSource source = false) (haccepts : settings.accepts document = true) :
    let imported := registry.load settings source document
    ∃ report, imported.outcome = .ok report ∧
      imported.told = report.resources ∧
      report.resources =
        document.resources settings source .stylesheet ++
          document.resources settings source .script ∧
      report.warnings =
        (document.visits settings source).filterMap (Visit.warning? settings) ∧
      ∀ v ∈ document.visits settings source, v.groups ≠ [] →
        v.tag.isIn settings.directiveNs = true →
        (∃ kind : ResourceKind, v.tag.name = kind.label) →
          v.warning? settings =
            some ⟨.elementNotAllowed, "Element not allowed here.", v.origin⟩ := by
  intro imported
  have hload : imported = _ := Registry.load_of_accepts hnew haccepts
  refine ⟨_, congrArg Imported.outcome hload, congrArg Imported.told hload, rfl, rfl, ?_⟩
  rintro v - hgroups hin ⟨kind, hname⟩
  have hitem : Importing.Item.ofName? v.tag.name = some (.resource kind) :=
    Importing.Item.ofName?_eq_some_iff.2 hname
  simp [Visit.warning?, hin, hitem, hgroups]

def sourced (directive src : String) : Markup.Node :=
  .element ⟨some "d", none, directive, [⟨none, none, "src", src⟩]⟩ []

/-- Resources at the root, the script first and one of them with its address in a namespace, and
one in a group with the empty name. -/
def scriptFirst : Markup.Element where
  tag := ⟨some "d", none, "doc", []⟩
  children := [
    sourced "script" "./one.js",
    .element (directiveNamed "snippet-group" "") [sourced "stylesheet" "inner.css"],
    sourced "stylesheet" "../two.css",
    .element ⟨some "d", none, "stylesheet", [⟨some "d", none, "src", "d.css"⟩]⟩ []]

theorem load_resources_script_first :
    Registry.empty.hasSource "a/b/s" = false ∧
      Settings.accepts ⟨"d", "h", "doc"⟩ scriptFirst = true ∧
      (let imported := Registry.empty.load ⟨"d", "h", "doc"⟩ "a/b/s" scriptFirst
        ∃ report, imported.outcome = .ok report ∧
          imported.told = [⟨.stylesheet, "a/two.css"⟩, ⟨.script, "a/b/one.js"⟩] ∧
          report.warnings.map Warning.kind = [.elementNotAllowed, .missingAttribute]) ∧
      ∃ v ∈ scriptFirst.visits ⟨"d", "h", "doc"⟩ "a/b/s", v.groups = [""] ∧
        v.warning? ⟨"d", "h", "doc"⟩ = some ⟨.elementNotAllowed, "Element not allowed here.", [
          ⟨"<snippet-group name=\"\">", "a/b/s"⟩,
          ⟨"<stylesheet src=\"inner.css\">", "a/b/s"⟩]⟩ := by
  have hnew : Registry.empty.hasSource "a/b/s" = false := by decide
  have haccepts : Settings.accepts ⟨"d", "h", "doc"⟩ scriptFirst = true := by decide
  obtain ⟨report, hload, htold, hresources, hwarnings, hrefused⟩ := load_resources hnew haccepts
  refine ⟨hnew, haccepts, ⟨report, hload, ?_, ?_⟩, ?_⟩
  · rw [htold, hresources]
    decide +kernel
  · rw [hwarnings]
    decide +kernel
  · have hinner := List.mem_of_getElem? (l := scriptFirst.visits ⟨"d", "h", "doc"⟩ "a/b/s")
      (i := 2) rfl
    refine ⟨_, hinner, rfl, ?_⟩
    exact (hrefused _ hinner (by decide) (by decide) ⟨.stylesheet, rfl⟩).trans (by decide +kernel)

/-- An element stands among nodes, at any depth. -/
inductive Markup.Inside (e : Markup.Element) : List Markup.Node → Prop where
  | child {nodes : List Markup.Node} (h : e ∈ Markup.Element.childElements nodes) : Inside e nodes
  | deeper {nodes : List Markup.Node} {outer : Markup.Element}
      (h : outer ∈ Markup.Element.childElements nodes) (hin : Inside e outer.children) :
      Inside e nodes

def sheet : Markup.Element := ⟨⟨some "d", none, "stylesheet", [⟨none, none, "src", "a.css"⟩]⟩, []⟩

def sheetGroup : Markup.Element where
  tag := directiveNamed "snippet-group" "g"
  children := [
    .element (directiveNamed "snippet" "t") [.element ⟨none, none, "p", []⟩ [sheet.toNode]]]

/-- There is no warning for a stylesheet inside of a group, if it stands in a template there. -/
theorem sheet_in_template_not_refused :
    Markup.Inside sheet sheetGroup.children ∧
      groupName? ⟨"d", "h", "doc"⟩ sheetGroup.tag = some "g" ∧
      sheet.tag.isIn "d" = true ∧ sheet.tag.name = ResourceKind.stylesheet.label ∧
      Settings.accepts ⟨"d", "h", "doc"⟩ ⟨⟨some "d", none, "doc", []⟩, [sheetGroup.toNode]⟩ = true ∧
      ∃ report, (Registry.empty.load ⟨"d", "h", "doc"⟩ "s"
          ⟨⟨some "d", none, "doc", []⟩, [sheetGroup.toNode]⟩).outcome = .ok report ∧
        report.warnings = [] := by
  have hinside : Markup.Inside sheet sheetGroup.children :=
    .deeper List.mem_cons_self (.deeper List.mem_cons_self (.child List.mem_cons_self))
  exact ⟨hinside, by decide, by decide, by decide, by decide, _, rfl, by decide +kernel⟩

end MarkupSnippets

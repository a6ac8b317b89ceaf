import MarkupSnippets.Snippet.Import

namespace MarkupSnippets

namespace Registry

/-- A store that was filled by imports under fixed settings. -/
inductive Filled (settings : Settings) : Registry → Prop where
  | empty : Filled settings .empty
  | load {registry : Registry} (h : Filled settings registry) (source : String)
      (document : Markup.Element) :
      Filled settings (registry.load settings source document).registry
  | loadText {registry : Registry} (h : Filled settings registry) (source text : String) :
      Filled settings (registry.loadText settings source text).registry

def Stored (registry : Registry) (P : Snippet → Prop) : Prop :=
  ∀ key snippet, registry.get? key = some snippet → P snippet

variable {registry : Registry} {P : Snippet → Prop}

theorem Stored.empty : Stored .empty P := fun _ _ h => nomatch h

theorem Stored.put (h : registry.Stored P) {snippet : Snippet} (hsnippet : P snippet) :
    (registry.put snippet).Stored P := by
  intro key other hget
  rw [Registry.get?, Registry.put, Record.get?_insert] at hget
  split at hget
  · obtain rfl := Option.some.inj hget
    exact hsnippet
  · exact h key other hget

theorem Stored.markSource (h : registry.Stored P) (source : String) :
    (registry.markSource source).Stored P := by
  rw [Registry.markSource]
  split
  · exact h
  · exact h

end Registry

namespace Importing

variable {settings : Settings} {source : String} {st : Importing} {P : Snippet → Prop}

theorem finish_eq (st : Importing) :
    st.finish = {
      registry := st.registry
      report := { st.report with resources := st.report.resources ++ st.scripts }
      told := st.told ++ st.scripts
      scripts := [] } := by
  have h : ∀ (resources : List Resource) (st : Importing),
      resources.foldl tell st = { st with
        told := st.told ++ resources
        report.resources := st.report.resources ++ resources } := by
    intro resources
    induction resources with
    | nil =>
      intro st
      rw [List.foldl_nil, List.append_nil, List.append_nil]
    | cons resource resources ih =>
      intro st
      rw [List.foldl_cons, ih]
      simp only [tell, List.append_assoc, List.singleton_append]
  exact h st.scripts _

theorem registry_refer (kind : ResourceKind) (origin : Origin) (tag : Markup.Tag) :
    (st.refer source kind origin tag).registry = st.registry := by
  rw [refer]
  split
  · rfl
  · cases kind <;> rfl

/-- A property of imports under way that every element of a document keeps. -/
structure Kept (settings : Settings) (source : String) (Q : Importing → Prop) : Prop where
  warn : ∀ st kind message origin, Q st → Q (st.warn kind message origin)
  define : ∀ st group origin tag children,
    Q st → Q (st.define settings source group origin tag children)
  refer : ∀ st kind origin tag, Q st → Q (st.refer source kind origin tag)

mutual

theorem Kept.node {Q : Importing → Prop} (kept : Kept settings source Q) (group : String)
    (origin : Origin) (st : Importing) (h : Q st) (child : Markup.Node) :
    Q (node settings source group origin st child) := by
  cases child with
  | text content => exact h
  | element tag children =>
    rw [Importing.node]
    split
    · split
      · exact kept.define _ _ _ _ _ h
      · split
        · exact kept.nodes _ _ st h children
        · exact kept.warn _ _ _ _ h
      · split
        · exact kept.refer _ _ _ _ h
        · exact kept.warn _ _ _ _ h
      · exact kept.warn _ _ _ _ h
    · exact kept.warn _ _ _ _ h

theorem Kept.nodes {Q : Importing → Prop} (kept : Kept settings source Q) (group : String)
    (origin : Origin) (st : Importing) (h : Q st) (children : List Markup.Node) :
    Q (nodes settings source group origin st children) := by
  cases children with
  | nil => exact h
  | cons child rest =>
    rw [Importing.nodes]
    exact kept.nodes group origin _ (kept.node group origin st h child) rest

end

theorem kept_stored
    (hdefine : ∀ key template,
      P { key, source, template, ns := template.tag.ns.getD settings.defaultNs }) :
    Kept settings source fun st => st.registry.Stored P where
  warn _ _ _ _ h := h
  refer st kind origin tag h := by
    rw [registry_refer]
    exact h
  define st group origin tag children h := by
    rw [define]
    split
    · exact h
    · split
      · exact h
      · next template others _ =>
        cases others with
        | nil => exact h.put (hdefine _ _)
        | cons other others => exact h.put (hdefine _ _)

end Importing

namespace Registry

variable {settings : Settings} {registry : Registry} {source : String} {P : Snippet → Prop}

theorem stored_load
    (hdefine : ∀ key source template,
      P { key, source, template, ns := template.tag.ns.getD settings.defaultNs })
    (h : registry.Stored P) (document : Markup.Element) :
    (registry.load settings source document).registry.Stored P := by
  rw [load]
  split
  · exact h
  · split
    · apply Stored.markSource
      rw [Importing.finish_eq]
      have kept := Importing.kept_stored fun key template => hdefine key source template
      exact kept.nodes _ _ _ h _
    · exact h

theorem stored_of_filled
    (hdefine : ∀ key source template,
      P { key, source, template, ns := template.tag.ns.getD settings.defaultNs })
    (h : registry.Filled settings) : registry.Stored P := by
  induction h with
  | empty => exact .empty
  | load _ source document ih => exact stored_load hdefine ih document
  | loadText _ source text ih =>
    rw [loadText]
    split
    · exact ih
    · split
      · next document _ => exact stored_load hdefine ih document
      · exact ih

/-- A stored snippet has the namespace of its root element, or the default for one that has none. -/
theorem ns_of_filled (h : registry.Filled settings) {key : Key} {snippet : Snippet}
    (hget : registry.get? key = some snippet) :
    snippet.ns = snippet.template.tag.ns.getD settings.defaultNs := by
  have stored : registry.Stored fun s => s.ns = s.template.tag.ns.getD settings.defaultNs :=
    stored_of_filled (fun _ _ _ => rfl) h
  exact stored key snippet hget

end Registry

end MarkupSnippets

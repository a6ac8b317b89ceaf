import MarkupSnippets.Snippet.Import

namespace MarkupSnippets

/-- What an element defines in a group: it needs a name and an element inside. -/
def definition? (settings : Settings) (source : String) (groups : List String) (tag : Markup.Tag)
    (children : List Markup.Node) : Option Snippet := do
  let name ← tag.attributeEither? settings.directiveNs "name"
  let template ← (Markup.Element.childElements children).head?
  return {
    key := Key.ofSegments (groups ++ [name])
    source, template
    ns := template.tag.ns.getD settings.defaultNs }

mutual

/-- The definitions in a node, with the names of the groups around it. -/
def Markup.Node.definitions (settings : Settings) (source : String) (groups : List String) :
    Markup.Node → List Snippet
  | .text _ => []
  | .element tag children =>
    if tag.isIn settings.directiveNs then
      match Importing.Item.ofName? tag.name with
      | some .snippet => (definition? settings source groups tag children).toList
      | some .group =>
        match tag.attributeEither? settings.directiveNs "name" with
        | some name => definitionsOf settings source (groups ++ [name]) children
        | none => []
      | _ => []
    else []

def definitionsOf (settings : Settings) (source : String) (groups : List String) :
    List Markup.Node → List Snippet
  | [] => []
  | child :: rest =>
    child.definitions settings source groups ++ definitionsOf settings source groups rest

end

def Markup.Element.definitions (settings : Settings) (source : String)
    (document : Markup.Element) : List Snippet :=
  definitionsOf settings source [] document.children

def lastOf? (key : Key) (snippets : List Snippet) : Option Snippet :=
  snippets.reverse.find? fun snippet => snippet.key == key

def Settings.accepts (settings : Settings) (document : Markup.Element) : Bool :=
  document.tag.isIn settings.directiveNs && document.tag.name == settings.documentElement

theorem lastOf?_isSome_iff {key : Key} {snippets : List Snippet} :
    (lastOf? key snippets).isSome ↔ key ∈ snippets.map Snippet.key := by
  simp [lastOf?, List.find?_isSome]

theorem mem_of_lastOf? {key : Key} {snippets : List Snippet} {snippet : Snippet}
    (h : lastOf? key snippets = some snippet) : snippet ∈ snippets ∧ snippet.key = key := by
  rw [lastOf?, List.find?_eq_some_iff_append] at h
  obtain ⟨hkey, before, after, hsplit, -⟩ := h
  have hmem : snippet ∈ snippets.reverse := hsplit ▸ by simp
  exact ⟨List.mem_reverse.1 hmem, beq_iff_eq.1 hkey⟩

namespace Registry

def putAll (registry : Registry) (snippets : List Snippet) : Registry := snippets.foldl put registry

@[simp] theorem putAll_nil (registry : Registry) : registry.putAll [] = registry := rfl

theorem putAll_append (registry : Registry) (snippets others : List Snippet) :
    registry.putAll (snippets ++ others) = (registry.putAll snippets).putAll others :=
  List.foldl_append

theorem get?_put (registry : Registry) (snippet : Snippet) (key : Key) :
    (registry.put snippet).get? key =
      if snippet.key = key then some snippet else registry.get? key := by
  rw [get?, put, Record.get?_insert, get?]
  simp only [Key.text_inj, eq_comm]

theorem get?_putAll (registry : Registry) (snippets : List Snippet) (key : Key) :
    (registry.putAll snippets).get? key = (lastOf? key snippets).or (registry.get? key) := by
  induction snippets generalizing registry with
  | nil => rfl
  | cons snippet rest ih =>
    have hrest := ih (registry.put snippet)
    rw [putAll, List.foldl_cons, ← putAll, hrest, get?_put, lastOf?, lastOf?, List.reverse_cons,
      List.find?_append, Option.or_assoc]
    by_cases hkey : snippet.key = key <;> simp [hkey]

theorem hasSource_iff {registry : Registry} {source : String} :
    registry.hasSource source = true ↔ source ∈ registry.sources :=
  List.contains_iff_mem

theorem hasSource_eq_false_iff {registry : Registry} {source : String} :
    registry.hasSource source = false ↔ source ∉ registry.sources := by
  rw [← Bool.not_eq_true, hasSource_iff]

theorem sources_putAll (registry : Registry) (snippets : List Snippet) :
    (registry.putAll snippets).sources = registry.sources := by
  induction snippets generalizing registry with
  | nil => rfl
  | cons snippet rest ih => exact ih (registry.put snippet)

theorem snippets_markSource (registry : Registry) (source : String) :
    (registry.markSource source).snippets = registry.snippets := by
  rw [markSource]
  split <;> rfl

theorem get?_markSource (registry : Registry) (source : String) (key : Key) :
    (registry.markSource source).get? key = registry.get? key := by
  rw [get?, snippets_markSource, get?]

theorem mem_toList_putAll {registry : Registry} {snippets : List Snippet}
    {entry : String × Snippet} (h : entry ∈ (registry.putAll snippets).snippets.toList) :
    (∃ snippet ∈ snippets, entry = (snippet.key.text, snippet)) ∨
      entry ∈ registry.snippets.toList := by
  induction snippets generalizing registry with
  | nil => exact .inr h
  | cons snippet rest ih =>
    obtain ⟨other, hmem, rfl⟩ | h := ih h
    · exact .inl ⟨other, List.mem_cons_of_mem snippet hmem, rfl⟩
    · obtain rfl | h := Record.mem_toList_insert h
      · exact .inl ⟨snippet, List.mem_cons_self, rfl⟩
      · exact .inr h

end Registry

end MarkupSnippets

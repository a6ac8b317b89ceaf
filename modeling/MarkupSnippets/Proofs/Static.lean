import Mathlib.Data.List.Induction
import MarkupSnippets.Proofs.AttributeNames
import MarkupSnippets.Proofs.Search
import MarkupSnippets.Proofs.Texts

namespace MarkupSnippets

/-- Whether two opening braces stand in a text with two closing ones somewhere behind them. -/
def HoldsPlaceholder (text : String) : Prop :=
  ∃ before rest, text.toList = before ++ (Piece.opening ++ rest) ∧ Piece.closing <:+: rest

theorem holdsPlaceholder_iff {text : String} :
    HoldsPlaceholder text ↔
      ((Text.behind? Piece.opening text.toList).bind (Text.behind? Piece.closing)).isSome := by
  constructor
  · rintro ⟨before, rest, htext, hclosing⟩
    obtain ⟨skipped, behind, hsplit, hsuffix⟩ :=
      Text.exists_splitAt?_append Piece.opening before rest
    have hfound : ¬Text.splitAt? Piece.closing behind = none :=
      fun hnone => Text.splitAt?_eq_none_iff.1 hnone (hclosing.trans hsuffix.isInfix)
    simpa [Text.behind?, htext, hsplit, Option.isSome_iff_ne_none] using hfound
  · intro h
    obtain ⟨after, hafter⟩ := Option.isSome_iff_exists.1 h
    obtain ⟨inner, hinner, hclosing⟩ := Option.bind_eq_some_iff.1 hafter
    obtain ⟨⟨before, rest⟩, hopen, rfl⟩ := Option.map_eq_some_iff.1 hinner
    obtain ⟨⟨path, after⟩, hclose, rfl⟩ := Option.map_eq_some_iff.1 hclosing
    refine ⟨before, rest, Text.eq_of_splitAt? hopen, path, after, ?_⟩
    rw [List.append_assoc]
    exact (Text.eq_of_splitAt? hclose).symm

instance (text : String) : Decidable (HoldsPlaceholder text) :=
  decidable_of_iff _ holdsPlaceholder_iff.symm

theorem pieces_of_not_holdsPlaceholder {text : String} (h : ¬HoldsPlaceholder text) :
    Piece.pieces text.toList = [.plain text.toList] := by
  rw [Piece.pieces]
  split
  · rfl
  · next before inner hopen =>
    split
    · rfl
    · next path rest hclose =>
      refine absurd (holdsPlaceholder_iff.2 ?_) h
      simp [Text.behind?, hopen, hclose]

theorem substitute_of_not_holdsPlaceholder {text : String} (h : ¬HoldsPlaceholder text)
    (data : Data) : substitute data text = text := by
  rw [substitute, pieces_of_not_holdsPlaceholder h]
  simp [Piece.fill]

theorem eraseDups_concat {α : Type} [BEq α] [LawfulBEq α] (xs : List α) (x : α) :
    (xs ++ [x]).eraseDups = if x ∈ xs then xs.eraseDups else xs.eraseDups ++ [x] := by
  rw [List.eraseDups_append, List.removeAll]
  by_cases h : x ∈ xs
  · simp [h]
  · simp [h, List.eraseDups_cons]

namespace Markup

def Attribute.fullName (a : Attribute) : Option String × String := (a.ns, a.name)

def Attribute.copy (a : Attribute) : Output.Attribute := ⟨a.ns, a.pfx, a.name, a.value⟩

/-- Of the attributes with the same namespace and name one is kept: the last of them, in the place
of the first. -/
def keptAttributes (attributes : List Attribute) : List Attribute :=
  (attributes.map Attribute.fullName).eraseDups.filterMap fun name =>
    attributes.reverse.find? fun a => a.fullName == name

def setAll (attributes : List Attribute) : List Output.Attribute :=
  attributes.foldl (fun kept a => Output.setAttribute a.copy kept) []

theorem setAll_concat (attributes : List Attribute) (a : Attribute) :
    setAll (attributes ++ [a]) = Output.setAttribute a.copy (setAll attributes) := by
  rw [setAll, List.foldl_append, ← setAll]
  rfl

theorem nodup_setAll (attributes : List Attribute) :
    (Output.fullNames (setAll attributes)).Nodup := by
  induction attributes using List.reverseRecOn with
  | nil => exact List.nodup_nil
  | append_singleton attributes a ih =>
    rw [setAll_concat]
    exact Output.nodup_fullNames_setAttribute ih a.copy

theorem fullNames_setAll (attributes : List Attribute) :
    Output.fullNames (setAll attributes) = (attributes.map Attribute.fullName).eraseDups := by
  induction attributes using List.reverseRecOn with
  | nil => rfl
  | append_singleton attributes a ih =>
    rw [setAll_concat, Output.fullNames_setAttribute, ih, List.map_append, List.map_singleton,
      eraseDups_concat]
    simp only [List.mem_eraseDups]
    rfl

theorem findNamed_setAll (attributes : List Attribute) (name : Option String × String) :
    Output.findNamed (setAll attributes) name =
      (attributes.reverse.find? fun a => a.fullName == name).map Attribute.copy := by
  induction attributes using List.reverseRecOn with
  | nil => rfl
  | append_singleton attributes a ih =>
    rw [setAll_concat, Output.findNamed_setAttribute, ih, List.reverse_append,
      List.reverse_singleton, List.singleton_append, List.find?_cons]
    have hname : a.copy.fullName = a.fullName := rfl
    by_cases h : a.fullName = name
    · rw [hname, if_pos h, beq_iff_eq.2 h]
      rfl
    · rw [hname, if_neg h, beq_false_of_ne h]

theorem setAll_eq (attributes : List Attribute) :
    setAll attributes = (keptAttributes attributes).map Attribute.copy := by
  rw [Output.eq_filterMap_of_nodup (nodup_setAll attributes), fullNames_setAll, keptAttributes,
    List.map_filterMap]
  exact List.filterMap_congr fun name _ => findNamed_setAll attributes name

def Tag.isStatic (ns : String) (tag : Tag) : Bool :=
  !tag.isIn ns && tag.attributes.all fun a => a.ns != some ns && !decide (HoldsPlaceholder a.value)

theorem Tag.isStatic_iff {ns : String} {tag : Tag} :
    tag.isStatic ns = true ↔ tag.isIn ns = false ∧
      ∀ a ∈ tag.attributes, a.ns ≠ some ns ∧ ¬HoldsPlaceholder a.value := by
  simp [isStatic]

mutual

/-- Whether a node has nothing in it that is carried out: neither elements and attributes in the
directive namespace nor placeholders. -/
def Node.isStatic (ns : String) : Node → Bool
  | .text content => !decide (HoldsPlaceholder content)
  | .element tag children => tag.isStatic ns && areStatic ns children

def areStatic (ns : String) : List Node → Bool
  | [] => true
  | node :: rest => node.isStatic ns && areStatic ns rest

end

def Tag.copy (tag : Tag) (ns : String) : Output.Tag :=
  ⟨ns, tag.name, (keptAttributes tag.attributes).map Attribute.copy, .empty⟩

mutual

/-- The node as it stands in the template. Blank texts are dropped, and elements without a namespace
get the default one. -/
def Node.copy (defaultNs : String) : Node → List Output.Node
  | .text content => if Text.allBlank content then [] else [.text content]
  | .element tag children =>
    [.element (tag.copy (tag.ns.getD defaultNs)) (copies defaultNs children)]

def copies (defaultNs : String) : List Node → List Output.Node
  | [] => []
  | node :: rest => node.copy defaultNs ++ copies defaultNs rest

end

end Markup

namespace Stage

variable {stage : Stage}

theorem takeAttribute_of_static {a : Markup.Attribute}
    (hns : a.ns ≠ some stage.settings.directiveNs) (hvalue : ¬HoldsPlaceholder a.value)
    (data : Data) (origin : Origin) (draft : Draft) :
    stage.takeAttribute data origin draft a =
      { draft with target := draft.target.setAttribute a.copy } := by
  rw [takeAttribute, if_pos (by simpa using hns), substitute_of_not_holdsPlaceholder hvalue]
  rfl

theorem takeAttributes_of_static {attributes : List Markup.Attribute}
    (hstatic : ∀ a ∈ attributes,
      a.ns ≠ some stage.settings.directiveNs ∧ ¬HoldsPlaceholder a.value)
    (data : Data) (origin : Origin) (ns name : String) (warnings : List Warning) :
    attributes.foldl (stage.takeAttribute data origin) ⟨Output.Element.new ns name, warnings⟩ =
      ⟨⟨⟨ns, name, Markup.setAll attributes, .empty⟩, []⟩, warnings⟩ := by
  induction attributes using List.reverseRecOn with
  | nil => rfl
  | append_singleton attributes a ih =>
    obtain ⟨hns, hvalue⟩ := hstatic a (List.mem_append_right _ List.mem_cons_self)
    rw [List.foldl_append, ih fun b hb => hstatic b (List.mem_append_left _ hb),
      Markup.setAll_concat]
    exact takeAttribute_of_static hns hvalue data origin _

theorem element_of_static {tag : Markup.Tag}
    (hstatic : tag.isStatic stage.settings.directiveNs = true) (ns : String) (data : Data)
    (origin : Origin) (warnings : List Warning) (content : Draft → Except ProduceError Draft) :
    stage.element ns tag data origin warnings content =
      content ⟨⟨tag.copy ns, []⟩, warnings⟩ := by
  obtain ⟨-, hattributes⟩ := Markup.Tag.isStatic_iff.1 hstatic
  rw [element, takeAttributes_of_static hattributes, Markup.setAll_eq, Markup.Tag.copy]
  simp only [postproduction_of_plain fun a ha => (hattributes a ha).1]
  exact bind_pure _

mutual

theorem node_of_static (stage : Stage) (data : Data) (origin : Origin) (draft : Draft)
    (node : Markup.Node) (hstatic : node.isStatic stage.settings.directiveNs = true) :
    stage.node data origin draft node =
      .ok ⟨draft.target.extend (node.copy stage.settings.defaultNs), draft.warnings⟩ := by
  cases node with
  | text content =>
    have hplain : ¬HoldsPlaceholder content := by simpa [Markup.Node.isStatic] using hstatic
    rw [Stage.node, Markup.Node.copy, substitute_of_not_holdsPlaceholder hplain]
    split
    · rw [Output.Element.extend_nil]
    · rfl
  | element tag children =>
    rw [Markup.Node.isStatic, Bool.and_eq_true] at hstatic
    obtain ⟨htag, hchildren⟩ := hstatic
    have hdir : stage.isDirective tag = false := (Markup.Tag.isStatic_iff.1 htag).1
    simp only [Stage.node, hdir, Bool.false_eq_true, ↓reduceIte, element_of_static htag]
    rw [nodes_of_static stage data _ _ children hchildren]
    rfl

theorem nodes_of_static (stage : Stage) (data : Data) (origin : Origin) (draft : Draft)
    (children : List Markup.Node)
    (hstatic : Markup.areStatic stage.settings.directiveNs children = true) :
    stage.nodes data origin draft children =
      .ok ⟨draft.target.extend (Markup.copies stage.settings.defaultNs children),
        draft.warnings⟩ := by
  cases children with
  | nil => rw [Stage.nodes, Markup.copies, Output.Element.extend_nil]
  | cons child rest =>
    rw [Markup.areStatic, Bool.and_eq_true] at hstatic
    rw [Stage.nodes, node_of_static stage data origin draft child hstatic.1, Markup.copies,
      ← Output.Element.extend_extend]
    exact nodes_of_static stage data origin _ rest hstatic.2

end

end Stage

namespace Workshop

/-- Whatever the data, a static template is carried out without a warning, and the result is a copy
of it. The root of the copy is in the namespace that is stored with the snippet. -/
theorem produce_of_static {w : Workshop} {key : Key} {snippet : Snippet}
    (hget : w.registry.get? key = some snippet)
    (hstatic : snippet.template.toNode.isStatic w.settings.directiveNs = true) (data : Data) :
    w.produce key data = .ok ⟨⟨snippet.template.tag.copy snippet.ns,
      Markup.copies w.settings.defaultNs snippet.template.children⟩, []⟩ := by
  rw [Markup.Element.toNode, Markup.Node.isStatic, Bool.and_eq_true] at hstatic
  obtain ⟨htag, hchildren⟩ := hstatic
  let stage := w.stage ((Chain.empty).extend snippet.token) snippet.token
  let here := Origin.enter [] snippet.template.tag snippet.token
  have helement := stage.element_of_static htag snippet.ns data here []
    fun draft => stage.nodes data here draft snippet.template.children
  have hnodes := stage.nodes_of_static data here ⟨⟨snippet.template.tag.copy snippet.ns, []⟩, []⟩
    snippet.template.children hchildren
  rw [produce, produceWith_eq, hget]
  exact helement.trans hnodes

/-- A template with braces that are no placeholders, an attribute set twice, a foreign element and
white space. -/
def staticSnippet : Snippet where
  key := Key.ofString "/static"
  source := "s"
  ns := "m"
  template := ⟨⟨none, none, "p", [⟨some "x", some "a", "id", "1"⟩, ⟨none, none, "id", "2"⟩,
      ⟨some "x", some "b", "id", "\x7b\x7b3"⟩]⟩,
    [.text " \n", .text "\x7d\x7d \x7b\x7b",
      .element ⟨some "g", some "g", "b", []⟩ [.element ⟨none, none, "i", []⟩ [.text "!"]]]⟩

theorem produce_of_static_repeated_attribute :
    (holding staticSnippet).registry.get? staticSnippet.key = some staticSnippet ∧
      staticSnippet.template.toNode.isStatic "d" = true ∧
      (holding staticSnippet).produce staticSnippet.key (Record.empty.insert "3" (.text "x")) =
        .ok ⟨⟨⟨"m", "p", [⟨some "x", some "b", "id", "\x7b\x7b3"⟩, ⟨none, none, "id", "2"⟩],
            .empty⟩,
          [.text "\x7d\x7d \x7b\x7b",
            .element ⟨"g", "b", [], .empty⟩ [.element ⟨"h", "i", [], .empty⟩ [.text "!"]]]⟩,
          []⟩ := by
  have hget : (holding staticSnippet).registry.get? staticSnippet.key = some staticSnippet := rfl
  have hstatic : staticSnippet.template.toNode.isStatic "d" = true := by decide +kernel
  exact ⟨hget, hstatic, produce_of_static hget hstatic _⟩

end Workshop

end MarkupSnippets

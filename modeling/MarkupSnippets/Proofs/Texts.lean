import MarkupSnippets.Proofs.Appending

namespace MarkupSnippets

namespace Markup

mutual

/-- Whether a node consists of texts, plain elements and `text` directives. The plain elements have
no attributes in the directive namespace; what is inside a `text` directive does not matter. -/
def Node.isProse (ns : String) : Node → Bool
  | .text _ => true
  | .element tag children =>
    if tag.isIn ns then Directive.ofLocalName? tag.name == some .text
    else tag.attributes.all (fun a => a.ns != some ns) && areProse ns children

def areProse (ns : String) : List Node → Bool
  | [] => true
  | node :: rest => node.isProse ns && areProse ns rest

end

mutual

/-- The texts of a node that are put out, in document order, where `pick` finds the text of a
directive among its children. -/
def Node.texts (ns : String) (pick : List Node → Option String) : Node → List String
  | .text content => if Text.allBlank content then [] else [content]
  | .element tag children =>
    if tag.isIn ns then (pick children).toList else textsOf ns pick children

def textsOf (ns : String) (pick : List Node → Option String) : List Node → List String
  | [] => []
  | node :: rest => node.texts ns pick ++ textsOf ns pick rest

end

def Node.text? : Node → Option String
  | .text content => some content
  | .element _ _ => none

def leadingText? (nodes : List Node) : Option String := nodes.head?.bind Node.text?

def anyText? (nodes : List Node) : Option String := nodes.findSome? Node.text?

theorem Element.firstText?_eq (children : List Node) :
    Element.firstText? children = leadingText? children := by
  cases children with
  | nil => rfl
  | cons child rest => cases child <;> rfl

end Markup

theorem Output.textContents_append (nodes others : List Output.Node) :
    textContents (nodes ++ others) = textContents nodes ++ textContents others := by
  induction nodes with
  | nil => exact String.empty_append.symm
  | cons node nodes ih => rw [List.cons_append, textContents, textContents, ih, String.append_assoc]

/-- What adds nodes with the given texts, the data filled in, and does nothing else. -/
def PutsOut (data : Data) (texts : List String) (draft : Draft)
    (outcome : Except ProduceError Draft) : Prop :=
  ∃ added, outcome = .ok ⟨draft.target.extend added, draft.warnings⟩ ∧
    Output.textContents added = String.join (texts.map (substitute data))

namespace PutsOut

variable {data : Data} {texts others : List String} {draft : Draft}
  {outcome : Except ProduceError Draft}

theorem nothing (data : Data) (draft : Draft) : PutsOut data [] draft (.ok draft) :=
  ⟨[], by rw [Output.Element.extend_nil], rfl⟩

theorem text (data : Data) (content : String) (draft : Draft) :
    PutsOut data [content] draft (.ok (draft.append (.text (substitute data content)))) := by
  refine ⟨[.text (substitute data content)], rfl, ?_⟩
  simp [Output.textContents, Output.Node.textContent]

theorem bind (h : PutsOut data texts draft outcome) {next : Draft → Except ProduceError Draft}
    (hnext : ∀ draft, PutsOut data others draft (next draft)) :
    PutsOut data (texts ++ others) draft (outcome >>= next) := by
  obtain ⟨added, rfl, htexts⟩ := h
  obtain ⟨more, hmore, hothers⟩ := hnext ⟨draft.target.extend added, draft.warnings⟩
  refine ⟨added ++ more, ?_, ?_⟩
  · refine hmore.trans ?_
    rw [Output.Element.extend_extend]
  · rw [Output.textContents_append, htexts, hothers, List.map_append, String.join_append]

theorem child {start : Draft} (hstart : start.target.children = [])
    (h : PutsOut data texts start outcome) (hwarnings : start.warnings = draft.warnings) :
    PutsOut data texts draft (outcome >>= fun built =>
      pure ⟨draft.target.appendChild built.target, built.warnings⟩) := by
  obtain ⟨added, rfl, htexts⟩ := h
  refine ⟨[(start.target.extend added).toNode], ?_, ?_⟩
  · rw [← hwarnings]
    rfl
  · simp only [Output.textContents, Output.Node.textContent, Output.Element.toNode,
      Output.Element.extend, hstart, List.nil_append, String.append_empty, htexts]

end PutsOut

namespace Stage

variable {stage : Stage}

theorem takeAttributes_of_plain {attributes : List Markup.Attribute}
    (hplain : ∀ a ∈ attributes, a.ns ≠ some stage.settings.directiveNs) (data : Data)
    (origin : Origin) (draft : Draft) :
    ∃ tag, attributes.foldl (stage.takeAttribute data origin) draft =
      ⟨⟨tag, draft.target.children⟩, draft.warnings⟩ := by
  induction attributes generalizing draft with
  | nil => exact ⟨draft.target.tag, rfl⟩
  | cons a attributes ih =>
    obtain ⟨ha, hattributes⟩ := List.forall_mem_cons.1 hplain
    have htake : stage.takeAttribute data origin draft a = { draft with
        target := draft.target.setAttribute ⟨a.ns, a.pfx, a.name, substitute data a.value⟩ } := by
      rw [takeAttribute, if_pos (by simpa using ha)]
    rw [List.foldl_cons, htake]
    exact ih hattributes _

theorem postproduction_of_plain {tag : Markup.Tag}
    (hplain : ∀ a ∈ tag.attributes, a.ns ≠ some stage.settings.directiveNs) (data : Data)
    (origin : Origin) (draft : Draft) : stage.postproduction tag data origin draft = .ok draft := by
  have hcall : tag.attributeIn? (some stage.settings.directiveNs) "postproduction" = none := by
    rw [Markup.Tag.attributeIn?, Option.map_eq_none_iff, List.find?_eq_none]
    intro a ha
    simp [hplain a ha]
  rw [postproduction, hcall]

theorem element_of_plain {tag : Markup.Tag}
    (hplain : ∀ a ∈ tag.attributes, a.ns ≠ some stage.settings.directiveNs) (ns : String)
    (data : Data) (origin : Origin) (warnings : List Warning)
    (content : Draft → Except ProduceError Draft) :
    ∃ start : Draft, start.target.children = [] ∧ start.warnings = warnings ∧
      stage.element ns tag data origin warnings content = content start := by
  obtain ⟨opened, hopened⟩ :=
    takeAttributes_of_plain hplain data origin ⟨Output.Element.new ns tag.name, warnings⟩
  refine ⟨⟨⟨opened, []⟩, warnings⟩, rfl, rfl, ?_⟩
  rw [element, hopened]
  simp only [postproduction_of_plain hplain]
  exact bind_pure _

mutual

theorem putsOut_node (stage : Stage) (data : Data) (origin : Origin) (draft : Draft)
    (node : Markup.Node) (h : node.isProse stage.settings.directiveNs = true) :
    PutsOut data (node.texts stage.settings.directiveNs Markup.leadingText?) draft
      (stage.node data origin draft node) := by
  cases node with
  | text content =>
    rw [Markup.Node.texts, Stage.node]
    split
    · exact .nothing data draft
    · exact .text data content draft
  | element tag children =>
    rw [Markup.Node.isProse] at h
    rw [Markup.Node.texts]
    cases hdir : stage.isDirective tag with
    | true =>
      have hin : tag.isIn stage.settings.directiveNs = true := hdir
      have hname : Directive.ofLocalName? tag.name = some .text := by simpa [hin] using h
      simp only [Stage.node, hdir, hin, hname, Markup.Element.firstText?_eq, ↓reduceIte]
      cases Markup.leadingText? children with
      | none => exact .nothing data draft
      | some content => exact .text data content draft
    | false =>
      have hin : tag.isIn stage.settings.directiveNs = false := hdir
      simp only [hin, Bool.false_eq_true, ↓reduceIte, Bool.and_eq_true, List.all_eq_true,
        bne_iff_ne] at h
      simp only [Stage.node, hdir, hin, Bool.false_eq_true, ↓reduceIte]
      let here := origin.enter tag stage.location
      obtain ⟨start, hstart, hwarnings, helement⟩ := element_of_plain h.1
        (tag.ns.getD stage.settings.defaultNs) data here draft.warnings
        (fun inner => stage.nodes data here inner children)
      rw [helement]
      exact .child hstart (putsOut_nodes stage data here start children h.2) hwarnings

theorem putsOut_nodes (stage : Stage) (data : Data) (origin : Origin) (draft : Draft)
    (children : List Markup.Node) (h : Markup.areProse stage.settings.directiveNs children = true) :
    PutsOut data (Markup.textsOf stage.settings.directiveNs Markup.leadingText? children) draft
      (stage.nodes data origin draft children) := by
  cases children with
  | nil => exact .nothing data draft
  | cons child rest =>
    rw [Markup.areProse, Bool.and_eq_true] at h
    exact (putsOut_node stage data origin draft child h.1).bind fun draft =>
      putsOut_nodes stage data origin draft rest h.2

end

end Stage

namespace Workshop

variable {w : Workshop} {key : Key} {snippet : Snippet}

/-- A template of prose whose root is a plain element is carried out without a warning, and the text
of the result is that of the template: each text of it, in document order, with the data filled in.
A `text` directive has the text that it begins with, if it begins with one. -/
theorem textContent_of_prose (hget : w.registry.get? key = some snippet)
    (hroot : snippet.template.tag.isIn w.settings.directiveNs = false)
    (hprose : snippet.template.toNode.isProse w.settings.directiveNs = true) (data : Data) :
    ∃ target, w.produce key data = .ok ⟨target, []⟩ ∧
      target.textContent = String.join
        ((Markup.textsOf w.settings.directiveNs Markup.leadingText?
          snippet.template.children).map (substitute data)) := by
  rw [Markup.Element.toNode, Markup.Node.isProse, hroot, if_neg Bool.false_ne_true,
    Bool.and_eq_true, List.all_eq_true] at hprose
  simp only [bne_iff_ne] at hprose
  let stage := w.stage ((Chain.empty).extend snippet.token) snippet.token
  let here := Origin.enter [] snippet.template.tag snippet.token
  obtain ⟨start, hstart, hwarnings, helement⟩ := stage.element_of_plain hprose.1 snippet.ns data
    here [] (fun inner => stage.nodes data here inner snippet.template.children)
  obtain ⟨added, hnodes, htexts⟩ :=
    stage.putsOut_nodes data here start snippet.template.children hprose.2
  refine ⟨start.target.extend added, ?_, ?_⟩
  · rw [produce, produceWith_eq, hget]
    exact helement.trans (hnodes.trans (by rw [hwarnings]))
  · rw [Output.Element.textContent, Output.Element.extend, hstart, List.nil_append]
    exact htexts

def mixedProse : Snippet where
  key := Key.ofString "/prose"
  source := "s"
  ns := "h"
  template := ⟨⟨none, none, "p", []⟩,
    [.element ⟨none, none, "b", [⟨none, none, "class", "c"⟩]⟩
        [.text "Dear \x7b\x7bname\x7d\x7d,"],
      .text "\n",
      .element ⟨some "d", none, "text", []⟩
        [.text " bye", .element ⟨none, none, "i", []⟩ [.text "!"], .text "!"]]⟩

def lateSnippet : Snippet where
  key := Key.ofString "/late"
  source := "s"
  ns := "h"
  template := ⟨⟨none, none, "p", []⟩,
    [.element ⟨some "d", none, "text", []⟩ [.element ⟨none, none, "b", []⟩ [], .text "late"]]⟩

def holding (snippet : Snippet) : Workshop where
  settings := ⟨"d", "h", "doc"⟩
  registry := Registry.empty.put snippet
  host := fun _ target _ => (target, none)

theorem textContent_of_prose_mixed :
    (holding mixedProse).registry.get? mixedProse.key = some mixedProse ∧
      mixedProse.template.tag.isIn "d" = false ∧
      mixedProse.template.toNode.isProse "d" = true ∧
      ∃ target, (holding mixedProse).produce mixedProse.key
          (Record.empty.insert "name" (.text "Ann")) = .ok ⟨target, []⟩ ∧
        target.textContent = "Dear Ann, bye" := by
  have hget : (holding mixedProse).registry.get? mixedProse.key = some mixedProse := rfl
  obtain ⟨target, hproduce, htext⟩ := textContent_of_prose hget (by decide) (by decide)
    (Record.empty.insert "name" (.text "Ann"))
  refine ⟨hget, by decide, by decide, target, hproduce, htext.trans ?_⟩
  decide +kernel

/-- A text that an element stands in front of is not put out, though it is the first text in its
directive. -/
theorem late_text_is_lost :
    (holding lateSnippet).registry.get? lateSnippet.key = some lateSnippet ∧
      lateSnippet.template.tag.isIn "d" = false ∧
      lateSnippet.template.toNode.isProse "d" = true ∧
      ¬∃ target, (holding lateSnippet).produce lateSnippet.key .empty = .ok ⟨target, []⟩ ∧
        target.textContent = String.join
          ((Markup.textsOf "d" Markup.anyText? lateSnippet.template.children).map
            (substitute .empty)) := by
  have hget : (holding lateSnippet).registry.get? lateSnippet.key = some lateSnippet := rfl
  have hproduce : (holding lateSnippet).produce lateSnippet.key .empty =
      .ok ⟨Output.Element.new "h" "p", []⟩ := by
    rw [produce, produceWith_eq, hget]
    rfl
  refine ⟨hget, by decide, by decide, ?_⟩
  rintro ⟨target, hok, htext⟩
  obtain ⟨rfl, -⟩ := Draft.mk.inj (Except.ok.inj (hproduce.symm.trans hok))
  revert htext
  decide +kernel

end Workshop

end MarkupSnippets

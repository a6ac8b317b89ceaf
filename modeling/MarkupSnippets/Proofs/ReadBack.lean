import MarkupSnippets.Proofs.Pieces
import MarkupSnippets.Proofs.WrittenTag

namespace MarkupSnippets

namespace Markup

theorem readMarkup_tag {content : List Char} (hpasses : Passes content)
    (hmark : ∀ c ∈ content.head?, c ≠ '!' ∧ c ≠ '?') (rest : List Char) :
    readMarkup (content ++ '>' :: rest) = .ok (some (tagEvent content), rest) :=
  readMarkup_of_cutTag (hpasses.cutTag_eq rest) hmark

theorem Reading.run_tag {content : List Char} (hpasses : Passes content)
    (hmark : ∀ c ∈ content.head?, c ≠ '!' ∧ c ≠ '?') (r : Reading) (rest : List Char) :
    r.run ('<' :: (content ++ '>' :: rest)) =
      (r.step (tagEvent content) >>= fun next => next.run rest) := by
  have hread : readPiece '<' (content ++ '>' :: rest) = .ok (some (tagEvent content), rest) :=
    readMarkup_tag hpasses hmark rest
  rw [run_cons, hread, ← stepOver_some]

theorem tagEvent_closing {name : List Char} (h : Bare name) :
    tagEvent ('/' :: name) = .closing name := by
  have hspaces : ∀ c ∈ name.reverse, isSpace c = false := fun c hc =>
    h.isSpace_of_mem (List.mem_reverse.1 hc)
  have htrim : trimSpaces name = name := by
    obtain ⟨c, cs, hcs⟩ := List.exists_cons_of_ne_nil (mt List.reverse_eq_nil_iff.1 h.ne_nil)
    have hc : isSpace c = false := hspaces c (hcs ▸ List.mem_cons_self)
    have hall : name.all isSpace = false := by
      refine List.all_eq_false.2 ⟨c, List.mem_reverse.1 (hcs ▸ List.mem_cons_self), ?_⟩
      simp [hc]
    rw [trimSpaces, hall, if_neg Bool.false_ne_true, hcs,
      List.dropWhile_cons_of_neg (by simp [hc]), ← hcs, List.reverse_reverse]
  rw [tagEvent, htrim]

theorem tagEvent_opening {content : List Char} (hfirst : content.head? ≠ some '/')
    (hlast : content.getLast? ≠ some '/') : tagEvent content = .opening content := by
  unfold tagEvent
  split
  · exact absurd rfl hfirst
  · rw [if_neg hlast]

theorem tagEvent_empty {content : List Char} (hne : content ≠ [])
    (hfirst : content.head? ≠ some '/') : tagEvent (content ++ ['/']) = .empty content := by
  unfold tagEvent
  split
  · next name heq =>
    rw [← List.head?_append_of_ne_nil _ hne, heq] at hfirst
    exact absurd rfl hfirst
  · rw [if_pos List.getLast?_concat, List.dropLast_concat]

end Markup

namespace Output

open Markup (Bare Passes Reading)

def Tag.content (outer : Option String) (tag : Tag) : List Char :=
  tag.name.toList ++ entriesMarkup (tag.entries outer)

namespace Tag.Named

variable {tag : Tag} (h : tag.Named) (outer : Option String)

include h

theorem passes_content : Passes (tag.content outer) := by
  refine (Passes.of_bare (Markup.bare_of_isNcName h.name)).append (Passes.flatMap ?_)
  exact fun entry hmem => passes_attributeMarkup (h.bare_of_mem_entries outer entry hmem) entry.2

theorem head?_content {c d : Char} (hd : d ∈ Markup.delimiters)
    (hc : (tag.content outer).head? = some c) : c ≠ d := by
  have hname := Markup.bare_of_isNcName h.name
  rw [content, List.head?_append_of_ne_nil _ hname.ne_nil] at hc
  exact hname.ne_of_mem (List.mem_of_mem_head? hc) hd

theorem getLast?_content : (tag.content outer).getLast? ≠ some '/' := by
  have hname := Markup.bare_of_isNcName h.name
  intro hlast
  rw [content] at hlast
  obtain hnil | ⟨entries, entry, hconcat⟩ := List.eq_nil_or_concat (tag.entries outer)
  · rw [hnil] at hlast
    change (tag.name.toList ++ []).getLast? = _ at hlast
    rw [List.append_nil] at hlast
    exact hname.ne_of_mem (List.mem_of_getLast? hlast) (by decide) rfl
  · have hend : tag.name.toList ++ entriesMarkup (tag.entries outer) =
        tag.name.toList ++ entriesMarkup entries ++ ' ' ::
          (entry.1.toList ++ '=' :: '"' :: valueMarkup entry.2) ++ ['"'] := by
      simp [hconcat, entriesMarkup, attributeMarkup]
    rw [hend, List.getLast?_concat] at hlast
    exact absurd (Option.some.inj hlast) (by decide)

end Tag.Named

/-- Nodes behind others that are given in reverse order, two texts between them being joined. -/
def joinNodes (before nodes : List Markup.Node) : List Markup.Node :=
  match before, nodes with
  | .text previous :: earlier, .text next :: rest =>
    earlier.reverse ++ .text (previous ++ next) :: rest
  | before, nodes => before.reverse ++ nodes

theorem joinNodes_nil_left (nodes : List Markup.Node) : joinNodes [] nodes = nodes := by
  simp [joinNodes]

theorem joinNodes_nil_right (before : List Markup.Node) : joinNodes before [] = before.reverse := by
  simp [joinNodes]

theorem joinNodes_element (before : List Markup.Node) (tag : Markup.Tag)
    (children nodes : List Markup.Node) :
    joinNodes (.element tag children :: before) nodes =
      joinNodes before (.element tag children :: nodes) := by
  simp [joinNodes]

theorem consText_empty (nodes : List Markup.Node) : consText "" nodes = nodes := by
  unfold consText
  exact if_pos rfl

theorem joinNodes_pushText (content : String) (hcontent : content ≠ "")
    (before nodes : List Markup.Node) :
    joinNodes (Markup.pushText content before) nodes =
      joinNodes before (consText content nodes) := by
  unfold consText
  rw [if_neg hcontent]
  cases before with
  | nil =>
    cases nodes with
    | nil => rfl
    | cons node rest => cases node <;> rfl
  | cons last earlier =>
    cases nodes with
    | nil => cases last <;> simp [Markup.pushText, joinNodes]
    | cons node rest =>
      cases last <;> cases node <;> simp [Markup.pushText, joinNodes, String.append_assoc]

/-- Whether an element that is written is read as another one, whatever is around it. -/
def ReadsAs (e : Element) (root : Markup.Element) : Prop :=
  ∀ (r : Reading) (outer : Option String) (rest : List Char), r.root = none →
    r.scope.Fits outer →
    r.run (e.toNode.markup outer ++ rest) = (r.add root >>= fun next => next.run rest)

theorem run_nodes {nodes : List Node}
    (h : ∀ tag children, .element tag children ∈ nodes →
      ReadsAs ⟨tag, children⟩ ((Element.mk tag children).readBack.mapNs asWritten))
    (e : Markup.OpenElement) (around : List Markup.OpenElement) (ns : String)
    (hfits : e.scope.Fits (some ns)) (rest : List Char) :
    Reading.run ⟨e :: around, none⟩ (nodesMarkup ns nodes ++ rest) =
      Reading.run ⟨⟨e.tag, e.scope,
        (joinNodes e.children (Markup.mapNodesNs asWritten (readNodes nodes))).reverse⟩ ::
        around, none⟩ rest := by
  induction nodes generalizing e with
  | nil =>
    rw [readNodes, Markup.mapNodesNs, joinNodes_nil_right, List.reverse_reverse]
    rfl
  | cons node nodes ih =>
    have hnodes := ih fun tag children hmem => h tag children (List.mem_cons_of_mem _ hmem)
    rw [nodesMarkup, List.append_assoc, readNodes]
    cases node with
    | text content =>
      rw [Node.markup, run_textMarkup, Node.readBefore, mapNodesNs_consText]
      by_cases hcontent : content = ""
      · rw [if_pos hcontent, hcontent, consText_empty]
        exact hnodes e hfits
      · rw [if_neg hcontent, ← joinNodes_pushText content hcontent]
        exact hnodes ⟨_, _, _⟩ hfits
    | element tag children =>
      have helement := h tag children List.mem_cons_self ⟨e :: around, none⟩ (some ns)
        (nodesMarkup ns nodes ++ rest) rfl hfits
      refine helement.trans ?_
      rw [Node.readBefore, Markup.mapNodesNs, Markup.Node.mapNs, ← joinNodes_element]
      exact hnodes ⟨_, _, _⟩ hfits

theorem readsAs_element {tag : Tag} {children : List Node} (htag : tag.Named)
    (h : ∀ other nodes, .element other nodes ∈ children →
      ReadsAs ⟨other, nodes⟩ ((Element.mk other nodes).readBack.mapNs asWritten)) :
    ReadsAs ⟨tag, children⟩ ((Element.mk tag children).readBack.mapNs asWritten) := by
  intro r outer rest hroot hfits
  have hmark : ∀ c ∈ (tag.content outer).head?, c ≠ '!' ∧ c ≠ '?' := fun c hc =>
    ⟨htag.head?_content outer (by decide) hc, htag.head?_content outer (by decide) hc⟩
  have hfirst : (tag.content outer).head? ≠ some '/' := fun hc =>
    htag.head?_content outer (by decide) hc rfl
  have hread : Markup.readOpening r.scope (tag.content outer) =
      .ok (tag.readBack.mapNs asWritten, tag.inner outer r.scope) := htag.readOpening_entries hfits
  cases children with
  | nil =>
    have hne : tag.content outer ≠ [] := by
      rw [Tag.content]
      exact List.append_ne_nil_of_left_ne_nil (Markup.bare_of_isNcName htag.name).ne_nil _
    have hmarkup : (Element.mk tag []).toNode.markup outer ++ rest =
        '<' :: ((tag.content outer ++ ['/']) ++ '>' :: rest) := by
      rw [Element.toNode, Node.markup, tagMarkup_eq]
      simp [Tag.content]
    have hpasses := (htag.passes_content outer).append
      (Passes.singleton (by decide : '/' ∉ ['>', '"', '\'']))
    rw [hmarkup, Reading.run_tag hpasses, Markup.tagEvent_empty hne hfirst]
    · simp only [Reading.step, Reading.empty?, hread]
      rfl
    · rwa [List.head?_append_of_ne_nil _ hne]
  | cons child children =>
    -- Three runs in a row: the opening tag, the children in the scope inside, and the closing tag.
    have hmarkup : (Element.mk tag (child :: children)).toNode.markup outer ++ rest =
        '<' :: (tag.content outer ++ '>' :: (nodesMarkup tag.ns (child :: children) ++
          '<' :: ('/' :: tag.name.toList ++ '>' :: rest))) := by
      rw [Element.toNode, Node.markup, tagMarkup_eq]
      simp [Tag.content]
    have hname := Markup.bare_of_isNcName htag.name
    have hpasses : Passes ('/' :: tag.name.toList) :=
      (Passes.singleton (by decide : '/' ∉ ['>', '"', '\''])).append (Passes.of_bare hname)
    have hslash : ∀ c ∈ ('/' :: tag.name.toList).head?, c ≠ '!' ∧ c ≠ '?' := by
      rintro c ⟨⟩
      decide
    rw [hmarkup, Reading.run_tag (htag.passes_content outer) hmark,
      Markup.tagEvent_opening hfirst (htag.getLast?_content outer)]
    have hopen : r.step (.opening (tag.content outer)) =
        .ok ⟨⟨tag.readBack.mapNs asWritten, tag.inner outer r.scope, []⟩ :: r.elements, none⟩ := by
      simp only [Reading.step, Reading.open?, hread, hroot]
    rw [hopen]
    change Reading.run _ _ = _
    rw [run_nodes h _ _ _ (htag.fits_inner hfits), Reading.run_tag hpasses hslash,
      Markup.tagEvent_closing hname, joinNodes_nil_left]
    have hqualified : (tag.readBack.mapNs asWritten).qualifiedName =
        String.ofList tag.name.toList := by
      rw [String.ofList_toList]
      rfl
    have hr : Reading.mk r.elements none = r := by
      rw [← hroot]
    simp only [Reading.step, Reading.close?, hqualified, ↓reduceIte, List.reverse_reverse, hr]
    rfl

theorem readsAs_of_named {node : Node} (h : node.Named) :
    ∀ tag children, node = .element tag children →
      ReadsAs ⟨tag, children⟩ ((Element.mk tag children).readBack.mapNs asWritten) := by
  induction h with
  | text content => exact nofun
  | element htag _ ih =>
    rintro tag children ⟨⟩
    exact readsAs_element htag fun other nodes hmem => ih _ hmem other nodes rfl

theorem readsBack_of_writable {node : Node} (h : node.Writable) (tag : Tag) (children : List Node)
    (hnode : node = .element tag children) :
    ReadsAs ⟨tag, children⟩ (Element.mk tag children).readBack := by
  have hread := readsAs_of_named h.named tag children hnode
  rwa [h.mapNs_readBack tag children hnode] at hread

/-- What is written for a tree is read as the tree that it stands for. -/
theorem parse_toXml {e : Element} (h : e.toNode.Writable) :
    Markup.parse e.toXml = .ok e.readBack := by
  have hfits : Reading.start.scope.Fits none := ⟨rfl, nofun⟩
  have hread := readsBack_of_writable h e.tag e.children rfl Reading.start none [] rfl hfits
  have hrun : Reading.start.run (e.toNode.markup none) = .ok ⟨[], some e.readBack⟩ := by
    rw [List.append_nil] at hread
    exact hread.trans (Reading.run_nil _)
  have hmark : (e.toNode.markup none).head? ≠ some '\uFEFF' := by
    rw [Element.toNode, Node.markup, tagMarkup_eq]
    exact fun hc => absurd (Option.some.inj hc) (by decide)
  rw [Reading.run] at hrun
  simp only [Markup.parse, Element.toXml, String.toList_ofList, if_neg hmark, Markup.build, hrun]
  rfl

/-- An element with two namespaces that want the same prefix, with texts that look like markup, and
with an element inside that takes the namespace back. -/
def clashingPrefixes : Element where
  tag := ⟨"h", "p",
    [⟨some "u", some "ns1", "a", "\"/><x y='"⟩, ⟨some "v", some "ns1", "a", "&lt;"⟩,
      ⟨some Markup.xmlNs, none, "lang", "de"⟩, ⟨none, none, "a", ""⟩], .empty⟩
  children := [.text "</p>", .text "", .text "]]>", .element ⟨"", "q", [], .empty⟩ [.text ""]]

theorem clashingPrefixes_writable : clashingPrefixes.toNode.Writable := by
  have hroot : clashingPrefixes.tag.Writable := by
    refine ⟨by decide, by decide, by decide, by decide, ?_, by decide⟩
    simp only [clashingPrefixes, List.mem_cons, List.not_mem_nil, or_false, forall_eq_or_imp,
      forall_eq]
    refine ⟨?_, ?_, ?_, ?_⟩ <;>
      exact ⟨by decide, by rintro _ ⟨⟩ <;> decide, by decide, by decide, by decide,
        by rintro _ ⟨⟩ <;> decide⟩
  have hinner : Tag.Writable ⟨"", "q", [], .empty⟩ :=
    ⟨by decide, by decide, by decide, by decide, nofun, List.nodup_nil⟩
  refine .element hroot ?_
  simp only [clashingPrefixes, List.mem_cons, List.not_mem_nil, or_false, forall_eq_or_imp,
    forall_eq]
  refine ⟨.text _, .text _, .text _, .element hinner ?_⟩
  simp only [List.mem_singleton, forall_eq]
  exact .text _

theorem parse_toXml_clashing_prefixes :
    clashingPrefixes.toNode.Writable ∧
      Markup.parse clashingPrefixes.toXml = .ok clashingPrefixes.readBack ∧
      clashingPrefixes.readBack.children =
        [.text "</p>]]>", .element ⟨none, none, "q", []⟩ []] :=
  ⟨clashingPrefixes_writable, parse_toXml clashingPrefixes_writable, by rfl⟩

end Output

end MarkupSnippets

import MarkupSnippets.Engine
import MarkupSnippets.Proofs.AttributeNames
import MarkupSnippets.Proofs.Invariant

namespace MarkupSnippets

namespace Output

theorem tagsOf_eq_flatMap (nodes : List Node) : tagsOf nodes = nodes.flatMap Node.tags := by
  induction nodes with
  | nil => rfl
  | cons node rest ih => rw [tagsOf, ih, List.flatMap_cons]

theorem nodup_fullNames_eraseP {attributes : List Attribute} (h : (fullNames attributes).Nodup)
    (p : Attribute → Bool) : (fullNames (attributes.eraseP p)).Nodup :=
  h.sublist (List.eraseP_sublist.map Attribute.fullName)

namespace Element

/-- Whether in every element of a tree the attributes have distinct names. -/
def Distinct (e : Element) : Prop := ∀ tag ∈ e.tags, (fullNames tag.attributes).Nodup

theorem distinct_iff {e : Element} :
    e.Distinct ↔ (fullNames e.tag.attributes).Nodup ∧
      ∀ node ∈ e.children, ∀ tag ∈ node.tags, (fullNames tag.attributes).Nodup := by
  rw [Distinct, tags, toNode, Node.tags, List.forall_mem_cons, tagsOf_eq_flatMap]
  simp only [List.mem_flatMap, forall_exists_index, and_imp]
  exact and_congr_right fun _ =>
    ⟨fun h node hnode tag => h tag node hnode, fun h tag node hnode => h node hnode tag⟩

/-- An operation of elements. Elements to append are made elsewhere. -/
inductive Edit : Element → Element → Prop where
  | setAttribute (e : Element) (a : Attribute) : Edit e (e.setAttribute a)
  | removeAttribute (e : Element) (name : String) : Edit e (e.removeAttribute name).2
  | appendText (e : Element) (content : String) : Edit e (e.appendText content)
  | appendChild (e : Element) {child : Element} (h : child.Distinct) : Edit e (e.appendChild child)
  | setHandler (e : Element) (name callable : String) : Edit e (e.setHandler name callable)
  | rename (e : Element) (ns name : String) : Edit e { e with tag := { e.tag with ns, name } }
  | dropChildren (e : Element) {kept : List Node} (h : kept.Sublist e.children) :
      Edit e { e with children := kept }

/-- What is done to an element is done to it as a part of a tree. -/
inductive Within (R : Element → Element → Prop) : Element → Element → Prop where
  | here {e e' : Element} (h : R e e') : Within R e e'
  | inside (tag : Tag) (before after : List Node) {e e' : Element} (h : Within R e e') :
      Within R ⟨tag, before ++ e.toNode :: after⟩ ⟨tag, before ++ e'.toNode :: after⟩

theorem distinct_new (ns name : String) : (new ns name).Distinct :=
  distinct_iff.2 ⟨List.nodup_nil, nofun⟩

theorem Distinct.append {e : Element} (h : e.Distinct) {node : Node}
    (hnode : ∀ tag ∈ node.tags, (fullNames tag.attributes).Nodup) : (e.append node).Distinct := by
  intro tag htag
  rw [tags_append] at htag
  exact (List.mem_append.1 htag).elim (h tag) (hnode tag)

theorem Edit.distinct {e e' : Element} (h : Edit e e') (hdistinct : e.Distinct) : e'.Distinct := by
  obtain ⟨hroot, hchildren⟩ := distinct_iff.1 hdistinct
  cases h with
  | setAttribute a => exact distinct_iff.2 ⟨nodup_fullNames_setAttribute hroot a, hchildren⟩
  | removeAttribute name => exact distinct_iff.2 ⟨nodup_fullNames_eraseP hroot _, hchildren⟩
  | appendText content => exact hdistinct.append nofun
  | appendChild hchild => exact hdistinct.append hchild
  | setHandler name callable => exact distinct_iff.2 ⟨hroot, hchildren⟩
  | rename ns name => exact distinct_iff.2 ⟨hroot, hchildren⟩
  | dropChildren hkept =>
    exact distinct_iff.2 ⟨hroot, fun node hnode => hchildren node (hkept.subset hnode)⟩

theorem Within.distinct {R : Element → Element → Prop}
    (hR : ∀ e e', R e e' → e.Distinct → e'.Distinct) {e e' : Element} (h : Within R e e')
    (hdistinct : e.Distinct) : e'.Distinct := by
  induction h with
  | here h => exact hR _ _ h hdistinct
  | inside tag before after h ih =>
    simp only [distinct_iff, List.forall_mem_append, List.forall_mem_cons] at hdistinct ⊢
    obtain ⟨hroot, hbefore, hinner, hafter⟩ := hdistinct
    exact ⟨hroot, hbefore, ih hinner, hafter⟩

theorem distinct_of_reflTransGen {R : Element → Element → Prop}
    (hR : ∀ e e', R e e' → e.Distinct → e'.Distinct) {e e' : Element}
    (h : Relation.ReflTransGen (Within R) e e') (hdistinct : e.Distinct) : e'.Distinct := by
  induction h with
  | refl => exact hdistinct
  | tail _ hstep ih => exact hstep.distinct hR ih

end Element

end Output

open Output (Element)

/-- Whether callables change the elements that they are called on by operations of elements only,
also when they fail. What is done by handlers that a callable triggers counts as done by it. -/
def Host.Edits (host : Host) : Prop :=
  ∀ callable e data, Relation.ReflTransGen (Element.Within Element.Edit) e (host callable e data).1

theorem Host.Edits.distinct {host : Host} (hhost : host.Edits) {e : Element} (h : e.Distinct)
    (callable : String) (data : Data) : (host callable e data).1.Distinct :=
  Element.distinct_of_reflTransGen (fun _ _ hedit => hedit.distinct) (hhost callable e data) h

namespace Output.Element

/-- What may be done to an element of an output later on. -/
inductive Use (host : Host) : Element → Element → Prop where
  | trigger (e : Element) (name : String) (data : Data) :
      Use host e (e.trigger host name data).target
  | setAttribute (e : Element) (a : Attribute) : Use host e (e.setAttribute a)
  | removeAttribute (e : Element) (name : String) : Use host e (e.removeAttribute name).2

theorem target_trigger (host : Host) (e : Element) (name : String) (data : Data) :
    (e.trigger host name data).target =
      match e.handler? name with
      | none => e
      | some callable => (host callable e data).1 := by
  rw [trigger]
  cases e.handler? name with
  | none => rfl
  | some callable =>
    simp only
    split
    · next h => rw [h]
    · next h => rw [h]

theorem Use.distinct {host : Host} (hhost : host.Edits) {e e' : Element} (h : Use host e e')
    (hdistinct : e.Distinct) : e'.Distinct := by
  cases h with
  | trigger name data =>
    rw [target_trigger]
    split
    · exact hdistinct
    · exact hhost.distinct hdistinct _ data
  | setAttribute a => exact (Edit.setAttribute e a).distinct hdistinct
  | removeAttribute name => exact (Edit.removeAttribute e name).distinct hdistinct

end Output.Element

namespace Workshop

variable {w : Workshop}

theorem invariant_distinct (hhost : w.host.Edits) : w.Invariant Element.Distinct where
  new := Element.distinct_new
  setAttribute h a := (Element.Edit.setAttribute _ a).distinct h
  setHandler h name callable := (Element.Edit.setHandler _ name callable).distinct h
  appendText h content := (Element.Edit.appendText _ content).distinct h
  appendChild h hchild := (Element.Edit.appendChild _ hchild).distinct h
  call h callable data := hhost.distinct h callable data

/-- With callables that only use the operations of elements, no element of an output has two
attributes with the same namespace and name, neither when it is produced nor after handlers have
been triggered and attributes set and removed on any elements of it. -/
theorem distinct_of_produce {key : Key} {data : Data} {draft : Draft} (hhost : w.host.Edits)
    (h : w.produce key data = .ok draft) :
    draft.target.Distinct ∧ ∀ e,
      Relation.ReflTransGen (Element.Within (Element.Use w.host)) draft.target e → e.Distinct := by
  have hdistinct := (invariant_distinct hhost).produce h
  exact ⟨hdistinct, fun e huse =>
    Element.distinct_of_reflTransGen (fun _ _ => Element.Use.distinct hhost) huse hdistinct⟩

def repeatingSnippet : Snippet where
  key := Key.ofString "/form"
  source := "s"
  ns := "h"
  template := ⟨⟨none, none, "form", [⟨none, none, "class", "a"⟩, ⟨none, none, "class", "b"⟩,
      ⟨some "d", some "d", "onclick", "pin"⟩, ⟨some "d", some "d", "postproduction", "pin"⟩]⟩, []⟩

def badge (id : String) : Output.Element :=
  (Element.new "h" "b").setAttribute ⟨none, none, "id", id⟩

def edited (e : Output.Element) : Output.Element :=
  (e.setAttribute ⟨none, none, "class", "c"⟩).appendChild (badge "1")

def editing : Workshop where
  settings := ⟨"d", "h", "doc"⟩
  registry := Registry.empty.put repeatingSnippet
  host := fun _ e _ => (edited e, none)

def formWith (badges : List Output.Node) : Output.Element :=
  ⟨⟨"h", "form", [⟨none, none, "class", "c"⟩], Record.empty.insert "onclick" "pin"⟩, badges⟩

theorem editing_edits : editing.host.Edits := by
  intro _ e _
  have hbadge : (badge "1").Distinct :=
    (Element.Edit.setAttribute _ _).distinct (Element.distinct_new "h" "b")
  exact (Relation.ReflTransGen.single (.here (.setAttribute e _))).tail
    (.here (.appendChild _ hbadge))

theorem distinct_of_produce_repeated :
    editing.host.Edits ∧
      editing.produce repeatingSnippet.key (Record.empty.insert "pin" (.callable "pin")) =
        .ok ⟨formWith [(badge "1").toNode], []⟩ ∧
      Relation.ReflTransGen (Element.Within (Element.Use editing.host))
        (formWith [(badge "1").toNode]) (formWith [(badge "2").toNode, (badge "1").toNode]) ∧
      (formWith [(badge "1").toNode]).Distinct ∧
      (formWith [(badge "2").toNode, (badge "1").toNode]).Distinct := by
  have hproduce :
      editing.produce repeatingSnippet.key (Record.empty.insert "pin" (.callable "pin")) =
      .ok ⟨formWith [(badge "1").toNode], []⟩ := by
    rw [produce, produceWith_eq]
    rfl
  have htrigger : Element.Within (Element.Use editing.host) (formWith [(badge "1").toNode])
      (formWith [(badge "1").toNode, (badge "1").toNode]) := .here (.trigger _ "onclick" .empty)
  have hchange : Element.Within (Element.Use editing.host)
      (formWith [(badge "1").toNode, (badge "1").toNode])
      (formWith [(badge "2").toNode, (badge "1").toNode]) :=
    .inside _ [] _ (.here (.setAttribute (badge "1") ⟨none, none, "id", "2"⟩))
  have huse := (Relation.ReflTransGen.single htrigger).tail hchange
  obtain ⟨hform, hlater⟩ := distinct_of_produce editing_edits hproduce
  exact ⟨editing_edits, hproduce, huse, hform, hlater _ huse⟩

end Workshop

end MarkupSnippets

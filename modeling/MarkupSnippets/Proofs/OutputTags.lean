import Mathlib.Logic.Relation
import MarkupSnippets.Proofs.Failure
import MarkupSnippets.Proofs.Loading

namespace MarkupSnippets

namespace Output

mutual

def Node.tags : Node → List Tag
  | .text _ => []
  | .element tag children => tag :: tagsOf children

def tagsOf : List Node → List Tag
  | [] => []
  | node :: rest => node.tags ++ tagsOf rest

end

theorem tagsOf_append (xs ys : List Node) : tagsOf (xs ++ ys) = tagsOf xs ++ tagsOf ys := by
  induction xs with
  | nil => rfl
  | cons x xs ih => rw [List.cons_append, tagsOf, tagsOf, ih, List.append_assoc]

namespace Element

def tags (e : Element) : List Tag := e.toNode.tags

theorem tags_append (e : Element) (node : Node) : (e.append node).tags = e.tags ++ node.tags := by
  simp only [tags, toNode, append, Node.tags, tagsOf_append, tagsOf, List.append_nil,
    List.cons_append]

@[simp] theorem tags_appendChild (e child : Element) :
    (e.appendChild child).tags = e.tags ++ child.tags := tags_append e child.toNode

end Element

end Output

@[simp] theorem Draft.tags_append_text (draft : Draft) (content : String) :
    (draft.append (.text content)).target.tags = draft.target.tags :=
  (Output.Element.tags_append _ _).trans (List.append_nil _)

def Task.tags : Task → List Output.Tag
  | .snippet _ _ _ _ => []
  | .nodes spot _ => spot.draft.target.tags
  | .node spot _ => spot.draft.target.tags
  | .branches spot _ _ _ => spot.draft.target.tags
  | .rounds spot _ _ => spot.draft.target.tags
  | .invoke spot _ _ => spot.draft.target.tags

theorem Stage.target_chooseMode (stage : Stage) (tag : Markup.Tag) (origin : Origin)
    (draft : Draft) : (stage.chooseMode tag origin draft).2.target = draft.target := by
  rw [chooseMode]
  split
  · rfl
  · split <;> rfl

namespace Workshop

variable (w : Workshop)

/-- The tasks of the run that begins with a task. -/
def Reaches : Task → Task → Prop := Relation.ReflTransGen w.Assigns

/-- The tag of the element that a task builds. -/
inductive Builds : Task → Output.Tag → Prop where
  | root {chain : Chain} {key : Key} {snippet : Snippet} (data : Data) (origin : Origin)
      (hget : w.registry.get? key = some snippet) (hnew : chain.contains snippet.token = false) :
      Builds (.snippet chain key data origin)
        (w.opened (snippet.rootSpot chain data origin) snippet.ns snippet.template.tag
          []).target.tag
  | plain {spot : Spot} {tag : Markup.Tag} (children : List Markup.Node)
      (hplain : (w.stageAt spot).isDirective tag = false) :
      Builds (.node spot (.element tag children))
        (w.opened (spot.enter tag) (tag.ns.getD w.settings.defaultNs) tag
          spot.draft.warnings).target.tag

/-- The tags that a task and the tasks under it build. -/
def Adds (task : Task) (tag : Output.Tag) : Prop :=
  ∃ other, w.Reaches task other ∧ w.Builds other tag

def Calls : Task → Prop
  | .invoke spot _ path => ∃ name, resolve? spot.data path = some (.callable name)
  | _ => False

/-- Whether no callable of the host is called in the run that begins with a task. -/
def Quiet (task : Task) : Prop := ∀ other, w.Reaches task other → ¬Calls other

/-- Leave a tag in the output under a condition: the given one, or that an assigned task adds the
tag. -/
def Leaves (tag : Output.Tag) : Plan → Prop → Prop
  | .finish draft, P => tag ∈ draft.target.tags ↔ P
  | .fail _, _ => True
  | .assign task next, P =>
    ∀ draft, w.outcome task = .ok draft →
      (tag ∈ draft.target.tags ↔ tag ∈ task.tags ∨ w.Adds task tag) →
        Leaves tag (next draft) (P ∨ w.Adds task tag)

/-- An element of a namespace, before its content: it is empty, and no attribute is one of a
directive. -/
structure Bare (ns : String) (draft : Draft) : Prop where
  children : draft.target.children = []
  ns : draft.target.tag.ns = ns
  attributes : ∀ a ∈ draft.target.tag.attributes, a.ns ≠ some w.settings.directiveNs

variable {w} {task other : Task} {tag : Output.Tag}

theorem adds_iff :
    w.Adds task tag ↔ w.Builds task tag ∨ ∃ other, w.Assigns task other ∧ w.Adds other tag := by
  constructor
  · rintro ⟨last, hreach, hbuilds⟩
    obtain rfl | ⟨other, hassign, hreach⟩ := Relation.ReflTransGen.cases_head hreach
    · exact .inl hbuilds
    · exact .inr ⟨other, hassign, last, hreach, hbuilds⟩
  · rintro (hbuilds | ⟨other, hassign, last, hreach, hbuilds⟩)
    · exact ⟨task, .refl, hbuilds⟩
    · exact ⟨last, .head hassign hreach, hbuilds⟩

theorem Quiet.of_assigns (h : w.Quiet task) (hassign : w.Assigns task other) : w.Quiet other :=
  fun last hreach => h last (.head hassign hreach)

theorem mem_tags_carryOut_iff {plan : Plan} {P : Prop} {draft : Draft}
    (hleaves : w.Leaves tag plan P)
    (hassigned : ∀ task draft, plan.Assigns w.outcome task → w.outcome task = .ok draft →
      (tag ∈ draft.target.tags ↔ tag ∈ task.tags ∨ w.Adds task tag))
    (h : plan.carryOut w.outcome = .ok draft) :
    tag ∈ draft.target.tags ↔ P ∨ ∃ task, plan.Assigns w.outcome task ∧ w.Adds task tag := by
  induction plan generalizing P with
  | finish last =>
    cases h
    simpa [Plan.Assigns, Leaves] using hleaves
  | fail error => cases h
  | assign task next ih =>
    obtain ⟨inner, houtcome, hlast⟩ := Plan.carryOut_assign_eq_ok h
    have hinner := hassigned task inner (.inl rfl) houtcome
    have hnext := ih inner (hleaves inner houtcome hinner)
      (fun other last hassign => hassigned other last (.inr ⟨inner, houtcome, hassign⟩)) hlast
    calc tag ∈ draft.target.tags
        ↔ (P ∨ w.Adds task tag) ∨
          ∃ other, (next inner).Assigns w.outcome other ∧ w.Adds other tag := hnext
      _ ↔ P ∨ ∃ other, (Plan.assign task next).Assigns w.outcome other ∧ w.Adds other tag := by
        simp [Plan.Assigns, houtcome, or_and_right, exists_or, or_assoc]

theorem leaves_handOver {P : Prop} (h : P ↔ tag ∈ task.tags) :
    w.Leaves tag (Plan.handOver task) P := by
  intro draft _ hmem
  rw [h]
  exact hmem

theorem leaves_build {spot : Spot} {ns : String} {source : Markup.Tag} {warnings : List Warning}
    {children : List Markup.Node} {next : Draft → Plan} {P : Prop}
    (h : ∀ built Q,
      (tag ∈ built.target.tags ↔ tag ∈ (w.opened spot ns source warnings).target.tags ∨ Q) →
        w.Leaves tag (next built) (P ∨ Q)) :
    w.Leaves tag (w.build spot ns source warnings children next) P := by
  intro inner _ hinner
  cases source.attributeIn? (some w.settings.directiveNs) "postproduction" with
  | none => exact h inner _ hinner
  | some path =>
    intro built _ hbuilt
    rw [or_assoc]
    refine h built _ (hbuilt.trans ?_)
    rw [← or_assoc]
    exact or_congr_left hinner

theorem eq_or_mem_of_mem_setAttribute {a b : Output.Attribute} {attributes : List Output.Attribute}
    (h : b ∈ Output.setAttribute a attributes) : b = a ∨ b ∈ attributes := by
  induction attributes with
  | nil => exact .inl (List.mem_singleton.1 h)
  | cons other rest ih =>
    rw [Output.setAttribute] at h
    split at h
    · exact (List.mem_cons.1 h).imp_right (List.mem_cons_of_mem other)
    · obtain rfl | h := List.mem_cons.1 h
      · exact .inr List.mem_cons_self
      · exact (ih h).imp_right (List.mem_cons_of_mem other)

theorem Bare.takeAttribute {ns : String} {draft : Draft} (h : w.Bare ns draft) (spot : Spot)
    (a : Markup.Attribute) :
    w.Bare ns ((w.stageAt spot).takeAttribute spot.data spot.origin draft a) := by
  rw [Stage.takeAttribute]
  split
  · next hplain =>
    refine ⟨h.children, h.ns, fun b hb => ?_⟩
    obtain rfl | hb := eq_or_mem_of_mem_setAttribute hb
    · simpa using hplain
    · exact h.attributes b hb
  · split
    · split
      · exact ⟨h.children, h.ns, h.attributes⟩
      · exact ⟨h.children, h.ns, h.attributes⟩
    · split
      · exact ⟨h.children, h.ns, h.attributes⟩
      · exact h

theorem bare_opened (spot : Spot) (ns : String) (source : Markup.Tag) (warnings : List Warning) :
    w.Bare ns (w.opened spot ns source warnings) := by
  have hnew : w.Bare ns ⟨Output.Element.new ns source.name, warnings⟩ := ⟨rfl, rfl, nofun⟩
  exact List.foldlRecOn source.attributes _ hnew fun draft h a _ => h.takeAttribute spot a

theorem tags_opened (spot : Spot) (ns : String) (source : Markup.Tag) (warnings : List Warning) :
    (w.opened spot ns source warnings).target.tags =
      [(w.opened spot ns source warnings).target.tag] := by
  rw [Output.Element.tags, Output.Element.toNode, (bare_opened spot ns source warnings).children]
  rfl

theorem leaves_snippetPlan (tag : Output.Tag) (chain : Chain) (key : Key) (data : Data)
    (origin : Origin) :
    w.Leaves tag (w.snippetPlan chain key data origin)
      (w.Builds (.snippet chain key data origin) tag) := by
  rw [snippetPlan]
  split
  · trivial
  · next snippet hget =>
    split
    · trivial
    · next hnew =>
      rw [Bool.not_eq_true] at hnew
      apply leaves_build
      intro built Q hbuilt
      rw [tags_opened, List.mem_singleton] at hbuilt
      have hbuilds : tag = (w.opened (snippet.rootSpot chain data origin) snippet.ns
          snippet.template.tag []).target.tag ↔ w.Builds (.snippet chain key data origin) tag := by
        constructor
        · rintro rfl
          exact .root data origin hget hnew
        · rintro ⟨_, _, hget', _⟩
          obtain rfl := Option.some.inj (hget.symm.trans hget')
          rfl
      rw [← hbuilds]
      exact hbuilt

theorem leaves_directivePlan (tag : Output.Tag) (spot : Spot) (source : Markup.Tag)
    (children : List Markup.Node) :
    w.Leaves tag (w.directivePlan spot source children) (tag ∈ spot.draft.target.tags) := by
  rw [directivePlan]
  cases Directive.ofLocalName? source.name with
  | none => exact Iff.rfl
  | some directive =>
    cases directive with
    | text =>
      simp only
      split
      · simp [Leaves]
      · exact Iff.rfl
    | callFunction => exact leaves_handOver Iff.rfl
    | ifTest =>
      simp only
      split
      · trivial
      · exact leaves_handOver Iff.rfl
      · exact Iff.rfl
    | otherwise => exact Iff.rfl
    | choose =>
      apply leaves_handOver
      change _ ↔ tag ∈ ((w.stageAt spot).chooseMode source spot.origin spot.draft).2.target.tags
      rw [Stage.target_chooseMode]
    | forEach =>
      simp only
      split
      · trivial
      · exact leaves_handOver Iff.rfl
    | forEmpty =>
      simp only
      split
      · exact Iff.rfl
      · exact leaves_handOver Iff.rfl
    | insertSnippet =>
      intro inserted _ hinserted
      simpa [Leaves, Task.tags] using or_congr_right hinserted

theorem leaves_nodePlan (tag : Output.Tag) (spot : Spot) (node : Markup.Node) :
    w.Leaves tag (w.nodePlan spot node)
      (tag ∈ spot.draft.target.tags ∨ w.Builds (.node spot node) tag) := by
  cases node with
  | text content =>
    have hbuilds : ¬w.Builds (.node spot (.text content)) tag := by rintro ⟨⟩
    rw [or_iff_left hbuilds, nodePlan]
    split <;> simp [Leaves]
  | element source children =>
    rw [nodePlan]
    cases hdir : (w.stageAt spot).isDirective source with
    | true =>
      have hbuilds : ¬w.Builds (.node spot (.element source children)) tag := by
        rintro ⟨⟩
        next hplain => cases hdir.symm.trans hplain
      rw [or_iff_left hbuilds]
      exact leaves_directivePlan tag (spot.enter source) source children
    | false =>
      apply leaves_build
      intro built Q hbuilt
      rw [tags_opened, List.mem_singleton] at hbuilt
      have hbuilds : w.Builds (.node spot (.element source children)) tag ↔
          tag = (w.opened (spot.enter source) (source.ns.getD w.settings.defaultNs) source
            spot.draft.warnings).target.tag := by
        constructor
        · rintro ⟨⟩
          rfl
        · rintro rfl
          exact .plain children hdir
      rw [Leaves, Output.Element.tags_appendChild, List.mem_append, hbuilt, hbuilds, or_assoc]

theorem leaves_branchesPlan (tag : Output.Tag) (spot : Spot) (mode : ChooseMode) (matched : Bool)
    (children : List Markup.Node) :
    w.Leaves tag (w.branchesPlan spot mode matched children) (tag ∈ spot.draft.target.tags) := by
  cases children with
  | nil => exact Iff.rfl
  | cons child rest =>
    cases child with
    | text content => exact leaves_handOver Iff.rfl
    | element source children =>
      rw [branchesPlan]
      split
      · split
        · trivial
        · intro draft _ hdraft
          cases mode with
          | strict => exact hdraft
          | lax => exact leaves_handOver hdraft.symm
        · exact leaves_handOver Iff.rfl
      · split
        · exact leaves_handOver Iff.rfl
        · exact fun draft _ hdraft => leaves_handOver hdraft.symm
      · exact leaves_handOver Iff.rfl

theorem leaves_plan (hquiet : ¬Calls task) (tag : Output.Tag) :
    w.Leaves tag (w.plan task) (tag ∈ task.tags ∨ w.Builds task tag) := by
  cases task with
  | snippet chain key data origin =>
    rw [Task.tags, or_iff_right List.not_mem_nil]
    exact leaves_snippetPlan tag chain key data origin
  | node spot node => exact leaves_nodePlan tag spot node
  | branches spot mode matched children =>
    rw [or_iff_left (by nofun)]
    exact leaves_branchesPlan tag spot mode matched children
  | nodes spot children =>
    rw [or_iff_left (by nofun)]
    cases children with
    | nil => exact Iff.rfl
    | cons child rest => exact fun draft _ hdraft => leaves_handOver hdraft.symm
  | rounds spot scopes children =>
    rw [or_iff_left (by nofun)]
    cases scopes with
    | nil => exact Iff.rfl
    | cons scope rest => exact fun draft _ hdraft => leaves_handOver hdraft.symm
  | invoke spot role path =>
    have hcall : (w.stageAt spot).invoke role path spot.data spot.origin spot.draft =
        .error (.notCallable role path spot.origin) := by
      rw [Stage.invoke]
      split
      · next name hname => exact absurd ⟨name, hname⟩ hquiet
      · rfl
    rw [plan, hcall]
    trivial

theorem mem_tags_outcome_iff {draft : Draft} (hquiet : w.Quiet task)
    (h : w.outcome task = .ok draft) (tag : Output.Tag) :
    tag ∈ draft.target.tags ↔ tag ∈ task.tags ∨ w.Adds task tag := by
  induction task using w.task_induction generalizing draft with
  | step task ih =>
    rw [outcome_eq_carryOut] at h
    have hmem := mem_tags_carryOut_iff (leaves_plan (hquiet task .refl) tag)
      (fun other inner hassign houtcome =>
        ih other (mayAssign_of_assigns hassign) (hquiet.of_assigns hassign) houtcome) h
    rw [adds_iff, ← or_assoc]
    exact hmem

theorem exists_outcome_of_assigns {draft : Draft} (h : w.outcome task = .ok draft)
    (hassign : w.Assigns task other) : ∃ inner, w.outcome other = .ok inner := by
  rw [outcome_eq_carryOut] at h
  cases hother : w.outcome other with
  | ok inner => exact ⟨inner, rfl⟩
  | error error =>
    have herror : (w.plan task).carryOut w.outcome = .error error :=
      Plan.carryOut_eq_error_iff.2 (.inr ⟨other, hassign, hother⟩)
    cases h.symm.trans herror

theorem exists_outcome_of_reaches {draft : Draft} (h : w.outcome task = .ok draft)
    (hreach : w.Reaches task other) : ∃ inner, w.outcome other = .ok inner := by
  induction hreach with
  | refl => exact ⟨draft, h⟩
  | tail _ hassign ih =>
    obtain ⟨inner, hinner⟩ := ih
    exact exists_outcome_of_assigns hinner hassign

theorem Builds.attributes (h : w.Builds task tag) :
    ∀ a ∈ tag.attributes, a.ns ≠ some w.settings.directiveNs := by
  cases h with
  | root => exact (bare_opened _ _ _ _).attributes
  | plain => exact (bare_opened _ _ _ _).attributes

/-- Whether a task produces a snippet with a directive as its root. -/
def RootsDirective (w : Workshop) (task : Task) : Prop :=
  ∃ chain key data origin snippet, task = .snippet chain key data origin ∧
    w.registry.get? key = some snippet ∧ snippet.template.tag.isIn w.settings.directiveNs = true

/-- The elements that tasks build are directives for the roots of snippets only. -/
theorem Builds.ns_eq_iff (hfilled : w.registry.Filled w.settings)
    (hdefault : w.settings.defaultNs ≠ w.settings.directiveNs) (h : w.Builds task tag) :
    tag.ns = w.settings.directiveNs ↔ w.RootsDirective task := by
  cases h with
  | @root chain key snippet data origin hget hnew =>
    rw [(bare_opened _ _ _ _).ns, Registry.ns_of_filled hfilled hget]
    constructor
    · intro hns
      refine ⟨chain, key, data, origin, snippet, rfl, hget, ?_⟩
      cases htag : snippet.template.tag.ns with
      | none => exact absurd (by simpa [htag] using hns) hdefault
      | some ns => simpa [Markup.Tag.isIn, htag] using hns
    · rintro ⟨_, _, _, _, other, ⟨⟩, hget', hdir⟩
      obtain rfl := Option.some.inj (hget.symm.trans hget')
      rw [Markup.Tag.isIn, beq_iff_eq] at hdir
      rw [hdir, Option.getD_some]
  | @plain spot source children hplain =>
    rw [(bare_opened _ _ _ _).ns]
    constructor
    · intro hns
      cases htag : source.ns with
      | none => exact absurd (by simpa [htag] using hns) hdefault
      | some ns =>
        rw [htag, Option.getD_some] at hns
        simp [Stage.isDirective, Markup.Tag.isIn, htag, hns] at hplain
    · rintro ⟨_, _, _, _, _, ⟨⟩, _⟩

/-- If no callable is called, an output has no attributes of directives, and it has elements of the
directive namespace exactly if a snippet with a directive as its root is produced in the run. -/
theorem directive_in_output_iff {key : Key} {data : Data} {draft : Draft}
    (hfilled : w.registry.Filled w.settings)
    (hdefault : w.settings.defaultNs ≠ w.settings.directiveNs)
    (hquiet : w.Quiet (.snippet .empty key data [])) (h : w.produce key data = .ok draft) :
    (∀ tag ∈ draft.target.tags, ∀ a ∈ tag.attributes, a.ns ≠ some w.settings.directiveNs) ∧
      ((∃ tag ∈ draft.target.tags, tag.ns = w.settings.directiveNs) ↔
        ∃ task, w.Reaches (.snippet .empty key data []) task ∧ w.RootsDirective task) := by
  have houtcome : w.outcome (.snippet .empty key data []) = .ok draft := h
  have hmem (tag : Output.Tag) :
      tag ∈ draft.target.tags ↔ w.Adds (.snippet .empty key data []) tag := by
    rw [mem_tags_outcome_iff hquiet houtcome tag, Task.tags, or_iff_right List.not_mem_nil]
  refine ⟨fun tag htag => ?_, ?_⟩
  · obtain ⟨task, -, hbuilds⟩ := (hmem tag).1 htag
    exact hbuilds.attributes
  · constructor
    · rintro ⟨tag, htag, hns⟩
      obtain ⟨task, hreach, hbuilds⟩ := (hmem tag).1 htag
      exact ⟨task, hreach, (hbuilds.ns_eq_iff hfilled hdefault).1 hns⟩
    · rintro ⟨task, hreach, hroot⟩
      obtain ⟨chain, key, data, origin, snippet, rfl, hget, -⟩ := id hroot
      -- A production that was refused would have failed the run.
      obtain ⟨inner, hinner⟩ := exists_outcome_of_reaches houtcome hreach
      have hnew : chain.contains snippet.token = false := by
        by_contra hold
        rw [Bool.not_eq_false] at hold
        rw [outcome, produceWith_eq, hget] at hinner
        simp only [hold, ↓reduceIte] at hinner
        cases hinner
      have hbuilds := Builds.root data origin hget hnew
      exact ⟨_, (hmem _).2 ⟨_, hreach, hbuilds⟩, (hbuilds.ns_eq_iff hfilled hdefault).2 hroot⟩

def leakDocument : Markup.Element :=
  ⟨⟨some "d", none, "doc", []⟩,
    [.element ⟨some "d", none, "snippet", [⟨none, none, "name", "t"⟩]⟩
      [.element ⟨some "d", none, "text", []⟩ []]]⟩

def leakSnippet : Snippet :=
  ⟨Key.ofString "/t", "s", "d", ⟨⟨some "d", none, "text", []⟩, []⟩⟩

def leaking : Workshop where
  settings := ⟨"d", "h", "doc"⟩
  registry := (Registry.empty.put leakSnippet).markSource "s"
  host := fun _ target _ => (target, none)

theorem leak_filled : leaking.registry.Filled leaking.settings := by
  have hload : (Registry.empty.load leaking.settings "s" leakDocument).registry =
      leaking.registry := by rfl
  rw [← hload]
  exact .load .empty "s" leakDocument

theorem leak_produce :
    leaking.produce leakSnippet.key .empty = .ok ⟨Output.Element.new "d" "text", []⟩ := by
  rw [produce, produceWith_eq]
  rfl

theorem leak_quiet : leaking.Quiet (.snippet .empty leakSnippet.key .empty []) := by
  have hplan : leaking.plan (.snippet .empty leakSnippet.key .empty []) =
      .assign (.nodes ((leakSnippet.rootSpot .empty .empty []).withDraft
        ⟨Output.Element.new "d" "text", []⟩) []) .finish := by rfl
  intro other hreach
  obtain rfl | ⟨content, hassign, hreach⟩ := Relation.ReflTransGen.cases_head hreach
  · exact id
  · rw [Assigns, hplan] at hassign
    obtain rfl | ⟨draft, -, hassign⟩ := hassign
    · obtain rfl | ⟨_, hassign, -⟩ := Relation.ReflTransGen.cases_head hreach
      · exact id
      · exact hassign.elim
    · exact hassign.elim

theorem directive_leaks :
    leaking.registry.Filled leaking.settings ∧
      leaking.settings.defaultNs ≠ leaking.settings.directiveNs ∧
      leaking.Quiet (.snippet .empty leakSnippet.key .empty []) ∧
      ∃ draft, leaking.produce leakSnippet.key .empty = .ok draft ∧
        draft.target.tag.ns = leaking.settings.directiveNs :=
  ⟨leak_filled, by decide, leak_quiet, _, leak_produce, rfl⟩

theorem directive_in_output_iff_leak :
    leaking.registry.Filled leaking.settings ∧
      leaking.settings.defaultNs ≠ leaking.settings.directiveNs ∧
      leaking.Quiet (.snippet .empty leakSnippet.key .empty []) ∧
      leaking.produce leakSnippet.key .empty = .ok ⟨Output.Element.new "d" "text", []⟩ ∧
      ∃ task, leaking.Reaches (.snippet .empty leakSnippet.key .empty []) task ∧
        leaking.RootsDirective task := by
  refine ⟨leak_filled, by decide, leak_quiet, leak_produce, ?_⟩
  have hleak := directive_in_output_iff leak_filled (by decide) leak_quiet leak_produce
  exact hleak.2.1 ⟨_, List.mem_cons_self, rfl⟩

end Workshop

end MarkupSnippets

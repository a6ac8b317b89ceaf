import MarkupSnippets.Proofs.Definitions
import MarkupSnippets.Proofs.Gaining

namespace MarkupSnippets

/-- A template with a gap between consecutive children of one of its elements. -/
inductive Site where
  | gap (tag : Markup.Tag) (before after : List Markup.Node)
  | inside (tag : Markup.Tag) (before : List Markup.Node) (site : Site) (after : List Markup.Node)

namespace Site

def fill (nodes : List Markup.Node) : Site → Markup.Element
  | gap tag before after => ⟨tag, before ++ (nodes ++ after)⟩
  | inside tag before site after => ⟨tag, before ++ (site.fill nodes).toNode :: after⟩

def parent : Site → Markup.Tag
  | gap tag _ _ => tag
  | inside _ _ site _ => site.parent

/-- The gap is in content: not among the branches of a choice, and not in a `text` directive, where
the first node alone counts. -/
def InContent (ns : String) (site : Site) : Prop :=
  site.parent.isIn ns = true → Directive.ofLocalName? site.parent.name ≠ some .text ∧
    Directive.ofLocalName? site.parent.name ≠ some .choose

theorem tag_fill (site : Site) (nodes others : List Markup.Node) :
    (site.fill nodes).tag = (site.fill others).tag := by
  cases site <;> rfl

end Site

namespace Markup.Tag

structure Tests (ns test : String) (tag : Tag) : Prop where
  isIn : tag.isIn ns = true
  name : Directive.ofLocalName? tag.name = some .ifTest
  test : tag.attributeEither? ns "test" = some test

/-- A choice without a mode, or in one that there is. -/
structure Chooses (ns : String) (tag : Tag) : Prop where
  isIn : tag.isIn ns = true
  name : Directive.ofLocalName? tag.name = some .choose
  mode : ∀ name, tag.attributeEither? ns "mode" = some name →
    (ChooseMode.ofName? name).isSome = true

structure Defaults (ns : String) (tag : Tag) : Prop where
  isIn : tag.isIn ns = true
  name : Directive.ofLocalName? tag.name = some .otherwise

end Markup.Tag

namespace Expr

theorem parse_of_tokens {text : String} {ts : List (Token × Span)} {e : Expr}
    (hcut : (tokenize 0 text.toList).toOption = some ts) (hread : ofTokens ts = .ok e)
    (origin : Origin) : parse origin text = .ok e := by
  rw [parse]
  cases htokens : tokenize 0 text.toList with
  | error stray =>
    rw [htokens] at hcut
    cases hcut
  | ok tokens =>
    rw [htokens] at hcut
    obtain rfl := Option.some.inj hcut
    simp only [hread]

theorem parse_true (origin : Origin) : parse origin "true" = .ok (.bool true) :=
  parse_of_tokens (show _ = some [(.bool true, ⟨0, 4⟩)] by decide +kernel) rfl origin

theorem parse_false (origin : Origin) : parse origin "false" = .ok (.bool false) :=
  parse_of_tokens (show _ = some [(.bool false, ⟨0, 5⟩)] by decide +kernel) rfl origin

end Expr

variable {frames : List Frame}

namespace Stage

variable {stage stage' : Stage} {insert : Insert}

theorem nodes_append (data : Data) (origin : Origin) (draft : Draft)
    (nodes others : List Markup.Node) :
    stage.nodes data origin draft (nodes ++ others) =
      stage.nodes data origin draft nodes >>= fun draft =>
        stage.nodes data origin draft others := by
  induction nodes generalizing draft with
  | nil => rfl
  | cons node nodes ih =>
    rw [List.cons_append, Stage.nodes, Stage.nodes, bind_assoc]
    congr 1
    funext draft
    exact ih draft

theorem nodes_singleton (data : Data) (origin : Origin) (draft : Draft) (node : Markup.Node) :
    stage.nodes data origin draft [node] = stage.node data origin draft node := by
  rw [Stage.nodes]
  exact bind_pure _

theorem NodesGain.append {nodes nodes' others others' : List Markup.Node}
    (h : NodesGain frames stage stage' nodes nodes')
    (hothers : NodesGain frames stage stage' others others') :
    NodesGain frames stage stage' (nodes ++ others) (nodes' ++ others') := by
  intro data origin origin' horigin draft draft' hdraft
  rw [nodes_append, nodes_append]
  exact (h data horigin hdraft).bind fun _ _ hdraft => hothers data horigin hdraft

variable {run run' : List Markup.Node} {node node' : Markup.Node}

theorem nodesGain_gap (hinsert : InsertGains frames stage.insert insert)
    (hrun : NodesGain frames stage (stage.withInsert insert) run run')
    (before after : List Markup.Node) :
    NodesGain frames stage (stage.withInsert insert) (before ++ (run ++ after))
      (before ++ (run' ++ after)) :=
  (nodesGain_refl hinsert before).append (hrun.append (nodesGain_refl hinsert after))

theorem nodesGain_around (hinsert : InsertGains frames stage.insert insert)
    (h : Alike frames stage (stage.withInsert insert) node node')
    (before after : List Markup.Node) :
    NodesGain frames stage (stage.withInsert insert) (before ++ node :: after)
      (before ++ node' :: after) :=
  (nodesGain_refl hinsert before).append (h.cons (nodesGain_refl hinsert after))

theorem branchesGain_around (hinsert : InsertGains frames stage.insert insert)
    (h : Alike frames stage (stage.withInsert insert) node node')
    (before after : List Markup.Node) :
    BranchesGain frames stage (stage.withInsert insert) (before ++ node :: after)
      (before ++ node' :: after) := by
  induction before with
  | nil => exact h.asBranch (branchesGain_refl hinsert after)
  | cons other before ih => exact (alike_refl hinsert other).asBranch ih

theorem alike_fill (hinsert : InsertGains frames stage.insert insert)
    (hrun : NodesGain frames stage (stage.withInsert insert) run run') {site : Site}
    (hsite : site.InContent stage.settings.directiveNs) :
    Alike frames stage (stage.withInsert insert) (site.fill run).toNode
      (site.fill run').toNode := by
  induction site with
  | gap tag before after =>
    exact alike_element hinsert (nodesGain_gap hinsert hrun before after)
      (fun hdir hname => absurd hname (hsite hdir).2)
      (fun hdir hname => absurd hname (hsite hdir).1)
  | inside tag before site after ih =>
    have hfill := ih hsite
    refine alike_element hinsert (nodesGain_around hinsert hfill before after)
      (fun _ _ => branchesGain_around hinsert hfill before after) fun _ _ => ?_
    -- The first node is in front of the element with the gap, or it is this element: no text.
    cases before with
    | nil => rfl
    | cons other before => cases other <;> rfl

theorem nodesGain_fill (hinsert : InsertGains frames stage.insert insert)
    (hrun : NodesGain frames stage (stage.withInsert insert) run run') {site : Site}
    (hsite : site.InContent stage.settings.directiveNs) :
    NodesGain frames stage (stage.withInsert insert) (site.fill run).children
      (site.fill run').children := by
  cases site with
  | gap tag before after => exact nodesGain_gap hinsert hrun before after
  | inside tag before site after =>
    have hinner : site.InContent stage.settings.directiveNs := hsite
    exact nodesGain_around hinsert (alike_fill hinsert hrun hinner) before after

theorem node_if_true {tag : Markup.Tag} (htag : tag.Tests stage.settings.directiveNs "true")
    (data : Data) (origin : Origin) (draft : Draft) :
    stage.node data origin draft (.element tag run) =
      stage.nodes data (origin.enter tag stage.location) draft run := by
  have hdir : stage.isDirective tag = true := htag.isIn
  simp only [node, hdir, htag.name, holds, htag.test, Expr.parse_true, ↓reduceIte]
  rfl

theorem node_if_false {tag : Markup.Tag} (htag : tag.Tests stage.settings.directiveNs "false")
    (data : Data) (origin : Origin) (draft : Draft) :
    stage.node data origin draft (.element tag run) = .ok draft := by
  have hdir : stage.isDirective tag = true := htag.isIn
  simp only [node, hdir, htag.name, holds, htag.test, Expr.parse_false, ↓reduceIte]
  rfl

theorem chooseMode_of_chooses {tag : Markup.Tag} (htag : tag.Chooses stage.settings.directiveNs)
    (origin : Origin) (draft : Draft) :
    ∃ mode, stage.chooseMode tag origin draft = (mode, draft) := by
  rw [chooseMode]
  cases hmode : tag.attributeEither? stage.settings.directiveNs "mode" with
  | none => exact ⟨.strict, rfl⟩
  | some name =>
    obtain ⟨mode, hname⟩ := Option.isSome_iff_exists.1 (htag.mode name hmode)
    simp only [hname]
    exact ⟨mode, rfl⟩

theorem node_choose_else {choose otherwise : Markup.Tag}
    (hchoose : choose.Chooses stage.settings.directiveNs)
    (helse : otherwise.Defaults stage.settings.directiveNs) (data : Data) (origin : Origin)
    (draft : Draft) :
    stage.node data origin draft (.element choose [.element otherwise run]) =
      stage.nodes data ((origin.enter choose stage.location).enter otherwise stage.location) draft
        run := by
  have hdir : stage.isDirective choose = true := hchoose.isIn
  have hbranch : stage.isDirective otherwise = true := helse.isIn
  obtain ⟨mode, hmode⟩ := chooseMode_of_chooses hchoose (origin.enter choose stage.location) draft
  simp only [node, hdir, hchoose.name, ↓reduceIte, hmode, branches, hbranch, helse.name,
    Bool.false_eq_true]
  exact bind_pure _

theorem nodesGain_if_true {tag : Markup.Tag} (htag : tag.Tests stage.settings.directiveNs "true")
    (hinsert : InsertGains [⟨tag.opening, stage.location⟩] stage.insert insert)
    (run : List Markup.Node) :
    NodesGain [⟨tag.opening, stage.location⟩] stage (stage.withInsert insert) run
      [.element tag run] := by
  intro data origin origin' horigin draft draft' hdraft
  have htag : tag.Tests (stage.withInsert insert).settings.directiveNs "true" := htag
  rw [nodes_singleton, node_if_true htag]
  exact nodesGain_refl hinsert run data horigin.gain hdraft

theorem nodesGain_choose_else {choose otherwise : Markup.Tag}
    (hchoose : choose.Chooses stage.settings.directiveNs)
    (helse : otherwise.Defaults stage.settings.directiveNs)
    (hinsert : InsertGains [⟨choose.opening, stage.location⟩, ⟨otherwise.opening, stage.location⟩]
      stage.insert insert) (run : List Markup.Node) :
    NodesGain [⟨choose.opening, stage.location⟩, ⟨otherwise.opening, stage.location⟩] stage
      (stage.withInsert insert) run [.element choose [.element otherwise run]] := by
  intro data origin origin' horigin draft draft' hdraft
  have hchoose : choose.Chooses (stage.withInsert insert).settings.directiveNs := hchoose
  have helse : otherwise.Defaults (stage.withInsert insert).settings.directiveNs := helse
  rw [nodes_singleton, node_choose_else hchoose helse, Origin.enter, Origin.enter,
    List.append_assoc]
  exact nodesGain_refl hinsert run data horigin.gain hdraft

theorem nodesGain_if_false {tag : Markup.Tag} (htag : tag.Tests stage.settings.directiveNs "false")
    (run : List Markup.Node) :
    NodesGain frames stage (stage.withInsert insert) [.element tag run] [] := by
  intro data origin origin' horigin draft draft' hdraft
  rw [nodes_singleton, node_if_false htag]
  exact .ok hdraft

end Stage

namespace Workshop

variable {w : Workshop} {site : Site}

/-- Nodes in the gap of a template that do what others do there make productions that do what those
with the others do, wherever the template is inserted. -/
theorem gains_fill (hsite : site.InContent w.settings.directiveNs) (stored : Key)
    (source ns : String) {run run' : List Markup.Node}
    (hrun : ∀ {stage : Stage} {insert : Insert}, stage.settings = w.settings →
      stage.location = source ++ ":" ++ stored.text →
      Stage.InsertGains frames stage.insert insert →
        Stage.NodesGain frames stage (stage.withInsert insert) run run')
    (key : Key) (data : Data) :
    let registry (nodes : List Markup.Node) :=
      w.registry.put ⟨stored, source, ns, site.fill nodes⟩
    OutcomeGains frames ((w.withRegistry (registry run)).produce key data)
      ((w.withRegistry (registry run')).produce key data) := by
  intro registry
  have hstored : (registry run).Gains frames w.settings (registry run') := by
    intro key
    rw [Registry.get?_put, Registry.get?_put]
    by_cases hkey : stored = key
    · rw [if_pos hkey, if_pos hkey]
      refine .some ⟨rfl, rfl, site.tag_fill _ _, fun hsettings hlocation hinsert => ?_⟩
      exact Stage.nodesGain_fill hinsert (hrun hsettings hlocation hinsert) (hsettings ▸ hsite)
    · rw [if_neg hkey, if_neg hkey]
      cases w.registry.get? key with
      | none => exact .none
      | some snippet => exact .some (.refl frames w.settings snippet)
  have hgains : (w.withRegistry (registry run)).registry.Gains frames
      (w.withRegistry (registry run)).settings (registry run') := hstored
  exact gains_produceWith hgains .empty key data .root

/-- Nodes that stand next to each other in content can be put inside an `if` whose test is `true`,
or inside the `else` that is all of a choice: the same element is produced, with the same warnings
in the same order, or the same error is raised, and what changes is that trails lead through the new
elements. This holds for every snippet that is produced, also for one into which the template is
inserted. Inside an `if` whose test is `false` the nodes are as if they were not there. -/
theorem conditions_transparent (hsite : site.InContent w.settings.directiveNs) (stored : Key)
    (source ns : String) (run : List Markup.Node) (key : Key) (data : Data) :
    let produced (nodes : List Markup.Node) :=
      (w.withRegistry (w.registry.put ⟨stored, source, ns, site.fill nodes⟩)).produce key data
    let frame (tag : Markup.Tag) : Frame := ⟨tag.opening, source ++ ":" ++ stored.text⟩
    (∀ tag : Markup.Tag, tag.Tests w.settings.directiveNs "true" →
      OutcomeGains [frame tag] (produced run) (produced [.element tag run])) ∧
    (∀ choose otherwise : Markup.Tag, choose.Chooses w.settings.directiveNs →
      otherwise.Defaults w.settings.directiveNs →
        OutcomeGains [frame choose, frame otherwise] (produced run)
          (produced [.element choose [.element otherwise run]])) ∧
    ∀ tag : Markup.Tag, tag.Tests w.settings.directiveNs "false" →
      produced [.element tag run] = produced [] := by
  intro produced frame
  refine ⟨fun tag htag => ?_, fun choose otherwise hchoose helse => ?_, fun tag htag => ?_⟩
  · refine gains_fill hsite stored source ns (fun hsettings hlocation hinsert => ?_) key data
    simp only [frame, ← hlocation] at hinsert ⊢
    exact Stage.nodesGain_if_true (hsettings ▸ htag) hinsert run
  · refine gains_fill hsite stored source ns (fun hsettings hlocation hinsert => ?_) key data
    simp only [frame, ← hlocation] at hinsert ⊢
    exact Stage.nodesGain_choose_else (hsettings ▸ hchoose) (hsettings ▸ helse) hinsert run
  · have hgains : OutcomeGains [] (produced [.element tag run]) (produced []) :=
      gains_fill hsite stored source ns
        (fun hsettings _ _ => Stage.nodesGain_if_false (hsettings ▸ htag) run) key data
    exact hgains.eq_of_nil.symm

def loopSite : Site :=
  .inside ⟨none, none, "ul", []⟩ []
    (.gap ⟨some "d", none, "for-each", [⟨none, none, "list", "names"⟩]⟩ [] []) []

def loopRun : List Markup.Node :=
  [.element ⟨none, none, "li", []⟩ [.text "\x7b\x7b_value\x7d\x7d"],
    .element ⟨some "d", none, "else", []⟩ []]

def testTag (test : String) : Markup.Tag := ⟨some "d", none, "if", [⟨none, none, "test", test⟩]⟩

def namesData : Data := Record.empty.insert "names" (.list [.text "Ann", .text "Bob"])

def withoutSnippets : Workshop where
  settings := ⟨"d", "h", "doc"⟩
  registry := Registry.empty
  host := fun _ target _ => (target, none)

def produceFilled (nodes : List Markup.Node) : Except ProduceError Draft :=
  let registry := withoutSnippets.registry.put ⟨Key.ofString "/list", "s", "h", loopSite.fill nodes⟩
  (withoutSnippets.withRegistry registry).produce (Key.ofString "/list") namesData

def outline (outcome : Except ProduceError Draft) : Option (String × List (List String)) :=
  outcome.toOption.map fun draft =>
    (draft.target.textContent, draft.warnings.map fun warning => warning.origin.map Frame.tag)

theorem conditions_transparent_in_loop :
    loopSite.InContent withoutSnippets.settings.directiveNs ∧
      (testTag "true").Tests withoutSnippets.settings.directiveNs "true" ∧
      OutcomeGains [⟨"<if test=\"true\">", "s:/list"⟩] (produceFilled loopRun)
        (produceFilled [.element (testTag "true") loopRun]) ∧
      (let loop := ["<ul>", "<for-each list=\"names\">"]
      outline (produceFilled loopRun) = some ("AnnBob", [loop ++ ["<else>"], loop ++ ["<else>"]]) ∧
        outline (produceFilled [.element (testTag "true") loopRun]) =
          some ("AnnBob", [loop ++ ["<if test=\"true\">", "<else>"],
            loop ++ ["<if test=\"true\">", "<else>"]])) := by
  have hsite : loopSite.InContent withoutSnippets.settings.directiveNs := by
    intro h
    decide
  have htest : (testTag "true").Tests withoutSnippets.settings.directiveNs "true" := by
    constructor <;> decide
  refine ⟨hsite, htest, ?_, ?_, ?_⟩
  · exact (conditions_transparent hsite (Key.ofString "/list") "s" "h" loopRun
      (Key.ofString "/list") namesData).1 (testTag "true") htest
  · rw [produceFilled, produce, produceWith_eq]
    decide +kernel
  · rw [produceFilled, produce, produceWith_eq]
    decide +kernel

end Workshop

end MarkupSnippets

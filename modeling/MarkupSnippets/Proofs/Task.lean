import Mathlib.Tactic.Simps.Basic
import MarkupSnippets.Production.Produce

namespace MarkupSnippets

/-- Where a template is being carried out: the productions under way, the snippet, the data in
scope, the place, and the element that is being built. -/
structure Spot where
  chain : Chain
  location : String
  data : Data
  origin : Origin
  draft : Draft

namespace Spot

@[simps] def enter (spot : Spot) (tag : Markup.Tag) : Spot :=
  { spot with origin := spot.origin.enter tag spot.location }

@[simps] def withDraft (spot : Spot) (draft : Draft) : Spot := { spot with draft }

@[simps] def withData (spot : Spot) (data : Data) : Spot := { spot with data }

end Spot

def Snippet.rootSpot (snippet : Snippet) (chain : Chain) (data : Data) (origin : Origin) :
    Spot where
  chain := chain.extend snippet.token
  location := snippet.token
  data := data
  origin := origin.enter snippet.template.tag snippet.token
  draft := ⟨Output.Element.new snippet.ns snippet.template.tag.name, []⟩

/-- A task is one call in a run of a production. -/
inductive Task where
  | snippet (chain : Chain) (key : Key) (data : Data) (origin : Origin)
  | nodes (spot : Spot) (children : List Markup.Node)
  | node (spot : Spot) (node : Markup.Node)
  | branches (spot : Spot) (mode : ChooseMode) (matched : Bool) (children : List Markup.Node)
  | rounds (spot : Spot) (scopes : List Data) (children : List Markup.Node)
  | invoke (spot : Spot) (role : CallableRole) (path : String)

/-- What a task does: it ends, or it assigns a task and goes on with what that gives. A task that
fails lets the one that assigned it fail in the same way. -/
inductive Plan where
  | finish (draft : Draft)
  | fail (error : ProduceError)
  | assign (task : Task) (next : Draft → Plan)

namespace Plan

def carryOut (outcome : Task → Except ProduceError Draft) : Plan → Except ProduceError Draft
  | finish draft => .ok draft
  | fail error => .error error
  | assign task next => do
    let draft ← outcome task
    (next draft).carryOut outcome

/-- The tasks that are assigned when a plan is carried out: those behind a task that fails are
not. -/
def Assigns (outcome : Task → Except ProduceError Draft) : Plan → Task → Prop
  | finish _, _ => False
  | fail _, _ => False
  | assign task next, other =>
    other = task ∨ ∃ draft, outcome task = .ok draft ∧ (next draft).Assigns outcome other

def handOver (task : Task) : Plan := assign task finish

theorem carryOut_handOver (outcome : Task → Except ProduceError Draft) (task : Task) :
    (handOver task).carryOut outcome = outcome task :=
  bind_pure (outcome task)

def ofOutcome : Except ProduceError Draft → Plan
  | .ok draft => finish draft
  | .error error => fail error

end Plan

namespace Workshop

variable (w : Workshop)

def stage (chain : Chain) (location : String) : Stage where
  settings := w.settings
  host := w.host
  insert := w.produceWith chain
  location := location

def stageAt (spot : Spot) : Stage := w.stage spot.chain spot.location

def opened (spot : Spot) (ns : String) (tag : Markup.Tag) (warnings : List Warning) : Draft :=
  tag.attributes.foldl ((w.stageAt spot).takeAttribute spot.data spot.origin)
    ⟨Output.Element.new ns tag.name, warnings⟩

def insertedKey (spot : Spot) (tag : Markup.Tag) : Key :=
  Key.ofString (substitute spot.data ((w.stageAt spot).argument tag "name"))

def build (spot : Spot) (ns : String) (tag : Markup.Tag) (warnings : List Warning)
    (children : List Markup.Node) (next : Draft → Plan) : Plan :=
  .assign (.nodes (spot.withDraft (w.opened spot ns tag warnings)) children) fun inner =>
    match tag.attributeIn? (some w.settings.directiveNs) "postproduction" with
    | some path => .assign (.invoke (spot.withDraft inner) .postproduction path) next
    | none => next inner

def snippetPlan (chain : Chain) (key : Key) (data : Data) (origin : Origin) : Plan :=
  match w.registry.get? key with
  | none => .fail (.notFound key origin)
  | some snippet =>
    if chain.contains snippet.token then
      .fail (.recursion key (chain.extend snippet.token).tokens origin)
    else
      w.build (snippet.rootSpot chain data origin) snippet.ns snippet.template.tag []
        snippet.template.children .finish

def directivePlan (spot : Spot) (tag : Markup.Tag) (children : List Markup.Node) : Plan :=
  let stage := w.stageAt spot
  match Directive.ofLocalName? tag.name with
  | none => .finish (spot.draft.warn .elementNotAllowed "Element not allowed here." spot.origin)
  | some .text =>
    match Markup.Element.firstText? children with
    | some content => .finish (spot.draft.append (.text (substitute spot.data content)))
    | none => .finish spot.draft
  | some .callFunction => .handOver (.invoke spot .callFunction (stage.argument tag "name"))
  | some .ifTest =>
    match stage.holds tag spot.data spot.origin with
    | .error error => .fail error
    | .ok true => .handOver (.nodes spot children)
    | .ok false => .finish spot.draft
  | some .choose =>
    let (mode, draft) := stage.chooseMode tag spot.origin spot.draft
    .handOver (.branches (spot.withDraft draft) mode false children)
  | some .forEach =>
    match Stage.listItems (stage.argument tag "list") spot.data spot.origin with
    | .error error => .fail error
    | .ok items => .handOver (.rounds spot (Stage.rounds spot.data items) children)
  | some .forEmpty =>
    if Stage.hasItems (stage.argument tag "list") spot.data then .finish spot.draft
    else .handOver (.nodes spot children)
  | some .insertSnippet =>
    .assign (.snippet spot.chain (w.insertedKey spot tag) spot.data spot.origin) fun inserted =>
      .finish ⟨spot.draft.target.appendChild inserted.target,
        spot.draft.warnings ++ inserted.warnings⟩
  | some .otherwise =>
    .finish (spot.draft.warn .elementNotAllowed "Element not allowed outside of <choose>."
      spot.origin)

def nodePlan (spot : Spot) : Markup.Node → Plan
  | .text content =>
    .finish (if Text.allBlank content then spot.draft
      else spot.draft.append (.text (substitute spot.data content)))
  | .element tag children =>
    if (w.stageAt spot).isDirective tag then w.directivePlan (spot.enter tag) tag children
    else
      w.build (spot.enter tag) (tag.ns.getD w.settings.defaultNs) tag spot.draft.warnings children
        fun built => .finish ⟨spot.draft.target.appendChild built.target, built.warnings⟩

def nodesPlan (spot : Spot) : List Markup.Node → Plan
  | [] => .finish spot.draft
  | child :: rest =>
    .assign (.node spot child) fun draft => .handOver (.nodes (spot.withDraft draft) rest)

def branchesPlan (spot : Spot) (mode : ChooseMode) (matched : Bool) : List Markup.Node → Plan
  | [] => .finish spot.draft
  | .text _ :: rest => .handOver (.branches spot mode matched rest)
  | .element tag children :: rest =>
    let here := spot.enter tag
    match (w.stageAt spot).isDirective tag, Directive.ofLocalName? tag.name with
    | true, some .ifTest =>
      match (w.stageAt spot).holds tag spot.data here.origin with
      | .error error => .fail error
      | .ok true =>
        .assign (.nodes here children) fun draft =>
          match mode with
          | .strict => .finish draft
          | .lax => .handOver (.branches (spot.withDraft draft) mode true rest)
      | .ok false => .handOver (.branches spot mode matched rest)
    | true, some .otherwise =>
      if matched then .handOver (.branches spot mode matched rest)
      else
        .assign (.nodes here children) fun draft =>
          .handOver (.branches (spot.withDraft draft) mode matched rest)
    | _, _ =>
      let draft := spot.draft.warn .elementNotAllowed "Element not allowed here." here.origin
      .handOver (.branches (spot.withDraft draft) mode matched rest)

def roundsPlan (spot : Spot) (children : List Markup.Node) : List Data → Plan
  | [] => .finish spot.draft
  | scope :: rest =>
    .assign (.nodes (spot.withData scope) children) fun draft =>
      .handOver (.rounds (spot.withDraft draft) rest children)

def plan : Task → Plan
  | .snippet chain key data origin => w.snippetPlan chain key data origin
  | .nodes spot children => nodesPlan spot children
  | .node spot node => w.nodePlan spot node
  | .branches spot mode matched children => w.branchesPlan spot mode matched children
  | .rounds spot scopes children => roundsPlan spot children scopes
  | .invoke spot role path =>
    .ofOutcome ((w.stageAt spot).invoke role path spot.data spot.origin spot.draft)

def outcome : Task → Except ProduceError Draft
  | .snippet chain key data origin => w.produceWith chain key data origin
  | .nodes spot children => (w.stageAt spot).nodes spot.data spot.origin spot.draft children
  | .node spot node => (w.stageAt spot).node spot.data spot.origin spot.draft node
  | .branches spot mode matched children =>
    (w.stageAt spot).branches mode matched spot.data spot.origin spot.draft children
  | .rounds spot scopes children =>
    scopes.foldlM (fun draft data => (w.stageAt spot).nodes data spot.origin draft children)
      spot.draft
  | .invoke spot role path => (w.stageAt spot).invoke role path spot.data spot.origin spot.draft

@[simp] theorem settings_stageAt (spot : Spot) : (w.stageAt spot).settings = w.settings := rfl

@[simp] theorem location_stageAt (spot : Spot) : (w.stageAt spot).location = spot.location := rfl

@[simp] theorem stageAt_withDraft (spot : Spot) (draft : Draft) :
    w.stageAt (spot.withDraft draft) = w.stageAt spot := rfl

@[simp] theorem stageAt_enter (spot : Spot) (tag : Markup.Tag) :
    w.stageAt (spot.enter tag) = w.stageAt spot := rfl

theorem produceWith_eq (chain : Chain) (key : Key) (data : Data) (origin : Origin) :
    w.produceWith chain key data origin =
      match w.registry.get? key with
      | none => .error (.notFound key origin)
      | some snippet =>
        if chain.contains snippet.token then
          .error (.recursion key (chain.extend snippet.token).tokens origin)
        else
          let stage := w.stage (chain.extend snippet.token) snippet.token
          let here := origin.enter snippet.template.tag snippet.token
          stage.element snippet.ns snippet.template.tag data here [] fun draft =>
            stage.nodes data here draft snippet.template.children := by
  rw [produceWith]
  split
  · next h => simp only [h]
  · next snippet h =>
    simp only [h]
    by_cases hnew : chain.contains snippet.token = true
    · rw [dif_pos hnew, if_pos hnew]
    · rw [dif_neg hnew, if_neg hnew]
      rfl

theorem carryOut_build (spot : Spot) (ns : String) (tag : Markup.Tag) (warnings : List Warning)
    (children : List Markup.Node) (next : Draft → Plan) :
    (w.build spot ns tag warnings children next).carryOut w.outcome =
      (w.stageAt spot).element ns tag spot.data spot.origin warnings
        (fun draft => (w.stageAt spot).nodes spot.data spot.origin draft children) >>=
      fun built => (next built).carryOut w.outcome := by
  simp only [build, Plan.carryOut, outcome, Stage.element, stageAt_withDraft, bind_assoc]
  change _ = (w.stageAt spot).nodes spot.data spot.origin (w.opened spot ns tag warnings) children
    >>= _
  congr 1
  funext inner
  simp only [Stage.postproduction, settings_stageAt]
  cases tag.attributeIn? (some w.settings.directiveNs) "postproduction" with
  | none => rfl
  | some path => rfl

theorem carryOut_snippetPlan (chain : Chain) (key : Key) (data : Data) (origin : Origin) :
    (w.snippetPlan chain key data origin).carryOut w.outcome =
      w.produceWith chain key data origin := by
  rw [produceWith_eq, snippetPlan]
  cases w.registry.get? key with
  | none => rfl
  | some snippet =>
    by_cases hnew : chain.contains snippet.token = true
    · simp only [hnew, ↓reduceIte, Plan.carryOut]
    · simp only [hnew, Bool.false_eq_true, ↓reduceIte, carryOut_build, Plan.carryOut]
      exact bind_pure _

theorem carryOut_directivePlan {spot : Spot} {tag : Markup.Tag}
    (hdir : (w.stageAt spot).isDirective tag = true) (children : List Markup.Node) :
    (w.directivePlan (spot.enter tag) tag children).carryOut w.outcome =
      (w.stageAt spot).node spot.data spot.origin spot.draft (.element tag children) := by
  simp only [Stage.node, directivePlan, stageAt_enter, hdir, ↓reduceIte]
  cases Directive.ofLocalName? tag.name with
  | none => rfl
  | some directive =>
    cases directive with
    | text => simp only; cases Markup.Element.firstText? children <;> rfl
    | callFunction => exact Plan.carryOut_handOver _ _
    | ifTest =>
      simp only [Spot.enter_data, Spot.enter_origin, location_stageAt]
      cases (w.stageAt spot).holds tag spot.data (spot.origin.enter tag spot.location) with
      | error error => rfl
      | ok b =>
        cases b with
        | false => rfl
        | true => exact Plan.carryOut_handOver _ _
    | otherwise => rfl
    | choose => exact Plan.carryOut_handOver _ _
    | forEach =>
      simp only [Spot.enter_data, Spot.enter_origin, location_stageAt]
      cases Stage.listItems ((w.stageAt spot).argument tag "list") spot.data
          (spot.origin.enter tag spot.location) with
      | error error => rfl
      | ok items => exact Plan.carryOut_handOver _ _
    | forEmpty =>
      simp only [Spot.enter_data]
      cases Stage.hasItems ((w.stageAt spot).argument tag "list") spot.data with
      | false => exact Plan.carryOut_handOver _ _
      | true => rfl
    | insertSnippet => rfl

theorem carryOut_nodePlan (spot : Spot) (node : Markup.Node) :
    (w.nodePlan spot node).carryOut w.outcome =
      (w.stageAt spot).node spot.data spot.origin spot.draft node := by
  cases node with
  | text content => rfl
  | element tag children =>
    by_cases hdir : (w.stageAt spot).isDirective tag = true
    · simp only [nodePlan, hdir, ↓reduceIte, w.carryOut_directivePlan hdir]
    · simp only [nodePlan, Stage.node, hdir, Bool.false_eq_true, ↓reduceIte, carryOut_build]
      rfl

theorem carryOut_nodesPlan (spot : Spot) (children : List Markup.Node) :
    (nodesPlan spot children).carryOut w.outcome =
      (w.stageAt spot).nodes spot.data spot.origin spot.draft children := by
  cases children with
  | nil => rfl
  | cons child rest =>
    simp only [nodesPlan, Plan.carryOut, Plan.carryOut_handOver, Stage.nodes]
    rfl

theorem carryOut_branchesPlan (spot : Spot) (mode : ChooseMode) (matched : Bool)
    (children : List Markup.Node) :
    (w.branchesPlan spot mode matched children).carryOut w.outcome =
      (w.stageAt spot).branches mode matched spot.data spot.origin spot.draft children := by
  cases children with
  | nil => rfl
  | cons child rest =>
    cases child with
    | text content => simp only [branchesPlan, Plan.carryOut_handOver, Stage.branches]; rfl
    | element tag children =>
      simp only [branchesPlan, Stage.branches, Spot.enter_origin, location_stageAt]
      cases (w.stageAt spot).isDirective tag with
      | false => exact Plan.carryOut_handOver _ _
      | true =>
        cases Directive.ofLocalName? tag.name with
        | none => exact Plan.carryOut_handOver _ _
        | some directive =>
          cases directive with
          | ifTest =>
            simp only
            cases (w.stageAt spot).holds tag spot.data (spot.origin.enter tag spot.location) with
            | error error => rfl
            | ok b =>
              cases b with
              | false => exact Plan.carryOut_handOver _ _
              | true =>
                cases mode with
                | strict => rfl
                | lax => simp only [Plan.carryOut, Plan.carryOut_handOver]; rfl
          | otherwise =>
            cases matched with
            | false =>
              simp only [Bool.false_eq_true, ↓reduceIte, Plan.carryOut, Plan.carryOut_handOver]
              rfl
            | true => exact Plan.carryOut_handOver _ _
          | _ => exact Plan.carryOut_handOver _ _

theorem carryOut_roundsPlan (spot : Spot) (children : List Markup.Node) (scopes : List Data) :
    (roundsPlan spot children scopes).carryOut w.outcome =
      scopes.foldlM (fun draft data => (w.stageAt spot).nodes data spot.origin draft children)
        spot.draft := by
  cases scopes with
  | nil => rfl
  | cons scope rest =>
    simp only [roundsPlan, Plan.carryOut, Plan.carryOut_handOver, List.foldlM_cons]
    rfl

/-- What a task gives is what carrying out its plan gives. -/
theorem outcome_eq_carryOut (task : Task) :
    w.outcome task = (w.plan task).carryOut w.outcome := by
  cases task with
  | snippet chain key data origin => exact (w.carryOut_snippetPlan chain key data origin).symm
  | nodes spot children => exact (w.carryOut_nodesPlan spot children).symm
  | node spot node => exact (w.carryOut_nodePlan spot node).symm
  | branches spot mode matched children =>
    exact (w.carryOut_branchesPlan spot mode matched children).symm
  | rounds spot scopes children => exact (w.carryOut_roundsPlan spot children scopes).symm
  | invoke spot role path =>
    simp only [outcome, plan]
    cases (w.stageAt spot).invoke role path spot.data spot.origin spot.draft <;> rfl

end Workshop

end MarkupSnippets

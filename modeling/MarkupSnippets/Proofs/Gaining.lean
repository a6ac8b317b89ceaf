import Mathlib.Data.List.Forall2
import Mathlib.Tactic.Simps.Basic
import MarkupSnippets.Proofs.Extension
import MarkupSnippets.Proofs.Relocation

namespace MarkupSnippets

/-- Two trails of which the second one leads through elements that the first one does not lead
through, with the given frames each time. -/
inductive Origin.Gains (frames : List Frame) : Origin → Origin → Prop where
  | root : Gains frames [] []
  | frame {origin origin' : Origin} (h : Gains frames origin origin') (frame : Frame) :
      Gains frames (origin ++ [frame]) (origin' ++ [frame])
  | gain {origin origin' : Origin} (h : Gains frames origin origin') :
      Gains frames origin (origin' ++ frames)

structure Warning.Gains (frames : List Frame) (warning warning' : Warning) : Prop where
  kind : warning'.kind = warning.kind
  message : warning'.message = warning.message
  origin : warning.origin.Gains frames warning'.origin

structure Draft.Gains (frames : List Frame) (draft draft' : Draft) : Prop where
  target : draft'.target = draft.target
  warnings : List.Forall₂ (Warning.Gains frames) draft.warnings draft'.warnings

/-- The error as it is raised at another place. -/
def ProduceError.raisedAt (origin : Origin) : ProduceError → ProduceError
  | notFound key _ => notFound key origin
  | recursion key tokens _ => recursion key tokens origin
  | notAList path found _ => notAList path found origin
  | notCallable role path _ => notCallable role path origin
  | expression error => expression { error with origin }
  | callback path reason _ => callback path reason origin

structure ProduceError.Gains (frames : List Frame) (e e' : ProduceError) : Prop where
  same : e' = e.raisedAt e'.origin
  origin : e.origin.Gains frames e'.origin

inductive ResultGains (frames : List Frame) {α : Type} (R : α → α → Prop) :
    Except ProduceError α → Except ProduceError α → Prop where
  | ok {a a' : α} (h : R a a') : ResultGains frames R (.ok a) (.ok a')
  | error {e e' : ProduceError} (h : e.Gains frames e') :
      ResultGains frames R (.error e) (.error e')

abbrev OutcomeGains (frames : List Frame) :
    Except ProduceError Draft → Except ProduceError Draft → Prop :=
  ResultGains frames (Draft.Gains frames)

variable {frames : List Frame} {origin origin' : Origin}

namespace Origin.Gains

theorem enter (h : origin.Gains frames origin') (tag : Markup.Tag) (location : String) :
    (origin.enter tag location).Gains frames (origin'.enter tag location) :=
  h.frame ⟨tag.opening, location⟩

theorem append (h : origin.Gains frames origin') (rest : Origin) :
    Gains frames (origin ++ rest) (origin' ++ rest) := by
  induction rest generalizing origin origin' with
  | nil => simpa using h
  | cons frame rest ih => simpa using ih (h.frame frame)

theorem eq_of_nil (h : origin.Gains [] origin') : origin' = origin := by
  induction h with
  | root => rfl
  | frame h frame ih => rw [ih]
  | gain h ih => rw [List.append_nil, ih]

end Origin.Gains

theorem Warning.Gains.eq_of_nil {warning warning' : Warning} (h : warning.Gains [] warning') :
    warning' = warning := by
  cases warning'
  rw [Warning.mk.injEq]
  exact ⟨h.kind, h.message, h.origin.eq_of_nil⟩

namespace Draft.Gains

variable {draft draft' : Draft}

theorem changed (h : draft.Gains frames draft') (change : Output.Element → Output.Element) :
    Gains frames { draft with target := change draft.target }
      { draft' with target := change draft'.target } :=
  ⟨congrArg change h.target, h.warnings⟩

theorem warn (h : draft.Gains frames draft') (kind : WarningKind) (message : String)
    (horigin : origin.Gains frames origin') :
    Gains frames (draft.warn kind message origin) (draft'.warn kind message origin') :=
  ⟨h.target, List.rel_append h.warnings (.cons ⟨rfl, rfl, horigin⟩ .nil)⟩

theorem eq_of_nil (h : draft.Gains [] draft') : draft' = draft := by
  obtain ⟨target, warnings⟩ := draft
  obtain ⟨target', warnings'⟩ := draft'
  obtain ⟨rfl, hwarnings⟩ := h
  have hsame : List.Forall₂ Eq warnings warnings' := hwarnings.imp fun _ _ h => h.eq_of_nil.symm
  rw [List.forall₂_eq_eq_eq] at hsame
  rw [hsame]

end Draft.Gains

theorem ProduceError.Gains.under (e : ProduceError) (h : origin.Gains frames origin') :
    (e.under origin).Gains frames (e.under origin') := by
  cases e <;> exact ⟨rfl, h.append _⟩

theorem ProduceError.Gains.eq_of_nil {e e' : ProduceError} (h : e.Gains [] e') : e' = e := by
  rw [h.same, h.origin.eq_of_nil]
  cases e <;> rfl

namespace ResultGains

variable {α β : Type} {R : α → α → Prop} {S : β → β → Prop} {r r' : Except ProduceError α}

theorem bind (h : ResultGains frames R r r') {next next' : α → Except ProduceError β}
    (hnext : ∀ a a', R a a' → ResultGains frames S (next a) (next' a')) :
    ResultGains frames S (r >>= next) (r' >>= next') := by
  cases h with
  | ok h => exact hnext _ _ h
  | error h => exact .error h

theorem under (r : Except ProduceError α) (h : origin.Gains frames origin') :
    ResultGains frames Eq (r.mapError (ProduceError.under origin))
      (r.mapError (ProduceError.under origin')) := by
  cases r with
  | ok a => exact .ok rfl
  | error e => exact .error (.under e h)

end ResultGains

theorem OutcomeGains.eq_of_nil {r r' : Except ProduceError Draft} (h : OutcomeGains [] r r') :
    r' = r := by
  cases h with
  | ok h => rw [h.eq_of_nil]
  | error h => rw [h.eq_of_nil]

namespace Stage

variable (stage : Stage) (data : Data) {draft draft' : Draft}

theorem gains_takeAttribute (horigin : origin.Gains frames origin')
    (hdraft : draft.Gains frames draft') (a : Markup.Attribute) :
    (stage.takeAttribute data origin draft a).Gains frames
      (stage.takeAttribute data origin' draft' a) := by
  obtain ⟨change, hchange⟩ | ⟨kind, message, hwarn⟩ := stage.takeAttribute_cases data a
  · rw [hchange, hchange]
    exact hdraft.changed change
  · rw [hwarn, hwarn]
    exact hdraft.warn kind message horigin

theorem gains_takeAttributes (horigin : origin.Gains frames origin')
    (hdraft : draft.Gains frames draft') (attributes : List Markup.Attribute) :
    (attributes.foldl (stage.takeAttribute data origin) draft).Gains frames
      (attributes.foldl (stage.takeAttribute data origin') draft') := by
  induction attributes generalizing draft draft' with
  | nil => exact hdraft
  | cons a attributes ih => exact ih (stage.gains_takeAttribute data horigin hdraft a)

theorem gains_invoke (horigin : origin.Gains frames origin') (hdraft : draft.Gains frames draft')
    (role : CallableRole) (path : String) :
    OutcomeGains frames (stage.invoke role path data origin draft)
      (stage.invoke role path data origin' draft') := by
  rw [invoke, invoke, hdraft.target]
  split
  · split
    · exact .ok (hdraft.changed fun _ => _)
    · exact .error ⟨rfl, horigin⟩
  · exact .error ⟨rfl, horigin⟩

theorem gains_holds (horigin : origin.Gains frames origin') (tag : Markup.Tag) :
    ResultGains frames Eq (stage.holds tag data origin) (stage.holds tag data origin') := by
  rw [holds_eq_under stage data origin, holds_eq_under stage data origin']
  exact .under _ horigin

theorem gains_listItems (horigin : origin.Gains frames origin') (path : String) :
    ResultGains frames Eq (listItems path data origin) (listItems path data origin') := by
  rw [listItems_eq_under data origin, listItems_eq_under data origin']
  exact .under _ horigin

theorem gains_chooseMode (horigin : origin.Gains frames origin')
    (hdraft : draft.Gains frames draft') (tag : Markup.Tag) :
    (stage.chooseMode tag origin' draft').1 = (stage.chooseMode tag origin draft).1 ∧
      (stage.chooseMode tag origin draft).2.Gains frames
        (stage.chooseMode tag origin' draft').2 := by
  obtain ⟨mode, hmode⟩ | ⟨message, hwarn⟩ := stage.chooseMode_cases tag
  · rw [hmode, hmode]
    exact ⟨rfl, hdraft⟩
  · rw [hwarn, hwarn]
    exact ⟨rfl, hdraft.warn _ message horigin⟩

theorem gains_element (horigin : origin.Gains frames origin') (ns : String) (tag : Markup.Tag)
    {warnings warnings' : List Warning}
    (hwarnings : List.Forall₂ (Warning.Gains frames) warnings warnings')
    {content content' : Draft → Except ProduceError Draft}
    (hcontent : ∀ draft draft', draft.Gains frames draft' →
      OutcomeGains frames (content draft) (content' draft')) :
    OutcomeGains frames (stage.element ns tag data origin warnings content)
      (stage.element ns tag data origin' warnings' content') := by
  have hstart : Draft.Gains frames ⟨Output.Element.new ns tag.name, warnings⟩
      ⟨Output.Element.new ns tag.name, warnings'⟩ := ⟨rfl, hwarnings⟩
  refine (hcontent _ _ (stage.gains_takeAttributes data horigin hstart tag.attributes)).bind ?_
  intro inner inner' hinner
  rw [postproduction, postproduction]
  cases tag.attributeIn? (some stage.settings.directiveNs) "postproduction" with
  | none => exact .ok hinner
  | some path => exact stage.gains_invoke data horigin hinner _ path

@[simps] def withInsert (insert : Insert) : Stage := { stage with insert }

section

variable (insert : Insert)

@[simp] theorem isDirective_withInsert :
    (stage.withInsert insert).isDirective = stage.isDirective := rfl

@[simp] theorem argument_withInsert : (stage.withInsert insert).argument = stage.argument := rfl

@[simp] theorem holds_withInsert : (stage.withInsert insert).holds = stage.holds := rfl

@[simp] theorem chooseMode_withInsert :
    (stage.withInsert insert).chooseMode = stage.chooseMode := rfl

@[simp] theorem invoke_withInsert : (stage.withInsert insert).invoke = stage.invoke := rfl

@[simp] theorem element_withInsert : (stage.withInsert insert).element = stage.element := rfl

end

/-- Two ways to produce what is inserted that are the same but for their trails. -/
def InsertGains (frames : List Frame) (insert insert' : Insert) : Prop :=
  ∀ (key : Key) (data : Data) {origin origin' : Origin}, origin.Gains frames origin' →
    OutcomeGains frames (insert key data origin) (insert' key data origin')

def NodesGain (frames : List Frame) (stage stage' : Stage) (nodes nodes' : List Markup.Node) :
    Prop :=
  ∀ (data : Data) {origin origin' : Origin}, origin.Gains frames origin' →
    ∀ {draft draft' : Draft}, draft.Gains frames draft' →
      OutcomeGains frames (stage.nodes data origin draft nodes)
        (stage'.nodes data origin' draft' nodes')

def BranchesGain (frames : List Frame) (stage stage' : Stage) (nodes nodes' : List Markup.Node) :
    Prop :=
  ∀ (mode : ChooseMode) (matched : Bool) (data : Data) {origin origin' : Origin},
    origin.Gains frames origin' → ∀ {draft draft' : Draft}, draft.Gains frames draft' →
      OutcomeGains frames (stage.branches mode matched data origin draft nodes)
        (stage'.branches mode matched data origin' draft' nodes')

/-- A node that does on one stage what another one does on another stage, be it a branch or not. -/
structure Alike (frames : List Frame) (stage stage' : Stage) (node node' : Markup.Node) :
    Prop where
  asNode : ∀ (data : Data) {origin origin' : Origin}, origin.Gains frames origin' →
    ∀ {draft draft' : Draft}, draft.Gains frames draft' →
      OutcomeGains frames (stage.node data origin draft node)
        (stage'.node data origin' draft' node')
  asBranch : ∀ {rest rest' : List Markup.Node}, BranchesGain frames stage stage' rest rest' →
    BranchesGain frames stage stage' (node :: rest) (node' :: rest')

variable {stage} {stage' : Stage} {insert : Insert}

theorem nodesGain_nil : NodesGain frames stage stage' [] [] :=
  fun _ _ _ _ _ _ hdraft => .ok hdraft

theorem Alike.cons {node node' : Markup.Node} {rest rest' : List Markup.Node}
    (h : Alike frames stage stage' node node') (hrest : NodesGain frames stage stage' rest rest') :
    NodesGain frames stage stage' (node :: rest) (node' :: rest') :=
  fun data _ _ horigin _ _ hdraft =>
    (h.asNode data horigin hdraft).bind fun _ _ hdraft => hrest data horigin hdraft

theorem branchesGain_nil : BranchesGain frames stage stage' [] [] :=
  fun _ _ _ _ _ _ _ _ hdraft => .ok hdraft

theorem alike_text (content : String) :
    Alike frames stage (stage.withInsert insert) (.text content) (.text content) where
  asNode data _ _ _ _ _ hdraft := by
    rw [Stage.node, Stage.node]
    split
    · exact .ok hdraft
    · exact .ok (hdraft.changed fun target => target.append _)
  asBranch hrest mode matched data _ _ horigin _ _ hdraft := hrest mode matched data horigin hdraft

theorem gains_rounds {children children' : List Markup.Node}
    (hchildren : NodesGain frames stage stage' children children')
    (horigin : origin.Gains frames origin') (scopes : List Data) {draft draft' : Draft}
    (hdraft : draft.Gains frames draft') :
    OutcomeGains frames
      (scopes.foldlM (fun draft data => stage.nodes data origin draft children) draft)
      (scopes.foldlM (fun draft data => stage'.nodes data origin' draft children') draft') := by
  induction scopes generalizing draft draft' with
  | nil => exact .ok hdraft
  | cons scope scopes ih =>
    rw [List.foldlM_cons, List.foldlM_cons]
    exact (hchildren scope horigin hdraft).bind fun _ _ => ih

variable {tag : Markup.Tag} {children children' : List Markup.Node}

theorem gains_node (hinsert : InsertGains frames stage.insert insert)
    (hnodes : NodesGain frames stage (stage.withInsert insert) children children')
    (hbranches : stage.isDirective tag = true → Directive.ofLocalName? tag.name = some .choose →
      BranchesGain frames stage (stage.withInsert insert) children children')
    (htext : stage.isDirective tag = true → Directive.ofLocalName? tag.name = some .text →
      Markup.Element.firstText? children' = Markup.Element.firstText? children)
    (data : Data) (horigin : origin.Gains frames origin') {draft draft' : Draft}
    (hdraft : draft.Gains frames draft') :
    OutcomeGains frames (stage.node data origin draft (.element tag children))
      ((stage.withInsert insert).node data origin' draft' (.element tag children')) := by
  have hhere := horigin.enter tag stage.location
  simp only [node, isDirective_withInsert, argument_withInsert, holds_withInsert,
    chooseMode_withInsert, invoke_withInsert, element_withInsert, withInsert_location,
    withInsert_settings, withInsert_insert]
  cases hdir : stage.isDirective tag with
  | false =>
    simp only [Bool.false_eq_true, ↓reduceIte]
    refine (stage.gains_element data hhere _ tag hdraft.warnings fun inner inner' hinner =>
      hnodes data hhere hinner).bind fun built built' hbuilt => .ok ⟨?_, hbuilt.warnings⟩
    rw [hdraft.target, hbuilt.target]
  | true =>
    simp only [↓reduceIte]
    cases hname : Directive.ofLocalName? tag.name with
    | none => exact .ok (hdraft.warn _ _ hhere)
    | some directive =>
      cases directive with
      | text =>
        simp only [htext hdir hname]
        cases Markup.Element.firstText? children with
        | none => exact .ok hdraft
        | some content => exact .ok (hdraft.changed fun target => target.append _)
      | callFunction => exact stage.gains_invoke data hhere hdraft _ _
      | ifTest =>
        refine (stage.gains_holds data hhere tag).bind ?_
        rintro b _ rfl
        cases b with
        | false => exact .ok hdraft
        | true => exact hnodes data hhere hdraft
      | choose =>
        obtain ⟨hmode, hchosen⟩ := stage.gains_chooseMode hhere hdraft tag
        simp only [hmode]
        exact hbranches hdir hname _ false data hhere hchosen
      | forEach =>
        refine (gains_listItems data hhere _).bind ?_
        rintro items _ rfl
        exact gains_rounds hnodes hhere _ hdraft
      | forEmpty =>
        simp only
        split
        · exact .ok hdraft
        · exact hnodes data hhere hdraft
      | insertSnippet =>
        refine (hinsert _ data hhere).bind fun inserted inserted' hinserted => .ok ⟨?_, ?_⟩
        · rw [hdraft.target, hinserted.target]
        · exact List.rel_append hdraft.warnings hinserted.warnings
      | otherwise => exact .ok (hdraft.warn _ _ hhere)

theorem gains_branch (hnodes : NodesGain frames stage (stage.withInsert insert) children children')
    {rest rest' : List Markup.Node}
    (hrest : BranchesGain frames stage (stage.withInsert insert) rest rest') :
    BranchesGain frames stage (stage.withInsert insert) (.element tag children :: rest)
      (.element tag children' :: rest') := by
  intro mode matched data origin origin' horigin draft draft' hdraft
  have hhere := horigin.enter tag stage.location
  have hstray := hrest mode matched data horigin (hdraft.warn .elementNotAllowed
    "Element not allowed here." hhere)
  simp only [branches, isDirective_withInsert, holds_withInsert, withInsert_location]
  cases stage.isDirective tag with
  | false => exact hstray
  | true =>
    cases Directive.ofLocalName? tag.name with
    | none => exact hstray
    | some directive =>
      cases directive with
      | ifTest =>
        refine (stage.gains_holds data hhere tag).bind ?_
        rintro b _ rfl
        cases b with
        | false => exact hrest mode matched data horigin hdraft
        | true =>
          refine ResultGains.bind (hnodes data hhere hdraft) fun draft draft' hdraft => ?_
          cases mode with
          | strict => exact .ok hdraft
          | lax => exact hrest .lax true data horigin hdraft
      | otherwise =>
        cases matched with
        | true => exact hrest mode true data horigin hdraft
        | false =>
          exact (hnodes data hhere hdraft).bind fun draft draft' hdraft =>
            hrest mode false data horigin hdraft
      | _ => exact hstray

theorem alike_element (hinsert : InsertGains frames stage.insert insert)
    (hnodes : NodesGain frames stage (stage.withInsert insert) children children')
    (hbranches : stage.isDirective tag = true → Directive.ofLocalName? tag.name = some .choose →
      BranchesGain frames stage (stage.withInsert insert) children children')
    (htext : stage.isDirective tag = true → Directive.ofLocalName? tag.name = some .text →
      Markup.Element.firstText? children' = Markup.Element.firstText? children) :
    Alike frames stage (stage.withInsert insert) (.element tag children)
      (.element tag children') where
  asNode data _ _ horigin _ _ hdraft :=
    gains_node hinsert hnodes hbranches htext data horigin hdraft
  asBranch hrest := gains_branch hnodes hrest

mutual

theorem alike_refl (hinsert : InsertGains frames stage.insert insert) (node : Markup.Node) :
    Alike frames stage (stage.withInsert insert) node node := by
  cases node with
  | text content => exact alike_text content
  | element tag children =>
    exact alike_element hinsert (nodesGain_refl hinsert children)
      (fun _ _ => branchesGain_refl hinsert children) fun _ _ => rfl

theorem nodesGain_refl (hinsert : InsertGains frames stage.insert insert)
    (nodes : List Markup.Node) :
    NodesGain frames stage (stage.withInsert insert) nodes nodes := by
  cases nodes with
  | nil => exact nodesGain_nil
  | cons node rest => exact (alike_refl hinsert node).cons (nodesGain_refl hinsert rest)

theorem branchesGain_refl (hinsert : InsertGains frames stage.insert insert)
    (nodes : List Markup.Node) :
    BranchesGain frames stage (stage.withInsert insert) nodes nodes := by
  cases nodes with
  | nil => exact branchesGain_nil
  | cons node rest => exact (alike_refl hinsert node).asBranch (branchesGain_refl hinsert rest)

end

end Stage

structure Snippet.Gains (frames : List Frame) (settings : Settings) (snippet snippet' : Snippet) :
    Prop where
  token : snippet'.token = snippet.token
  ns : snippet'.ns = snippet.ns
  tag : snippet'.template.tag = snippet.template.tag
  content : ∀ {stage : Stage} {insert : Insert}, stage.settings = settings →
    stage.location = snippet.token → Stage.InsertGains frames stage.insert insert →
      Stage.NodesGain frames stage (stage.withInsert insert) snippet.template.children
        snippet'.template.children

theorem Snippet.Gains.refl (frames : List Frame) (settings : Settings) (snippet : Snippet) :
    snippet.Gains frames settings snippet :=
  ⟨rfl, rfl, rfl, fun _ _ hinsert => Stage.nodesGain_refl hinsert _⟩

/-- Two stores that have such snippets under each key. -/
def Registry.Gains (frames : List Frame) (settings : Settings) (r r' : Registry) : Prop :=
  ∀ key, Option.Rel (Snippet.Gains frames settings) (r.get? key) (r'.get? key)

namespace Workshop

variable {w : Workshop} {other : Registry}

/-- With snippets that do the same, productions are the same, trails apart. -/
theorem gains_produceWith (h : w.registry.Gains frames w.settings other) (chain : Chain) (key : Key)
    (data : Data) (horigin : origin.Gains frames origin') :
    OutcomeGains frames (w.produceWith chain key data origin)
      ((w.withRegistry other).produceWith chain key data origin') := by
  induction hunused : w.registry.unused chain using Nat.strong_induction_on
    generalizing chain key data origin origin' with
  | _ n ih =>
    have hregistry : (w.withRegistry other).registry = other := rfl
    rw [produceWith_eq, produceWith_eq, hregistry]
    have hstored := h key
    generalize hget : w.registry.get? key = found at hstored
    generalize other.get? key = found' at hstored
    cases hstored with
    | none => exact .error ⟨rfl, horigin⟩
    | @some snippet snippet' hsnippet =>
      simp only [hsnippet.token, hsnippet.ns, hsnippet.tag]
      split
      · exact .error ⟨rfl, horigin⟩
      · next hnew =>
        let stage := w.stage (chain.extend snippet.token) snippet.token
        have hinsert : Stage.InsertGains frames stage.insert
            ((w.withRegistry other).produceWith (chain.extend snippet.token)) :=
          fun key data _ _ horigin =>
            ih _ (hunused ▸ Registry.unused_extend_lt hget hnew) _ key data horigin rfl
        have hhere := horigin.enter snippet.template.tag snippet.token
        exact stage.gains_element data hhere snippet.ns snippet.template.tag .nil
          fun _ _ hdraft => hsnippet.content rfl rfl hinsert data hhere hdraft

end Workshop

end MarkupSnippets

import MarkupSnippets.Proofs.Assignment

namespace MarkupSnippets

namespace Output.Element

def extend (e : Element) (nodes : List Node) : Element :=
  { e with children := e.children ++ nodes }

theorem extend_nil (e : Element) : e.extend [] = e := by
  rw [extend, List.append_nil]

theorem extend_extend (e : Element) (nodes others : List Node) :
    (e.extend nodes).extend others = e.extend (nodes ++ others) := by
  rw [extend, extend, extend, List.append_assoc]

theorem append_extend (e : Element) (nodes : List Node) (node : Node) :
    (e.extend nodes).append node = e.extend (nodes ++ [node]) :=
  e.extend_extend nodes [node]

end Output.Element

/-- Two drafts that have grown from two elements by the same nodes, with the same warnings. -/
structure Grown (t t' : Output.Element) (draft draft' : Draft) : Prop where
  target : ∃ added, draft.target = t.extend added ∧ draft'.target = t'.extend added
  warnings : draft'.warnings = draft.warnings

namespace Grown

variable {t t' : Output.Element} {draft draft' : Draft}

theorem start (t t' : Output.Element) (warnings : List Warning) :
    Grown t t' ⟨t, warnings⟩ ⟨t', warnings⟩ :=
  ⟨⟨[], t.extend_nil.symm, t'.extend_nil.symm⟩, rfl⟩

theorem append (h : Grown t t' draft draft') (node : Output.Node) {warnings : List Warning} :
    Grown t t' ⟨draft.target.append node, warnings⟩ ⟨draft'.target.append node, warnings⟩ := by
  obtain ⟨added, htarget, htarget'⟩ := h.target
  refine ⟨⟨added ++ [node], ?_, ?_⟩, rfl⟩
  · rw [htarget, Output.Element.append_extend]
  · rw [htarget', Output.Element.append_extend]

theorem warn (h : Grown t t' draft draft') (kind : WarningKind) (message : String)
    (origin : Origin) :
    Grown t t' (draft.warn kind message origin) (draft'.warn kind message origin) where
  target := h.target
  warnings := by rw [Draft.warn, Draft.warn, h.warnings]

theorem chooseMode (h : Grown t t' draft draft') (stage : Stage) (tag : Markup.Tag)
    (origin : Origin) :
    (stage.chooseMode tag origin draft').1 = (stage.chooseMode tag origin draft).1 ∧
      Grown t t' (stage.chooseMode tag origin draft).2 (stage.chooseMode tag origin draft').2 := by
  obtain ⟨mode, hmode⟩ | ⟨message, hwarn⟩ := stage.chooseMode_cases tag
  · rw [hmode, hmode]
    exact ⟨rfl, h⟩
  · rw [hwarn, hwarn]
    exact ⟨rfl, h.warn _ message origin⟩

end Grown

inductive Beside (t t' : Output.Element) : Task → Task → Prop where
  | nodes (spot : Spot) {draft draft' : Draft} (h : Grown t t' draft draft')
      (children : List Markup.Node) :
      Beside t t' (.nodes (spot.withDraft draft) children)
        (.nodes (spot.withDraft draft') children)
  | node (spot : Spot) {draft draft' : Draft} (h : Grown t t' draft draft')
      (node : Markup.Node) :
      Beside t t' (.node (spot.withDraft draft) node) (.node (spot.withDraft draft') node)
  | branches (spot : Spot) {draft draft' : Draft} (h : Grown t t' draft draft')
      (mode : ChooseMode) (matched : Bool) (children : List Markup.Node) :
      Beside t t' (.branches (spot.withDraft draft) mode matched children)
        (.branches (spot.withDraft draft') mode matched children)
  | rounds (spot : Spot) {draft draft' : Draft} (h : Grown t t' draft draft')
      (scopes : List Data) (children : List Markup.Node) :
      Beside t t' (.rounds (spot.withDraft draft) scopes children)
        (.rounds (spot.withDraft draft') scopes children)
  | call (spot : Spot) {draft draft' : Draft} (h : Grown t t' draft draft') (path : String) :
      Beside t t' (.invoke (spot.withDraft draft) .callFunction path)
        (.invoke (spot.withDraft draft') .callFunction path)

/-- Two plans by which two elements grow by the same nodes. The tasks that they assign do the same
to both elements, or they are the same and have nothing to do with these elements. -/
inductive Plan.Grows (t t' : Output.Element) : Plan → Plan → Prop where
  | finish {draft draft' : Draft} (h : Grown t t' draft draft') :
      Grows t t' (.finish draft) (.finish draft')
  | fail (e : ProduceError) : Grows t t' (.fail e) (.fail e)
  | assign {task task' : Task} {next next' : Draft → Plan} (htask : Beside t t' task task')
      (hnext : ∀ draft draft', Grown t t' draft draft' → Grows t t' (next draft) (next' draft')) :
      Grows t t' (.assign task next) (.assign task' next')
  | apart (task : Task) {next next' : Draft → Plan}
      (hnext : ∀ draft, Grows t t' (next draft) (next' draft)) :
      Grows t t' (.assign task next) (.assign task next')

inductive OutcomeGrows (t t' : Output.Element) :
    Except ProduceError Draft → Except ProduceError Draft → Prop where
  | ok {draft draft' : Draft} (h : Grown t t' draft draft') :
      OutcomeGrows t t' (.ok draft) (.ok draft')
  | error (e : ProduceError) : OutcomeGrows t t' (.error e) (.error e)

variable {t t' : Output.Element}

theorem Plan.Grows.handOver {task task' : Task} (h : Beside t t' task task') :
    (Plan.handOver task).Grows t t' (.handOver task') :=
  .assign h fun _ _ hdraft => .finish hdraft

theorem Plan.Grows.carryOut {outcome : Task → Except ProduceError Draft} {plan plan' : Plan}
    (h : plan.Grows t t' plan')
    (hassigned : ∀ task task', plan.Assigns outcome task → Beside t t' task task' →
      OutcomeGrows t t' (outcome task) (outcome task')) :
    OutcomeGrows t t' (plan.carryOut outcome) (plan'.carryOut outcome) := by
  induction h with
  | finish h => exact .ok h
  | fail e => exact .error e
  | @assign task task' next next' htask hnext ih =>
    have hgrows := hassigned task task' (.inl rfl) htask
    simp only [Plan.carryOut]
    generalize houtcome : outcome task = r at hgrows
    generalize outcome task' = r' at hgrows
    cases hgrows with
    | error e => exact .error e
    | @ok draft draft' hdraft =>
      exact ih draft draft' hdraft fun other other' hother =>
        hassigned other other' (.inr ⟨draft, houtcome, hother⟩)
  | apart task hnext ih =>
    simp only [Plan.carryOut]
    cases houtcome : outcome task with
    | error e => exact .error e
    | ok draft =>
      exact ih draft fun other other' hother =>
        hassigned other other' (.inr ⟨draft, houtcome, hother⟩)

namespace Workshop

variable (w : Workshop)

/-- Whether a task builds an element of its own, which the tasks that it assigns work on. -/
def buildsOwn : Task → Bool
  | .snippet _ _ _ _ => true
  | .node spot (.element tag _) => !(w.stageAt spot).isDirective tag
  | _ => false

/-- A `call-function` directive is carried out on the element that a task works on: the task does
so, or one that it assigns on the same element. -/
inductive CallsOnTarget : Task → Prop where
  | call (spot : Spot) (path : String) : CallsOnTarget (.invoke spot .callFunction path)
  | assigned {task other : Task} (hsame : w.buildsOwn task = false)
      (hassign : w.Assigns task other) (h : CallsOnTarget other) : CallsOnTarget task

variable {w} {spot : Spot} {draft draft' : Draft}

theorem grows_plain {tag : Markup.Tag} (hplain : (w.stageAt spot).isDirective tag = false)
    (h : Grown t t' draft draft') (children : List Markup.Node) :
    OutcomeGrows t t' (w.outcome (.node (spot.withDraft draft) (.element tag children)))
      (w.outcome (.node (spot.withDraft draft') (.element tag children))) := by
  simp only [outcome, Stage.node, stageAt_withDraft, Spot.withDraft_data, Spot.withDraft_origin,
    Spot.withDraft_draft, hplain, Bool.false_eq_true, ↓reduceIte, h.warnings]
  generalize (w.stageAt spot).element _ _ _ _ _ _ = built
  cases built with
  | error e => exact .error e
  | ok built => exact .ok (h.append _)

theorem grows_directivePlan (spot : Spot) (h : Grown t t' draft draft') (tag : Markup.Tag)
    (children : List Markup.Node) :
    (w.directivePlan (spot.withDraft draft) tag children).Grows t t'
      (w.directivePlan (spot.withDraft draft') tag children) := by
  simp only [directivePlan, stageAt_withDraft, Spot.withDraft_data, Spot.withDraft_origin,
    Spot.withDraft_draft, Spot.withDraft_chain]
  cases Directive.ofLocalName? tag.name with
  | none => exact .finish (h.warn _ _ _)
  | some directive =>
    cases directive with
    | text =>
      simp only
      cases Markup.Element.firstText? children with
      | none => exact .finish h
      | some content =>
        simp only [Draft.append, h.warnings]
        exact .finish (h.append _)
    | callFunction => exact .handOver (.call spot h _)
    | ifTest =>
      simp only
      cases (w.stageAt spot).holds tag spot.data spot.origin with
      | error e => exact .fail e
      | ok b =>
        cases b with
        | false => exact .finish h
        | true => exact .handOver (.nodes spot h children)
    | choose =>
      obtain ⟨hmode, hdraft⟩ := h.chooseMode (w.stageAt spot) tag spot.origin
      simp only [hmode]
      exact .handOver (.branches spot hdraft _ false children)
    | forEach =>
      simp only
      cases Stage.listItems ((w.stageAt spot).argument tag "list") spot.data spot.origin with
      | error e => exact .fail e
      | ok items => exact .handOver (.rounds spot h _ children)
    | forEmpty =>
      simp only
      split
      · exact .finish h
      · exact .handOver (.nodes spot h children)
    | insertSnippet =>
      refine .apart _ fun inserted => ?_
      simp only [h.warnings]
      exact .finish (h.append _)
    | otherwise => exact .finish (h.warn _ _ _)

theorem grows_branchesPlan (spot : Spot) (h : Grown t t' draft draft') (mode : ChooseMode)
    (matched : Bool) (children : List Markup.Node) :
    (w.branchesPlan (spot.withDraft draft) mode matched children).Grows t t'
      (w.branchesPlan (spot.withDraft draft') mode matched children) := by
  cases children with
  | nil => exact .finish h
  | cons child rest =>
    cases child with
    | text content => exact .handOver (.branches spot h mode matched rest)
    | element tag children =>
      simp only [branchesPlan, stageAt_withDraft, Spot.withDraft_data, Spot.withDraft_draft]
      have hstray := Plan.Grows.handOver (.branches spot (h.warn .elementNotAllowed
        "Element not allowed here." (spot.enter tag).origin) mode matched rest)
      cases (w.stageAt spot).isDirective tag with
      | false => exact hstray
      | true =>
        cases Directive.ofLocalName? tag.name with
        | none => exact hstray
        | some directive =>
          cases directive with
          | ifTest =>
            simp only [Spot.enter_origin, Spot.withDraft_origin, Spot.withDraft_location]
            cases (w.stageAt spot).holds tag spot.data (spot.origin.enter tag spot.location) with
            | error e => exact .fail e
            | ok b =>
              cases b with
              | false => exact .handOver (.branches spot h mode matched rest)
              | true =>
                refine .assign (.nodes (spot.enter tag) h children) fun _ _ hdraft => ?_
                cases mode with
                | strict => exact .finish hdraft
                | lax => exact .handOver (.branches spot hdraft .lax true rest)
          | otherwise =>
            cases matched with
            | true => exact .handOver (.branches spot h mode true rest)
            | false =>
              exact .assign (.nodes (spot.enter tag) h children) fun _ _ hdraft =>
                .handOver (.branches spot hdraft mode false rest)
          | _ => exact hstray

theorem grows_plan {task task' : Task} (h : Beside t t' task task')
    (hsame : w.buildsOwn task = false) (hcalls : ¬w.CallsOnTarget task) :
    (w.plan task).Grows t t' (w.plan task') := by
  cases h with
  | nodes spot h children =>
    cases children with
    | nil => exact .finish h
    | cons child rest =>
      exact .assign (.node spot h child) fun _ _ hdraft => .handOver (.nodes spot hdraft rest)
  | node spot h node =>
    cases node with
    | text content =>
      simp only [plan, nodePlan, Spot.withDraft_draft, Spot.withDraft_data]
      split
      · exact .finish h
      · simp only [Draft.append, h.warnings]
        exact .finish (h.append _)
    | element tag children =>
      have hdir : (w.stageAt spot).isDirective tag = true := by simpa [buildsOwn] using hsame
      simp only [plan, nodePlan, stageAt_withDraft, hdir, ↓reduceIte]
      exact grows_directivePlan (spot.enter tag) h tag children
  | branches spot h mode matched children => exact grows_branchesPlan spot h mode matched children
  | rounds spot h scopes children =>
    cases scopes with
    | nil => exact .finish h
    | cons scope rest =>
      exact .assign (.nodes (spot.withData scope) h children) fun _ _ hdraft =>
        .handOver (.rounds spot hdraft rest children)
  | call spot h path => exact absurd (.call _ path) hcalls

theorem grows_outcome {task task' : Task} (h : Beside t t' task task')
    (hcalls : ¬w.CallsOnTarget task) :
    OutcomeGrows t t' (w.outcome task) (w.outcome task') := by
  induction task using w.task_induction generalizing task' with
  | step task ih =>
    cases hown : w.buildsOwn task with
    | true =>
      cases h with
      | node spot h node =>
        cases node with
        | text content => cases hown
        | element tag children =>
          have hplain : (w.stageAt spot).isDirective tag = false := by simpa [buildsOwn] using hown
          exact grows_plain hplain h children
      | _ => cases hown
    | false =>
      rw [outcome_eq_carryOut, outcome_eq_carryOut]
      apply (grows_plan h hown hcalls).carryOut
      intro other other' hassign hother
      exact ih other (mayAssign_of_assigns hassign) hother fun hcall =>
        hcalls (.assigned hown hassign hcall)

/-- Content that carries out no `call-function` on the element that is being built; inside of other
elements and in snippets that are inserted it may. On every other element it fails with the same
error, or it raises the same warnings, and each element gets the same nodes behind its children and
is the same otherwise. -/
theorem content_appends {spot : Spot} {t : Output.Element} {warnings : List Warning}
    {children : List Markup.Node}
    (hcalls : ¬w.CallsOnTarget (.nodes (spot.withDraft ⟨t, warnings⟩) children))
    (t' : Output.Element) :
    let content (e : Output.Element) := w.outcome (.nodes (spot.withDraft ⟨e, warnings⟩) children)
    (∃ e, content t = .error e ∧ content t' = .error e) ∨
      ∃ added raised, content t = .ok ⟨t.extend added, raised⟩ ∧
        content t' = .ok ⟨t'.extend added, raised⟩ := by
  intro content
  have hgrows : OutcomeGrows t t' (content t) (content t') :=
    grows_outcome (.nodes spot (.start t t' warnings) children) hcalls
  generalize content t = r at hgrows
  generalize content t' = r' at hgrows
  cases hgrows with
  | error e => exact .inl ⟨e, rfl, rfl⟩
  | @ok draft draft' h =>
    obtain ⟨target, raised⟩ := draft
    obtain ⟨target', raised'⟩ := draft'
    obtain ⟨⟨added, rfl, rfl⟩, rfl⟩ := h
    exact .inr ⟨added, _, rfl, rfl⟩

def nestedCall : Markup.Node :=
  .element ⟨none, none, "p", []⟩
    [.element ⟨some "d", none, "call-function", [⟨none, none, "name", "f"⟩]⟩ []]

def calling : Workshop where
  settings := ⟨"d", "h", "doc"⟩
  registry := Registry.empty
  host := fun _ target _ => (target.appendText "called", none)

def callSpot : Spot :=
  ⟨.empty, "s", Record.empty.insert "f" (.callable "f"), [], ⟨default, []⟩⟩

def callResult : Output.Node := .element ⟨"h", "p", [], .empty⟩ [.text "called"]

theorem not_callsOnTarget_nestedCall (t : Output.Element) :
    ¬calling.CallsOnTarget (.nodes (callSpot.withDraft ⟨t, []⟩) [nestedCall]) := by
  intro h
  cases h with
  | assigned _ hassign h =>
    obtain rfl | ⟨draft, -, hassign⟩ := hassign
    · cases h with
      | assigned hsame => cases hsame
    · obtain rfl := assigns_handOver.1 hassign
      cases h with
      | assigned _ hassign => exact hassign

theorem content_appends_nested_call :
    ¬calling.CallsOnTarget
        (.nodes (callSpot.withDraft ⟨Output.Element.new "h" "div", []⟩) [nestedCall]) ∧
      calling.outcome
          (.nodes (callSpot.withDraft ⟨Output.Element.new "h" "div", []⟩) [nestedCall]) =
        .ok ⟨(Output.Element.new "h" "div").extend [callResult], []⟩ ∧
      calling.outcome (.nodes (callSpot.withDraft
          ⟨⟨⟨"h", "ul", [⟨none, none, "class", "c"⟩], .empty⟩, [.text "a"]⟩, []⟩) [nestedCall]) =
        .ok ⟨⟨⟨"h", "ul", [⟨none, none, "class", "c"⟩], .empty⟩, [.text "a", callResult]⟩, []⟩ := by
  have hcalls := not_callsOnTarget_nestedCall (Output.Element.new "h" "div")
  have hnew : calling.outcome (.nodes (callSpot.withDraft ⟨Output.Element.new "h" "div", []⟩)
      [nestedCall]) = .ok ⟨(Output.Element.new "h" "div").extend [callResult], []⟩ := by rfl
  refine ⟨hcalls, hnew, ?_⟩
  obtain ⟨e, herror, -⟩ | ⟨added, raised, hok, hok'⟩ := content_appends hcalls
    ⟨⟨"h", "ul", [⟨none, none, "class", "c"⟩], .empty⟩, [.text "a"]⟩
  · cases hnew.symm.trans herror
  · obtain ⟨htarget, rfl⟩ := Draft.mk.inj (Except.ok.inj (hnew.symm.trans hok))
    obtain rfl : [callResult] = added := (Output.Element.mk.inj htarget).2
    exact hok'

end Workshop

end MarkupSnippets

import MarkupSnippets.Proofs.OutputTags

namespace MarkupSnippets

def Task.Has (P : Output.Element → Prop) : Task → Prop
  | .snippet _ _ _ _ => True
  | .nodes spot _ => P spot.draft.target
  | .node spot _ => P spot.draft.target
  | .branches spot _ _ _ => P spot.draft.target
  | .rounds spot _ _ => P spot.draft.target
  | .invoke spot _ _ => P spot.draft.target

/-- The element that a plan ends with has a property, and those that tasks are assigned on have it,
if the tasks keep it. -/
def Plan.Keeps (P : Output.Element → Prop) : Plan → Prop
  | finish draft => P draft.target
  | fail _ => True
  | assign task next => task.Has P ∧ ∀ draft, P draft.target → Keeps P (next draft)

theorem Plan.keeps_handOver {P : Output.Element → Prop} {task : Task} (h : task.Has P) :
    (Plan.handOver task).Keeps P :=
  ⟨h, fun _ hdraft => hdraft⟩

namespace Workshop

/-- A property of elements that all keep what is done to elements by a workshop. -/
structure Invariant (w : Workshop) (P : Output.Element → Prop) : Prop where
  new (ns name : String) : P (.new ns name)
  setAttribute {e : Output.Element} (h : P e) (a : Output.Attribute) : P (e.setAttribute a)
  setHandler {e : Output.Element} (h : P e) (name callable : String) :
    P (e.setHandler name callable)
  appendText {e : Output.Element} (h : P e) (content : String) : P (e.appendText content)
  appendChild {e child : Output.Element} (h : P e) (hchild : P child) : P (e.appendChild child)
  call {e : Output.Element} (h : P e) (callable : String) (data : Data) :
    P (w.host callable e data).1

namespace Invariant

variable {w : Workshop} {P : Output.Element → Prop}

theorem takeAttribute (hinv : w.Invariant P) (spot : Spot) {draft : Draft} (h : P draft.target)
    (a : Markup.Attribute) :
    P ((w.stageAt spot).takeAttribute spot.data spot.origin draft a).target := by
  rw [Stage.takeAttribute]
  split
  · exact hinv.setAttribute h _
  · split
    · split
      · exact hinv.setHandler h _ _
      · exact h
    · split
      · exact h
      · exact h

theorem opened (hinv : w.Invariant P) (spot : Spot) (ns : String) (tag : Markup.Tag)
    (warnings : List Warning) : P (w.opened spot ns tag warnings).target :=
  List.foldlRecOn (motive := fun draft : Draft => P draft.target) tag.attributes _
    (hinv.new ns tag.name) fun _ h a _ => hinv.takeAttribute spot h a

theorem build (hinv : w.Invariant P) {spot : Spot} {ns : String} {tag : Markup.Tag}
    {warnings : List Warning} {children : List Markup.Node} {next : Draft → Plan}
    (h : ∀ draft, P draft.target → (next draft).Keeps P) :
    (w.build spot ns tag warnings children next).Keeps P := by
  refine ⟨hinv.opened spot ns tag warnings, fun inner hinner => ?_⟩
  cases tag.attributeIn? (some w.settings.directiveNs) "postproduction" with
  | none => exact h inner hinner
  | some path => exact ⟨hinner, h⟩

theorem snippetPlan (hinv : w.Invariant P) (chain : Chain) (key : Key) (data : Data)
    (origin : Origin) : (w.snippetPlan chain key data origin).Keeps P := by
  rw [Workshop.snippetPlan]
  split
  · trivial
  · split
    · trivial
    · exact hinv.build fun _ h => h

theorem directivePlan (hinv : w.Invariant P) {spot : Spot} (h : P spot.draft.target)
    (tag : Markup.Tag) (children : List Markup.Node) :
    (w.directivePlan spot tag children).Keeps P := by
  rw [Workshop.directivePlan]
  cases Directive.ofLocalName? tag.name with
  | none => exact h
  | some directive =>
    cases directive with
    | text =>
      simp only
      split
      · exact hinv.appendText h _
      · exact h
    | callFunction => exact Plan.keeps_handOver h
    | ifTest =>
      simp only
      split
      · trivial
      · exact Plan.keeps_handOver h
      · exact h
    | otherwise => exact h
    | choose =>
      apply Plan.keeps_handOver
      change P ((w.stageAt spot).chooseMode tag spot.origin spot.draft).2.target
      rw [Stage.target_chooseMode]
      exact h
    | forEach =>
      simp only
      split
      · trivial
      · exact Plan.keeps_handOver h
    | forEmpty =>
      simp only
      split
      · exact h
      · exact Plan.keeps_handOver h
    | insertSnippet => exact ⟨trivial, fun inserted hinserted => hinv.appendChild h hinserted⟩

theorem nodePlan (hinv : w.Invariant P) {spot : Spot} (h : P spot.draft.target)
    (node : Markup.Node) : (w.nodePlan spot node).Keeps P := by
  cases node with
  | text content =>
    rw [Workshop.nodePlan]
    split
    · exact h
    · exact hinv.appendText h _
  | element tag children =>
    rw [Workshop.nodePlan]
    split
    · have hhere : P (spot.enter tag).draft.target := h
      exact hinv.directivePlan hhere tag children
    · exact hinv.build fun built hbuilt => hinv.appendChild h hbuilt

theorem branchesPlan {spot : Spot} (h : P spot.draft.target) (mode : ChooseMode) (matched : Bool)
    (children : List Markup.Node) : (w.branchesPlan spot mode matched children).Keeps P := by
  cases children with
  | nil => exact h
  | cons child rest =>
    cases child with
    | text content => exact Plan.keeps_handOver h
    | element tag children =>
      rw [Workshop.branchesPlan]
      split
      · split
        · trivial
        · refine ⟨h, fun draft hdraft => ?_⟩
          cases mode with
          | strict => exact hdraft
          | lax => exact Plan.keeps_handOver hdraft
        · exact Plan.keeps_handOver h
      · split
        · exact Plan.keeps_handOver h
        · exact ⟨h, fun draft hdraft => Plan.keeps_handOver hdraft⟩
      · exact Plan.keeps_handOver h

theorem plan (hinv : w.Invariant P) {task : Task} (h : task.Has P) : (w.plan task).Keeps P := by
  cases task with
  | snippet chain key data origin => exact hinv.snippetPlan chain key data origin
  | node spot node => exact hinv.nodePlan h node
  | branches spot mode matched children => exact branchesPlan h mode matched children
  | nodes spot children =>
    cases children with
    | nil => exact h
    | cons child rest => exact ⟨h, fun draft hdraft => Plan.keeps_handOver hdraft⟩
  | rounds spot scopes children =>
    cases scopes with
    | nil => exact h
    | cons scope rest => exact ⟨h, fun draft hdraft => Plan.keeps_handOver hdraft⟩
  | invoke spot role path =>
    rw [Workshop.plan, Stage.invoke]
    split
    · next name _ =>
      have hcall : P ((w.stageAt spot).host name spot.draft.target spot.data).1 :=
        hinv.call h name spot.data
      split
      · next target hhost =>
        rw [hhost] at hcall
        exact hcall
      · trivial
    · trivial

theorem carryOut {plan : Plan} {draft : Draft} (hkeeps : plan.Keeps P)
    (hassigned : ∀ task draft, plan.Assigns w.outcome task → w.outcome task = .ok draft →
      task.Has P → P draft.target)
    (h : plan.carryOut w.outcome = .ok draft) : P draft.target := by
  induction plan with
  | finish last =>
    cases h
    exact hkeeps
  | fail error => cases h
  | assign task next ih =>
    obtain ⟨inner, houtcome, hnext⟩ := Plan.carryOut_assign_eq_ok h
    have hinner := hassigned task inner (.inl rfl) houtcome hkeeps.1
    exact ih inner (hkeeps.2 inner hinner)
      (fun other last hassign => hassigned other last (.inr ⟨inner, houtcome, hassign⟩)) hnext

theorem outcome (hinv : w.Invariant P) {task : Task} {draft : Draft} (h : task.Has P)
    (houtcome : w.outcome task = .ok draft) : P draft.target := by
  induction task using w.task_induction generalizing draft with
  | step task ih =>
    rw [outcome_eq_carryOut] at houtcome
    exact carryOut (hinv.plan h) (fun other inner hassign hother hin =>
      ih other (mayAssign_of_assigns hassign) hin hother) houtcome

/-- What is produced has every invariant. -/
theorem produce (hinv : w.Invariant P) {key : Key} {data : Data} {draft : Draft}
    (h : w.produce key data = .ok draft) : P draft.target := by
  have hstart : Task.Has P (.snippet .empty key data []) := trivial
  exact hinv.outcome hstart h

end Invariant

end Workshop

end MarkupSnippets

import MarkupSnippets.Proofs.OutputTags

namespace MarkupSnippets

namespace Stage

variable (stage : Stage)

def attributeWarning? (data : Data) (origin : Origin) (a : Markup.Attribute) : Option Warning :=
  if a.ns != some stage.settings.directiveNs then none
  else if bindsHandler a.name then
    match resolve? data a.value with
    | some (.callable _) => none
    | _ =>
      some ⟨.handlerNotCallable, "Event handler \"" ++ a.value ++ "\" is not callable.", origin⟩
  else if a.name != "postproduction" then
    some ⟨.attributeNotAllowed, "Attribute \"" ++ a.qualifiedName ++ "\" is not allowed here.",
      origin⟩
  else none

variable {stage}

theorem warnings_takeAttribute (data : Data) (origin : Origin) (draft : Draft)
    (a : Markup.Attribute) :
    (stage.takeAttribute data origin draft a).warnings =
      draft.warnings ++ (stage.attributeWarning? data origin a).toList := by
  rw [takeAttribute, attributeWarning?]
  split
  · exact (List.append_nil _).symm
  · split
    · cases resolve? data a.value with
      | none => rfl
      | some value =>
        cases value with
        | callable name => exact (List.append_nil _).symm
        | _ => rfl
    · split
      · rfl
      · exact (List.append_nil _).symm

theorem origin_of_attributeWarning? {data : Data} {origin : Origin} {a : Markup.Attribute}
    {warning : Warning} (h : stage.attributeWarning? data origin a = some warning) :
    warning.origin = origin := by
  rw [attributeWarning?] at h
  split at h
  · cases h
  · split at h
    · split at h <;> cases h
      rfl
    · split at h <;> cases h
      rfl

end Stage

def Task.warnings : Task → List Warning
  | .snippet _ _ _ _ => []
  | .nodes spot _ => spot.draft.warnings
  | .node spot _ => spot.draft.warnings
  | .branches spot _ _ _ => spot.draft.warnings
  | .rounds spot _ _ => spot.draft.warnings
  | .invoke spot _ _ => spot.draft.warnings

/-- All warnings that a plan ends with have a property, if the tasks that it assigns pass it on. -/
def Plan.Warns (P : Warning → Prop) : Plan → Prop
  | finish draft => ∀ warning ∈ draft.warnings, P warning
  | fail _ => True
  | assign task next =>
    (∀ warning ∈ task.warnings, P warning) ∧
      ∀ draft, (∀ warning ∈ draft.warnings, P warning) → Warns P (next draft)

namespace Workshop

variable (w : Workshop)

/-- The warnings that a task raises of its own. -/
inductive Raises : Task → Spot → Warning → Prop where
  | root {chain : Chain} {key : Key} {snippet : Snippet} {a : Markup.Attribute} {warning : Warning}
      (data : Data) (origin : Origin) (hget : w.registry.get? key = some snippet)
      (hnew : chain.contains snippet.token = false) (ha : a ∈ snippet.template.tag.attributes)
      (h : (w.stageAt (snippet.rootSpot chain data origin)).attributeWarning? data
        (snippet.rootSpot chain data origin).origin a = some warning) :
      Raises (.snippet chain key data origin) (snippet.rootSpot chain data origin) warning
  | element {spot : Spot} {tag : Markup.Tag} {a : Markup.Attribute} {warning : Warning}
      (children : List Markup.Node) (hplain : (w.stageAt spot).isDirective tag = false)
      (ha : a ∈ tag.attributes)
      (h : (w.stageAt spot).attributeWarning? spot.data (spot.enter tag).origin a = some warning) :
      Raises (.node spot (.element tag children)) (spot.enter tag) warning
  | unknown {spot : Spot} {tag : Markup.Tag} (children : List Markup.Node)
      (hdir : (w.stageAt spot).isDirective tag = true)
      (hname : Directive.ofLocalName? tag.name = none) :
      Raises (.node spot (.element tag children)) (spot.enter tag)
        ⟨.elementNotAllowed, "Element not allowed here.", (spot.enter tag).origin⟩
  | otherwise {spot : Spot} {tag : Markup.Tag} (children : List Markup.Node)
      (hdir : (w.stageAt spot).isDirective tag = true)
      (hname : Directive.ofLocalName? tag.name = some .otherwise) :
      Raises (.node spot (.element tag children)) (spot.enter tag)
        ⟨.elementNotAllowed, "Element not allowed outside of <choose>.", (spot.enter tag).origin⟩
  | mode {spot : Spot} {tag : Markup.Tag} {name : String} (children : List Markup.Node)
      (hdir : (w.stageAt spot).isDirective tag = true)
      (hname : Directive.ofLocalName? tag.name = some .choose)
      (hmode : tag.attributeEither? w.settings.directiveNs "mode" = some name)
      (hunknown : ChooseMode.ofName? name = none) :
      Raises (.node spot (.element tag children)) (spot.enter tag)
        ⟨.invalidChooseMode, "Invalid choose mode \"" ++ name ++ "\", using \"strict\".",
          (spot.enter tag).origin⟩
  | branch {spot : Spot} {tag : Markup.Tag} (mode : ChooseMode) (matched : Bool)
      (children rest : List Markup.Node)
      (hother : (w.stageAt spot).isDirective tag = true →
        Directive.ofLocalName? tag.name ≠ some .ifTest ∧
          Directive.ofLocalName? tag.name ≠ some .otherwise) :
      Raises (.branches spot mode matched (.element tag children :: rest)) (spot.enter tag)
        ⟨.elementNotAllowed, "Element not allowed here.", (spot.enter tag).origin⟩

variable {w} {task : Task} {P : Warning → Prop}

theorem Raises.origin_eq {spot : Spot} {warning : Warning} (h : w.Raises task spot warning) :
    warning.origin = spot.origin := by
  cases h with
  | root data origin hget hnew ha h => exact Stage.origin_of_attributeWarning? h
  | element children hplain ha h => exact Stage.origin_of_attributeWarning? h
  | unknown | otherwise | mode | branch => rfl

theorem warnings_of_warns {plan : Plan} {draft : Draft} (hwarns : plan.Warns P)
    (hassigned : ∀ task draft, plan.Assigns w.outcome task → w.outcome task = .ok draft →
      (∀ warning ∈ task.warnings, P warning) → ∀ warning ∈ draft.warnings, P warning)
    (h : plan.carryOut w.outcome = .ok draft) : ∀ warning ∈ draft.warnings, P warning := by
  induction plan with
  | finish last =>
    cases h
    exact hwarns
  | fail error => cases h
  | assign task next ih =>
    obtain ⟨inner, houtcome, hnext⟩ := Plan.carryOut_assign_eq_ok h
    have hinner := hassigned task inner (.inl rfl) houtcome hwarns.1
    exact ih inner (hwarns.2 inner hinner)
      (fun other last hassign => hassigned other last (.inr ⟨inner, houtcome, hassign⟩)) hnext

theorem warns_handOver (h : ∀ warning ∈ task.warnings, P warning) :
    (Plan.handOver task).Warns P :=
  ⟨h, fun _ hdraft => hdraft⟩

theorem mem_append_singleton {warnings : List Warning} {last : Warning}
    (h : ∀ warning ∈ warnings, P warning) (hlast : P last) :
    ∀ warning ∈ warnings ++ [last], P warning := by
  intro warning hmem
  obtain hmem | rfl := (List.mem_append.1 hmem).imp_right List.mem_singleton.1
  · exact h warning hmem
  · exact hlast

theorem warnings_opened (spot : Spot) (ns : String) (tag : Markup.Tag) {warnings : List Warning}
    (h : ∀ warning ∈ warnings, P warning)
    (hraise : ∀ a ∈ tag.attributes, ∀ warning,
      (w.stageAt spot).attributeWarning? spot.data spot.origin a = some warning → P warning) :
    ∀ warning ∈ (w.opened spot ns tag warnings).warnings, P warning := by
  refine List.foldlRecOn (motive := fun draft : Draft => ∀ warning ∈ draft.warnings, P warning)
    tag.attributes _ h fun draft hdraft a ha => ?_
  rw [Stage.warnings_takeAttribute]
  intro warning hmem
  obtain hmem | hmem := List.mem_append.1 hmem
  · exact hdraft warning hmem
  · exact hraise a ha warning (Option.mem_toList.1 hmem)

theorem warns_build {spot : Spot} {ns : String} {tag : Markup.Tag} {warnings : List Warning}
    {children : List Markup.Node} {next : Draft → Plan}
    (hopened : ∀ warning ∈ (w.opened spot ns tag warnings).warnings, P warning)
    (h : ∀ draft, (∀ warning ∈ draft.warnings, P warning) → (next draft).Warns P) :
    (w.build spot ns tag warnings children next).Warns P := by
  refine ⟨hopened, fun inner hinner => ?_⟩
  cases tag.attributeIn? (some w.settings.directiveNs) "postproduction" with
  | none => exact h inner hinner
  | some path => exact ⟨hinner, h⟩

theorem warns_snippetPlan {chain : Chain} {key : Key} {data : Data} {origin : Origin}
    (hraise : ∀ spot warning,
      w.Raises (.snippet chain key data origin) spot warning → P warning) :
    (w.snippetPlan chain key data origin).Warns P := by
  rw [snippetPlan]
  split
  · trivial
  · next snippet hget =>
    split
    · trivial
    · next hnew =>
      rw [Bool.not_eq_true] at hnew
      refine warns_build
        (warnings_opened _ _ _ (List.forall_mem_nil _) fun a ha warning h => ?_) fun _ h => h
      exact hraise _ warning (.root data origin hget hnew ha h)

theorem warns_directivePlan {spot : Spot} {tag : Markup.Tag} {children : List Markup.Node}
    (hdir : (w.stageAt spot).isDirective tag = true)
    (hin : ∀ warning ∈ spot.draft.warnings, P warning)
    (hraise : ∀ other warning,
      w.Raises (.node spot (.element tag children)) other warning → P warning) :
    (w.directivePlan (spot.enter tag) tag children).Warns P := by
  rw [directivePlan]
  cases hname : Directive.ofLocalName? tag.name with
  | none => exact mem_append_singleton hin (hraise _ _ (.unknown children hdir hname))
  | some directive =>
    cases directive with
    | text =>
      simp only
      split <;> exact hin
    | callFunction => exact warns_handOver hin
    | ifTest =>
      simp only
      split
      · trivial
      · exact warns_handOver hin
      · exact hin
    | otherwise => exact mem_append_singleton hin (hraise _ _ (.otherwise children hdir hname))
    | choose =>
      apply warns_handOver
      change ∀ warning ∈ ((w.stageAt spot).chooseMode tag (spot.enter tag).origin
        spot.draft).2.warnings, P warning
      rw [Stage.chooseMode]
      split
      · exact hin
      · next name hmode =>
        split
        · exact hin
        · next hunknown =>
          exact mem_append_singleton hin
            (hraise _ _ (.mode children hdir hname hmode hunknown))
    | forEach =>
      simp only
      split
      · trivial
      · exact warns_handOver hin
    | forEmpty =>
      simp only
      split
      · exact hin
      · exact warns_handOver hin
    | insertSnippet =>
      refine ⟨List.forall_mem_nil _, fun inserted hinserted warning hmem => ?_⟩
      exact (List.mem_append.1 hmem).elim (hin warning) (hinserted warning)

theorem warns_nodePlan {spot : Spot} {node : Markup.Node}
    (hin : ∀ warning ∈ spot.draft.warnings, P warning)
    (hraise : ∀ other warning, w.Raises (.node spot node) other warning → P warning) :
    (w.nodePlan spot node).Warns P := by
  cases node with
  | text content =>
    rw [nodePlan]
    split <;> exact hin
  | element tag children =>
    rw [nodePlan]
    split
    · next hdir => exact warns_directivePlan hdir hin hraise
    · next hplain =>
      rw [Bool.not_eq_true] at hplain
      refine warns_build (warnings_opened _ _ _ hin fun a ha warning h => ?_) fun _ h => h
      exact hraise _ warning (.element children hplain ha h)

theorem warns_branchesPlan {spot : Spot} {mode : ChooseMode} {matched : Bool}
    {children : List Markup.Node} (hin : ∀ warning ∈ spot.draft.warnings, P warning)
    (hraise : ∀ other warning,
      w.Raises (.branches spot mode matched children) other warning → P warning) :
    (w.branchesPlan spot mode matched children).Warns P := by
  cases children with
  | nil => exact hin
  | cons child rest =>
    cases child with
    | text content => exact warns_handOver hin
    | element tag children =>
      rw [branchesPlan]
      split
      · split
        · trivial
        · refine ⟨hin, fun draft hdraft => ?_⟩
          cases mode with
          | strict => exact hdraft
          | lax => exact warns_handOver hdraft
        · exact warns_handOver hin
      · split
        · exact warns_handOver hin
        · exact ⟨hin, fun draft hdraft => warns_handOver hdraft⟩
      · next hif helse =>
        apply warns_handOver
        refine mem_append_singleton hin (hraise _ _ (.branch mode matched children rest ?_))
        exact fun hdir => ⟨hif hdir, helse hdir⟩

theorem warns_plan (hin : ∀ warning ∈ task.warnings, P warning)
    (hraise : ∀ spot warning, w.Raises task spot warning → P warning) : (w.plan task).Warns P := by
  cases task with
  | snippet chain key data origin => exact warns_snippetPlan hraise
  | node spot node => exact warns_nodePlan hin hraise
  | branches spot mode matched children => exact warns_branchesPlan hin hraise
  | nodes spot children =>
    cases children with
    | nil => exact hin
    | cons child rest => exact ⟨hin, fun draft hdraft => warns_handOver hdraft⟩
  | rounds spot scopes children =>
    cases scopes with
    | nil => exact hin
    | cons scope rest => exact ⟨hin, fun draft hdraft => warns_handOver hdraft⟩
  | invoke spot role path =>
    rw [plan, Stage.invoke]
    split
    · split
      · exact hin
      · trivial
    · trivial

/-- A warning of an outcome was there before the task or is raised by a task of its run. -/
theorem exists_raises_of_mem {draft : Draft} (h : w.outcome task = .ok draft) {warning : Warning}
    (hmem : warning ∈ draft.warnings) :
    warning ∈ task.warnings ∨
      ∃ other spot, w.Reaches task other ∧ w.Raises other spot warning := by
  induction task using w.task_induction generalizing draft warning with
  | step task ih =>
    rw [outcome_eq_carryOut] at h
    refine warnings_of_warns (P := fun warning => warning ∈ task.warnings ∨
      ∃ other spot, w.Reaches task other ∧ w.Raises other spot warning)
      (warns_plan (fun _ => .inl) fun spot warning hraises =>
        .inr ⟨task, spot, .refl, hraises⟩) ?_ h warning hmem
    intro other inner hassign houtcome hin warning hmem
    obtain hold | ⟨last, spot, hreach, hraises⟩ := ih other (mayAssign_of_assigns hassign)
      houtcome hmem
    · exact hin warning hold
    · exact .inr ⟨last, spot, .head hassign hreach, hraises⟩

end Workshop

end MarkupSnippets

import MarkupSnippets.Proofs.Assignment

namespace MarkupSnippets

def Task.origin : Task → Origin
  | .snippet _ _ _ origin => origin
  | .nodes spot _ => spot.origin
  | .node spot _ => spot.origin
  | .branches spot _ _ _ => spot.origin
  | .rounds spot _ _ => spot.origin
  | .invoke spot _ _ => spot.origin

/-- The errors that a plan itself ends with, the assigned tasks having the outcomes that are
given. -/
def Plan.Fails (outcome : Task → Except ProduceError Draft) : Plan → ProduceError → Prop
  | finish _, _ => False
  | fail error, e => e = error
  | assign task next, e => ∃ draft, outcome task = .ok draft ∧ (next draft).Fails outcome e

theorem Plan.carryOut_eq_error_iff {outcome : Task → Except ProduceError Draft} {plan : Plan}
    {e : ProduceError} :
    plan.carryOut outcome = .error e ↔
      plan.Fails outcome e ∨ ∃ task, plan.Assigns outcome task ∧ outcome task = .error e := by
  induction plan with
  | finish draft => simp [carryOut, Fails, Assigns]
  | fail error => simp [carryOut, Fails, Assigns, eq_comm]
  | assign task next ih =>
    cases h : outcome task with
    | error error =>
      have hcarry : (assign task next).carryOut outcome = .error error := by
        simp only [carryOut, h]
        rfl
      simp [hcarry, Fails, Assigns, h]
    | ok draft =>
      have hcarry : (assign task next).carryOut outcome = (next draft).carryOut outcome := by
        simp only [carryOut, h]
        rfl
      simp [hcarry, Fails, Assigns, h, ih]

theorem Plan.carryOut_assign_eq_ok {outcome : Task → Except ProduceError Draft} {task : Task}
    {next : Draft → Plan} {draft : Draft} (h : (assign task next).carryOut outcome = .ok draft) :
    ∃ inner, outcome task = .ok inner ∧ (next inner).carryOut outcome = .ok draft := by
  rw [carryOut] at h
  cases houtcome : outcome task with
  | error error =>
    rw [houtcome] at h
    cases h
  | ok inner =>
    rw [houtcome] at h
    exact ⟨inner, rfl, h⟩

theorem Expr.origin_of_parse_eq_error {origin : Origin} {text : String} {e : ExpressionError}
    (h : Expr.parse origin text = .error e) : e.origin = origin := by
  rw [Expr.parse] at h
  split at h
  · cases h
    rfl
  · split at h
    · cases h
    · cases h
      rfl
    · cases h
      rfl

namespace Stage

variable {stage : Stage} {data : Data} {origin : Origin} {e : ProduceError}

theorem origin_of_holds_eq_error {tag : Markup.Tag} (h : stage.holds tag data origin = .error e) :
    e.origin = origin := by
  rw [holds] at h
  split at h
  · split at h
    · cases h
    · next error herror =>
      cases h
      exact Expr.origin_of_parse_eq_error herror
  · cases h
    rfl

theorem origin_of_listItems_eq_error {path : String} (h : listItems path data origin = .error e) :
    e.origin = origin := by
  rw [listItems] at h
  split at h <;> cases h <;> rfl

theorem origin_of_invoke_eq_error {role : CallableRole} {path : String} {draft : Draft}
    (h : stage.invoke role path data origin draft = .error e) : e.origin = origin := by
  rw [invoke] at h
  split at h
  · split at h <;> cases h
    rfl
  · cases h
    rfl

end Stage

namespace Workshop

variable (w : Workshop)

/-- The failures that a task has of its own. -/
inductive MayFail : Task → ProduceError → Prop where
  | notFound {key : Key} (chain : Chain) (data : Data) (origin : Origin)
      (hget : w.registry.get? key = none) :
      MayFail (.snippet chain key data origin) (.notFound key origin)
  | recursion {chain : Chain} {key : Key} {snippet : Snippet} (data : Data) (origin : Origin)
      (hget : w.registry.get? key = some snippet) (hold : chain.contains snippet.token = true) :
      MayFail (.snippet chain key data origin)
        (.recursion key (chain.extend snippet.token).tokens origin)
  | test {spot : Spot} {tag : Markup.Tag} {e : ProduceError} (children : List Markup.Node)
      (h : (w.stageAt spot).holds tag spot.data (spot.enter tag).origin = .error e) :
      MayFail (.node spot (.element tag children)) e
  | list {spot : Spot} {tag : Markup.Tag} {e : ProduceError} (children : List Markup.Node)
      (h : Stage.listItems ((w.stageAt spot).argument tag "list") spot.data
        (spot.enter tag).origin = .error e) :
      MayFail (.node spot (.element tag children)) e
  | branchTest {spot : Spot} {tag : Markup.Tag} {e : ProduceError} (mode : ChooseMode)
      (matched : Bool) (children rest : List Markup.Node)
      (h : (w.stageAt spot).holds tag spot.data (spot.enter tag).origin = .error e) :
      MayFail (.branches spot mode matched (.element tag children :: rest)) e
  | call {spot : Spot} {role : CallableRole} {path : String} {e : ProduceError}
      (h : (w.stageAt spot).invoke role path spot.data spot.origin spot.draft = .error e) :
      MayFail (.invoke spot role path) e

variable {w} {outcome : Task → Except ProduceError Draft} {task other : Task} {e : ProduceError}

theorem not_fails_handOver : ¬(Plan.handOver task).Fails outcome e := by
  simp [Plan.handOver, Plan.Fails]

theorem fails_build {spot : Spot} {ns : String} {tag : Markup.Tag} {warnings : List Warning}
    {children : List Markup.Node} {next : Draft → Plan}
    (h : (w.build spot ns tag warnings children next).Fails outcome e) :
    ∃ draft, (next draft).Fails outcome e := by
  obtain ⟨inner, -, h⟩ := h
  revert h
  cases tag.attributeIn? (some w.settings.directiveNs) "postproduction" with
  | none => exact fun h => ⟨inner, h⟩
  | some path => exact fun ⟨built, _, h⟩ => ⟨built, h⟩

theorem mayFail_of_directivePlan {spot : Spot} {tag : Markup.Tag} {children : List Markup.Node}
    (h : (w.directivePlan (spot.enter tag) tag children).Fails outcome e) :
    w.MayFail (.node spot (.element tag children)) e := by
  rw [directivePlan] at h
  generalize Directive.ofLocalName? tag.name = directive? at h
  cases directive? with
  | none => cases h
  | some directive =>
    cases directive with
    | text =>
      simp only at h
      split at h <;> cases h
    | callFunction => exact absurd h not_fails_handOver
    | ifTest =>
      simp only at h
      split at h
      · next error herror =>
        cases h
        exact .test children herror
      · exact absurd h not_fails_handOver
      · cases h
    | otherwise => cases h
    | choose => exact absurd h not_fails_handOver
    | forEach =>
      simp only at h
      split at h
      · next error herror =>
        cases h
        exact .list children herror
      · exact absurd h not_fails_handOver
    | forEmpty =>
      simp only at h
      split at h
      · cases h
      · exact absurd h not_fails_handOver
    | insertSnippet =>
      obtain ⟨draft, -, h⟩ := h
      cases h

theorem mayFail_of_branchesPlan {spot : Spot} {mode : ChooseMode} {matched : Bool}
    {children : List Markup.Node}
    (h : (w.branchesPlan spot mode matched children).Fails outcome e) :
    w.MayFail (.branches spot mode matched children) e := by
  cases children with
  | nil => cases h
  | cons child rest =>
    cases child with
    | text content => exact absurd h not_fails_handOver
    | element tag children =>
      rw [branchesPlan] at h
      split at h
      · split at h
        · next error herror =>
          cases h
          exact .branchTest mode matched children rest herror
        · obtain ⟨draft, -, h⟩ := h
          cases mode with
          | strict => cases h
          | lax => exact absurd h not_fails_handOver
        · exact absurd h not_fails_handOver
      · split at h
        · exact absurd h not_fails_handOver
        · obtain ⟨draft, -, h⟩ := h
          exact absurd h not_fails_handOver
      · exact absurd h not_fails_handOver

theorem mayFail_of_fails (h : (w.plan task).Fails outcome e) : w.MayFail task e := by
  cases task with
  | snippet chain key data origin =>
    rw [plan, snippetPlan] at h
    split at h
    · next hget =>
      cases h
      exact .notFound chain data origin hget
    · next snippet hget =>
      split at h
      · next hold =>
        cases h
        exact .recursion data origin hget hold
      · obtain ⟨draft, h⟩ := fails_build h
        cases h
  | nodes spot children =>
    cases children with
    | nil => cases h
    | cons child rest =>
      obtain ⟨draft, -, h⟩ := h
      exact absurd h not_fails_handOver
  | node spot node =>
    cases node with
    | text content => cases h
    | element tag children =>
      rw [plan, nodePlan] at h
      split at h
      · exact mayFail_of_directivePlan h
      · obtain ⟨draft, h⟩ := fails_build h
        cases h
  | branches spot mode matched children => exact mayFail_of_branchesPlan h
  | rounds spot scopes children =>
    cases scopes with
    | nil => cases h
    | cons scope rest =>
      obtain ⟨draft, -, h⟩ := h
      exact absurd h not_fails_handOver
  | invoke spot role path =>
    rw [plan] at h
    cases hcall : (w.stageAt spot).invoke role path spot.data spot.origin spot.draft with
    | ok draft =>
      rw [hcall] at h
      cases h
    | error error =>
      rw [hcall] at h
      cases h
      exact .call hcall

theorem outcome_eq_error_cases (h : w.outcome task = .error e) :
    w.MayFail task e ∨ ∃ other, w.Assigns task other ∧ w.outcome other = .error e := by
  rw [outcome_eq_carryOut] at h
  exact (Plan.carryOut_eq_error_iff.1 h).imp_left mayFail_of_fails

theorem origin_prefix_of_mayAssign (h : w.MayAssign task other) : task.origin <+: other.origin := by
  cases h with
  | content | completion | children | choice | loop | call | insertion | branch =>
    apply List.prefix_append
  | first | others | nextBranch | round | nextRound => apply List.prefix_refl

theorem origin_prefix_of_mayFail (h : w.MayFail task e) : task.origin <+: e.origin := by
  cases h with
  | notFound | recursion => apply List.prefix_refl
  | test children h =>
    rw [Stage.origin_of_holds_eq_error h]
    apply List.prefix_append
  | list children h =>
    rw [Stage.origin_of_listItems_eq_error h]
    apply List.prefix_append
  | branchTest mode matched children rest h =>
    rw [Stage.origin_of_holds_eq_error h]
    apply List.prefix_append
  | call h =>
    rw [Stage.origin_of_invoke_eq_error h]
    apply List.prefix_refl

/-- Errors are raised at the place of a task or further inside. -/
theorem origin_prefix_of_error (h : w.outcome task = .error e) : task.origin <+: e.origin := by
  induction task using w.task_induction with
  | step task ih =>
    obtain h | ⟨other, hassign, h⟩ := outcome_eq_error_cases h
    · exact origin_prefix_of_mayFail h
    · have hmay := mayAssign_of_assigns hassign
      exact (origin_prefix_of_mayAssign hmay).trans (ih other hmay h)

end Workshop

end MarkupSnippets

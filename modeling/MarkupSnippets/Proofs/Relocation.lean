import MarkupSnippets.Proofs.Recursion

namespace MarkupSnippets

def Warning.under (place : Origin) (warning : Warning) : Warning :=
  { warning with origin := place ++ warning.origin }

def Draft.under (place : Origin) (draft : Draft) : Draft :=
  { draft with warnings := draft.warnings.map (Warning.under place) }

def ExpressionError.under (place : Origin) (e : ExpressionError) : ExpressionError :=
  { e with origin := place ++ e.origin }

namespace ProduceError

/-- The error as it is raised at a place further inside. -/
def under (place : Origin) : ProduceError → ProduceError
  | notFound key origin => notFound key (place ++ origin)
  | recursion key tokens origin => recursion key tokens (place ++ origin)
  | notAList path found origin => notAList path found (place ++ origin)
  | notCallable role path origin => notCallable role path (place ++ origin)
  | expression error => expression (error.under place)
  | callback path reason origin => callback path reason (place ++ origin)

end ProduceError

def outcomeUnder (place : Origin) : Except ProduceError Draft → Except ProduceError Draft
  | .ok draft => .ok (draft.under place)
  | .error e => .error (e.under place)

def Chain.after (around chain : Chain) : Chain := ⟨around.tokens ++ chain.tokens⟩

namespace Spot

@[simps] def relocate (around : Chain) (place : Origin) (spot : Spot) : Spot where
  chain := around.after spot.chain
  location := spot.location
  data := spot.data
  origin := place ++ spot.origin
  draft := spot.draft.under place

end Spot

namespace Task

def relocate (around : Chain) (place : Origin) : Task → Task
  | snippet chain key data origin => snippet (around.after chain) key data (place ++ origin)
  | nodes spot children => nodes (spot.relocate around place) children
  | node spot child => node (spot.relocate around place) child
  | branches spot mode matched children =>
    branches (spot.relocate around place) mode matched children
  | rounds spot scopes children => rounds (spot.relocate around place) scopes children
  | invoke spot role path => invoke (spot.relocate around place) role path

end Task

/-- A plan does at a place further inside what another one does, or refuses, if there are
productions around it. -/
inductive Plan.Relocates (around : Chain) (place : Origin) : Plan → Plan → Prop where
  | finish (draft : Draft) : Relocates around place (.finish draft) (.finish (draft.under place))
  | fail (e : ProduceError) : Relocates around place (.fail e) (.fail (e.under place))
  | assign (task : Task) {next there : Draft → Plan}
      (h : ∀ draft, Relocates around place (next draft) (there (draft.under place))) :
      Relocates around place (.assign task next) (.assign (task.relocate around place) there)
  | refuse (plan : Plan) (key : Key) (tokens : List String) (origin : Origin)
      (h : around ≠ .empty) : Relocates around place plan (.fail (.recursion key tokens origin))

inductive OutcomeRelocates (around : Chain) (place : Origin) :
    Except ProduceError Draft → Except ProduceError Draft → Prop where
  | same (r : Except ProduceError Draft) : OutcomeRelocates around place r (outcomeUnder place r)
  | refuse (r : Except ProduceError Draft) (key : Key) (tokens : List String) (origin : Origin)
      (h : around ≠ .empty) :
      OutcomeRelocates around place r (.error (.recursion key tokens origin))

variable {around : Chain} {place : Origin}

theorem Plan.Relocates.carryOut {outcome : Task → Except ProduceError Draft} {plan there : Plan}
    (h : plan.Relocates around place there)
    (hassigned : ∀ task, plan.Assigns outcome task →
      OutcomeRelocates around place (outcome task) (outcome (task.relocate around place))) :
    OutcomeRelocates around place (plan.carryOut outcome) (there.carryOut outcome) := by
  induction h with
  | finish draft => exact .same (.ok draft)
  | fail e => exact .same (.error e)
  | refuse plan key tokens origin h => exact .refuse _ key tokens origin h
  | @assign task next there h ih =>
    have htask := hassigned task (.inl rfl)
    simp only [Plan.carryOut]
    generalize hthere : outcome (task.relocate around place) = moved at htask
    cases htask with
    | refuse key tokens origin h => exact .refuse _ key tokens origin h
    | same =>
      cases houtcome : outcome task with
      | error e => exact .same (.error e)
      | ok draft =>
        exact ih draft fun other hother => hassigned other (.inr ⟨draft, houtcome, hother⟩)

@[simp] theorem Draft.under_warn (draft : Draft) (kind : WarningKind) (message : String)
    (origin : Origin) :
    (draft.warn kind message origin).under place =
      (draft.under place).warn kind message (place ++ origin) := by
  simp [Draft.under, Draft.warn, Warning.under]

@[simp] theorem Origin.append_enter (origin : Origin) (tag : Markup.Tag) (location : String) :
    place ++ origin.enter tag location = Origin.enter (place ++ origin) tag location :=
  (List.append_assoc _ _ _).symm

theorem Expr.parse_append (origin : Origin) (text : String) :
    Expr.parse (place ++ origin) text =
      (Expr.parse origin text).mapError (ExpressionError.under place) := by
  rw [Expr.parse, Expr.parse]
  cases tokenize 0 text.toList with
  | error stray => rfl
  | ok ts =>
    simp only
    split <;> simp_all [Except.mapError, ExpressionError.under]

namespace Stage

variable (stage : Stage) (data : Data) (origin : Origin) (draft : Draft)

theorem takeAttribute_under (a : Markup.Attribute) :
    stage.takeAttribute data (place ++ origin) (draft.under place) a =
      (stage.takeAttribute data origin draft a).under place := by
  obtain ⟨change, hchange⟩ | ⟨kind, message, hwarn⟩ := stage.takeAttribute_cases data a
  · rw [hchange, hchange]
    rfl
  · rw [hwarn, hwarn, Draft.under_warn]

theorem chooseMode_under (tag : Markup.Tag) :
    stage.chooseMode tag (place ++ origin) (draft.under place) =
      ((stage.chooseMode tag origin draft).1,
        (stage.chooseMode tag origin draft).2.under place) := by
  obtain ⟨mode, hmode⟩ | ⟨message, hwarn⟩ := stage.chooseMode_cases tag
  · rw [hmode, hmode]
  · rw [hwarn, hwarn, Draft.under_warn]

theorem invoke_under (role : CallableRole) (path : String) :
    stage.invoke role path data (place ++ origin) (draft.under place) =
      outcomeUnder place (stage.invoke role path data origin draft) := by
  rw [invoke, invoke]
  split
  · next name =>
    simp only [Draft.under]
    split <;> rfl
  · rfl

theorem holds_under (tag : Markup.Tag) :
    stage.holds tag data (place ++ origin) =
      (stage.holds tag data origin).mapError (ProduceError.under place) := by
  rw [holds, holds]
  cases tag.attributeEither? stage.settings.directiveNs "test" with
  | none => rfl
  | some test =>
    simp only [Expr.parse_append]
    cases Expr.parse origin test <;> rfl

theorem listItems_under (path : String) :
    listItems path data (place ++ origin) =
      (listItems path data origin).mapError (ProduceError.under place) := by
  rw [listItems, listItems]
  split <;> rfl

theorem holds_eq_under (tag : Markup.Tag) :
    stage.holds tag data origin =
      (stage.holds tag data []).mapError (ProduceError.under origin) := by
  rw [← holds_under, List.append_nil]

theorem listItems_eq_under (path : String) :
    listItems path data origin =
      (listItems path data []).mapError (ProduceError.under origin) := by
  rw [← listItems_under, List.append_nil]

end Stage

namespace Workshop

variable {w : Workshop}

theorem opened_relocate (spot : Spot) (ns : String) (tag : Markup.Tag) (warnings : List Warning) :
    w.opened (spot.relocate around place) ns tag (warnings.map (Warning.under place)) =
      (w.opened spot ns tag warnings).under place := by
  have hfold : ∀ (attributes : List Markup.Attribute) (draft : Draft),
      attributes.foldl ((w.stageAt spot).takeAttribute spot.data (place ++ spot.origin))
          (draft.under place) =
        (attributes.foldl ((w.stageAt spot).takeAttribute spot.data spot.origin) draft).under
          place := by
    intro attributes
    induction attributes with
    | nil => exact fun _ => rfl
    | cons a attributes ih =>
      intro draft
      rw [List.foldl_cons, List.foldl_cons, Stage.takeAttribute_under, ih]
  exact hfold tag.attributes ⟨Output.Element.new ns tag.name, warnings⟩

theorem relocates_handOver (task : Task) :
    (Plan.handOver task).Relocates around place (.handOver (task.relocate around place)) :=
  .assign task .finish

theorem relocates_build (spot : Spot) (ns : String) (tag : Markup.Tag) (warnings : List Warning)
    (children : List Markup.Node) {next there : Draft → Plan}
    (h : ∀ draft, (next draft).Relocates around place (there (draft.under place))) :
    (w.build spot ns tag warnings children next).Relocates around place
      (w.build (spot.relocate around place) ns tag (warnings.map (Warning.under place)) children
        there) := by
  rw [build, build, opened_relocate]
  refine .assign (.nodes (spot.withDraft (w.opened spot ns tag warnings)) children) fun inner => ?_
  cases tag.attributeIn? (some w.settings.directiveNs) "postproduction" with
  | none => exact h inner
  | some path => exact .assign (.invoke (spot.withDraft inner) .postproduction path) h

theorem holds_relocate (spot : Spot) (tag : Markup.Tag) (data : Data) (origin : Origin) :
    (w.stageAt (spot.relocate around place)).holds tag data (place ++ origin) =
      ((w.stageAt spot).holds tag data origin).mapError (ProduceError.under place) :=
  (w.stageAt spot).holds_under data origin tag

theorem chooseMode_relocate (spot : Spot) (tag : Markup.Tag) (origin : Origin) (draft : Draft) :
    (w.stageAt (spot.relocate around place)).chooseMode tag (place ++ origin) (draft.under place) =
      (((w.stageAt spot).chooseMode tag origin draft).1,
        ((w.stageAt spot).chooseMode tag origin draft).2.under place) :=
  (w.stageAt spot).chooseMode_under origin draft tag

theorem argument_relocate (spot : Spot) (tag : Markup.Tag) (name : String) :
    (w.stageAt (spot.relocate around place)).argument tag name =
      (w.stageAt spot).argument tag name := rfl

theorem isDirective_relocate (spot : Spot) (tag : Markup.Tag) :
    (w.stageAt (spot.relocate around place)).isDirective tag = (w.stageAt spot).isDirective tag :=
  rfl

theorem enter_relocate (spot : Spot) (tag : Markup.Tag) :
    (spot.relocate around place).enter tag = (spot.enter tag).relocate around place := by
  simp [Spot.enter, Spot.relocate]

theorem relocates_warn (draft : Draft) (kind : WarningKind) (message : String) (origin : Origin) :
    (Plan.finish (draft.warn kind message origin)).Relocates around place
      (.finish ((draft.under place).warn kind message (place ++ origin))) := by
  rw [← Draft.under_warn]
  exact .finish _

theorem relocates_snippetPlan (chain : Chain) (key : Key) (data : Data) (origin : Origin) :
    (w.snippetPlan chain key data origin).Relocates around place
      (w.snippetPlan (around.after chain) key data (place ++ origin)) := by
  rw [snippetPlan, snippetPlan]
  cases w.registry.get? key with
  | none => exact .fail (.notFound key origin)
  | some snippet =>
    have hcontains : (around.after chain).contains snippet.token =
        (around.contains snippet.token || chain.contains snippet.token) := by
      simp [Chain.after, Chain.contains]
    simp only
    cases hnew : chain.contains snippet.token with
    | true =>
      rw [hcontains, hnew, Bool.or_true, if_pos rfl, if_pos rfl]
      by_cases hempty : around = .empty
      · subst hempty
        exact .fail (.recursion key (chain.extend snippet.token).tokens origin)
      · exact .refuse _ _ _ _ hempty
    | false =>
      cases haround : around.contains snippet.token with
      | true =>
        rw [hcontains, haround, Bool.true_or, if_pos rfl]
        apply Plan.Relocates.refuse
        rintro rfl
        cases haround
      | false =>
        rw [hcontains, hnew, haround, if_neg (by decide), if_neg (by decide)]
        have hspot : snippet.rootSpot (around.after chain) data (place ++ origin) =
            (snippet.rootSpot chain data origin).relocate around place := by
          simp [Snippet.rootSpot, Spot.relocate, Chain.after, Chain.extend, Draft.under]
        rw [hspot]
        exact relocates_build _ snippet.ns snippet.template.tag [] snippet.template.children .finish

theorem relocates_directivePlan (spot : Spot) (tag : Markup.Tag) (children : List Markup.Node) :
    (w.directivePlan spot tag children).Relocates around place
      (w.directivePlan (spot.relocate around place) tag children) := by
  rw [directivePlan, directivePlan]
  cases Directive.ofLocalName? tag.name with
  | none => exact relocates_warn spot.draft _ _ _
  | some directive =>
    cases directive with
    | text =>
      simp only
      cases Markup.Element.firstText? children with
      | none => exact .finish spot.draft
      | some content => exact .finish (spot.draft.append _)
    | callFunction => exact relocates_handOver (.invoke spot .callFunction _)
    | ifTest =>
      simp only [Spot.relocate_data, Spot.relocate_origin, holds_relocate]
      cases (w.stageAt spot).holds tag spot.data spot.origin with
      | error e => exact .fail e
      | ok b =>
        cases b with
        | false => exact .finish spot.draft
        | true => exact relocates_handOver (.nodes spot children)
    | choose =>
      simp only [Spot.relocate_draft, Spot.relocate_origin, chooseMode_relocate]
      exact relocates_handOver (.branches (spot.withDraft _) _ false children)
    | forEach =>
      simp only [Spot.relocate_data, Spot.relocate_origin, argument_relocate, Stage.listItems_under]
      cases Stage.listItems ((w.stageAt spot).argument tag "list") spot.data spot.origin with
      | error e => exact .fail e
      | ok items => exact relocates_handOver (.rounds spot _ children)
    | forEmpty =>
      simp only [Spot.relocate_data, argument_relocate]
      split
      · exact .finish spot.draft
      · exact relocates_handOver (.nodes spot children)
    | insertSnippet =>
      refine .assign (.snippet spot.chain (w.insertedKey spot tag) spot.data spot.origin)
        fun inserted => ?_
      have hdraft : Draft.under place ⟨spot.draft.target.appendChild inserted.target,
          spot.draft.warnings ++ inserted.warnings⟩ =
            ⟨(spot.relocate around place).draft.target.appendChild (inserted.under place).target,
              (spot.relocate around place).draft.warnings ++ (inserted.under place).warnings⟩ := by
        rw [Draft.under, List.map_append]
        rfl
      rw [← hdraft]
      exact .finish _
    | otherwise => exact relocates_warn spot.draft _ _ _

theorem relocates_nodePlan (spot : Spot) (node : Markup.Node) :
    (w.nodePlan spot node).Relocates around place
      (w.nodePlan (spot.relocate around place) node) := by
  cases node with
  | text content =>
    rw [nodePlan, nodePlan]
    split
    · exact .finish spot.draft
    · exact .finish (spot.draft.append _)
  | element tag children =>
    rw [nodePlan, nodePlan, enter_relocate, isDirective_relocate]
    cases (w.stageAt spot).isDirective tag with
    | true => exact relocates_directivePlan (spot.enter tag) tag children
    | false =>
      exact relocates_build (spot.enter tag) _ tag spot.draft.warnings children
        fun built => .finish ⟨spot.draft.target.appendChild built.target, built.warnings⟩

theorem relocates_branchesPlan (spot : Spot) (mode : ChooseMode) (matched : Bool)
    (children : List Markup.Node) :
    (w.branchesPlan spot mode matched children).Relocates around place
      (w.branchesPlan (spot.relocate around place) mode matched children) := by
  cases children with
  | nil => exact .finish spot.draft
  | cons child rest =>
    cases child with
    | text content => exact relocates_handOver (.branches spot mode matched rest)
    | element tag children =>
      simp only [branchesPlan, enter_relocate, isDirective_relocate, Spot.relocate_data,
        Spot.relocate_draft, Spot.relocate_origin, holds_relocate]
      have hother : (Plan.handOver (.branches (spot.withDraft (spot.draft.warn .elementNotAllowed
            "Element not allowed here." (spot.enter tag).origin)) mode matched rest)).Relocates
          around place (.handOver (.branches ((spot.relocate around place).withDraft
            ((spot.draft.under place).warn .elementNotAllowed "Element not allowed here."
              (place ++ (spot.enter tag).origin))) mode matched rest)) := by
        rw [← Draft.under_warn]
        exact relocates_handOver _
      cases (w.stageAt spot).isDirective tag with
      | false => exact hother
      | true =>
        cases Directive.ofLocalName? tag.name with
        | none => exact hother
        | some directive =>
          cases directive with
          | ifTest =>
            simp only
            cases (w.stageAt spot).holds tag spot.data (spot.enter tag).origin with
            | error e => exact .fail e
            | ok b =>
              cases b with
              | false => exact relocates_handOver (.branches spot mode matched rest)
              | true =>
                refine .assign (.nodes (spot.enter tag) children) fun draft => ?_
                cases mode with
                | strict => exact .finish draft
                | lax => exact relocates_handOver (.branches (spot.withDraft draft) .lax true rest)
          | otherwise =>
            cases matched with
            | false =>
              exact .assign (.nodes (spot.enter tag) children) fun draft =>
                relocates_handOver (.branches (spot.withDraft draft) mode false rest)
            | true => exact relocates_handOver (.branches spot mode true rest)
          | _ => exact hother

theorem relocates_plan (task : Task) :
    (w.plan task).Relocates around place (w.plan (task.relocate around place)) := by
  cases task with
  | snippet chain key data origin => exact relocates_snippetPlan chain key data origin
  | node spot node => exact relocates_nodePlan spot node
  | branches spot mode matched children => exact relocates_branchesPlan spot mode matched children
  | nodes spot children =>
    cases children with
    | nil => exact .finish spot.draft
    | cons child rest =>
      exact .assign (.node spot child) fun draft =>
        relocates_handOver (.nodes (spot.withDraft draft) rest)
  | rounds spot scopes children =>
    cases scopes with
    | nil => exact .finish spot.draft
    | cons scope rest =>
      exact .assign (.nodes (spot.withData scope) children) fun draft =>
        relocates_handOver (.rounds (spot.withDraft draft) rest children)
  | invoke spot role path =>
    have hinvoke : (w.stageAt (spot.relocate around place)).invoke role path spot.data
        (place ++ spot.origin) (spot.draft.under place) =
          outcomeUnder place
            ((w.stageAt spot).invoke role path spot.data spot.origin spot.draft) :=
      (w.stageAt spot).invoke_under spot.data spot.origin spot.draft role path
    simp only [Task.relocate, plan, Spot.relocate_data, Spot.relocate_origin, Spot.relocate_draft,
      hinvoke]
    cases (w.stageAt spot).invoke role path spot.data spot.origin spot.draft with
    | ok draft => exact .finish draft
    | error e => exact .fail e

/-- A task has the same outcome at a place further inside, unless it is refused there. -/
theorem relocates_outcome (w : Workshop) (around : Chain) (place : Origin) (task : Task) :
    OutcomeRelocates around place (w.outcome task) (w.outcome (task.relocate around place)) := by
  induction task using w.task_induction with
  | step task ih =>
    rw [outcome_eq_carryOut, w.outcome_eq_carryOut (task.relocate around place)]
    apply (relocates_plan task).carryOut
    exact fun other hassign => ih other (mayAssign_of_assigns hassign)

theorem outcome_relocate_empty (w : Workshop) (place : Origin) (task : Task) :
    w.outcome (task.relocate .empty place) = outcomeUnder place (w.outcome task) := by
  have hrelocates := w.relocates_outcome .empty place task
  generalize w.outcome (task.relocate .empty place) = there at hrelocates ⊢
  cases hrelocates with
  | same => rfl
  | refuse key tokens origin h => exact absurd rfl h

theorem outcome_relocate (w : Workshop) (around : Chain) (place : Origin) (task : Task)
    (h : ∀ key tokens origin, w.outcome (task.relocate around place) ≠
      .error (.recursion key tokens origin)) :
    w.outcome (task.relocate around place) = outcomeUnder place (w.outcome task) := by
  have hrelocates := w.relocates_outcome around place task
  generalize w.outcome (task.relocate around place) = there at h hrelocates ⊢
  cases hrelocates with
  | same => rfl
  | refuse key tokens origin => exact absurd rfl (h key tokens origin)

/-- A production that is not refused as recursive gives, at any place and with any productions
around it, what producing the snippet alone gives: an insertion appends the same element and the
same warnings, or fails with the same error, the frames of the place standing in front. -/
theorem production_context_free {chain : Chain} {key : Key} {data : Data} {origin : Origin}
    (h : ∀ refused tokens place, w.produceWith chain key data origin ≠
      .error (.recursion refused tokens place)) :
    w.produceWith chain key data origin = outcomeUnder origin (w.produce key data) ∧
      (∀ place, w.produceWith .empty key data place = outcomeUnder place (w.produce key data)) ∧
      ∀ spot tag children, w.inserts tag = true → spot.chain = chain → spot.data = data →
        w.insertedKey spot tag = key → (spot.enter tag).origin = origin →
        w.outcome (.node spot (.element tag children)) =
          match w.produce key data with
          | .ok inserted => .ok ⟨spot.draft.target.appendChild inserted.target,
              spot.draft.warnings ++ inserted.warnings.map (Warning.under origin)⟩
          | .error e => .error (e.under origin) := by
  have hrelocate (around : Chain) (place : Origin) :
      (Task.snippet .empty key data []).relocate around place = .snippet around key data place := by
    simp [Task.relocate, Chain.after, Chain.empty]
  have hthere : w.produceWith chain key data origin = outcomeUnder origin (w.produce key data) := by
    have hsame := w.outcome_relocate chain origin (.snippet .empty key data [])
    rw [hrelocate] at hsame
    exact hsame h
  refine ⟨hthere, fun place => ?_, ?_⟩
  · have hsame := w.outcome_relocate_empty place (.snippet .empty key data [])
    rwa [hrelocate] at hsame
  · rintro spot tag children hinserts rfl rfl rfl rfl
    rw [outcome_insertion hinserts, outcome, hthere]
    cases w.produce (w.insertedKey spot tag) spot.data <;> rfl

def misplacedSnippet : Snippet :=
  ⟨Key.ofString "/b", "s", "h", ⟨⟨none, none, "p", []⟩, [.element ⟨some "d", none, "odd", []⟩ []]⟩⟩

def misplacing : Workshop where
  settings := ⟨"d", "h", "doc"⟩
  registry := Registry.empty.put misplacedSnippet
  host := fun _ target _ => (target, none)

theorem misplacing_produceWith :
    misplacing.produceWith ⟨["s:/a"]⟩ misplacedSnippet.key .empty [⟨"<insert>", "s:/a"⟩] =
      .ok ⟨Output.Element.new "h" "p", [⟨.elementNotAllowed, "Element not allowed here.",
        [⟨"<insert>", "s:/a"⟩, ⟨"<p>", "s:/b"⟩, ⟨"<odd>", "s:/b"⟩]⟩]⟩ := by
  rw [produceWith_eq]
  rfl

theorem production_context_free_misplaced :
    (∀ refused tokens place,
      misplacing.produceWith ⟨["s:/a"]⟩ misplacedSnippet.key .empty [⟨"<insert>", "s:/a"⟩] ≠
        .error (.recursion refused tokens place)) ∧
      misplacing.produceWith ⟨["s:/a"]⟩ misplacedSnippet.key .empty [⟨"<insert>", "s:/a"⟩] =
        outcomeUnder [⟨"<insert>", "s:/a"⟩] (misplacing.produce misplacedSnippet.key .empty) ∧
      ∀ place, misplacing.produceWith .empty misplacedSnippet.key .empty place =
        outcomeUnder place (misplacing.produce misplacedSnippet.key .empty) := by
  have h : ∀ refused tokens place,
      misplacing.produceWith ⟨["s:/a"]⟩ misplacedSnippet.key .empty [⟨"<insert>", "s:/a"⟩] ≠
        .error (.recursion refused tokens place) := by
    rw [misplacing_produceWith]
    exact nofun
  have hfree := production_context_free h
  exact ⟨h, hfree.1, hfree.2.1⟩

end Workshop

end MarkupSnippets

import MarkupSnippets.Proofs.Assignment

namespace MarkupSnippets

namespace Registry

/-- Every snippet of the smaller store is stored in the larger one, too. -/
def Extends (larger smaller : Registry) : Prop :=
  ∀ key snippet, smaller.get? key = some snippet → larger.get? key = some snippet

theorem extends_put {registry : Registry} {snippet : Snippet}
    (hnew : registry.get? snippet.key = none) : (registry.put snippet).Extends registry := by
  intro key other hget
  have hne : key.text ≠ snippet.key.text := by
    intro heq
    rw [get?, heq] at hget
    cases hnew.symm.trans hget
  rw [get?, put, Record.get?_insert, if_neg hne]
  exact hget

end Registry

namespace Workshop

def withRegistry (w : Workshop) (registry : Registry) : Workshop := { w with registry }

/-- A failure for want of a snippet that is not in the store. -/
def Misses (w : Workshop) (r : Except ProduceError Draft) : Prop :=
  ∃ key origin, r = .error (.notFound key origin) ∧ w.registry.get? key = none

variable {w : Workshop} {larger : Registry}

theorem plan_withRegistry (hextends : larger.Extends w.registry) (task : Task) :
    (w.withRegistry larger).plan task = w.plan task ∨
      ∃ key origin, w.plan task = .fail (.notFound key origin) ∧ w.registry.get? key = none := by
  cases task with
  | snippet chain key data origin =>
    cases hget : w.registry.get? key with
    | none =>
      have hmiss : w.snippetPlan chain key data origin = .fail (.notFound key origin) := by
        rw [snippetPlan, hget]
      exact .inr ⟨key, origin, hmiss, hget⟩
    | some snippet =>
      have hlarger : (w.withRegistry larger).registry.get? key = some snippet :=
        hextends key snippet hget
      left
      rw [plan, plan, snippetPlan, snippetPlan, hget, hlarger]
      rfl
  | _ => exact .inl rfl

theorem carryOut_congr {plan : Plan} {outcome : Task → Except ProduceError Draft}
    (hassigned : ∀ task, plan.Assigns w.outcome task →
      outcome task = w.outcome task ∨ w.Misses (w.outcome task)) :
    plan.carryOut outcome = plan.carryOut w.outcome ∨ w.Misses (plan.carryOut w.outcome) := by
  induction plan with
  | finish draft => exact .inl rfl
  | fail error => exact .inl rfl
  | assign task next ih =>
    obtain hsame | ⟨key, origin, hmiss, hget⟩ := hassigned task (.inl rfl)
    · simp only [Plan.carryOut, hsame]
      cases houtcome : w.outcome task with
      | error error => exact .inl rfl
      | ok draft => exact ih draft fun other h => hassigned other (.inr ⟨draft, houtcome, h⟩)
    · refine .inr ⟨key, origin, ?_, hget⟩
      simp only [Plan.carryOut, hmiss]
      rfl

theorem outcome_withRegistry (hextends : larger.Extends w.registry) (task : Task) :
    (w.withRegistry larger).outcome task = w.outcome task ∨ w.Misses (w.outcome task) := by
  induction task using w.task_induction with
  | step task ih =>
    rw [outcome_eq_carryOut, w.outcome_eq_carryOut task]
    obtain hplan | ⟨key, origin, hplan, hget⟩ := plan_withRegistry hextends task
    · rw [hplan]
      exact carryOut_congr fun other h => ih other (mayAssign_of_assigns h)
    · rw [hplan]
      exact .inr ⟨key, origin, rfl, hget⟩

/-- A production that does not fail for want of a snippet gives the same in every larger store. -/
theorem produce_withRegistry (hextends : larger.Extends w.registry) {key : Key} {data : Data}
    (hfound : ∀ missing origin, w.produce key data ≠ .error (.notFound missing origin)) :
    (w.withRegistry larger).produce key data = w.produce key data := by
  obtain hsame | ⟨missing, origin, hmiss, -⟩ :=
    outcome_withRegistry hextends (.snippet .empty key data [])
  · exact hsame
  · exact absurd hmiss (hfound missing origin)

def itemInsertion : Markup.Node :=
  .element ⟨some "d", none, "insert-snippet", [⟨none, none, "name", "item"⟩]⟩ []

def listSnippet : Snippet :=
  ⟨Key.ofString "/list", "s", "h", ⟨⟨none, none, "ul", []⟩, [itemInsertion]⟩⟩

def itemSnippet : Snippet := ⟨Key.ofString "/item", "s", "h", ⟨⟨none, none, "li", []⟩, []⟩⟩

def addedSnippet : Snippet := ⟨Key.ofString "/added", "t", "h", ⟨⟨none, none, "p", []⟩, []⟩⟩

def listing : Workshop where
  settings := ⟨"d", "h", "doc"⟩
  registry := (Registry.empty.put listSnippet).put itemSnippet
  host := fun _ target _ => (target, none)

def itemOrigin : Origin :=
  [⟨"<ul>", "s:/list"⟩, ⟨"<insert-snippet name=\"item\">", "s:/list"⟩]

theorem item_key : Key.ofString (substitute .empty "item") = itemSnippet.key := by cbv

theorem produce_listSnippet {registry : Registry} (item : Draft)
    (hget : registry.get? listSnippet.key = some listSnippet)
    (hitem : (listing.withRegistry registry).produceWith ⟨["s:/list"]⟩ itemSnippet.key .empty
      itemOrigin = .ok item) :
    (listing.withRegistry registry).produce listSnippet.key .empty =
      .ok ⟨(Output.Element.new "h" "ul").appendChild item.target, item.warnings⟩ := by
  have hget : (listing.withRegistry registry).registry.get? listSnippet.key = some listSnippet :=
    hget
  let stage := (listing.withRegistry registry).stage ⟨["s:/list"]⟩ "s:/list"
  let add (inserted : Draft) : Except ProduceError Draft :=
    .ok ⟨(Output.Element.new "h" "ul").appendChild inserted.target, inserted.warnings⟩
  have hnode : stage.node .empty [⟨"<ul>", "s:/list"⟩] ⟨.new "h" "ul", []⟩ itemInsertion =
      .ok ⟨(Output.Element.new "h" "ul").appendChild item.target, item.warnings⟩ := by
    change (stage.insert (Key.ofString (substitute .empty "item")) .empty itemOrigin >>= add) = _
    rw [item_key]
    exact congrArg (fun inserted => inserted >>= add) hitem
  have hnodes : stage.nodes .empty [⟨"<ul>", "s:/list"⟩] ⟨.new "h" "ul", []⟩ [itemInsertion] =
      .ok ⟨(Output.Element.new "h" "ul").appendChild item.target, item.warnings⟩ :=
    (congrArg (fun r => r >>= _) hnode).trans rfl
  rw [produce, produceWith_eq, hget]
  exact (congrArg (fun r => r >>= _) hnodes).trans rfl

theorem listing_produce :
    listing.produce listSnippet.key .empty =
      .ok ⟨(Output.Element.new "h" "ul").appendChild (.new "h" "li"), []⟩ := by
  refine produce_listSnippet ⟨.new "h" "li", []⟩ rfl ?_
  rw [produceWith_eq]
  rfl

theorem produce_withRegistry_added :
    (listing.registry.put addedSnippet).Extends listing.registry ∧
      (∀ missing origin,
        listing.produce listSnippet.key .empty ≠ .error (.notFound missing origin)) ∧
      (listing.withRegistry (listing.registry.put addedSnippet)).produce listSnippet.key .empty =
        listing.produce listSnippet.key .empty := by
  have hextends : (listing.registry.put addedSnippet).Extends listing.registry :=
    Registry.extends_put (by rfl)
  have hfound : ∀ missing origin,
      listing.produce listSnippet.key .empty ≠ .error (.notFound missing origin) := by
    rw [listing_produce]
    exact nofun
  exact ⟨hextends, hfound, produce_withRegistry hextends hfound⟩

end Workshop

end MarkupSnippets

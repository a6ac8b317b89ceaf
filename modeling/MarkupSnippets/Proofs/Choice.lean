import Mathlib.Data.List.TakeWhile
import MarkupSnippets.Proofs.Failure

namespace MarkupSnippets

theorem Value.holds_iff {v : Value} : v.holds = true ↔ v = .bool true := by
  cases v <;> simp [holds]

theorem ChooseMode.ofName?_eq_lax_iff {name : String} :
    ChooseMode.ofName? name = some .lax ↔ name = "lax" := by
  unfold ofName?
  split <;> simp_all

namespace Stage

/-- One step of a choice, with the element that it is about. -/
inductive Step where
  | carryOut (e : Markup.Element)
  | warn (e : Markup.Element)
  | fail (e : Markup.Element) (error : ProduceError)

namespace Step

def element : Step → Markup.Element
  | carryOut e => e
  | warn e => e
  | fail e _ => e

def carriedOut? : Step → Option Markup.Element
  | carryOut e => some e
  | _ => none

def warned? : Step → Option Markup.Element
  | warn e => some e
  | _ => none

end Step

variable (stage : Stage)

def isA (d : Directive) (e : Markup.Element) : Bool :=
  stage.isDirective e.tag && Directive.ofLocalName? e.tag.name == some d

def isStray (e : Markup.Element) : Bool := !stage.isA .ifTest e && !stage.isA .otherwise e

variable (data : Data) (origin : Origin)

def test (e : Markup.Element) : Except ProduceError Bool :=
  stage.holds e.tag data (origin.enter e.tag stage.location)

def fits (e : Markup.Element) : Bool :=
  stage.isA .ifTest e && (stage.test data origin e).toOption == some true

/-- The step that an element comes to, with the knowledge whether one has fitted before it. -/
def step? (matched : Bool) (e : Markup.Element) : Option Step :=
  if stage.isA .ifTest e then
    match stage.test data origin e with
    | .ok true => some (.carryOut e)
    | .ok false => none
    | .error error => some (.fail e error)
  else if stage.isA .otherwise e then if matched then none else some (.carryOut e)
  else some (.warn e)

/-- The steps of a choice: those up to the first element that fits, then, if the choice is strict,
only this one. -/
def steps (mode : ChooseMode) (elements : List Markup.Element) : List Step :=
  (elements.takeWhile fun e => !stage.fits data origin e).filterMap
    (stage.step? data origin false) ++
  match mode with
  | .strict => (elements.find? (stage.fits data origin)).toList.map .carryOut
  | .lax => (elements.dropWhile fun e => !stage.fits data origin e).filterMap
      (stage.step? data origin true)

def visited (mode : ChooseMode) (elements : List Markup.Element) : List Markup.Element :=
  match mode with
  | .strict => (elements.takeWhile fun e => !stage.fits data origin e) ++
      (elements.find? (stage.fits data origin)).toList
  | .lax => elements

def perform (draft : Draft) : Step → Except ProduceError Draft
  | .carryOut e => stage.nodes data (origin.enter e.tag stage.location) draft e.children
  | .warn e => .ok (draft.warn .elementNotAllowed "Element not allowed here."
      (origin.enter e.tag stage.location))
  | .fail _ error => .error error

/-- What is wrong with the test of an element that has none, or one that cannot be read. -/
def Misread (e : Markup.Element) (fault : ExpressionError) : Prop :=
  match e.tag.attributeEither? stage.settings.directiveNs "test" with
  | none => fault = ⟨"", .missingTest, ⟨0, 0⟩, [], origin.enter e.tag stage.location⟩
  | some text => Expr.parse (origin.enter e.tag stage.location) text = .error fault

variable {stage data origin} {e : Markup.Element}

theorem isA_otherwise_of_isA_ifTest (h : stage.isA .ifTest e = true) :
    stage.isA .otherwise e = false := by
  rw [isA, Bool.and_eq_true, beq_iff_eq] at h
  simp [isA, h.2]

theorem test_eq_true_iff : stage.test data origin e = .ok true ↔
    ∃ text expr, e.tag.attributeEither? stage.settings.directiveNs "test" = some text ∧
      Expr.parse (origin.enter e.tag stage.location) text = .ok expr ∧
      expr.eval data = .bool true := by
  rw [test, holds]
  cases e.tag.attributeEither? stage.settings.directiveNs "test" with
  | none => simp
  | some text =>
    cases hparse : Expr.parse (origin.enter e.tag stage.location) text with
    | error error => simp [hparse]
    | ok expr => simp [hparse, Value.holds_iff]

theorem test_of_misread {fault : ExpressionError} (h : stage.Misread origin e fault) :
    stage.test data origin e = .error (.expression fault) := by
  rw [Misread] at h
  rw [test, holds]
  split at h
  · next hnone => rw [hnone, h]
  · next text htext =>
    simp only [htext, h]

theorem fits_iff : stage.fits data origin e = true ↔
    stage.isA .ifTest e = true ∧ stage.test data origin e = .ok true := by
  rw [fits, Bool.and_eq_true, beq_iff_eq]
  cases stage.test data origin e <;> simp [Except.toOption]

theorem step?_of_fits (h : stage.fits data origin e = true) (matched : Bool) :
    stage.step? data origin matched e = some (.carryOut e) := by
  obtain ⟨hif, htest⟩ := fits_iff.1 h
  rw [step?, if_pos hif, htest]

theorem branches_element (mode : ChooseMode) (matched : Bool) (draft : Draft) (tag : Markup.Tag)
    (children rest : List Markup.Node) :
    stage.branches mode matched data origin draft (.element tag children :: rest) =
      if stage.isA .ifTest ⟨tag, children⟩ then do
        if ← stage.test data origin ⟨tag, children⟩ then
          let draft ← stage.nodes data (origin.enter tag stage.location) draft children
          match mode with
          | .strict => return draft
          | .lax => stage.branches mode true data origin draft rest
        else stage.branches mode matched data origin draft rest
      else if stage.isA .otherwise ⟨tag, children⟩ then do
        let draft ←
          if matched then pure draft
          else stage.nodes data (origin.enter tag stage.location) draft children
        stage.branches mode matched data origin draft rest
      else
        stage.branches mode matched data origin
          (draft.warn .elementNotAllowed "Element not allowed here."
            (origin.enter tag stage.location)) rest := by
  obtain hdir | hdir := Bool.eq_false_or_eq_true (stage.isDirective tag)
  · cases hname : Directive.ofLocalName? tag.name with
    | none => simp [branches, isA, hdir, hname]
    | some directive =>
      cases directive with
      | ifTest => cases mode <;> simp [branches, isA, test, hdir, hname]
      | _ => simp [branches, isA, hdir, hname]
  · simp [branches, isA, hdir]

theorem branches_of_fits {tag : Markup.Tag} {children : List Markup.Node}
    (h : stage.fits data origin ⟨tag, children⟩ = true) (mode : ChooseMode) (matched : Bool)
    (draft : Draft) (rest : List Markup.Node) :
    stage.branches mode matched data origin draft (.element tag children :: rest) =
      stage.perform data origin draft (.carryOut ⟨tag, children⟩) >>= fun draft =>
        match mode with
        | .strict => pure draft
        | .lax => stage.branches .lax true data origin draft rest := by
  obtain ⟨hif, htest⟩ := fits_iff.1 h
  rw [branches_element, if_pos hif, htest]
  cases mode <;> rfl

theorem branches_of_not_fits {tag : Markup.Tag} {children : List Markup.Node}
    (h : ¬stage.fits data origin ⟨tag, children⟩ = true) (mode : ChooseMode) (matched : Bool)
    (draft : Draft) (rest : List Markup.Node) :
    stage.branches mode matched data origin draft (.element tag children :: rest) =
      (stage.step? data origin matched ⟨tag, children⟩).toList.foldlM
        (stage.perform data origin) draft >>= fun draft =>
      stage.branches mode matched data origin draft rest := by
  rw [branches_element, step?]
  by_cases hif : stage.isA .ifTest ⟨tag, children⟩ = true
  · rw [if_pos hif, if_pos hif]
    cases htest : stage.test data origin ⟨tag, children⟩ with
    | error error => rfl
    | ok b =>
      cases b with
      | false => rfl
      | true => exact absurd (fits_iff.2 ⟨hif, htest⟩) h
  · rw [if_neg hif, if_neg hif]
    by_cases helse : stage.isA .otherwise ⟨tag, children⟩ = true
    · rw [if_pos helse, if_pos helse]
      cases matched with
      | false => simp [perform]
      | true => rfl
    · rw [if_neg helse, if_neg helse]
      rfl

theorem filterMap_step?_cons (matched : Bool) (e : Markup.Element) (es : List Markup.Element) :
    (e :: es).filterMap (stage.step? data origin matched) =
      (stage.step? data origin matched e).toList ++
        es.filterMap (stage.step? data origin matched) := by
  cases hstep : stage.step? data origin matched e <;> simp [hstep]

theorem branches_lax_matched (draft : Draft) (children : List Markup.Node) :
    stage.branches .lax true data origin draft children =
      ((Markup.Element.childElements children).filterMap
        (stage.step? data origin true)).foldlM (stage.perform data origin) draft := by
  induction children generalizing draft with
  | nil => rfl
  | cons child rest ih =>
    cases child with
    | text content =>
      rw [branches, ih]
      rfl
    | element tag children =>
      rw [Markup.Element.childElements, filterMap_step?_cons, List.foldlM_append]
      by_cases hfits : stage.fits data origin ⟨tag, children⟩ = true
      · rw [branches_of_fits hfits, step?_of_fits hfits]
        simp [ih]
      · rw [branches_of_not_fits hfits]
        simp only [ih]

theorem steps_cons_of_fits (h : stage.fits data origin e = true) (mode : ChooseMode)
    (es : List Markup.Element) :
    stage.steps data origin mode (e :: es) = .carryOut e ::
      match mode with
      | .strict => []
      | .lax => es.filterMap (stage.step? data origin true) := by
  cases mode <;> simp [steps, h, step?_of_fits h]

theorem steps_cons_of_not_fits (h : ¬stage.fits data origin e = true) (mode : ChooseMode)
    (es : List Markup.Element) :
    stage.steps data origin mode (e :: es) =
      (stage.step? data origin false e).toList ++ stage.steps data origin mode es := by
  cases mode <;> cases hstep : stage.step? data origin false e <;> simp [steps, h, hstep]

/-- A choice is what its steps give. -/
theorem branches_eq_steps (mode : ChooseMode) (draft : Draft) (children : List Markup.Node) :
    stage.branches mode false data origin draft children =
      (stage.steps data origin mode (Markup.Element.childElements children)).foldlM
        (stage.perform data origin) draft := by
  induction children generalizing draft with
  | nil => cases mode <;> rfl
  | cons child rest ih =>
    cases child with
    | text content =>
      rw [branches, ih]
      rfl
    | element tag children =>
      rw [Markup.Element.childElements]
      by_cases hfits : stage.fits data origin ⟨tag, children⟩ = true
      · rw [branches_of_fits hfits, steps_cons_of_fits hfits, List.foldlM_cons]
        cases mode with
        | strict => rfl
        | lax => simp only [branches_lax_matched]
      · rw [branches_of_not_fits hfits, steps_cons_of_not_fits hfits, List.foldlM_append]
        simp only [ih]

theorem step?_cases (matched : Bool) (e : Markup.Element) :
    (stage.fits data origin e = true ∧ stage.isA .otherwise e = false ∧
      stage.isStray e = false ∧ stage.step? data origin matched e = some (.carryOut e)) ∨
    (stage.fits data origin e = false ∧ stage.isA .otherwise e = false ∧
      stage.isStray e = false ∧ (stage.step? data origin matched e = none ∨
        ∃ error, stage.step? data origin matched e = some (.fail e error))) ∨
    (stage.fits data origin e = false ∧ stage.isA .otherwise e = true ∧
      stage.isStray e = false ∧ stage.step? data origin matched e =
        if matched then none else some (.carryOut e)) ∨
    (stage.fits data origin e = false ∧ stage.isA .otherwise e = false ∧
      stage.isStray e = true ∧ stage.step? data origin matched e = some (.warn e)) := by
  cases hif : stage.isA .ifTest e with
  | true =>
    have helse := isA_otherwise_of_isA_ifTest hif
    cases htest : stage.test data origin e with
    | error error => simp [fits, isStray, step?, hif, helse, htest, Except.toOption]
    | ok b => cases b <;> simp [fits, isStray, step?, hif, helse, htest, Except.toOption]
  | false =>
    cases helse : stage.isA .otherwise e <;> simp [fits, isStray, step?, hif, helse]

theorem filterMap_carriedOut? (matched : Bool) (es : List Markup.Element) :
    (es.filterMap (stage.step? data origin matched)).filterMap Step.carriedOut? =
      es.filter fun e => stage.fits data origin e || (!matched && stage.isA .otherwise e) := by
  rw [List.filterMap_filterMap, ← List.filterMap_eq_filter]
  refine List.filterMap_congr fun e _ => ?_
  obtain ⟨hfits, helse, -, hstep⟩ | ⟨hfits, helse, -, hstep | ⟨error, hstep⟩⟩ |
    ⟨hfits, helse, -, hstep⟩ | ⟨hfits, helse, -, hstep⟩ := stage.step?_cases matched e
  all_goals rw [hstep]
  all_goals cases matched <;> simp [Option.guard, hfits, helse, Step.carriedOut?]

theorem filterMap_warned? (matched : Bool) (es : List Markup.Element) :
    (es.filterMap (stage.step? data origin matched)).filterMap Step.warned? =
      es.filter stage.isStray := by
  rw [List.filterMap_filterMap, ← List.filterMap_eq_filter]
  refine List.filterMap_congr fun e _ => ?_
  obtain ⟨-, -, hstray, hstep⟩ | ⟨-, -, hstray, hstep | ⟨error, hstep⟩⟩ |
    ⟨-, -, hstray, hstep⟩ | ⟨-, -, hstray, hstep⟩ := stage.step?_cases matched e
  all_goals rw [hstep]
  all_goals cases matched <;> simp [Option.guard, hstray, Step.warned?]

theorem map_element_sublist (matched : Bool) (es : List Markup.Element) :
    ((es.filterMap (stage.step? data origin matched)).map Step.element).Sublist es := by
  induction es with
  | nil => exact .slnil
  | cons e es ih =>
    rw [filterMap_step?_cons]
    obtain ⟨-, -, -, hstep⟩ | ⟨-, -, -, hstep | ⟨error, hstep⟩⟩ |
      ⟨-, -, -, hstep⟩ | ⟨-, -, -, hstep⟩ := stage.step?_cases matched e
    all_goals rw [hstep]
    all_goals cases matched
    all_goals first | exact ih.cons_cons e | exact ih.cons e

theorem fits_of_mem_takeWhile {elements : List Markup.Element}
    (h : e ∈ elements.takeWhile fun e => !stage.fits data origin e) :
    stage.fits data origin e = false := by
  simpa using List.mem_takeWhile_imp h

theorem filter_fits_dropWhile (elements : List Markup.Element) :
    (elements.dropWhile fun e => !stage.fits data origin e).filter (stage.fits data origin) =
      elements.filter (stage.fits data origin) := by
  have hbefore : (elements.takeWhile fun e => !stage.fits data origin e).filter
      (stage.fits data origin) = [] := by
    rw [List.filter_eq_nil_iff]
    intro e he
    simp [fits_of_mem_takeWhile he]
  conv_rhs =>
    rw [← List.takeWhile_append_dropWhile (p := fun e => !stage.fits data origin e)
      (l := elements), List.filter_append, hbefore, List.nil_append]

theorem carriedOut_steps (mode : ChooseMode) (elements : List Markup.Element) :
    (stage.steps data origin mode elements).filterMap Step.carriedOut? =
      (elements.takeWhile fun e => !stage.fits data origin e).filter (stage.isA .otherwise) ++
      match mode with
      | .strict => (elements.find? (stage.fits data origin)).toList
      | .lax => elements.filter (stage.fits data origin) := by
  have hbefore : ∀ e ∈ elements.takeWhile fun e => !stage.fits data origin e,
      (stage.fits data origin e || (!false && stage.isA .otherwise e)) =
        stage.isA .otherwise e := by
    intro e he
    rw [fits_of_mem_takeWhile he]
    rfl
  unfold steps
  rw [List.filterMap_append, filterMap_carriedOut?, List.filter_congr hbefore]
  cases mode with
  | strict =>
    rw [List.filterMap_map]
    exact congrArg _ List.filterMap_some
  | lax =>
    simp only [filterMap_carriedOut?, Bool.not_true, Bool.false_and, Bool.or_false,
      filter_fits_dropWhile]

theorem carriedOut_steps_of_not_fits (mode : ChooseMode) {elements : List Markup.Element}
    (h : ∀ e ∈ elements, stage.fits data origin e = false) :
    (stage.steps data origin mode elements).filterMap Step.carriedOut? =
      elements.filter (stage.isA .otherwise) := by
  have hbefore : (elements.takeWhile fun e => !stage.fits data origin e) = elements :=
    List.takeWhile_eq_self_iff.2 fun e he => by rw [h e he]; rfl
  have hfind : elements.find? (stage.fits data origin) = none :=
    List.find?_eq_none.2 fun e he => by rw [h e he]; exact Bool.false_ne_true
  have hfilter : elements.filter (stage.fits data origin) = [] :=
    List.filter_eq_nil_iff.2 fun e he => by rw [h e he]; exact Bool.false_ne_true
  rw [carriedOut_steps, hbefore, hfind, hfilter]
  cases mode <;> exact List.append_nil _

theorem isStray_of_fits (h : stage.fits data origin e = true) : stage.isStray e = false := by
  simp [isStray, (fits_iff.1 h).1]

theorem warned_steps (mode : ChooseMode) (elements : List Markup.Element) :
    (stage.steps data origin mode elements).filterMap Step.warned? =
      (stage.visited data origin mode elements).filter stage.isStray := by
  unfold steps visited
  rw [List.filterMap_append, filterMap_warned?]
  cases mode with
  | strict =>
    rw [List.filter_append]
    cases hfind : elements.find? (stage.fits data origin) with
    | none => rfl
    | some m => simp [Step.warned?, isStray_of_fits (List.find?_some hfind)]
  | lax =>
    simp only [filterMap_warned?, ← List.filter_append, List.takeWhile_append_dropWhile]

theorem steps_sublist (mode : ChooseMode) (elements : List Markup.Element) :
    ((stage.steps data origin mode elements).map Step.element).Sublist
      (stage.visited data origin mode elements) := by
  unfold steps visited
  rw [List.map_append]
  cases mode with
  | strict =>
    refine (map_element_sublist false _).append ?_
    rw [List.map_map]
    exact List.map_id _ ▸ .refl _
  | lax =>
    refine ((map_element_sublist false _).append (map_element_sublist true _)).trans ?_
    rw [List.takeWhile_append_dropWhile]

theorem visited_strict_of_fits (h : stage.fits data origin e = true)
    (es : List Markup.Element) : stage.visited data origin .strict (e :: es) = [e] := by
  simp [visited, h]

theorem visited_cons_of_not_fits (h : ¬stage.fits data origin e = true) (mode : ChooseMode)
    (es : List Markup.Element) :
    stage.visited data origin mode (e :: es) = e :: stage.visited data origin mode es := by
  cases mode <;> simp [visited, h]

theorem visited_strict_append (h : stage.fits data origin e = true)
    (xs ys : List Markup.Element) :
    stage.visited data origin .strict (xs ++ e :: ys) =
      stage.visited data origin .strict (xs ++ [e]) := by
  induction xs with
  | nil => exact (visited_strict_of_fits h ys).trans (visited_strict_of_fits h []).symm
  | cons x xs ih =>
    rw [List.cons_append, List.cons_append]
    by_cases hx : stage.fits data origin x = true
    · rw [visited_strict_of_fits hx, visited_strict_of_fits hx]
    · rw [visited_cons_of_not_fits hx, visited_cons_of_not_fits hx, ih]

theorem steps_visited (mode : ChooseMode) (elements : List Markup.Element) :
    stage.steps data origin mode (stage.visited data origin mode elements) =
      stage.steps data origin mode elements := by
  cases mode with
  | lax => rfl
  | strict =>
    induction elements with
    | nil => rfl
    | cons e es ih =>
      by_cases hfits : stage.fits data origin e = true
      · rw [visited_strict_of_fits hfits, steps_cons_of_fits hfits, steps_cons_of_fits hfits]
      · rw [visited_cons_of_not_fits hfits, steps_cons_of_not_fits hfits,
          steps_cons_of_not_fits hfits, ih]

theorem step?_of_misread {fault : ExpressionError} (hif : stage.isA .ifTest e = true)
    (h : stage.Misread origin e fault) (matched : Bool) :
    stage.step? data origin matched e = some (.fail e (.expression fault)) := by
  rw [step?, if_pos hif, test_of_misread h]

theorem steps_of_misread {fault : ExpressionError} (hif : stage.isA .ifTest e = true)
    (h : stage.Misread origin e fault) (mode : ChooseMode) {elements xs ys : List Markup.Element}
    (hvisited : stage.visited data origin mode elements = xs ++ e :: ys) :
    ∃ rest, stage.steps data origin mode elements =
      stage.steps data origin mode xs ++ .fail e (.expression fault) :: rest := by
  have hnot : ¬stage.fits data origin e = true := by
    intro hfits
    obtain ⟨-, htest⟩ := fits_iff.1 hfits
    rw [test_of_misread h] at htest
    cases htest
  induction elements generalizing xs with
  | nil => cases mode <;> cases xs <;> cases hvisited
  | cons a es ih =>
    by_cases ha : stage.fits data origin a = true
    · cases mode with
      | strict =>
        rw [visited_strict_of_fits ha] at hvisited
        have he : e ∈ [a] := hvisited ▸ List.mem_append_right xs List.mem_cons_self
        obtain rfl := List.mem_singleton.1 he
        exact absurd ha hnot
      | lax =>
        -- All that follows is looked at with the knowledge that an element has fitted.
        obtain - | ⟨x, xs⟩ := xs <;> obtain ⟨rfl, rfl⟩ := List.cons.inj hvisited
        · exact absurd ha hnot
        · have htail : (xs ++ e :: ys).filterMap (stage.step? data origin true) =
              xs.filterMap (stage.step? data origin true) ++
                .fail e (.expression fault) :: ys.filterMap (stage.step? data origin true) := by
            rw [List.filterMap_append, List.filterMap_cons_some (step?_of_misread hif h true)]
          refine ⟨ys.filterMap (stage.step? data origin true), ?_⟩
          rw [steps_cons_of_fits ha, steps_cons_of_fits ha, List.cons_append]
          exact congrArg _ htail
    · rw [visited_cons_of_not_fits ha] at hvisited
      rw [steps_cons_of_not_fits ha]
      obtain - | ⟨x, xs⟩ := xs
      · obtain ⟨rfl, -⟩ := List.cons.inj hvisited
        rw [step?_of_misread hif h]
        exact ⟨stage.steps data origin mode es, by cases mode <;> rfl⟩
      · obtain ⟨rfl, htail⟩ := List.cons.inj hvisited
        obtain ⟨rest, hrest⟩ := ih htail
        exact ⟨rest, by rw [hrest, steps_cons_of_not_fits ha, List.append_assoc]⟩

theorem chooseMode_eq_lax_iff {tag : Markup.Tag} {draft : Draft} :
    (stage.chooseMode tag origin draft).1 = .lax ↔
      tag.attributeEither? stage.settings.directiveNs "mode" = some "lax" := by
  rw [chooseMode]
  cases tag.attributeEither? stage.settings.directiveNs "mode" with
  | none => simp
  | some name =>
    rw [Option.some_inj, ← ChooseMode.ofName?_eq_lax_iff]
    cases hmode : ChooseMode.ofName? name <;> simp [hmode]

theorem draft_chooseMode (tag : Markup.Tag) (draft : Draft) :
    (stage.chooseMode tag origin draft).2 = draft ∨
      ∃ message, (stage.chooseMode tag origin draft).2 =
        draft.warn .invalidChooseMode message origin := by
  rw [chooseMode]
  split
  · exact .inl rfl
  · split
    · exact .inl rfl
    · exact .inr ⟨_, rfl⟩

theorem node_choose_eq {tag : Markup.Tag} (hdir : stage.isDirective tag = true)
    (hname : Directive.ofLocalName? tag.name = some .choose) (draft : Draft)
    (children : List Markup.Node) :
    stage.node data origin draft (.element tag children) =
      let chosen := stage.chooseMode tag (origin.enter tag stage.location) draft
      (stage.steps data (origin.enter tag stage.location) chosen.1
        (Markup.Element.childElements children)).foldlM
          (stage.perform data (origin.enter tag stage.location)) chosen.2 := by
  rw [node, if_pos hdir]
  simp only [hname]
  exact branches_eq_steps _ _ _

/-- A choice performs its steps one after another. It carries out the `else` elements in front of
the first that fits, and this one if it is strict, all that fit if it is lax; if nothing fits, it
carries out all `else` elements. Of the elements that it looks at it warns of each that is neither
an `if` nor an `else`, and at a test that cannot be read it fails with what is wrong there. What
stands behind the first that fits makes no difference to a strict choice. -/
theorem choice_meaning {tag : Markup.Tag} (hdir : stage.isDirective tag = true)
    (hname : Directive.ofLocalName? tag.name = some .choose) (data : Data) (origin : Origin)
    (draft : Draft) (children : List Markup.Node) :
    let here := origin.enter tag stage.location
    let mode := (stage.chooseMode tag here draft).1
    let start := (stage.chooseMode tag here draft).2
    let choice := stage.node data origin draft (.element tag children)
    let elements := Markup.Element.childElements children
    let fits := stage.fits data here
    let before := elements.takeWhile fun e => !fits e
    let visited := stage.visited data here mode elements
    let steps := stage.steps data here mode elements
    (∀ e, fits e = true ↔ stage.isA .ifTest e = true ∧ ∃ text expr,
      e.tag.attributeEither? stage.settings.directiveNs "test" = some text ∧
      Expr.parse (here.enter e.tag stage.location) text = .ok expr ∧
      expr.eval data = .bool true) ∧
    (mode = .lax ↔ tag.attributeEither? stage.settings.directiveNs "mode" = some "lax") ∧
    (start = draft ∨ ∃ message, start = draft.warn .invalidChooseMode message here) ∧
    choice = steps.foldlM (stage.perform data here) start ∧
    (steps.map Step.element).Sublist visited ∧
    steps.filterMap Step.carriedOut? = before.filter (stage.isA .otherwise) ++
      (match mode with
      | .strict => (elements.find? fits).toList
      | .lax => elements.filter fits) ∧
    ((∀ e ∈ elements, fits e = false) →
      steps.filterMap Step.carriedOut? = elements.filter (stage.isA .otherwise)) ∧
    steps.filterMap Step.warned? = visited.filter stage.isStray ∧
    (∀ d e, stage.perform data here d (.warn e) = .ok ⟨d.target, d.warnings ++
      [⟨.elementNotAllowed, "Element not allowed here.", here.enter e.tag stage.location⟩]⟩) ∧
    (∀ xs e ys fault, visited = xs ++ e :: ys → stage.isA .ifTest e = true →
      stage.Misread here e fault →
      choice = (stage.steps data here mode xs).foldlM (stage.perform data here) start >>=
        fun _ => .error (.expression fault)) ∧
    (mode = .strict → ∀ xs m ys, elements = xs ++ m :: ys → fits m = true →
      ∀ children' ys', Markup.Element.childElements children' = xs ++ m :: ys' →
        stage.node data origin draft (.element tag children') = choice) := by
  intro here mode start choice elements fits before visited steps
  have hchoice : choice = steps.foldlM (stage.perform data here) start :=
    node_choose_eq hdir hname draft children
  refine ⟨fun e => ?_, chooseMode_eq_lax_iff, draft_chooseMode tag draft, hchoice,
    steps_sublist mode elements, carriedOut_steps mode elements,
    carriedOut_steps_of_not_fits mode, warned_steps mode elements, fun _ _ => rfl,
    fun xs e ys fault hvisited hif hfault => ?_,
    fun hmode xs m ys helements hm children' ys' hchildren => ?_⟩
  · rw [fits_iff, test_eq_true_iff]
  · obtain ⟨rest, hrest⟩ : ∃ rest, steps =
        stage.steps data here mode xs ++ .fail e (.expression fault) :: rest :=
      steps_of_misread hif hfault mode hvisited
    rw [hchoice, hrest, List.foldlM_append]
    rfl
  · have hvisited : stage.visited data here mode (Markup.Element.childElements children') =
        stage.visited data here mode elements := by
      rw [hmode, hchildren, helements, visited_strict_append hm, visited_strict_append hm xs ys]
    rw [hchoice, node_choose_eq hdir hname draft children']
    exact congrArg (List.foldlM (stage.perform data here) start)
      ((steps_visited mode _).symm.trans ((congrArg _ hvisited).trans (steps_visited mode _)))

def bare : Stage where
  settings := ⟨"d", "h", "doc"⟩
  host := fun _ target _ => (target, none)
  insert := fun key _ origin => .error (.notFound key origin)
  location := "s"

def chooseTag (modes : List String) : Markup.Tag :=
  ⟨some "d", none, "choose", modes.map (⟨none, none, "mode", ·⟩)⟩

def ifBranch (test content : String) : Markup.Element :=
  ⟨⟨some "d", none, "if", [⟨none, none, "test", test⟩]⟩, [.text content]⟩

def elseBranch (content : String) : Markup.Element :=
  ⟨⟨some "d", none, "else", []⟩, [.text content]⟩

def upToMatch : List Markup.Element :=
  [elseBranch "a", ⟨⟨none, none, "p", []⟩, []⟩, ifBranch "false" "b", ifBranch "true" "c"]

def pastMatch : List Markup.Node :=
  .text " " :: (upToMatch ++ [elseBranch "d", ifBranch "(" "e"]).map Markup.Element.toNode

def emptyDraft : Draft := ⟨Output.Element.new "h" "p", []⟩

theorem exists_eq_ok_of_isSome {α ε : Type} {x : Except ε α} (h : x.toOption.isSome = true) :
    ∃ a, x = .ok a := by
  cases x with
  | ok a => exact ⟨a, rfl⟩
  | error e => cases h

def laxOrigin : Origin := Origin.enter [] (chooseTag ["lax"]) "s"

theorem ifBranch_misread : ∃ fault, bare.Misread laxOrigin (ifBranch "(" "e") fault := by
  have hparse : (Expr.parse (laxOrigin.enter (ifBranch "(" "e").tag "s") "(").toOption.isSome =
      false := by decide +kernel
  cases h : Expr.parse (laxOrigin.enter (ifBranch "(" "e").tag "s") "(" with
  | ok expr => rw [h] at hparse; cases hparse
  | error fault => exact ⟨fault, h⟩

/-- What a strict choice leaves out makes a lax one fail. -/
theorem choice_meaning_past_match :
    (∀ modes, bare.isDirective (chooseTag modes) = true) ∧
      (∀ modes, Directive.ofLocalName? (chooseTag modes).name = some .choose) ∧
      (bare.node .empty [] emptyDraft (.element (chooseTag []) pastMatch)).toOption.map
          (fun draft => (draft.target.children.map Output.Node.textContent, draft.warnings)) =
        some (["a", "c"], [⟨.elementNotAllowed, "Element not allowed here.",
          [⟨"<choose>", "s"⟩, ⟨"<p>", "s"⟩]⟩]) ∧
      bare.node .empty [] emptyDraft
          (.element (chooseTag []) (upToMatch.map Markup.Element.toNode)) =
        bare.node .empty [] emptyDraft (.element (chooseTag []) pastMatch) ∧
      ∃ fault, bare.node .empty [] emptyDraft (.element (chooseTag ["lax"]) pastMatch) =
        .error (.expression fault) := by
  have hdir (modes) : bare.isDirective (chooseTag modes) = true := rfl
  have hname (modes) : Directive.ofLocalName? (chooseTag modes).name = some .choose := rfl
  obtain ⟨-, -, -, hsteps, -, -, -, -, -, -, hstrict⟩ :=
    choice_meaning (hdir []) (hname []) .empty [] emptyDraft pastMatch
  obtain ⟨-, -, -, -, -, -, -, -, -, hmisread, -⟩ :=
    choice_meaning (hdir ["lax"]) (hname ["lax"]) .empty [] emptyDraft pastMatch
  obtain ⟨fault, hfault⟩ := ifBranch_misread
  refine ⟨hdir, hname, ?_, ?_, fault, ?_⟩
  · rw [hsteps]
    decide +kernel
  · have hfits : bare.fits .empty (Origin.enter [] (chooseTag []) "s") (ifBranch "true" "c") =
        true := by decide +kernel
    exact hstrict rfl (upToMatch.take 3) (ifBranch "true" "c")
      [elseBranch "d", ifBranch "(" "e"] rfl hfits _ [] rfl
  · obtain ⟨front, hfront⟩ : ∃ front, (bare.steps .empty laxOrigin .lax
        (upToMatch ++ [elseBranch "d"])).foldlM (bare.perform .empty laxOrigin) emptyDraft =
          .ok front :=
      exists_eq_ok_of_isSome (by decide +kernel)
    calc bare.node .empty [] emptyDraft (.element (chooseTag ["lax"]) pastMatch)
      _ = (bare.steps .empty laxOrigin .lax (upToMatch ++ [elseBranch "d"])).foldlM
            (bare.perform .empty laxOrigin) emptyDraft >>= fun _ => .error (.expression fault) :=
        hmisread _ (ifBranch "(" "e") [] fault rfl rfl hfault
      _ = .error (.expression fault) := by rw [hfront]; rfl

end Stage

end MarkupSnippets

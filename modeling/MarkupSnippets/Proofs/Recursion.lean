import MarkupSnippets.Proofs.Failure

namespace MarkupSnippets

namespace Workshop

def inserts (w : Workshop) (tag : Markup.Tag) : Bool :=
  tag.isIn w.settings.directiveNs && Directive.ofLocalName? tag.name == some .insertSnippet

variable {w : Workshop}

theorem outcome_insertion {tag : Markup.Tag} (h : w.inserts tag = true) (spot : Spot)
    (children : List Markup.Node) :
    w.outcome (.node spot (.element tag children)) = do
      let inserted ←
        w.outcome (.snippet spot.chain (w.insertedKey spot tag) spot.data (spot.enter tag).origin)
      return ⟨spot.draft.target.appendChild inserted.target,
        spot.draft.warnings ++ inserted.warnings⟩ := by
  obtain ⟨hdir, hname⟩ := Bool.and_eq_true_iff.1 h
  have hdir : (w.stageAt spot).isDirective tag = true := hdir
  rw [outcome_eq_carryOut]
  simp only [plan, nodePlan, directivePlan, hdir, ↓reduceIte, beq_iff_eq.1 hname, Plan.carryOut]
  rfl

theorem exists_frame_of_mayAssign {chain : Chain} {key : Key} {data : Data} {origin : Origin}
    {other : Task} (h : w.MayAssign (.snippet chain key data origin) other) :
    ∃ frame, other.origin = origin ++ [frame] := by
  cases h with
  | content | completion => exact ⟨_, rfl⟩

/-- A production is refused at its own place exactly if the chain has the token of its snippet.
Productions that are refused inside it have a longer origin. -/
theorem outcome_snippet_eq_recursion_iff {chain : Chain} {key : Key} {data : Data}
    {origin : Origin} :
    (∃ tokens, w.outcome (.snippet chain key data origin) =
        .error (.recursion key tokens origin)) ↔
      ∃ snippet, w.registry.get? key = some snippet ∧ snippet.token ∈ chain.tokens := by
  constructor
  · rintro ⟨tokens, h⟩
    obtain hfail | ⟨other, hassign, h⟩ := outcome_eq_error_cases h
    · cases hfail with
      | recursion data origin hget hold => exact ⟨_, hget, by simpa [Chain.contains] using hold⟩
    · obtain ⟨frame, horigin⟩ := exists_frame_of_mayAssign (mayAssign_of_assigns hassign)
      have hlength := (origin_prefix_of_error h).length_le
      simp only [horigin, ProduceError.origin, List.length_append, List.length_singleton] at hlength
      omega
  · rintro ⟨snippet, hget, hmem⟩
    have hold : chain.contains snippet.token = true := by simpa [Chain.contains] using hmem
    refine ⟨(chain.extend snippet.token).tokens, ?_⟩
    rw [outcome, produceWith_eq, hget]
    simp only [hold, ↓reduceIte]

/-- An insertion of a stored snippet is refused as recursive exactly if its production is under way,
or that of another snippet with the same token. -/
theorem insertion_recursion_iff {key : Key} {data : Data} {spot : Spot} {tag : Markup.Tag}
    {children : List Markup.Node} {around : List Task} {snippet : Snippet}
    (hrun : w.UnderWay (.snippet .empty key data []) (.node spot (.element tag children) :: around))
    (hinserts : w.inserts tag = true)
    (hget : w.registry.get? (w.insertedKey spot tag) = some snippet) :
    (∃ tokens, w.outcome (.node spot (.element tag children)) =
        .error (.recursion (w.insertedKey spot tag) tokens (spot.enter tag).origin)) ↔
      w.insertedKey spot tag ∈ activeKeys around ∨
        ∃ other ∈ activeKeys around, other ≠ w.insertedKey spot tag ∧
          ∃ clash, w.registry.get? other = some clash ∧ clash.token = snippet.token := by
  have tells : w.Tells spot.chain (activeKeys around) := tells_of_underWay hrun _ _ rfl
  calc _ ↔ ∃ tokens, w.outcome (.snippet spot.chain (w.insertedKey spot tag) spot.data
          (spot.enter tag).origin) =
        .error (.recursion (w.insertedKey spot tag) tokens (spot.enter tag).origin) := by
        refine exists_congr fun tokens => ?_
        rw [outcome_insertion hinserts]
        cases w.outcome (.snippet spot.chain (w.insertedKey spot tag) spot.data
          (spot.enter tag).origin) with
        | ok inserted => exact ⟨nofun, nofun⟩
        | error error => exact Iff.rfl
    _ ↔ snippet.token ∈ spot.chain.tokens := by
        rw [outcome_snippet_eq_recursion_iff]
        simp [hget]
    _ ↔ ∃ other ∈ activeKeys around, w.token? other = some snippet.token :=
        tells.mem_tokens_iff snippet.token
    _ ↔ _ := by
        constructor
        · rintro ⟨other, hactive, htoken⟩
          by_cases heq : other = w.insertedKey spot tag
          · exact .inl (heq ▸ hactive)
          · exact .inr ⟨other, hactive, heq, Option.map_eq_some_iff.1 htoken⟩
        · rintro (hactive | ⟨other, hactive, -, clash⟩)
          · exact ⟨_, hactive, by rw [token?, hget]; rfl⟩
          · exact ⟨other, hactive, Option.map_eq_some_iff.2 clash⟩

def clashInsertion : Markup.Tag := ⟨some "d", none, "insert-snippet", [⟨none, none, "name", "b"⟩]⟩

/-- The snippet `b` of the group `x:`, read from the source `a`. Its token is `a:/x:/b`. -/
def clashOuter : Snippet :=
  ⟨Key.ofString "/x:/b", "a", "h", ⟨⟨none, none, "p", []⟩, [.element clashInsertion []]⟩⟩

/-- The snippet `b`, read from the source `a:/x`. Its token is `a:/x:/b` too. -/
def clashInner : Snippet := ⟨Key.ofString "/b", "a:/x", "h", ⟨⟨none, none, "q", []⟩, []⟩⟩

def clashing : Workshop where
  settings := ⟨"d", "h", "doc"⟩
  registry := (Registry.empty.put clashOuter).put clashInner
  host := fun _ target _ => (target, none)

def clashSpot : Spot := clashOuter.rootSpot .empty .empty []

def clashAround : List Task :=
  [.nodes clashSpot [.element clashInsertion []], .snippet .empty clashOuter.key .empty []]

theorem clash_underWay :
    clashing.UnderWay (.snippet .empty clashOuter.key .empty [])
      (.node clashSpot (.element clashInsertion []) :: clashAround) := by
  have hget : clashing.registry.get? clashOuter.key = some clashOuter := by rfl
  have hnew : Chain.empty.contains clashOuter.token = false := by decide
  refine .assign (.assign .start ?_) (.inl rfl)
  rw [Assigns, plan, snippetPlan, hget]
  simp only [hnew, Bool.false_eq_true, ↓reduceIte]
  exact .inl rfl

theorem clash_insertedKey : clashing.insertedKey clashSpot clashInsertion = clashInner.key := by cbv

theorem clash_get? :
    clashing.registry.get? (clashing.insertedKey clashSpot clashInsertion) = some clashInner := by
  rw [clash_insertedKey]
  rfl

/-- The insertion is refused, although the production of the snippet with that key is not under
way. -/
theorem insertion_refused_of_clash :
    clashing.UnderWay (.snippet .empty clashOuter.key .empty [])
        (.node clashSpot (.element clashInsertion []) :: clashAround) ∧
      clashing.registry.get? (clashing.insertedKey clashSpot clashInsertion) = some clashInner ∧
      clashing.insertedKey clashSpot clashInsertion ∉ activeKeys clashAround ∧
      ∃ tokens, clashing.outcome (.node clashSpot (.element clashInsertion [])) =
        .error (.recursion (clashing.insertedKey clashSpot clashInsertion) tokens
          (clashSpot.enter clashInsertion).origin) := by
  refine ⟨clash_underWay, clash_get?, ?_, ?_⟩
  · rw [clash_insertedKey]
    decide
  · have hinserts : clashing.inserts clashInsertion = true := by decide
    have hrefused : ∃ tokens, clashing.outcome (.snippet clashSpot.chain
        (clashing.insertedKey clashSpot clashInsertion) clashSpot.data
        (clashSpot.enter clashInsertion).origin) =
          .error (.recursion (clashing.insertedKey clashSpot clashInsertion) tokens
            (clashSpot.enter clashInsertion).origin) :=
      outcome_snippet_eq_recursion_iff.2 ⟨clashInner, clash_get?, by decide⟩
    obtain ⟨tokens, h⟩ := hrefused
    refine ⟨tokens, ?_⟩
    rw [outcome_insertion hinserts, h]
    rfl

theorem insertion_recursion_iff_clash :
    clashing.UnderWay (.snippet .empty clashOuter.key .empty [])
        (.node clashSpot (.element clashInsertion []) :: clashAround) ∧
      clashing.inserts clashInsertion = true ∧
      clashing.registry.get? (clashing.insertedKey clashSpot clashInsertion) = some clashInner ∧
      ((∃ tokens, clashing.outcome (.node clashSpot (.element clashInsertion [])) =
          .error (.recursion (clashing.insertedKey clashSpot clashInsertion) tokens
            (clashSpot.enter clashInsertion).origin)) ↔
        clashing.insertedKey clashSpot clashInsertion ∈ activeKeys clashAround ∨
          ∃ other ∈ activeKeys clashAround,
            other ≠ clashing.insertedKey clashSpot clashInsertion ∧
              ∃ clash, clashing.registry.get? other = some clash ∧
                clash.token = clashInner.token) :=
  ⟨clash_underWay, by decide, clash_get?, insertion_recursion_iff clash_underWay (by decide)
    clash_get?⟩

end Workshop

end MarkupSnippets

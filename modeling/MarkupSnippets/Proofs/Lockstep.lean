import MarkupSnippets.Proofs.Accord
import MarkupSnippets.Proofs.Extension

namespace MarkupSnippets.Workshop

variable {w : Workshop} {other : Registry} {L : Accord} {spot spot' : Spot}

theorem argument_withRegistry (spot spot' : Spot) :
    ((w.withRegistry other).stageAt spot').argument = (w.stageAt spot).argument := rfl

theorem isDirective_withRegistry (spot spot' : Spot) :
    ((w.withRegistry other).stageAt spot').isDirective = (w.stageAt spot).isDirective := rfl

theorem holds_withRegistry (spot spot' : Spot) :
    ((w.withRegistry other).stageAt spot').holds = (w.stageAt spot).holds := rfl

theorem chooseMode_withRegistry (spot spot' : Spot) :
    ((w.withRegistry other).stageAt spot').chooseMode = (w.stageAt spot).chooseMode := rfl

theorem invoke_withRegistry (spot spot' : Spot) :
    ((w.withRegistry other).stageAt spot').invoke = (w.stageAt spot).invoke := rfl

theorem same_opened {tag tag' : Markup.Tag} {warnings warnings' : List Warning}
    (hspot : L.SameSpot spot spot') (htag : L.SameTag w.settings.directiveNs tag tag')
    (hwarnings : L.Same (List.map Warning.unprefixed) warnings warnings') (ns : String) :
    L.Same Draft.unprefixed (w.opened spot ns tag warnings)
      ((w.withRegistry other).opened spot' ns tag' warnings') := by
  have hdata : w.opened spot ns tag warnings =
      tag.attributes.foldl ((w.stageAt spot).takeAttribute spot'.data spot.origin)
        ⟨Output.Element.new ns tag.name, warnings⟩ :=
    (w.stageAt spot).takeAttributes_congr (hspot.data.agreeOn htag.reads) _ _
  have hother : (w.withRegistry other).opened spot' ns tag' warnings' =
      tag'.attributes.foldl ((w.stageAt spot).takeAttribute spot'.data spot'.origin)
        ⟨Output.Element.new ns tag'.name, warnings'⟩ := rfl
  rw [hdata, hother]
  constructor
  · apply (w.stageAt spot).unprefixed_takeAttributes spot'.data
    · exact congrArg Markup.Tag.attributes htag.same.unprefixed_eq
    · exact hspot.origin.unprefixed_eq
    · rw [Draft.unprefixed, Draft.unprefixed, htag.same.name_eq, hwarnings.unprefixed_eq]
  · intro hexact
    rw [htag.same.eq hexact, hspot.origin.eq hexact, hwarnings.eq hexact]

theorem same_build {tag tag' : Markup.Tag} {warnings warnings' : List Warning}
    {children children' : List Markup.Node} {next next' : Draft → Plan}
    (hspot : L.SameSpot spot spot') (htag : L.SameTag w.settings.directiveNs tag tag')
    (hwarnings : L.Same (List.map Warning.unprefixed) warnings warnings')
    (hchildren : L.SameNodes w.settings.directiveNs children children') (ns : String)
    (hnext : ∀ draft draft', L.Same Draft.unprefixed draft draft' →
      L.SamePlan w.settings.directiveNs (next draft) (next' draft')) :
    L.SamePlan w.settings.directiveNs (w.build spot ns tag warnings children next)
      ((w.withRegistry other).build spot' ns tag' warnings' children' next') := by
  have hpath : tag'.attributeIn? (some (w.withRegistry other).settings.directiveNs)
      "postproduction" = tag.attributeIn? (some w.settings.directiveNs) "postproduction" :=
    (htag.same.attributeIn?_eq _ _).symm
  rw [build, build, hpath]
  refine .assign (.nodes (hspot.withDraft (same_opened hspot htag hwarnings ns)) hchildren) ?_
  intro inner inner' hinner
  cases hpost : tag.attributeIn? (some w.settings.directiveNs) "postproduction" with
  | none => exact hnext inner inner' hinner
  | some path =>
    have hhost : L.usesHost := htag.usesHost (by rw [Markup.Tag.hasPostproduction, hpost]; rfl)
    exact .assign (.invoke .postproduction path hhost (hspot.withDraft hinner)) hnext

theorem same_invoke (hhost : w.host.IgnoresPrefixes) (hspot : L.SameSpot spot spot')
    (hdata : spot.data = spot'.data) (role : CallableRole) (path : String) :
    L.Same outcomeUnprefixed ((w.stageAt spot).invoke role path spot.data spot.origin spot.draft)
      (((w.withRegistry other).stageAt spot').invoke role path spot'.data spot'.origin
        spot'.draft) := by
  rw [invoke_withRegistry spot spot', hdata]
  constructor
  · exact (w.stageAt spot).unprefixed_invoke hhost role path _ hspot.origin.unprefixed_eq
      hspot.draft.unprefixed_eq
  · intro hexact
    rw [hspot.origin.eq hexact, hspot.draft.eq hexact]

theorem same_argument (spot spot' : Spot) {tag tag' : Markup.Tag}
    (htag : L.Same Markup.Tag.unprefixed tag tag') (name : String) :
    ((w.withRegistry other).stageAt spot').argument tag' name =
      (w.stageAt spot).argument tag name := by
  rw [argument_withRegistry spot spot', Stage.argument, Stage.argument, htag.attributeEither?_eq]

theorem same_isDirective (spot spot' : Spot) {tag tag' : Markup.Tag}
    (htag : L.Same Markup.Tag.unprefixed tag tag') :
    ((w.withRegistry other).stageAt spot').isDirective tag' =
      (w.stageAt spot).isDirective tag := by
  rw [isDirective_withRegistry spot spot', Stage.isDirective, Stage.isDirective, Markup.Tag.isIn,
    Markup.Tag.isIn, htag.ns_eq]

theorem same_insertedKey {tag tag' : Markup.Tag} (hspot : L.SameSpot spot spot')
    (hname : Directive.ofLocalName? tag.name = some .insertSnippet)
    (htag : L.SameDirective w.settings.directiveNs tag tag') :
    (w.withRegistry other).insertedKey spot' tag' = w.insertedKey spot tag := by
  rw [insertedKey, insertedKey, same_argument spot spot' htag.same,
    (w.stageAt spot).substitute_name_congr hname (hspot.data.agreeOn htag.reads)]

theorem same_holds (other : Registry) {tag tag' : Markup.Tag} (hspot : L.SameSpot spot spot')
    (hname : Directive.ofLocalName? tag.name = some .ifTest)
    (htag : L.SameDirective w.settings.directiveNs tag tag') {origin origin' : Origin}
    (horigin : L.Same Origin.unprefixed origin origin') :
    L.SameResult ((w.stageAt spot).holds tag spot.data origin)
      (((w.withRegistry other).stageAt spot').holds tag' spot'.data origin') := by
  have hsame : (w.stageAt spot).holds tag' spot'.data [] =
      (w.stageAt spot).holds tag spot.data [] := by
    rw [(w.stageAt spot).holds_congr hname (hspot.data.agreeOn htag.reads), Stage.holds,
      Stage.holds, htag.same.attributeEither?_eq]
  rw [holds_withRegistry spot spot', Stage.holds_eq_under _ _ origin,
    Stage.holds_eq_under _ _ origin', hsame]
  exact horigin.result _

theorem same_chooseMode (w : Workshop) (other : Registry) (spot spot' : Spot)
    {tag tag' : Markup.Tag} (htag : L.Same Markup.Tag.unprefixed tag tag')
    {origin origin' : Origin} (horigin : L.Same Origin.unprefixed origin origin')
    {draft draft' : Draft} (hdraft : L.Same Draft.unprefixed draft draft') :
    (((w.withRegistry other).stageAt spot').chooseMode tag' origin' draft').1 =
        ((w.stageAt spot).chooseMode tag origin draft).1 ∧
      L.Same Draft.unprefixed ((w.stageAt spot).chooseMode tag origin draft).2
        (((w.withRegistry other).stageAt spot').chooseMode tag' origin' draft').2 := by
  rw [chooseMode_withRegistry spot spot', Stage.chooseMode, Stage.chooseMode,
    ← htag.attributeEither?_eq]
  cases tag.attributeEither? (w.stageAt spot).settings.directiveNs "mode" with
  | none => exact ⟨rfl, hdraft⟩
  | some name =>
    simp only
    cases ChooseMode.ofName? name with
    | some mode => exact ⟨rfl, hdraft⟩
    | none => exact ⟨rfl, hdraft.warn horigin _ _⟩

theorem same_listItems {path : String} {data data' : Data}
    (hpath : resolve? data path = resolve? data' path) {origin origin' : Origin}
    (horigin : L.Same Origin.unprefixed origin origin') :
    L.SameResult (Stage.listItems path data origin) (Stage.listItems path data' origin') := by
  have hsame : Stage.listItems path data' [] = Stage.listItems path data [] := by
    rw [Stage.listItems, Stage.listItems, hpath]
  rw [Stage.listItems_eq_under data origin, Stage.listItems_eq_under data' origin', hsame]
  exact horigin.result _

theorem same_directivePlan {tag tag' : Markup.Tag} {children children' : List Markup.Node}
    (hspot : L.SameSpot spot spot') (htag : L.SameDirective w.settings.directiveNs tag tag')
    (hchildren : L.SameNodes w.settings.directiveNs children children') :
    L.SamePlan w.settings.directiveNs (w.directivePlan spot tag children)
      ((w.withRegistry other).directivePlan spot' tag' children') := by
  have hagree := hspot.data.agreeOn htag.reads
  rw [directivePlan, directivePlan, ← htag.same.name_eq]
  cases hname : Directive.ofLocalName? tag.name with
  | none => exact .finish (hspot.draft.warn hspot.origin _ _)
  | some directive =>
    cases directive with
    | text =>
      simp only [← hchildren.firstText?_eq]
      cases htext : Markup.Element.firstText? children with
      | none => exact .finish hspot.draft
      | some content =>
        simp only [substitute_congr (hspot.data.agreeOn (hchildren.reads_firstText? htext))]
        exact .finish (hspot.draft.append _)
    | callFunction =>
      simp only [same_argument spot spot' htag.same]
      exact .handOver (.invoke _ _ (htag.usesHost hname) hspot)
    | ifTest =>
      have hholds := same_holds other hspot hname htag hspot.origin
      simp only
      generalize (w.stageAt spot).holds tag _ _ = r at hholds ⊢
      generalize ((w.withRegistry other).stageAt spot').holds tag' _ _ = r' at hholds ⊢
      cases hholds with
      | error h => exact .fail h
      | ok b =>
        cases b with
        | true => exact .handOver (.nodes hspot hchildren)
        | false => exact .finish hspot.draft
    | choose =>
      obtain ⟨hmode, hdraft⟩ :=
        same_chooseMode w other spot spot' htag.same hspot.origin hspot.draft
      simp only [hmode]
      exact .handOver (.branches _ _ (hspot.withDraft hdraft) hchildren)
    | forEach =>
      have hlist := (w.stageAt spot).resolve?_list_congr (.inl hname) hagree
      have hitems := same_listItems hlist hspot.origin
      simp only [same_argument spot spot' htag.same]
      generalize Stage.listItems _ spot.data spot.origin = r at hitems ⊢
      generalize Stage.listItems _ spot'.data spot'.origin = r' at hitems ⊢
      cases hitems with
      | error h => exact .fail h
      | ok items => exact .handOver (.rounds hspot (hspot.data.rounds items) hchildren)
    | forEmpty =>
      have hlist := (w.stageAt spot).resolve?_list_congr (.inr hname) hagree
      have hitems : Stage.hasItems ((w.stageAt spot).argument tag "list") spot'.data =
          Stage.hasItems ((w.stageAt spot).argument tag "list") spot.data := by
        rw [Stage.hasItems, Stage.hasItems, hlist]
      simp only [same_argument spot spot' htag.same, hitems]
      cases Stage.hasItems ((w.stageAt spot).argument tag "list") spot.data with
      | true => exact .finish hspot.draft
      | false => exact .handOver (.nodes hspot hchildren)
    | insertSnippet =>
      simp only [same_insertedKey hspot hname htag, ← hspot.chain]
      refine .assign (.snippet _ _ hspot.data hspot.origin) fun inserted inserted' h => ?_
      exact .finish (hspot.draft.child h (hspot.draft.warnings.append_warnings h.warnings))
    | otherwise => exact .finish (hspot.draft.warn hspot.origin _ _)

theorem same_nodePlan {node node' : Markup.Node} (hspot : L.SameSpot spot spot')
    (hnode : L.SameNode w.settings.directiveNs node node') :
    L.SamePlan w.settings.directiveNs (w.nodePlan spot node)
      ((w.withRegistry other).nodePlan spot' node') := by
  cases hnode with
  | text content hreads =>
    rw [nodePlan, nodePlan, substitute_congr (hspot.data.agreeOn hreads)]
    split
    · exact .finish hspot.draft
    · exact .finish (hspot.draft.append _)
  | @plain tag tag' children children' hplain htag hchildren =>
    have hstage : (w.stageAt spot).isDirective tag = false := hplain
    rw [nodePlan, nodePlan, same_isDirective spot spot' htag.same, hstage, htag.same.ns_eq]
    exact same_build (hspot.enter htag.same) htag hspot.draft.warnings hchildren _
      fun built built' h => .finish (hspot.draft.child h h.warnings)
  | @directive tag tag' children children' hdir htag hchildren =>
    have hstage : (w.stageAt spot).isDirective tag = true := hdir
    rw [nodePlan, nodePlan, same_isDirective spot spot' htag.same, hstage]
    exact same_directivePlan (hspot.enter htag.same) htag hchildren

theorem same_nodesPlan {children children' : List Markup.Node} (hspot : L.SameSpot spot spot')
    (hchildren : L.SameNodes w.settings.directiveNs children children') :
    L.SamePlan w.settings.directiveNs (nodesPlan spot children) (nodesPlan spot' children') := by
  cases hchildren with
  | nil => exact .finish hspot.draft
  | cons hchild hrest =>
    exact .assign (.node hspot hchild) fun _ _ hdraft =>
      .handOver (.nodes (hspot.withDraft hdraft) hrest)

theorem same_roundsPlan {scopes scopes' : List Data} {children children' : List Markup.Node}
    (hspot : L.SameSpot spot spot') (hscopes : List.Forall₂ L.SameData scopes scopes')
    (hchildren : L.SameNodes w.settings.directiveNs children children') :
    L.SamePlan w.settings.directiveNs (roundsPlan spot children scopes)
      (roundsPlan spot' children' scopes') := by
  cases hscopes with
  | nil => exact .finish hspot.draft
  | cons hscope hrest =>
    exact .assign (.nodes (hspot.withData hscope) hchildren) fun _ _ hdraft =>
      .handOver (.rounds (hspot.withDraft hdraft) hrest hchildren)

theorem same_branchesPlan {children children' : List Markup.Node} (hspot : L.SameSpot spot spot')
    (hchildren : L.SameNodes w.settings.directiveNs children children') (mode : ChooseMode)
    (matched : Bool) :
    L.SamePlan w.settings.directiveNs (w.branchesPlan spot mode matched children)
      ((w.withRegistry other).branchesPlan spot' mode matched children') := by
  cases hchildren with
  | nil => exact .finish hspot.draft
  | cons hchild hrest =>
    -- What is not a branch is warned of and left out.
    have hleft {tag tag' : Markup.Tag} (htag : L.Same Markup.Tag.unprefixed tag tag') :
        L.SamePlan w.settings.directiveNs
          (.handOver (.branches (spot.withDraft (spot.draft.warn .elementNotAllowed
            "Element not allowed here." (spot.enter tag).origin)) mode matched _))
          (.handOver (.branches (spot'.withDraft (spot'.draft.warn .elementNotAllowed
            "Element not allowed here." (spot'.enter tag').origin)) mode matched _)) :=
      .handOver (.branches mode matched
        (hspot.withDraft (hspot.draft.warn (hspot.enter htag).origin _ _)) hrest)
    cases hchild with
    | text content hreads => exact .handOver (.branches mode matched hspot hrest)
    | @plain tag tag' children children' hplain htag hchildren =>
      have hstage : (w.stageAt spot).isDirective tag = false := hplain
      simp only [branchesPlan, same_isDirective spot spot' htag.same, hstage]
      exact hleft htag.same
    | @directive tag tag' children children' hdir htag hchildren =>
      have hstage : (w.stageAt spot).isDirective tag = true := hdir
      simp only [branchesPlan, same_isDirective spot spot' htag.same, hstage,
        ← htag.same.name_eq]
      cases hname : Directive.ofLocalName? tag.name with
      | none => exact hleft htag.same
      | some directive =>
        cases directive with
        | ifTest =>
          have hholds := same_holds other hspot hname htag (hspot.enter htag.same).origin
          simp only
          generalize (w.stageAt spot).holds tag _ _ = r at hholds ⊢
          generalize ((w.withRegistry other).stageAt spot').holds tag' _ _ = r' at hholds ⊢
          cases hholds with
          | error h => exact .fail h
          | ok b =>
            cases b with
            | false => exact .handOver (.branches mode matched hspot hrest)
            | true =>
              refine .assign (.nodes (hspot.enter htag.same) hchildren) fun _ _ hdraft => ?_
              cases mode with
              | strict => exact .finish hdraft
              | lax => exact .handOver (.branches .lax true (hspot.withDraft hdraft) hrest)
        | otherwise =>
          cases matched with
          | true => exact .handOver (.branches mode true hspot hrest)
          | false =>
            exact .assign (.nodes (hspot.enter htag.same) hchildren) fun _ _ hdraft =>
              .handOver (.branches mode false (hspot.withDraft hdraft) hrest)
        | _ => exact hleft htag.same

theorem same_rootSpot {snippet snippet' : Snippet}
    (hsnippet : L.Same Snippet.unprefixed snippet snippet') (chain : Chain) {data data' : Data}
    (hdata : L.SameData data data') {origin origin' : Origin}
    (horigin : L.Same Origin.unprefixed origin origin') :
    L.SameSpot (snippet.rootSpot chain data origin) (snippet'.rootSpot chain data' origin') where
  chain := congrArg chain.extend hsnippet.token_eq
  location := hsnippet.token_eq
  data := hdata
  origin := by
    rw [Snippet.rootSpot, Snippet.rootSpot, hsnippet.token_eq]
    exact horigin.enter hsnippet.rootTag _
  draft := by
    rw [Snippet.rootSpot, Snippet.rootSpot, hsnippet.rootTag.name_eq, hsnippet.snippetNs_eq]
    exact .refl _ _

theorem same_snippetPlan (hbetween : L.Between w other) (chain : Chain) (key : Key)
    {data data' : Data} (hdata : L.SameData data data') {origin origin' : Origin}
    (horigin : L.Same Origin.unprefixed origin origin') :
    L.SamePlan w.settings.directiveNs (w.snippetPlan chain key data origin)
      ((w.withRegistry other).snippetPlan chain key data' origin') := by
  have hregistry : (w.withRegistry other).registry = other := rfl
  rw [snippetPlan, snippetPlan, hregistry]
  obtain ⟨hget, hget'⟩ | ⟨snippet, snippet', hget, hget', hsnippet⟩ := (hbetween.stored key).get?
  · rw [hget, hget']
    exact .fail (horigin.map (ProduceError.notFound key) (congrArg (ProduceError.notFound key)))
  · have hreads := fun path hpath => hbetween.reads path ⟨key, snippet, hget, hpath⟩
    have hhost := fun huses => hbetween.usesHost ⟨key, snippet, hget, huses⟩
    rw [Markup.Element.paths] at hreads
    rw [Markup.Element.usesHost, Bool.or_eq_true, or_imp] at hhost
    rw [hget, hget']
    simp only [← hsnippet.token_eq]
    split
    · let tokens := (chain.extend snippet.token).tokens
      exact .fail (horigin.map (ProduceError.recursion key tokens)
        (congrArg (ProduceError.recursion key tokens)))
    · rw [← hsnippet.snippetNs_eq]
      exact same_build (same_rootSpot hsnippet chain hdata horigin)
        ⟨hsnippet.rootTag, fun path hpath => hreads path (List.mem_append_left _ hpath), hhost.1⟩
        (.refl _ _) (Accord.sameNodes _ hsnippet.rootChildren
          (fun path hpath => hreads path (List.mem_append_right _ hpath)) hhost.2) _
        fun _ _ hdraft => .finish hdraft

theorem same_plan (hbetween : L.Between w other) {task task' : Task}
    (h : L.SameTask w.settings.directiveNs task task') :
    L.SamePlan w.settings.directiveNs (w.plan task) ((w.withRegistry other).plan task') := by
  cases h with
  | snippet chain key hdata horigin => exact same_snippetPlan hbetween chain key hdata horigin
  | nodes hspot hnodes => exact same_nodesPlan hspot hnodes
  | node hspot hnode => exact same_nodePlan hspot hnode
  | branches mode matched hspot hnodes => exact same_branchesPlan hspot hnodes mode matched
  | rounds hspot hscopes hnodes => exact same_roundsPlan hspot hscopes hnodes
  | invoke role path hhost hspot =>
    exact .ofOutcome (same_invoke (hbetween.host hhost) hspot (hspot.data.eq hhost) role path)

/-- Tasks in the same place end alike. -/
theorem same_outcome (hbetween : L.Between w other) {task task' : Task}
    (h : L.SameTask w.settings.directiveNs task task') :
    L.Same outcomeUnprefixed (w.outcome task) ((w.withRegistry other).outcome task') := by
  induction task using w.task_induction generalizing task' with
  | step task ih =>
    rw [outcome_eq_carryOut, outcome_eq_carryOut]
    exact (same_plan hbetween h).carryOut fun assigned _ hassigned hsame =>
      ih assigned (mayAssign_of_assigns hassigned) hsame

end MarkupSnippets.Workshop

import MarkupSnippets.Proofs.Assignment
import MarkupSnippets.Proofs.Dependence
import MarkupSnippets.Proofs.Unprefixed

namespace MarkupSnippets

/-- What two productions have in common: data that agree on paths, or even the same data where the
host is called, and templates that are the same, or the same up to prefixes where these do not
count. -/
structure Accord where
  reads : String → Prop
  usesHost : Prop
  exact : Prop

namespace Accord

variable (L : Accord)

/-- The same if prefixes count, and the same once they are left out in any case. -/
structure Same {α β : Type} (unprefixed : α → β) (x y : α) : Prop where
  unprefixed_eq : unprefixed x = unprefixed y
  eq : L.exact → x = y

structure SameData (data data' : Data) : Prop where
  agree : data.AgreeOn L.reads data'
  eq : L.usesHost → data = data'

structure SameSpot (spot spot' : Spot) : Prop where
  chain : spot.chain = spot'.chain
  location : spot.location = spot'.location
  data : L.SameData spot.data spot'.data
  origin : L.Same Origin.unprefixed spot.origin spot'.origin
  draft : L.Same Draft.unprefixed spot.draft spot'.draft

variable (directiveNs : String)

structure SameTag (tag tag' : Markup.Tag) : Prop where
  same : L.Same Markup.Tag.unprefixed tag tag'
  reads : ∀ path ∈ tag.attributePaths directiveNs, L.reads path
  usesHost : tag.hasPostproduction directiveNs = true → L.usesHost

structure SameDirective (tag tag' : Markup.Tag) : Prop where
  same : L.Same Markup.Tag.unprefixed tag tag'
  reads : ∀ path ∈ tag.directivePaths directiveNs, L.reads path
  usesHost : Directive.ofLocalName? tag.name = some .callFunction → L.usesHost

mutual

inductive SameNode : Markup.Node → Markup.Node → Prop where
  | text (content : String) (hreads : ∀ path ∈ Placeholder.paths content, L.reads path) :
      SameNode (.text content) (.text content)
  | plain {tag tag' : Markup.Tag} {children children' : List Markup.Node}
      (hplain : tag.isIn directiveNs = false) (htag : L.SameTag directiveNs tag tag')
      (hchildren : SameNodes children children') :
      SameNode (.element tag children) (.element tag' children')
  | directive {tag tag' : Markup.Tag} {children children' : List Markup.Node}
      (hdir : tag.isIn directiveNs = true) (htag : L.SameDirective directiveNs tag tag')
      (hchildren : SameNodes children children') :
      SameNode (.element tag children) (.element tag' children')

inductive SameNodes : List Markup.Node → List Markup.Node → Prop where
  | nil : SameNodes [] []
  | cons {child child' : Markup.Node} {rest rest' : List Markup.Node}
      (hchild : SameNode child child') (hrest : SameNodes rest rest') :
      SameNodes (child :: rest) (child' :: rest')

end

inductive SameTask : Task → Task → Prop where
  | snippet (chain : Chain) (key : Key) {data data' : Data} {origin origin' : Origin}
      (hdata : L.SameData data data') (horigin : L.Same Origin.unprefixed origin origin') :
      SameTask (.snippet chain key data origin) (.snippet chain key data' origin')
  | nodes {spot spot' : Spot} {children children' : List Markup.Node}
      (hspot : L.SameSpot spot spot') (hnodes : L.SameNodes directiveNs children children') :
      SameTask (.nodes spot children) (.nodes spot' children')
  | node {spot spot' : Spot} {node node' : Markup.Node} (hspot : L.SameSpot spot spot')
      (hnode : L.SameNode directiveNs node node') : SameTask (.node spot node) (.node spot' node')
  | branches {spot spot' : Spot} (mode : ChooseMode) (matched : Bool)
      {children children' : List Markup.Node} (hspot : L.SameSpot spot spot')
      (hnodes : L.SameNodes directiveNs children children') :
      SameTask (.branches spot mode matched children) (.branches spot' mode matched children')
  | rounds {spot spot' : Spot} {scopes scopes' : List Data} {children children' : List Markup.Node}
      (hspot : L.SameSpot spot spot') (hscopes : List.Forall₂ L.SameData scopes scopes')
      (hnodes : L.SameNodes directiveNs children children') :
      SameTask (.rounds spot scopes children) (.rounds spot' scopes' children')
  | invoke {spot spot' : Spot} (role : CallableRole) (path : String) (hhost : L.usesHost)
      (hspot : L.SameSpot spot spot') : SameTask (.invoke spot role path) (.invoke spot' role path)

/-- Plans that do the same. -/
inductive SamePlan : Plan → Plan → Prop where
  | finish {draft draft' : Draft} (h : L.Same Draft.unprefixed draft draft') :
      SamePlan (.finish draft) (.finish draft')
  | fail {e e' : ProduceError} (h : L.Same ProduceError.unprefixed e e') :
      SamePlan (.fail e) (.fail e')
  | assign {task task' : Task} {next next' : Draft → Plan}
      (htask : L.SameTask directiveNs task task')
      (hnext : ∀ draft draft', L.Same Draft.unprefixed draft draft' →
        SamePlan (next draft) (next' draft')) :
      SamePlan (.assign task next) (.assign task' next')

inductive SameResult {α : Type} : Except ProduceError α → Except ProduceError α → Prop where
  | ok (x : α) : SameResult (.ok x) (.ok x)
  | error {e e' : ProduceError} (h : L.Same ProduceError.unprefixed e e') :
      SameResult (.error e) (.error e')

/-- Stores with the same snippets, whose templates read and call no more than allowed. -/
structure Between (w : Workshop) (other : Registry) : Prop where
  stored : ∀ key, L.Same (Option.map Snippet.unprefixed) (w.registry.get? key) (other.get? key)
  reads : ∀ path, w.Reads path → L.reads path
  usesHost : w.UsesHost → L.usesHost
  host : L.usesHost → w.host.IgnoresPrefixes

variable {L}

namespace Same

variable {α β γ δ : Type}

theorem refl (unprefixed : α → β) (x : α) : L.Same unprefixed x x := ⟨rfl, fun _ => rfl⟩

theorem map {f : α → β} {g : γ → δ} {x y : α} (h : L.Same f x y) (make : α → γ)
    (hmake : f x = f y → g (make x) = g (make y)) : L.Same g (make x) (make y) where
  unprefixed_eq := hmake h.unprefixed_eq
  eq hexact := by rw [h.eq hexact]

variable {draft draft' : Draft} {origin origin' : Origin}

theorem append (h : L.Same Draft.unprefixed draft draft') (node : Output.Node) :
    L.Same Draft.unprefixed (draft.append node) (draft'.append node) :=
  h.map (·.append node) fun heq => by
    rw [Draft.unprefixed_append, Draft.unprefixed_append, heq]

theorem warn (h : L.Same Draft.unprefixed draft draft')
    (horigin : L.Same Origin.unprefixed origin origin') (kind : WarningKind) (message : String) :
    L.Same Draft.unprefixed (draft.warn kind message origin)
      (draft'.warn kind message origin') where
  unprefixed_eq := by
    rw [Draft.unprefixed_warn, Draft.unprefixed_warn, h.unprefixed_eq, horigin.unprefixed_eq]
  eq hexact := by rw [h.eq hexact, horigin.eq hexact]

theorem warnings (h : L.Same Draft.unprefixed draft draft') :
    L.Same (List.map Warning.unprefixed) draft.warnings draft'.warnings :=
  h.map Draft.warnings fun heq => congrArg Draft.warnings heq

theorem append_warnings {warnings warnings' others others' : List Warning}
    (h : L.Same (List.map Warning.unprefixed) warnings warnings')
    (hothers : L.Same (List.map Warning.unprefixed) others others') :
    L.Same (List.map Warning.unprefixed) (warnings ++ others) (warnings' ++ others') where
  unprefixed_eq := by
    rw [List.map_append, List.map_append, h.unprefixed_eq, hothers.unprefixed_eq]
  eq hexact := by rw [h.eq hexact, hothers.eq hexact]

theorem enter (h : L.Same Origin.unprefixed origin origin') {tag tag' : Markup.Tag}
    (htag : L.Same Markup.Tag.unprefixed tag tag') (location : String) :
    L.Same Origin.unprefixed (origin.enter tag location) (origin'.enter tag' location) where
  unprefixed_eq := by
    rw [Origin.unprefixed_enter, Origin.unprefixed_enter, h.unprefixed_eq]
  eq hexact := by rw [h.eq hexact, htag.eq hexact]

theorem under (h : L.Same Origin.unprefixed origin origin') (e : ProduceError) :
    L.Same ProduceError.unprefixed (e.under origin) (e.under origin') :=
  h.map (e.under ·) fun heq => by
    rw [ProduceError.unprefixed_under, ProduceError.unprefixed_under, heq]

theorem result (h : L.Same Origin.unprefixed origin origin') (r : Except ProduceError α) :
    L.SameResult (r.mapError (ProduceError.under origin))
      (r.mapError (ProduceError.under origin')) := by
  cases r with
  | ok x => exact .ok x
  | error e => exact .error (h.under e)

theorem child (h : L.Same Draft.unprefixed draft draft') {built built' : Draft}
    (hbuilt : L.Same Draft.unprefixed built built') {warnings warnings' : List Warning}
    (hwarnings : L.Same (List.map Warning.unprefixed) warnings warnings') :
    L.Same Draft.unprefixed ⟨draft.target.appendChild built.target, warnings⟩
      ⟨draft'.target.appendChild built'.target, warnings'⟩ where
  unprefixed_eq := by
    have htarget := congrArg Draft.target h.unprefixed_eq
    have hchild := congrArg Draft.target hbuilt.unprefixed_eq
    simp only [Draft.unprefixed] at htarget hchild
    simp only [Draft.unprefixed, Output.Element.unprefixed_appendChild, htarget, hchild,
      hwarnings.unprefixed_eq]
  eq hexact := by rw [h.eq hexact, hbuilt.eq hexact, hwarnings.eq hexact]

variable {tag tag' : Markup.Tag}

theorem name_eq (h : L.Same Markup.Tag.unprefixed tag tag') : tag.name = tag'.name :=
  (Markup.Tag.mk.inj h.unprefixed_eq).2.2.1

theorem ns_eq (h : L.Same Markup.Tag.unprefixed tag tag') : tag.ns = tag'.ns :=
  (Markup.Tag.mk.inj h.unprefixed_eq).1

theorem attributeIn?_eq (h : L.Same Markup.Tag.unprefixed tag tag') (ns : Option String)
    (name : String) : tag.attributeIn? ns name = tag'.attributeIn? ns name := by
  rw [← tag.attributeIn?_unprefixed, h.unprefixed_eq, tag'.attributeIn?_unprefixed]

theorem attributeEither?_eq (h : L.Same Markup.Tag.unprefixed tag tag') (ns name : String) :
    tag.attributeEither? ns name = tag'.attributeEither? ns name := by
  rw [← tag.attributeEither?_unprefixed, h.unprefixed_eq, tag'.attributeEither?_unprefixed]

variable {snippet snippet' : Snippet}

theorem token_eq (h : L.Same Snippet.unprefixed snippet snippet') :
    snippet.token = snippet'.token := by
  obtain ⟨hkey, hsource, -, -⟩ := Snippet.mk.inj h.unprefixed_eq
  rw [Snippet.token, Snippet.token, hkey, hsource]

theorem snippetNs_eq (h : L.Same Snippet.unprefixed snippet snippet') : snippet.ns = snippet'.ns :=
  (Snippet.mk.inj h.unprefixed_eq).2.2.1

theorem template (h : L.Same Snippet.unprefixed snippet snippet') :
    L.Same Markup.Element.unprefixed snippet.template snippet'.template :=
  h.map Snippet.template fun heq => (Snippet.mk.inj heq).2.2.2

theorem rootTag (h : L.Same Snippet.unprefixed snippet snippet') :
    L.Same Markup.Tag.unprefixed snippet.template.tag snippet'.template.tag :=
  h.template.map Markup.Element.tag fun heq => (Markup.Element.mk.inj heq).1

theorem rootChildren (h : L.Same Snippet.unprefixed snippet snippet') :
    L.Same Markup.unprefixedNodes snippet.template.children snippet'.template.children :=
  h.template.map Markup.Element.children fun heq => (Markup.Element.mk.inj heq).2

theorem get? {stored stored' : Option Snippet}
    (h : L.Same (Option.map Snippet.unprefixed) stored stored') :
    (stored = none ∧ stored' = none) ∨
      ∃ snippet snippet', stored = some snippet ∧ stored' = some snippet' ∧
        L.Same Snippet.unprefixed snippet snippet' := by
  cases stored with
  | none => exact .inl ⟨rfl, Option.map_eq_none_iff.1 h.unprefixed_eq.symm⟩
  | some snippet =>
    obtain ⟨snippet', rfl, hsame⟩ := Option.map_eq_some_iff.1 h.unprefixed_eq.symm
    exact .inr ⟨snippet, snippet', rfl, rfl, hsame.symm,
      fun hexact => Option.some.inj (h.eq hexact)⟩

theorem ok_or_error {r r' : Except ProduceError Draft} (h : L.Same outcomeUnprefixed r r') :
    (∃ draft draft', r = .ok draft ∧ r' = .ok draft' ∧
        L.Same Draft.unprefixed draft draft') ∨
      ∃ e e', r = .error e ∧ r' = .error e' ∧ L.Same ProduceError.unprefixed e e' := by
  cases r with
  | ok draft =>
    cases r' with
    | ok draft' =>
      exact .inl ⟨draft, draft', rfl, rfl, Except.ok.inj h.unprefixed_eq,
        fun hexact => Except.ok.inj (h.eq hexact)⟩
    | error e' => cases h.unprefixed_eq
  | error e =>
    cases r' with
    | ok draft' => cases h.unprefixed_eq
    | error e' =>
      exact .inr ⟨e, e', rfl, rfl, Except.error.inj h.unprefixed_eq,
        fun hexact => Except.error.inj (h.eq hexact)⟩

end Same

theorem SameData.agreeOn {data data' : Data} (h : L.SameData data data') {paths : List String}
    (hreads : ∀ path ∈ paths, L.reads path) : data.AgreeOn (· ∈ paths) data' :=
  fun path hpath => h.agree path (hreads path hpath)

theorem SameData.rounds {data data' : Data} (h : L.SameData data data') (items : List Value) :
    List.Forall₂ L.SameData (Stage.rounds data items) (Stage.rounds data' items) := by
  rw [Stage.rounds, Stage.rounds, List.forall₂_map_left_iff, List.forall₂_map_right_iff,
    List.forall₂_same]
  exact fun _ _ => ⟨h.agree.merge _, fun hhost => by rw [h.eq hhost]⟩

namespace SameSpot

variable {spot spot' : Spot} (h : L.SameSpot spot spot')

include h

theorem enter {tag tag' : Markup.Tag} (htag : L.Same Markup.Tag.unprefixed tag tag') :
    L.SameSpot (spot.enter tag) (spot'.enter tag') :=
  { h with
    origin := by
      rw [Spot.enter_origin, Spot.enter_origin, h.location]
      exact h.origin.enter htag _ }

theorem withDraft {draft draft' : Draft} (hdraft : L.Same Draft.unprefixed draft draft') :
    L.SameSpot (spot.withDraft draft) (spot'.withDraft draft') :=
  { h with draft := hdraft }

theorem withData {data data' : Data} (hdata : L.SameData data data') :
    L.SameSpot (spot.withData data) (spot'.withData data') :=
  { h with data := hdata }

end SameSpot

variable {directiveNs : String}

mutual

theorem sameNode (node : Markup.Node) {node' : Markup.Node}
    (hsame : L.Same Markup.Node.unprefixed node node')
    (hreads : ∀ path ∈ node.paths directiveNs, L.reads path)
    (hhost : node.usesHost directiveNs = true → L.usesHost) :
    L.SameNode directiveNs node node' := by
  cases node with
  | text content =>
    cases node' with
    | text content' =>
      obtain rfl := Markup.Node.text.inj hsame.unprefixed_eq
      exact .text content hreads
    | element tag' children' => cases hsame.unprefixed_eq
  | element tag children =>
    cases node' with
    | text content' => cases hsame.unprefixed_eq
    | element tag' children' =>
      obtain ⟨htag, hchildren⟩ := Markup.Node.element.inj hsame.unprefixed_eq
      have htag : L.Same Markup.Tag.unprefixed tag tag' :=
        ⟨htag, fun hexact => (Markup.Node.element.inj (hsame.eq hexact)).1⟩
      have hchildren : L.Same Markup.unprefixedNodes children children' :=
        ⟨hchildren, fun hexact => (Markup.Node.element.inj (hsame.eq hexact)).2⟩
      rw [Markup.Node.paths, List.forall_mem_append] at hreads
      rw [Markup.Node.usesHost, Bool.or_eq_true, or_imp] at hhost
      have hnodes := sameNodes children hchildren hreads.2 hhost.2
      cases hdir : tag.isIn directiveNs with
      | true =>
        simp only [hdir, if_true, beq_iff_eq] at hreads hhost
        exact .directive hdir ⟨htag, hreads.1, hhost.1⟩ hnodes
      | false =>
        simp only [hdir, Bool.false_eq_true, if_false] at hreads hhost
        exact .plain hdir ⟨htag, hreads.1, hhost.1⟩ hnodes

theorem sameNodes (nodes : List Markup.Node) {nodes' : List Markup.Node}
    (hsame : L.Same Markup.unprefixedNodes nodes nodes')
    (hreads : ∀ path ∈ Markup.nodesPaths directiveNs nodes, L.reads path)
    (hhost : Markup.nodesUseHost directiveNs nodes = true → L.usesHost) :
    L.SameNodes directiveNs nodes nodes' := by
  cases nodes with
  | nil =>
    cases nodes' with
    | nil => exact .nil
    | cons child' rest' => cases hsame.unprefixed_eq
  | cons child rest =>
    cases nodes' with
    | nil => cases hsame.unprefixed_eq
    | cons child' rest' =>
      obtain ⟨hchild, hrest⟩ := List.cons.inj hsame.unprefixed_eq
      have hchild : L.Same Markup.Node.unprefixed child child' :=
        ⟨hchild, fun hexact => (List.cons.inj (hsame.eq hexact)).1⟩
      have hrest : L.Same Markup.unprefixedNodes rest rest' :=
        ⟨hrest, fun hexact => (List.cons.inj (hsame.eq hexact)).2⟩
      rw [Markup.nodesPaths, List.forall_mem_append] at hreads
      rw [Markup.nodesUseHost, Bool.or_eq_true, or_imp] at hhost
      exact .cons (sameNode child hchild hreads.1 hhost.1)
        (sameNodes rest hrest hreads.2 hhost.2)

end

theorem SameNodes.firstText?_eq {children children' : List Markup.Node}
    (h : L.SameNodes directiveNs children children') :
    Markup.Element.firstText? children = Markup.Element.firstText? children' := by
  cases h with
  | nil => rfl
  | cons hchild hrest => cases hchild <;> rfl

theorem SameNodes.reads_firstText? {children children' : List Markup.Node} {content : String}
    (h : L.SameNodes directiveNs children children')
    (htext : Markup.Element.firstText? children = some content) :
    ∀ path ∈ Placeholder.paths content, L.reads path := by
  cases h with
  | nil => cases htext
  | cons hchild hrest =>
    cases hchild with
    | text content hreads =>
      obtain rfl := Option.some.inj htext
      exact hreads
    | plain | directive => cases htext

theorem SamePlan.handOver {task task' : Task} (h : L.SameTask directiveNs task task') :
    L.SamePlan directiveNs (.handOver task) (.handOver task') :=
  .assign h fun _ _ hdraft => .finish hdraft

theorem SamePlan.ofOutcome {r r' : Except ProduceError Draft} (h : L.Same outcomeUnprefixed r r') :
    L.SamePlan directiveNs (.ofOutcome r) (.ofOutcome r') := by
  obtain ⟨draft, draft', rfl, rfl, hdraft⟩ | ⟨e, e', rfl, rfl, he⟩ := h.ok_or_error
  · exact .finish hdraft
  · exact .fail he

theorem SamePlan.carryOut {outcome outcome' : Task → Except ProduceError Draft} {plan plan' : Plan}
    (h : L.SamePlan directiveNs plan plan')
    (hassigned : ∀ task task', plan.Assigns outcome task → L.SameTask directiveNs task task' →
      L.Same outcomeUnprefixed (outcome task) (outcome' task')) :
    L.Same outcomeUnprefixed (plan.carryOut outcome) (plan'.carryOut outcome') := by
  induction h with
  | finish h => exact h.map Except.ok (congrArg Except.ok)
  | fail h => exact h.map Except.error (congrArg Except.error)
  | @assign task task' next next' htask hnext ih =>
    simp only [Plan.carryOut]
    obtain ⟨draft, draft', hok, hok', h⟩ | ⟨e, e', herror, herror', h⟩ :=
      (hassigned task task' (.inl rfl) htask).ok_or_error
    · rw [hok, hok']
      exact ih draft draft' h fun other other' hother =>
        hassigned other other' (.inr ⟨draft, hok, hother⟩)
    · rw [herror, herror']
      exact h.map Except.error (congrArg Except.error)

end Accord

end MarkupSnippets

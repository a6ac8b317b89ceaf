import Mathlib.Data.List.Destutter
import MarkupSnippets.Proofs.Extension
import MarkupSnippets.Proofs.Raising
import MarkupSnippets.Proofs.Recursion

namespace MarkupSnippets

/-- The locations of an origin, each once for all frames in a row that have it. -/
def Origin.tokens (origin : Origin) : List String :=
  (origin.map Frame.location).destutter (· ≠ ·)

/-- An element of a template, with its location and the data in scope where it stands. -/
structure Place where
  element : Markup.Element
  location : String
  data : Data

def Place.frame (place : Place) : Frame := ⟨place.element.tag.opening, place.location⟩

def Spot.place (spot : Spot) (element : Markup.Element) : Place :=
  ⟨element, spot.location, spot.data⟩

def Snippet.rootPlace (snippet : Snippet) (data : Data) : Place :=
  ⟨snippet.template, snippet.token, data⟩

theorem mem_childElements {tag : Markup.Tag} {children nodes : List Markup.Node}
    (h : .element tag children ∈ nodes) : ⟨tag, children⟩ ∈ Markup.Element.childElements nodes := by
  induction nodes with
  | nil => cases h
  | cons node rest ih =>
    obtain rfl | hrest := List.mem_cons.1 h
    · exact List.mem_cons_self
    · cases node with
      | text content => exact ih hrest
      | element other others => exact List.mem_cons_of_mem _ (ih hrest)

theorem destutter'_concat_self {α : Type} [DecidableEq α] (x a : α) (xs : List α) :
    (xs ++ [a, a]).destutter' (· ≠ ·) x = (xs ++ [a]).destutter' (· ≠ ·) x := by
  induction xs generalizing x with
  | nil => by_cases h : x = a <;> simp [h]
  | cons y xs ih => by_cases h : x = y <;> simp [h, ih]

theorem destutter'_concat_of_ne {α : Type} [DecidableEq α] {a b : α} (h : a ≠ b) (x : α)
    (xs : List α) :
    (xs ++ [a, b]).destutter' (· ≠ ·) x = (xs ++ [a]).destutter' (· ≠ ·) x ++ [b] := by
  induction xs generalizing x with
  | nil => by_cases hx : x = a <;> simp [hx, h]
  | cons y xs ih => by_cases hx : x = y <;> simp [hx, ih]

theorem Origin.tokens_enter (before : Origin) (frame : Frame) (tag : Markup.Tag)
    (location : String) :
    (Origin.enter (before ++ [frame]) tag location).tokens =
      if frame.location = location then Origin.tokens (before ++ [frame])
      else Origin.tokens (before ++ [frame]) ++ [location] := by
  simp only [tokens, Origin.enter, List.append_assoc, List.singleton_append, List.map_append,
    List.map_cons, List.map_nil]
  cases before with
  | nil => by_cases h : frame.location = location <;> simp [h]
  | cons first before =>
    simp only [List.map_cons, List.cons_append, List.destutter_cons']
    by_cases h : frame.location = location
    · rw [if_pos h, h]
      exact destutter'_concat_self _ _ _
    · rw [if_neg h]
      exact destutter'_concat_of_ne h _ _

namespace Stage

variable {stage : Stage} {data : Data} {origin : Origin}

theorem resolve?_of_listItems {path : String} {items : List Value}
    (h : listItems path data origin = .ok items) : resolve? data path = some (.list items) := by
  rw [listItems] at h
  split at h
  · next hresolve =>
    cases h
    exact hresolve
  · cases h
  · cases h

variable {refused : Key} {tokens : List String} {place : Origin}

theorem holds_ne_recursion {tag : Markup.Tag} :
    stage.holds tag data origin ≠ .error (.recursion refused tokens place) := by
  intro h
  rw [holds] at h
  split at h
  · split at h <;> cases h
  · cases h

theorem listItems_ne_recursion {path : String} :
    listItems path data origin ≠ .error (.recursion refused tokens place) := by
  intro h
  rw [listItems] at h
  split at h <;> cases h

theorem invoke_ne_recursion {role : CallableRole} {path : String} {draft : Draft} :
    stage.invoke role path data origin draft ≠ .error (.recursion refused tokens place) := by
  intro h
  rw [invoke] at h
  split at h
  · split at h <;> cases h
  · cases h

end Stage

namespace Workshop

variable (w : Workshop)

def loops (tag : Markup.Tag) : Bool :=
  tag.isIn w.settings.directiveNs && Directive.ofLocalName? tag.name == some .forEach

def argument (tag : Markup.Tag) (name : String) : String :=
  (tag.attributeEither? w.settings.directiveNs name).getD ""

/-- The data in scope inside of an element: those around it, or those of a round. -/
inductive Scopes (tag : Markup.Tag) (data : Data) : Data → Prop where
  | around : Scopes tag data data
  | round {items : List Value} {scope : Data} (hloop : w.loops tag = true)
      (hlist : resolve? data (w.argument tag "list") = some (.list items))
      (hscope : scope ∈ Stage.rounds data items) : Scopes tag data scope

/-- Whether a path may go on from one place to the next. -/
inductive Leads : Place → Place → Prop where
  | child {place next : Place}
      (hmem : next.element ∈ Markup.Element.childElements place.element.children)
      (hlocation : next.location = place.location)
      (hscope : w.Scopes place.element.tag place.data next.data) : Leads place next
  | insertion {place : Place} {snippet : Snippet} (hinserts : w.inserts place.element.tag = true)
      (hget : w.registry.get?
        (Key.ofString (substitute place.data (w.argument place.element.tag "name"))) =
          some snippet) : Leads place (snippet.rootPlace place.data)

/-- A path through templates, from the root of the snippet with a key. -/
structure IsPath (key : Key) (data : Data) (places : List Place) : Prop where
  root : ∃ snippet, w.registry.get? key = some snippet ∧
    places.head? = some (snippet.rootPlace data)
  chain : places.IsChain w.Leads

def IsTrail (key : Key) (data : Data) (origin : Origin) : Prop :=
  ∃ places, w.IsPath key data places ∧ origin = places.map Place.frame

/-- Whether a spot is at an element at the end of a path, with the productions on the path under
way. -/
structure At (key : Key) (data : Data) (spot : Spot) (element : Markup.Element) : Prop where
  path : ∃ before, w.IsPath key data (before ++ [spot.place element]) ∧
    spot.origin = (before ++ [spot.place element]).map Place.frame
  tokens : spot.origin.tokens = spot.chain.tokens
  location : spot.location ∈ spot.chain.tokens

def Inside (key : Key) (data : Data) (spot : Spot) (element : Markup.Element) : Prop :=
  ∃ around, w.At key data (spot.withData around) element ∧
    w.Scopes element.tag around spot.data

/-- Whether a task stands at the end of a path. -/
def Placed (key : Key) (data : Data) : Task → Prop
  | .snippet chain inserted scope origin =>
    chain = .empty ∧ inserted = key ∧ scope = data ∧ origin = [] ∨
      ∃ spot element, w.At key data spot element ∧ w.inserts element.tag = true ∧
        inserted = w.insertedKey spot element.tag ∧ chain = spot.chain ∧ scope = spot.data ∧
        origin = spot.origin
  | .nodes spot children =>
    ∃ element, w.Inside key data spot element ∧ children ⊆ element.children
  | .node spot node => ∃ element, w.Inside key data spot element ∧ node ∈ element.children
  | .branches spot _ _ children =>
    ∃ element, w.Inside key data spot element ∧ children ⊆ element.children
  | .rounds spot scopes children =>
    ∃ element, w.At key data spot element ∧ children = element.children ∧
      ∀ scope ∈ scopes, w.Scopes element.tag spot.data scope
  | .invoke spot _ _ => ∃ element, w.At key data spot element

variable {w} {key : Key} {data : Data} {spot : Spot} {element : Markup.Element} {task other : Task}

theorem At.inside (h : w.At key data spot element) : w.Inside key data spot element :=
  ⟨spot.data, h, .around⟩

theorem At.isTrail (h : w.At key data spot element) : w.IsTrail key data spot.origin := by
  obtain ⟨before, hpath, horigin⟩ := h.path
  exact ⟨_, hpath, horigin⟩

theorem IsPath.concat {before : List Place} {place next : Place}
    (h : w.IsPath key data (before ++ [place])) (hleads : w.Leads place next) :
    w.IsPath key data (before ++ [place] ++ [next]) where
  root := by
    obtain ⟨snippet, hget, hhead⟩ := h.root
    exact ⟨snippet, hget, by rw [List.head?_append, hhead]; rfl⟩
  chain := by
    refine List.isChain_append.2 ⟨h.chain, List.isChain_singleton next, ?_⟩
    rintro x hx y hy
    rw [List.getLast?_concat, Option.mem_some] at hx
    rw [List.head?_cons, Option.mem_some] at hy
    subst hx hy
    exact hleads

theorem Inside.enter {tag : Markup.Tag} {children : List Markup.Node}
    (h : w.Inside key data spot element) (hmem : .element tag children ∈ element.children) :
    w.At key data (spot.enter tag) ⟨tag, children⟩ := by
  obtain ⟨around, hat, hscope⟩ := h
  obtain ⟨before, hpath, horigin⟩ := hat.path
  have horigin : spot.origin =
      (before ++ [(spot.withData around).place element]).map Place.frame := horigin
  have hleads : w.Leads ((spot.withData around).place element)
      ((spot.enter tag).place ⟨tag, children⟩) := .child (mem_childElements hmem) rfl hscope
  refine ⟨⟨_, hpath.concat hleads, ?_⟩, ?_, hat.location⟩
  · rw [List.map_append, ← horigin]
    rfl
  · have hsame : (spot.enter tag).origin.tokens = spot.origin.tokens := by
      rw [Spot.enter_origin, horigin, List.map_append, List.map_singleton, Origin.tokens_enter]
      exact if_pos rfl
    exact hsame.trans hat.tokens

theorem at_rootSpot {chain : Chain} {inserted : Key} {scope : Data} {origin : Origin}
    {snippet : Snippet} (h : w.Placed key data (.snippet chain inserted scope origin))
    (hget : w.registry.get? inserted = some snippet)
    (hnew : chain.contains snippet.token = false) :
    w.At key data (snippet.rootSpot chain scope origin) snippet.template := by
  have hnew : snippet.token ∉ chain.tokens := by simpa [Chain.contains] using hnew
  have hlocation : snippet.token ∈ (chain.extend snippet.token).tokens := by simp [Chain.extend]
  obtain ⟨rfl, rfl, rfl, rfl⟩ | ⟨spot, element, hat, hinserts, rfl, rfl, rfl, rfl⟩ := h
  · exact ⟨⟨[], ⟨⟨snippet, hget, rfl⟩, List.isChain_singleton _⟩, rfl⟩, rfl, hlocation⟩
  · obtain ⟨before, hpath, horigin⟩ := hat.path
    refine ⟨⟨_, hpath.concat (.insertion hinserts hget), ?_⟩, ?_, hlocation⟩
    · rw [List.map_append, ← horigin]
      rfl
    · have hne : spot.location ≠ snippet.token := fun heq => hnew (heq ▸ hat.location)
      have htokens : (spot.origin.enter snippet.template.tag snippet.token).tokens =
          spot.origin.tokens ++ [snippet.token] := by
        rw [horigin, List.map_append, List.map_singleton, Origin.tokens_enter]
        exact if_neg hne
      exact htokens.trans (congrArg (· ++ [snippet.token]) hat.tokens)

theorem At.withDraft (h : w.At key data spot element) (draft : Draft) :
    w.At key data (spot.withDraft draft) element :=
  ⟨h.path, h.tokens, h.location⟩

theorem Inside.withDraft (h : w.Inside key data spot element) (draft : Draft) :
    w.Inside key data (spot.withDraft draft) element := by
  obtain ⟨around, hat, hscope⟩ := h
  exact ⟨around, hat.withDraft draft, hscope⟩

theorem placed_of_mayAssign (h : w.Placed key data task) (hassign : w.MayAssign task other) :
    w.Placed key data other := by
  cases hassign with
  | content draft hget hnew =>
    exact ⟨_, ((at_rootSpot h hget hnew).withDraft draft).inside, List.Subset.refl _⟩
  | completion draft path hget hnew => exact ⟨_, (at_rootSpot h hget hnew).withDraft draft⟩
  | first spot child rest =>
    obtain ⟨element, hinside, hsub⟩ := h
    exact ⟨element, hinside, hsub List.mem_cons_self⟩
  | others spot child rest draft | nextBranch spot mode matched child rest draft later =>
    obtain ⟨element, hinside, hsub⟩ := h
    exact ⟨element, hinside.withDraft draft, fun _ hmem => hsub (List.mem_cons_of_mem _ hmem)⟩
  | children spot tag children draft | choice spot tag children draft mode =>
    obtain ⟨element, hinside, hmem⟩ := h
    exact ⟨_, ((hinside.enter hmem).withDraft draft).inside, List.Subset.refl _⟩
  -- The rounds stand at the loop itself: their data are those of its content, not of its place.
  | loop children hdir hname hlist =>
    obtain ⟨element, hinside, hmem⟩ := h
    have hloop : w.loops _ = true := Bool.and_eq_true_iff.2 ⟨hdir, beq_iff_eq.2 hname⟩
    exact ⟨_, hinside.enter hmem, rfl,
      fun scope => .round hloop (Stage.resolve?_of_listItems hlist)⟩
  | call spot tag children draft role path =>
    obtain ⟨element, hinside, hmem⟩ := h
    exact ⟨_, (hinside.enter hmem).withDraft draft⟩
  | insertion children hdir hname =>
    obtain ⟨element, hinside, hmem⟩ := h
    have hinserts : w.inserts _ = true := Bool.and_eq_true_iff.2 ⟨hdir, beq_iff_eq.2 hname⟩
    exact .inr ⟨_, _, hinside.enter hmem, hinserts, rfl, rfl, rfl, rfl⟩
  | branch spot mode matched tag children rest =>
    obtain ⟨element, hinside, hsub⟩ := h
    exact ⟨_, (hinside.enter (hsub List.mem_cons_self)).inside, List.Subset.refl _⟩
  | round spot scope rest children =>
    obtain ⟨element, hat, rfl, hscopes⟩ := h
    exact ⟨element, ⟨spot.data, hat, hscopes scope List.mem_cons_self⟩, List.Subset.refl _⟩
  | nextRound spot scope rest children draft =>
    obtain ⟨element, hat, hchildren, hscopes⟩ := h
    exact ⟨element, hat.withDraft draft, hchildren,
      fun scope hmem => hscopes scope (List.mem_cons_of_mem _ hmem)⟩

theorem placed_of_reaches (h : w.Reaches (.snippet .empty key data []) task) :
    w.Placed key data task := by
  induction h with
  | refl => exact .inl ⟨rfl, rfl, rfl, rfl⟩
  | tail _ hassign ih => exact placed_of_mayAssign ih (mayAssign_of_assigns hassign)

theorem at_of_raises {warning : Warning} (h : w.Placed key data task)
    (hraises : w.Raises task spot warning) : ∃ element, w.At key data spot element := by
  cases hraises with
  | root scope origin hget hnew => exact ⟨_, at_rootSpot h hget hnew⟩
  | element | unknown | otherwise | mode =>
    obtain ⟨element, hinside, hmem⟩ := h
    exact ⟨_, hinside.enter hmem⟩
  | branch mode matched children rest =>
    obtain ⟨element, hinside, hsub⟩ := h
    exact ⟨_, hinside.enter (hsub List.mem_cons_self)⟩

/-- An error is raised at the end of a path, but for that of a production that finds nothing to
begin with. -/
theorem trail_of_mayFail {e : ProduceError} (h : w.Placed key data task)
    (hfail : w.MayFail task e) :
    (e.origin = [] ∧ w.registry.get? key = none ∨ w.IsTrail key data e.origin) ∧
      e.origin.tokens = task.chain.tokens := by
  cases hfail with
  | notFound chain scope origin hget =>
    obtain ⟨rfl, rfl, rfl, rfl⟩ | ⟨spot, element, hat, -, rfl, rfl, rfl, rfl⟩ := h
    · exact ⟨.inl ⟨rfl, hget⟩, rfl⟩
    · exact ⟨.inr hat.isTrail, hat.tokens⟩
  | recursion scope origin hget hold =>
    obtain ⟨rfl, rfl, rfl, rfl⟩ | ⟨spot, element, hat, -, rfl, rfl, rfl, rfl⟩ := h
    · cases hold
    · exact ⟨.inr hat.isTrail, hat.tokens⟩
  | test children herror =>
    obtain ⟨element, hinside, hmem⟩ := h
    have hat := hinside.enter hmem
    rw [Stage.origin_of_holds_eq_error herror]
    exact ⟨.inr hat.isTrail, hat.tokens⟩
  | list children herror =>
    obtain ⟨element, hinside, hmem⟩ := h
    have hat := hinside.enter hmem
    rw [Stage.origin_of_listItems_eq_error herror]
    exact ⟨.inr hat.isTrail, hat.tokens⟩
  | branchTest mode matched children rest herror =>
    obtain ⟨element, hinside, hsub⟩ := h
    have hat := hinside.enter (hsub List.mem_cons_self)
    rw [Stage.origin_of_holds_eq_error herror]
    exact ⟨.inr hat.isTrail, hat.tokens⟩
  | call herror =>
    obtain ⟨element, hat⟩ := h
    rw [Stage.origin_of_invoke_eq_error herror]
    exact ⟨.inr hat.isTrail, hat.tokens⟩

theorem tokens_of_mayFail {refused : Key} {tokens : List String} {origin : Origin}
    (h : w.MayFail task (.recursion refused tokens origin)) :
    ∃ last ∈ task.chain.tokens, tokens = task.chain.tokens ++ [last] := by
  cases h with
  | recursion scope origin hget hold =>
    exact ⟨_, List.contains_iff_mem.1 hold, rfl⟩
  | test children herror => exact absurd herror Stage.holds_ne_recursion
  | list children herror => exact absurd herror Stage.listItems_ne_recursion
  | branchTest mode matched children rest herror => exact absurd herror Stage.holds_ne_recursion
  | call herror => exact absurd herror Stage.invoke_ne_recursion

theorem exists_mayFail_of_error {e : ProduceError} (h : w.outcome task = .error e) :
    ∃ other, w.Reaches task other ∧ w.outcome other = .error e ∧ w.MayFail other e := by
  induction task using w.task_induction with
  | step task ih =>
    obtain hfail | ⟨other, hassign, hother⟩ := outcome_eq_error_cases h
    · exact ⟨task, .refl, h, hfail⟩
    · obtain ⟨last, hreach, hlast⟩ := ih other (mayAssign_of_assigns hassign) hother
      exact ⟨last, .head hassign hreach, hlast⟩

variable (w key data)

/-- The origins of all warnings and errors are paths from the root of the snippet that is produced,
and their locations are the tokens of the productions under way. -/
theorem origins_are_trails :
    (∀ draft, w.produce key data = .ok draft → ∀ warning ∈ draft.warnings,
      ∃ task spot, w.Reaches (.snippet .empty key data []) task ∧ w.Raises task spot warning ∧
        w.IsTrail key data warning.origin ∧ warning.origin.tokens = spot.chain.tokens) ∧
    ∀ e, w.produce key data = .error e →
      ∃ task, w.Reaches (.snippet .empty key data []) task ∧ w.outcome task = .error e ∧
        w.MayFail task e ∧
        (e.origin = [] ∧ w.registry.get? key = none ∨ w.IsTrail key data e.origin) ∧
        e.origin.tokens = task.chain.tokens ∧
        ∀ refused tokens origin, e = .recursion refused tokens origin →
          ∃ last ∈ origin.tokens, tokens = origin.tokens ++ [last] := by
  constructor
  · intro draft hdraft warning hmem
    have houtcome : w.outcome (.snippet .empty key data []) = .ok draft := hdraft
    obtain hnone | ⟨task, spot, hreach, hraises⟩ := exists_raises_of_mem houtcome hmem
    · cases hnone
    · obtain ⟨element, hat⟩ := at_of_raises (placed_of_reaches hreach) hraises
      refine ⟨task, spot, hreach, hraises, ?_⟩
      rw [hraises.origin_eq]
      exact ⟨hat.isTrail, hat.tokens⟩
  · intro e he
    have houtcome : w.outcome (.snippet .empty key data []) = .error e := he
    obtain ⟨task, hreach, htask, hfail⟩ := exists_mayFail_of_error houtcome
    obtain ⟨htrail, htokens⟩ := trail_of_mayFail (placed_of_reaches hreach) hfail
    refine ⟨task, hreach, htask, hfail, htrail, htokens, ?_⟩
    rintro refused tokens origin rfl
    have horigin : origin.tokens = task.chain.tokens := htokens
    rw [horigin]
    exact tokens_of_mayFail hfail

def straySnippet : Snippet :=
  ⟨Key.ofString "/item", "t", "h",
    ⟨⟨none, none, "li", []⟩, [.element ⟨some "d", none, "x", []⟩ []]⟩⟩

def straying : Workshop := listing.withRegistry (listing.registry.put straySnippet)

def strayWarning : Warning :=
  ⟨.elementNotAllowed, "Element not allowed here.",
    itemOrigin ++ [⟨"<li>", "t:/item"⟩, ⟨"<x>", "t:/item"⟩]⟩

theorem straying_produce :
    straying.produce listSnippet.key .empty =
      .ok ⟨(Output.Element.new "h" "ul").appendChild (.new "h" "li"), [strayWarning]⟩ := by
  refine produce_listSnippet ⟨.new "h" "li", [strayWarning]⟩ rfl ?_
  rw [produceWith_eq]
  rfl

theorem origins_are_trails_stray :
    ∃ draft, straying.produce listSnippet.key .empty = .ok draft ∧ strayWarning ∈ draft.warnings ∧
      straying.IsTrail listSnippet.key .empty strayWarning.origin ∧
      strayWarning.origin.tokens = ["s:/list", "t:/item"] := by
  refine ⟨_, straying_produce, List.mem_singleton_self _, ?_, by decide⟩
  obtain ⟨task, spot, -, -, htrail, -⟩ := (straying.origins_are_trails listSnippet.key .empty).1 _
    straying_produce strayWarning (List.mem_singleton_self _)
  exact htrail

end Workshop

end MarkupSnippets

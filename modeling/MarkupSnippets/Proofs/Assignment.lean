import Mathlib.Data.List.Nodup
import Mathlib.Data.Prod.Lex
import Mathlib.Order.WellFounded
import MarkupSnippets.Proofs.Task

namespace MarkupSnippets

namespace Markup

mutual

def Node.weight : Node → Nat
  | .text _ => 1
  | .element _ children => weights children + 2

def weights : List Node → Nat
  | [] => 0
  | child :: rest => child.weight + weights rest + 1

end

theorem Node.weight_pos (node : Node) : 0 < node.weight := by
  cases node with
  | text content => exact Nat.one_pos
  | element tag children => rw [Node.weight]; omega

end Markup

def Task.chain : Task → Chain
  | .snippet chain _ _ _ => chain
  | .nodes spot _ => spot.chain
  | .node spot _ => spot.chain
  | .branches spot _ _ _ => spot.chain
  | .rounds spot _ _ => spot.chain
  | .invoke spot _ _ => spot.chain

def Task.key? : Task → Option Key
  | .snippet _ key _ _ => some key
  | _ => none

namespace Workshop

variable (w : Workshop)

/-- All that a task can assign. -/
inductive MayAssign : Task → Task → Prop where
  | content {chain key data origin snippet} (draft : Draft)
      (hget : w.registry.get? key = some snippet) (hnew : chain.contains snippet.token = false) :
      MayAssign (.snippet chain key data origin)
        (.nodes ((snippet.rootSpot chain data origin).withDraft draft) snippet.template.children)
  | completion {chain key data origin snippet} (draft : Draft) (path : String)
      (hget : w.registry.get? key = some snippet) (hnew : chain.contains snippet.token = false) :
      MayAssign (.snippet chain key data origin)
        (.invoke ((snippet.rootSpot chain data origin).withDraft draft) .postproduction path)
  | first (spot : Spot) (child : Markup.Node) (rest : List Markup.Node) :
      MayAssign (.nodes spot (child :: rest)) (.node spot child)
  | others (spot : Spot) (child : Markup.Node) (rest : List Markup.Node) (draft : Draft) :
      MayAssign (.nodes spot (child :: rest)) (.nodes (spot.withDraft draft) rest)
  | children (spot : Spot) (tag : Markup.Tag) (children : List Markup.Node) (draft : Draft) :
      MayAssign (.node spot (.element tag children))
        (.nodes ((spot.enter tag).withDraft draft) children)
  | choice (spot : Spot) (tag : Markup.Tag) (children : List Markup.Node) (draft : Draft)
      (mode : ChooseMode) :
      MayAssign (.node spot (.element tag children))
        (.branches ((spot.enter tag).withDraft draft) mode false children)
  | loop {spot : Spot} {tag : Markup.Tag} {items : List Value} (children : List Markup.Node)
      (hdir : (w.stageAt spot).isDirective tag = true)
      (hname : Directive.ofLocalName? tag.name = some .forEach)
      (hlist : Stage.listItems ((w.stageAt spot).argument tag "list") spot.data
        (spot.enter tag).origin = .ok items) :
      MayAssign (.node spot (.element tag children))
        (.rounds (spot.enter tag) (Stage.rounds spot.data items) children)
  | call (spot : Spot) (tag : Markup.Tag) (children : List Markup.Node) (draft : Draft)
      (role : CallableRole) (path : String) :
      MayAssign (.node spot (.element tag children))
        (.invoke ((spot.enter tag).withDraft draft) role path)
  | insertion {spot : Spot} {tag : Markup.Tag} (children : List Markup.Node)
      (hdir : (w.stageAt spot).isDirective tag = true)
      (hname : Directive.ofLocalName? tag.name = some .insertSnippet) :
      MayAssign (.node spot (.element tag children))
        (.snippet spot.chain (w.insertedKey spot tag) spot.data (spot.enter tag).origin)
  | branch (spot : Spot) (mode : ChooseMode) (matched : Bool) (tag : Markup.Tag)
      (children rest : List Markup.Node) :
      MayAssign (.branches spot mode matched (.element tag children :: rest))
        (.nodes (spot.enter tag) children)
  | nextBranch (spot : Spot) (mode : ChooseMode) (matched : Bool) (child : Markup.Node)
      (rest : List Markup.Node) (draft : Draft) (later : Bool) :
      MayAssign (.branches spot mode matched (child :: rest))
        (.branches (spot.withDraft draft) mode later rest)
  | round (spot : Spot) (scope : Data) (rest : List Data) (children : List Markup.Node) :
      MayAssign (.rounds spot (scope :: rest) children) (.nodes (spot.withData scope) children)
  | nextRound (spot : Spot) (scope : Data) (rest : List Data) (children : List Markup.Node)
      (draft : Draft) :
      MayAssign (.rounds spot (scope :: rest) children)
        (.rounds (spot.withDraft draft) rest children)

/-- The tasks that a task assigns in a run. -/
def Assigns (task other : Task) : Prop := (w.plan task).Assigns w.outcome other

variable {w}

variable {outcome : Task → Except ProduceError Draft} {task other : Task}

theorem assigns_handOver : (Plan.handOver task).Assigns outcome other ↔ other = task := by
  simp [Plan.handOver, Plan.Assigns]

theorem assigns_build {spot : Spot} {ns : String} {tag : Markup.Tag} {warnings : List Warning}
    {children : List Markup.Node} {next : Draft → Plan}
    (h : (w.build spot ns tag warnings children next).Assigns outcome other) :
    (∃ draft, other = .nodes (spot.withDraft draft) children) ∨
      (∃ draft path, other = .invoke (spot.withDraft draft) .postproduction path) ∨
      ∃ draft, (next draft).Assigns outcome other := by
  obtain rfl | ⟨inner, -, h⟩ := h
  · exact .inl ⟨_, rfl⟩
  · revert h
    cases tag.attributeIn? (some w.settings.directiveNs) "postproduction" with
    | none => exact fun h => .inr (.inr ⟨inner, h⟩)
    | some path =>
      rintro (rfl | ⟨built, -, h⟩)
      · exact .inr (.inl ⟨inner, path, rfl⟩)
      · exact .inr (.inr ⟨built, h⟩)

theorem mayAssign_of_snippetPlan {chain : Chain} {key : Key} {data : Data} {origin : Origin}
    (h : (w.snippetPlan chain key data origin).Assigns outcome other) :
    w.MayAssign (.snippet chain key data origin) other := by
  rw [snippetPlan] at h
  split at h
  · cases h
  · next snippet hget =>
    split at h
    · cases h
    · next hnew =>
      rw [Bool.not_eq_true] at hnew
      obtain ⟨draft, rfl⟩ | ⟨draft, path, rfl⟩ | ⟨draft, h⟩ := assigns_build h
      · exact .content draft hget hnew
      · exact .completion draft path hget hnew
      · cases h

theorem mayAssign_of_directivePlan {spot : Spot} {tag : Markup.Tag} {children : List Markup.Node}
    (hdir : (w.stageAt spot).isDirective tag = true)
    (h : (w.directivePlan (spot.enter tag) tag children).Assigns outcome other) :
    w.MayAssign (.node spot (.element tag children)) other := by
  rw [directivePlan] at h
  cases hname : Directive.ofLocalName? tag.name with
  | none =>
    rw [hname] at h
    cases h
  | some directive =>
    rw [hname] at h
    cases directive with
    | text =>
      simp only at h
      split at h <;> cases h
    | callFunction =>
      obtain rfl := assigns_handOver.1 h
      exact .call spot tag children _ _ _
    | ifTest =>
      simp only at h
      split at h
      · cases h
      · obtain rfl := assigns_handOver.1 h
        exact .children spot tag children spot.draft
      · cases h
    | otherwise => cases h
    | choose =>
      obtain rfl := assigns_handOver.1 h
      exact .choice spot tag children _ _
    | forEach =>
      simp only at h
      split at h
      · cases h
      · next items hlist =>
        obtain rfl := assigns_handOver.1 h
        exact .loop children hdir hname hlist
    | forEmpty =>
      simp only at h
      split at h
      · cases h
      · obtain rfl := assigns_handOver.1 h
        exact .children spot tag children spot.draft
    | insertSnippet =>
      obtain rfl | ⟨draft, -, h⟩ := h
      · exact .insertion children hdir hname
      · cases h

theorem mayAssign_of_nodePlan {spot : Spot} {node : Markup.Node}
    (h : (w.nodePlan spot node).Assigns outcome other) :
    w.MayAssign (.node spot node) other := by
  cases node with
  | text content => cases h
  | element tag children =>
    rw [nodePlan] at h
    split at h
    · next hdir => exact mayAssign_of_directivePlan hdir h
    · obtain ⟨draft, rfl⟩ | ⟨draft, path, rfl⟩ | ⟨draft, h⟩ := assigns_build h
      · exact .children spot tag children draft
      · exact .call spot tag children draft _ path
      · cases h

theorem mayAssign_of_branchesPlan {spot : Spot} {mode : ChooseMode} {matched : Bool}
    {children : List Markup.Node}
    (h : (w.branchesPlan spot mode matched children).Assigns outcome other) :
    w.MayAssign (.branches spot mode matched children) other := by
  cases children with
  | nil => cases h
  | cons child rest =>
    cases child with
    | text content =>
      obtain rfl := assigns_handOver.1 h
      exact .nextBranch spot mode matched _ rest spot.draft matched
    | element tag children =>
      rw [branchesPlan] at h
      split at h
      · split at h
        · cases h
        · obtain rfl | ⟨draft, -, h⟩ := h
          · exact .branch spot mode matched tag children rest
          · cases mode with
            | strict => cases h
            | lax =>
              obtain rfl := assigns_handOver.1 h
              exact .nextBranch spot _ matched _ rest draft true
        · obtain rfl := assigns_handOver.1 h
          exact .nextBranch spot mode matched _ rest spot.draft matched
      · split at h
        · obtain rfl := assigns_handOver.1 h
          exact .nextBranch spot mode matched _ rest spot.draft matched
        · obtain rfl | ⟨draft, -, h⟩ := h
          · exact .branch spot mode matched tag children rest
          · obtain rfl := assigns_handOver.1 h
            exact .nextBranch spot mode matched _ rest draft matched
      · obtain rfl := assigns_handOver.1 h
        exact .nextBranch spot mode matched _ rest _ matched

theorem mayAssign_of_assigns (h : (w.plan task).Assigns outcome other) :
    w.MayAssign task other := by
  cases task with
  | snippet chain key data origin => exact mayAssign_of_snippetPlan h
  | node spot node => exact mayAssign_of_nodePlan h
  | branches spot mode matched children => exact mayAssign_of_branchesPlan h
  | nodes spot children =>
    cases children with
    | nil => cases h
    | cons child rest =>
      obtain rfl | ⟨draft, -, h⟩ := h
      · exact .first spot child rest
      · obtain rfl := assigns_handOver.1 h
        exact .others spot child rest draft
  | rounds spot scopes children =>
    cases scopes with
    | nil => cases h
    | cons scope rest =>
      obtain rfl | ⟨draft, -, h⟩ := h
      · exact .round spot scope rest children
      · obtain rfl := assigns_handOver.1 h
        exact .nextRound spot scope rest children draft
  | invoke spot role path =>
    rw [plan] at h
    cases hcall : (w.stageAt spot).invoke role path spot.data spot.origin spot.draft with
    | ok draft =>
      rw [hcall] at h
      cases h
    | error error =>
      rw [hcall] at h
      cases h

/-- What is left to do: the snippets that are not in the chain, then the part of the template, then
the rounds. -/
def work (w : Workshop) : Task → Nat ×ₗ Nat ×ₗ Nat
  | .snippet chain _ _ _ => toLex (w.registry.unused chain, toLex (0, 0))
  | .nodes spot children => toLex (w.registry.unused spot.chain, toLex (Markup.weights children, 0))
  | .node spot node => toLex (w.registry.unused spot.chain, toLex (node.weight, 0))
  | .branches spot _ _ children =>
    toLex (w.registry.unused spot.chain, toLex (Markup.weights children, 0))
  | .rounds spot scopes children =>
    toLex (w.registry.unused spot.chain, toLex (Markup.weights children + 1, scopes.length))
  | .invoke spot _ _ => toLex (w.registry.unused spot.chain, toLex (0, 0))

theorem toLex_lt_of_weight {n a b : Nat} (c d : Nat) (h : a < b) :
    toLex (n, toLex (a, c)) < toLex (n, toLex (b, d)) :=
  Prod.Lex.right n (Prod.Lex.left c d h)

theorem work_lt_of_mayAssign (h : w.MayAssign task other) : w.work other < w.work task := by
  cases h with
  | content draft hget hnew | completion draft path hget hnew =>
    exact Prod.Lex.left _ _ (Registry.unused_extend_lt hget (by simp [hnew]))
  | first spot child rest | others spot child rest =>
    apply toLex_lt_of_weight
    rw [Markup.weights]
    omega
  | children spot tag children | choice spot tag children | loop children
  | call spot tag children =>
    apply toLex_lt_of_weight
    rw [Markup.Node.weight]
    omega
  | insertion children hdir hname => exact toLex_lt_of_weight _ _ (Markup.Node.weight_pos _)
  | branch spot mode matched tag children rest =>
    apply toLex_lt_of_weight
    rw [Markup.weights, Markup.Node.weight]
    omega
  | nextBranch spot mode matched child rest =>
    apply toLex_lt_of_weight
    rw [Markup.weights]
    omega
  | round spot scope rest children => exact toLex_lt_of_weight _ _ (Nat.lt_succ_self _)
  | nextRound spot scope rest children draft =>
    exact Prod.Lex.right _ (Prod.Lex.right _ (Nat.lt_succ_self _))

/-- A statement about tasks follows if it follows for each task from all that it can assign. -/
theorem task_induction {P : Task → Prop}
    (step : ∀ task, (∀ other, w.MayAssign task other → P other) → P task) (task : Task) :
    P task := by
  have wf : WellFounded fun other task => w.work other < w.work task :=
    InvImage.wf w.work wellFounded_lt
  induction task using wf.induction with
  | _ task ih => exact step task fun other h => ih other (work_lt_of_mayAssign h)

/-- Only a snippet makes the chain longer, by a token that the chain did not have. -/
theorem chain_of_mayAssign (h : w.MayAssign task other) :
    task.key? = none ∧ other.chain = task.chain ∨
      ∃ key snippet, task.key? = some key ∧ w.registry.get? key = some snippet ∧
        task.chain.contains snippet.token = false ∧
        other.chain = task.chain.extend snippet.token := by
  cases h with
  | content draft hget hnew => exact .inr ⟨_, _, rfl, hget, hnew, rfl⟩
  | completion draft path hget hnew => exact .inr ⟨_, _, rfl, hget, hnew, rfl⟩
  | _ => exact .inl ⟨rfl, rfl⟩

/-- The tasks under way at a moment of a run that began with a task, the innermost first: each is
assigned by the one behind it. -/
inductive UnderWay (w : Workshop) (start : Task) : List Task → Prop where
  | start : UnderWay w start [start]
  | assign {task other : Task} {rest : List Task} (h : UnderWay w start (task :: rest))
      (hassign : w.Assigns task other) : UnderWay w start (other :: task :: rest)

end Workshop

def activeKeys (tasks : List Task) : List Key := tasks.filterMap Task.key?

namespace Workshop

def token? (w : Workshop) (key : Key) : Option String := (w.registry.get? key).map Snippet.token

/-- The chain tells the productions under way: it has the tokens of their snippets, each once. -/
structure Tells (w : Workshop) (chain : Chain) (keys : List Key) : Prop where
  nodup : chain.tokens.Nodup
  tokens : keys.map w.token? = chain.tokens.reverse.map some

theorem Tells.extend {w : Workshop} {chain : Chain} {keys : List Key} {key : Key}
    {snippet : Snippet} (h : w.Tells chain keys) (hget : w.registry.get? key = some snippet)
    (hnew : chain.contains snippet.token = false) :
    w.Tells (chain.extend snippet.token) (key :: keys) where
  nodup := by
    have hmem : snippet.token ∉ chain.tokens := by simpa [Chain.contains] using hnew
    have hnodup := h.nodup.concat hmem
    rwa [List.concat_eq_append] at hnodup
  tokens := by
    rw [List.map_cons, h.tokens, token?, hget]
    simp [Chain.extend]

theorem Tells.mem_tokens_iff {w : Workshop} {chain : Chain} {keys : List Key}
    (h : w.Tells chain keys) (token : String) :
    token ∈ chain.tokens ↔ ∃ key ∈ keys, w.token? key = some token := by
  calc token ∈ chain.tokens ↔ some token ∈ chain.tokens.reverse.map some := by simp
    _ ↔ ∃ key ∈ keys, w.token? key = some token := by rw [← h.tokens, List.mem_map]

theorem tells_of_underWay {w : Workshop} {key : Key} {data : Data} {origin : Origin}
    {stack : List Task} (h : w.UnderWay (.snippet .empty key data origin) stack) :
    ∀ task rest, stack = task :: rest → w.Tells task.chain (activeKeys rest) := by
  induction h with
  | start =>
    rintro task rest ⟨⟩
    exact ⟨List.nodup_nil, rfl⟩
  | @assign task other rest h hassign ih =>
    rintro _ _ ⟨⟩
    have tells := ih task rest rfl
    obtain ⟨hkey, hchain⟩ | ⟨key, snippet, hkey, hget, hnew, hchain⟩ :=
      chain_of_mayAssign (mayAssign_of_assigns hassign)
    · rw [hchain, activeKeys, List.filterMap_cons_none hkey]
      exact tells
    · rw [hchain, activeKeys, List.filterMap_cons_some hkey]
      exact tells.extend hget hnew

end Workshop

end MarkupSnippets

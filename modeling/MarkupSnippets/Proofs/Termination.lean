import Mathlib.Data.List.Perm.Subperm
import MarkupSnippets.Proofs.Assignment

namespace MarkupSnippets

def Plan.carryOutWithin (outcome : Task → Option (Except ProduceError Draft)) :
    Plan → Option (Except ProduceError Draft)
  | finish draft => some (.ok draft)
  | fail error => some (.error error)
  | assign task next =>
    match outcome task with
    | none => none
    | some (.ok draft) => (next draft).carryOutWithin outcome
    | some (.error error) => some (.error error)

namespace Workshop

variable {w : Workshop}

/-- Carry out a task, giving up where tasks are nested too deep. -/
def outcomeWithin (w : Workshop) : Nat → Task → Option (Except ProduceError Draft)
  | 0, _ => none
  | depth + 1, task => (w.plan task).carryOutWithin (w.outcomeWithin depth)

theorem exists_depth_of_plan (plan : Plan)
    (h : ∀ task, plan.Assigns w.outcome task →
      ∃ depth, ∀ more, depth ≤ more → w.outcomeWithin more task = some (w.outcome task)) :
    ∃ depth, ∀ more, depth ≤ more →
      plan.carryOutWithin (w.outcomeWithin more) = some (plan.carryOut w.outcome) := by
  induction plan with
  | finish draft => exact ⟨0, fun _ _ => rfl⟩
  | fail error => exact ⟨0, fun _ _ => rfl⟩
  | assign task next ih =>
    obtain ⟨depth, hdepth⟩ := h task (.inl rfl)
    cases houtcome : w.outcome task with
    | error error =>
      refine ⟨depth, fun more hmore => ?_⟩
      simp only [Plan.carryOutWithin, Plan.carryOut, hdepth more hmore, houtcome]
      rfl
    | ok draft =>
      obtain ⟨later, hlater⟩ :=
        ih draft fun other hother => h other (.inr ⟨draft, houtcome, hother⟩)
      refine ⟨max depth later, fun more hmore => ?_⟩
      have htask := hdepth more ((le_max_left _ _).trans hmore)
      simp only [Plan.carryOutWithin, Plan.carryOut, htask, houtcome]
      exact hlater more ((le_max_right _ _).trans hmore)

theorem exists_depth (task : Task) :
    ∃ depth, ∀ more, depth ≤ more → w.outcomeWithin more task = some (w.outcome task) := by
  induction task using w.task_induction with
  | step task ih =>
    obtain ⟨depth, hdepth⟩ :=
      exists_depth_of_plan (w.plan task) fun other h => ih other (mayAssign_of_assigns h)
    refine ⟨depth + 1, fun more hmore => ?_⟩
    obtain ⟨more, rfl⟩ := Nat.exists_eq_add_of_le' hmore
    rw [outcome_eq_carryOut]
    exact hdepth (more + depth) (Nat.le_add_left depth more)

theorem length_le_size_of_tells {chain : Chain} {keys : List Key} (h : w.Tells chain keys) :
    chain.tokens.length ≤ w.registry.snippets.size := by
  have hsub : chain.tokens ⊆ w.registry.snippets.toList.map fun entry => entry.2.token := by
    intro token htoken
    obtain ⟨key, -, hkey⟩ := (h.mem_tokens_iff token).1 htoken
    obtain ⟨snippet, hget, rfl⟩ := Option.map_eq_some_iff.1 hkey
    exact List.mem_map.2 ⟨_, Record.mem_toList_of_get? hget, rfl⟩
  calc chain.tokens.length
      ≤ (w.registry.snippets.toList.map fun entry => entry.2.token).length :=
        (h.nodup.subperm hsub).length_le
    _ = w.registry.snippets.toList.length := List.length_map _
    _ = w.registry.snippets.size := (List.length_map Prod.fst).symm

/-- Producing a snippet comes to an end. Each task assigns tasks with less work only, and the chain
of each task under way has one token for each production around it, all different and all of stored
snippets, so that there are no more of them than stored snippets. -/
theorem produce_terminates (w : Workshop) (key : Key) (data : Data) :
    (∃ depth, ∀ more, depth ≤ more →
      w.outcomeWithin more (.snippet .empty key data []) = some (w.produce key data)) ∧
    (∀ task other, w.Assigns task other → w.work other < w.work task) ∧
    ∀ task around, w.UnderWay (.snippet .empty key data []) (task :: around) →
      task.chain.tokens.Nodup ∧
      (∀ token ∈ task.chain.tokens,
        ∃ key snippet, w.registry.get? key = some snippet ∧ snippet.token = token) ∧
      (activeKeys around).length = task.chain.tokens.length ∧
      (activeKeys around).length ≤ w.registry.snippets.size := by
  refine ⟨exists_depth _, fun task other h => work_lt_of_mayAssign (mayAssign_of_assigns h), ?_⟩
  intro task around h
  -- The chain has each token once and only those of stored snippets, which bounds the nesting.
  have tells : w.Tells task.chain (activeKeys around) := tells_of_underWay h task around rfl
  have hlength : (activeKeys around).length = task.chain.tokens.length := by
    simpa using congrArg List.length tells.tokens
  refine ⟨tells.nodup, fun token htoken => ?_, hlength, ?_⟩
  · obtain ⟨key, -, hkey⟩ := (tells.mem_tokens_iff token).1 htoken
    obtain ⟨snippet, hget, htoken⟩ := Option.map_eq_some_iff.1 hkey
    exact ⟨key, snippet, hget, htoken⟩
  · exact hlength ▸ length_le_size_of_tells tells

end Workshop

end MarkupSnippets

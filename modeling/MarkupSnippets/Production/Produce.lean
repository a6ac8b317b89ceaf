import MarkupSnippets.Production.Chain
import MarkupSnippets.Production.Expand
import MarkupSnippets.Snippet.Registry

namespace MarkupSnippets

theorem Chain.contains_extend {chain : Chain} {token other : String} :
    (chain.extend token).contains other = (chain.contains other || other == token) := by
  rw [Bool.eq_iff_iff]
  simp [Chain.contains, Chain.extend]

theorem countP_lt_of_mem {α : Type} {p q : α → Bool} {xs : List α} {x : α}
    (himp : ∀ y, q y = true → p y = true) (hx : x ∈ xs) (hp : p x = true) (hq : q x = false) :
    xs.countP q < xs.countP p := by
  induction xs with
  | nil => cases hx
  | cons y ys ih =>
    rcases List.mem_cons.1 hx with rfl | hx
    · rw [List.countP_cons_of_neg (by simp [hq]), List.countP_cons_of_pos hp]
      exact Nat.lt_succ_of_le (List.countP_mono_left fun y _ => himp y)
    · have := ih hx
      rw [List.countP_cons, List.countP_cons]
      by_cases hy : q y = true
      · simp only [hy, himp y hy, if_true]
        omega
      · simp only [hy, Bool.false_eq_true, if_false]
        omega

namespace Registry

def unused (r : Registry) (chain : Chain) : Nat :=
  r.snippets.toList.countP fun (_, snippet) => !chain.contains snippet.token

theorem unused_extend_lt {r : Registry} {chain : Chain} {key : Key} {snippet : Snippet}
    (hget : r.get? key = some snippet) (hnew : ¬chain.contains snippet.token = true) :
    r.unused (chain.extend snippet.token) < r.unused chain := by
  refine countP_lt_of_mem (fun entry h => ?_) (Record.mem_toList_of_get? hget) ?_ ?_
  · simp only [Chain.contains_extend, Bool.not_or, Bool.and_eq_true] at h
    exact h.1
  · simpa using hnew
  · simp [Chain.contains_extend]

end Registry

/-- What a production needs besides the snippet, the data and the place. -/
structure Workshop where
  settings : Settings
  registry : Registry
  host : Host

namespace Workshop

/-- Produce a snippet at a place, with the snippets of a chain being produced around it. With each
insertion there are fewer stored snippets left that are not in the chain. -/
def produceWith (w : Workshop) (chain : Chain) (key : Key) (data : Data) (origin : Origin) :
    Except ProduceError Draft :=
  match hget : w.registry.get? key with
  | none => .error (.notFound key origin)
  | some snippet =>
    if hnew : chain.contains snippet.token then
      .error (.recursion key (chain.extend snippet.token).tokens origin)
    else
      have := Registry.unused_extend_lt hget hnew
      let stage : Stage := {
        settings := w.settings
        host := w.host
        insert := fun key data origin =>
          w.produceWith (chain.extend snippet.token) key data origin
        location := snippet.token }
      let template := snippet.template
      let here := origin.enter template.tag snippet.token
      stage.element snippet.ns template.tag data here [] fun draft =>
        stage.nodes data here draft template.children
termination_by w.registry.unused chain

def produce (w : Workshop) (key : Key) (data : Data) : Except ProduceError Draft :=
  w.produceWith .empty key data []

end Workshop

end MarkupSnippets

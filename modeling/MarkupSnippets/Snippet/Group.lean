import MarkupSnippets.Record
import MarkupSnippets.Snippet.Key

namespace MarkupSnippets.Key

/-- The direct sub-group of a group that a key lies in, if it lies in one. -/
def subgroup? (group : List Char) (key : Key) : Option (List Char) :=
  match Text.dropStart? group key.chars with
  | some rest =>
    if '/' ∈ rest then some (group ++ (rest.takeWhile (· != '/') ++ ['/'])) else none
  | none => none

def subgroups (keys : List Key) (group : String) : List String :=
  (Record.ofList ((keys.filterMap (subgroup? group.toList)).map fun g =>
    (String.ofList g, ()))).keys

def members (keys : List Key) (group : String) : List Key :=
  keys.filter fun key => key.group == group

def longest (keys : List Key) : Nat :=
  (keys.map fun key => key.chars.length).foldr max 0

theorem length_le_longest {key : Key} {keys : List Key} (h : key ∈ keys) :
    key.chars.length ≤ longest keys := by
  induction keys with
  | nil => cases h
  | cons k keys ih =>
    simp only [longest, List.map_cons, List.foldr_cons]
    rcases List.mem_cons.1 h with rfl | h
    · exact Nat.le_max_left _ _
    · exact Nat.le_trans (ih h) (Nat.le_max_right _ _)

theorem length_takeWhile_lt {rest : List Char} (h : '/' ∈ rest) :
    (rest.takeWhile (· != '/')).length < rest.length := by
  induction rest with
  | nil => cases h
  | cons c rest ih =>
    by_cases hc : c = '/'
    · simp [hc]
    · have := ih ((List.mem_cons.1 h).resolve_left (Ne.symm hc))
      simp [hc, this]

theorem length_of_subgroup? {group g : List Char} {key : Key}
    (h : subgroup? group key = some g) :
    group.length < g.length ∧ g.length ≤ key.chars.length := by
  unfold subgroup? at h
  split at h
  · next rest hrest =>
    split at h
    · next hmem =>
      obtain rfl := Option.some.inj h
      rw [Text.dropStart?_eq_some.1 hrest]
      have := length_takeWhile_lt hmem
      simp only [List.length_append, List.length_cons, List.length_nil]
      omega
    · cases h
  · cases h

theorem length_of_mem_subgroups {keys : List Key} {group g : String}
    (h : g ∈ subgroups keys group) :
    group.toList.length < g.toList.length ∧ g.toList.length ≤ longest keys := by
  simp only [subgroups, Record.mem_keys_ofList, List.map_map, List.mem_map, List.mem_filterMap,
    Function.comp] at h
  obtain ⟨cs, ⟨key, hkey, hsub⟩, rfl⟩ := h
  obtain ⟨hlt, hle⟩ := length_of_subgroup? hsub
  rw [String.toList_ofList]
  exact ⟨hlt, Nat.le_trans hle (length_le_longest hkey)⟩

/-- The keys in a group: its own members first, then those of each sub-group in order. -/
def below (keys : List Key) (group : String) : List Key :=
  members keys group ++ (subgroups keys group).attach.flatMap fun ⟨g, hg⟩ =>
    have := length_of_mem_subgroups hg
    below keys g
termination_by longest keys - group.toList.length

def groupsBelow (keys : List Key) (group : String) : List String :=
  (subgroups keys group).attach.flatMap fun ⟨g, hg⟩ =>
    have := length_of_mem_subgroups hg
    g :: groupsBelow keys g
termination_by longest keys - group.toList.length

end MarkupSnippets.Key

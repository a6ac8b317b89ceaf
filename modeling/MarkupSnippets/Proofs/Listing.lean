import MarkupSnippets.Proofs.ByteOrder
import MarkupSnippets.Proofs.Definitions
import MarkupSnippets.Proofs.Groups

namespace MarkupSnippets

theorem Fields.isSome_get?_iff {α : Type} {query : String} {fields : Fields α} :
    (fields.get? query).isSome = true ↔ query ∈ fields.keys := by
  induction fields with
  | nil => simp [get?]
  | cons k v rest ih => by_cases hq : query = k <;> simp [get?, hq, ih]

namespace Key

theorem length_squeeze_le (afterSlash : Bool) (cs : List Char) :
    (squeeze afterSlash cs).length ≤ cs.length := by
  induction cs generalizing afterSlash with
  | nil => exact Nat.le_refl 0
  | cons c cs ih =>
    by_cases hc : c = '/'
    · cases afterSlash with
      | false => simpa [squeeze, hc] using ih true
      | true => simpa [squeeze, hc] using Nat.le_succ_of_le (ih true)
    · simpa [squeeze, hc] using ih false

theorem squeeze_of_append {afterSlash : Bool} {cs ds : List Char}
    (h : squeeze afterSlash (cs ++ ds) = cs ++ ds) : squeeze afterSlash cs = cs := by
  induction cs generalizing afterSlash with
  | nil => rfl
  | cons c cs ih =>
    by_cases hc : c = '/'
    · cases afterSlash with
      | false =>
        simp only [List.cons_append, squeeze, hc, ↓reduceIte, Bool.false_eq_true,
          List.cons.injEq, true_and] at h ⊢
        exact ih h
      | true =>
        have hle := length_squeeze_le true (cs ++ ds)
        simp only [List.cons_append, squeeze, hc, ↓reduceIte] at h
        rw [h, List.length_cons] at hle
        omega
    · simp only [List.cons_append, squeeze, hc, ↓reduceIte, List.cons.injEq, true_and] at h ⊢
      exact ih h

theorem normalize_of_starts {cs ds : List Char} (hds : normalize ds = ds) (h : cs <+: ds)
    (hne : cs ≠ []) : normalize cs = cs := by
  obtain ⟨c, cs, rfl⟩ := List.exists_cons_of_ne_nil hne
  obtain ⟨rest, rfl⟩ := h
  rw [normalize, List.cons_append] at hds
  obtain ⟨rfl, hds⟩ := List.cons.inj hds
  rw [squeeze, if_pos rfl, if_pos rfl] at hds
  rw [normalize, squeeze, if_pos rfl, if_pos rfl, squeeze_of_append hds]

theorem squeeze_concat_slash {afterSlash : Bool} {cs : List Char} (hne : cs ≠ [])
    (hlast : cs.getLast? ≠ some '/') :
    squeeze afterSlash (cs ++ ['/']) = squeeze afterSlash cs ++ ['/'] := by
  induction cs generalizing afterSlash with
  | nil => exact absurd rfl hne
  | cons c cs ih =>
    cases cs with
    | nil =>
      have hc : c ≠ '/' := by simpa using hlast
      simp [squeeze, hc]
    | cons d cs =>
      have hrest (b : Bool) : squeeze b (d :: (cs ++ ['/'])) = squeeze b (d :: cs) ++ ['/'] :=
        ih (List.cons_ne_nil d cs) (by rwa [List.getLast?_cons_cons] at hlast)
      rw [List.cons_append, List.cons_append, squeeze, squeeze.eq_def afterSlash (c :: d :: cs)]
      simp only [hrest]
      by_cases hc : c = '/'
      · cases afterSlash <;> simp [hc]
      · simp [hc]

theorem normalize_groupChars (cs : List Char) : normalize (groupChars cs) = groupChars cs := by
  rw [groupChars]
  split
  · exact normalize_normalize cs
  · next hlast =>
    have hne : squeeze true cs ≠ [] := fun hnil => hlast (by rw [normalize, hnil]; rfl)
    have hlast : (squeeze true cs).getLast? ≠ some '/' := fun h =>
      hlast (by rw [normalize, List.getLast?_cons, h]; rfl)
    have happend : normalize cs ++ ['/'] = '/' :: (squeeze true cs ++ ['/']) := rfl
    rw [happend, normalize, squeeze, if_pos rfl, if_pos rfl, squeeze_concat_slash hne hlast,
      squeeze_squeeze]

theorem isPath_groupPath (path : String) : IsPath (groupPath path) := by
  rw [IsPath, groupPath, String.toList_ofList, groupChars]
  split
  · assumption
  · exact List.getLast?_concat

/-- A group that some key lies in is in normal form. -/
theorem groupPath_of_liesIn {key : Key} {group : String} (hgroup : IsPath group)
    (h : key.LiesIn group) : groupPath group = group := by
  have hne : group.toList ≠ [] := by
    intro hnil
    rw [IsPath, hnil] at hgroup
    cases hgroup
  rw [groupPath, groupChars, normalize_of_starts key.normal h hne]
  exact (congrArg String.ofList (if_pos hgroup)).trans String.ofList_toList

theorem groupPath_groupPath (path : String) : groupPath (groupPath path) = groupPath path := by
  have hlast : (groupChars path.toList).getLast? = some '/' := by
    rw [← String.toList_ofList (l := groupChars path.toList)]
    exact isPath_groupPath path
  rw [groupPath, groupPath, String.toList_ofList, groupChars.eq_1 (groupChars path.toList),
    normalize_groupChars]
  exact congrArg String.ofList (if_pos hlast)

theorem groupPath_of_mem_subgroups {keys : List Key} {group sub : String}
    (h : sub ∈ subgroups keys group) : groupPath sub = sub := by
  obtain ⟨hdirect, key, -, hlies⟩ := mem_subgroups.1 h
  exact groupPath_of_liesIn hdirect.isPath hlies

end Key

namespace Registry

/-- A store that was filled step by step. -/
inductive Reached : Registry → Prop where
  | empty : Reached .empty
  | put {r : Registry} (h : Reached r) (snippet : Snippet) : Reached (r.put snippet)
  | markSource {r : Registry} (h : Reached r) (source : String) : Reached (r.markSource source)

variable {r : Registry}

theorem Reached.putAll (h : r.Reached) (snippets : List Snippet) : (r.putAll snippets).Reached := by
  induction snippets generalizing r with
  | nil => exact h
  | cons snippet rest ih => exact ih (h.put snippet)

theorem key_of_mem_toList (h : r.Reached) :
    ∀ entry ∈ r.snippets.toList, entry.2.key.text = entry.1 := by
  induction h with
  | empty => exact fun _ hentry => nomatch hentry
  | put h snippet ih =>
    intro entry hentry
    obtain rfl | hentry := Record.mem_toList_insert hentry
    · rfl
    · exact ih entry hentry
  | markSource h source ih => rwa [snippets_markSource]

theorem map_text_keys (h : r.Reached) : r.keys.map Key.text = r.snippets.keys := by
  rw [keys, List.map_map]
  exact List.map_congr_left (key_of_mem_toList h)

theorem mem_keys (h : r.Reached) {key : Key} : key ∈ r.keys ↔ r.has key = true := by
  have hinj : Function.Injective Key.text := fun _ _ => Key.text_inj.1
  rw [← List.mem_map_of_injective hinj, map_text_keys h]
  exact Fields.isSome_get?_iff.symm

theorem pairwise_keys (h : r.Reached) : r.keys.Pairwise fun k l => k.text < l.text := by
  have hordered : r.snippets.keys.Pairwise (· < ·) := r.snippets.ordered
  rw [← map_text_keys h, List.pairwise_map] at hordered
  exact hordered

theorem nodup_keys (h : r.Reached) : r.keys.Nodup := by
  refine (pairwise_keys h).imp ?_
  rintro k _ hlt rfl
  exact String.lt_irrefl _ hlt

theorem listSnippets_eq (r : Registry) (path : String) :
    r.listSnippets path true =
      r.listSnippets path false ++ (r.listGroups path false).flatMap (r.listSnippets · true) := by
  simp only [listSnippets, listGroups, Bool.false_eq_true, ↓reduceIte]
  rw [Key.below_eq, List.append_cancel_left_eq]
  exact List.flatMap_congr fun sub hsub => by rw [Key.groupPath_of_mem_subgroups hsub]

theorem listGroups_eq (r : Registry) (path : String) :
    r.listGroups path true =
      (r.listGroups path false).flatMap fun sub => sub :: r.listGroups sub true := by
  simp only [listGroups, Bool.false_eq_true, ↓reduceIte]
  rw [Key.groupsBelow_eq]
  exact List.flatMap_congr fun sub hsub => by rw [Key.groupPath_of_mem_subgroups hsub]

/-- Go down from a group, giving up where groups are nested too deep: first what the group has of
its own, then, for each sub-group, what comes first of it and what going down from it gives. -/
def descend {α : Type} (r : Registry) (own first : String → List α) :
    Nat → String → Option (List α)
  | 0, _ => none
  | depth + 1, path =>
    ((r.listGroups path false).mapM fun sub =>
      (r.descend own first depth sub).map (first sub ++ ·)).map fun parts =>
        own path ++ parts.flatten

theorem mapM_eq_some_map {α β : Type} {f : α → Option β} {g : α → β} {xs : List α}
    (h : ∀ x ∈ xs, f x = some (g x)) : xs.mapM f = some (xs.map g) := by
  induction xs with
  | nil => rfl
  | cons x xs ih =>
    rw [List.mapM_cons, h x List.mem_cons_self, ih fun y hy => h y (List.mem_cons_of_mem x hy)]
    rfl

section Descend

variable {α : Type} {own first : String → List α} {f : String → List α}

theorem descend_succ
    (hf : ∀ path, f path =
      own path ++ (r.listGroups path false).flatMap fun sub => first sub ++ f sub)
    {depth : Nat} {path : String}
    (hsubs : ∀ sub ∈ r.listGroups path false, r.descend own first depth sub = some (f sub)) :
    r.descend own first (depth + 1) path = some (f path) := by
  have hparts : ((r.listGroups path false).mapM fun sub =>
      (r.descend own first depth sub).map (first sub ++ ·)) =
        some ((r.listGroups path false).map fun sub => first sub ++ f sub) :=
    mapM_eq_some_map fun sub hsub => by rw [hsubs sub hsub, Option.map_some]
  rw [descend, hparts, Option.map_some, hf path, List.flatMap]

/-- Going down needs no more depth than the longest key has characters: sub-groups are longer than
their groups. -/
theorem descend_eq
    (hf : ∀ path, f path =
      own path ++ (r.listGroups path false).flatMap fun sub => first sub ++ f sub)
    (depth : Nat) (path : String)
    (hdepth : Key.longest r.keys ≤ depth + (Key.groupPath path).toList.length) :
    r.descend own first (depth + 1) path = some (f path) := by
  induction depth generalizing path with
  | zero =>
    refine descend_succ hf fun sub hsub => ?_
    have hlength := Key.length_of_mem_subgroups hsub
    omega
  | succ depth ih =>
    refine descend_succ hf fun sub hsub => ih sub ?_
    have hlength := Key.length_of_mem_subgroups hsub
    rw [Key.groupPath_of_mem_subgroups hsub]
    omega

end Descend

def listSnippetsWithin (r : Registry) : Nat → String → Option (List Key) :=
  r.descend (r.listSnippets · false) fun _ => []

def listGroupsWithin (r : Registry) : Nat → String → Option (List String) :=
  r.descend (fun _ => []) fun sub => [sub]

theorem listSnippetsWithin_eq {depth : Nat} (hdepth : Key.longest r.keys < depth) (path : String) :
    r.listSnippetsWithin depth path = some (r.listSnippets path true) := by
  obtain ⟨depth, rfl⟩ := Nat.exists_eq_add_one.2 (Nat.zero_lt_of_lt hdepth)
  have hf (path : String) : r.listSnippets path true =
      r.listSnippets path false ++
        (r.listGroups path false).flatMap fun sub => [] ++ r.listSnippets sub true :=
    r.listSnippets_eq path
  exact descend_eq hf depth path (Nat.le_add_right_of_le (Nat.le_of_lt_succ hdepth))

theorem listGroupsWithin_eq {depth : Nat} (hdepth : Key.longest r.keys < depth) (path : String) :
    r.listGroupsWithin depth path = some (r.listGroups path true) := by
  obtain ⟨depth, rfl⟩ := Nat.exists_eq_add_one.2 (Nat.zero_lt_of_lt hdepth)
  have hf (path : String) : r.listGroups path true =
      [] ++ (r.listGroups path false).flatMap fun sub => [sub] ++ r.listGroups sub true :=
    r.listGroups_eq path
  exact descend_eq hf depth path (Nat.le_add_right_of_le (Nat.le_of_lt_succ hdepth))

theorem mem_listSnippets (h : r.Reached) {path : String} {key : Key} :
    key ∈ r.listSnippets path true ↔ r.has key = true ∧ key.LiesIn (Key.groupPath path) := by
  rw [listSnippets, if_pos rfl, Key.mem_below (Key.isPath_groupPath path), mem_keys h]

theorem mem_listGroups_false (h : r.Reached) {path g : String} :
    g ∈ r.listGroups path false ↔
      Key.IsDirect (Key.groupPath path) g ∧ ∃ key, r.has key = true ∧ key.LiesIn g := by
  simp only [listGroups, Bool.false_eq_true, ↓reduceIte, Key.mem_subgroups, mem_keys h]

/-- The recursive list of a group has each stored key that begins with the group once. It comes to
an end at the length of the longest key. The keys directly in a group are in the order of their
bytes; in the recursive list of any group around it they stand together with the keys below it:
first they, then, in the order of their bytes, the direct sub-groups, each with all of its keys. -/
theorem listSnippets_partition (h : r.Reached) (path : String) :
    (∀ depth, Key.longest r.keys < depth →
      r.listSnippetsWithin depth path = some (r.listSnippets path true)) ∧
    (r.listSnippets path true).Nodup ∧
    (∀ key, key ∈ r.listSnippets path true ↔
      r.has key = true ∧ key.LiesIn (Key.groupPath path)) ∧
    (r.listSnippets path false).Pairwise (fun k l => Text.utf8 k.text < Text.utf8 l.text) ∧
    (∀ key, key ∈ r.listSnippets path false ↔
      r.has key = true ∧ ∃ rest, key.chars = (Key.groupPath path).toList ++ rest ∧ '/' ∉ rest) ∧
    ∀ inner, (Key.groupPath path).toList <+: (Key.groupPath inner).toList →
      (∃ before after, r.listSnippets path true =
          before ++ (r.listSnippets inner false ++
            (r.listGroups inner false).flatMap (r.listSnippets · true)) ++ after ∧
        ∀ key ∈ before ++ after, ¬key.LiesIn (Key.groupPath inner)) ∧
      (r.listGroups inner false).Pairwise (fun s t => Text.utf8 s < Text.utf8 t) ∧
      ∀ sub, sub ∈ r.listGroups inner false →
        Key.IsDirect (Key.groupPath inner) sub ∧
        ∀ key, key ∈ r.listSnippets sub true ↔ r.has key = true ∧ key.LiesIn sub := by
  have hpath := Key.isPath_groupPath path
  refine ⟨fun depth hdepth => listSnippetsWithin_eq hdepth path,
    Key.nodup_below (nodup_keys h) hpath, fun key => mem_listSnippets h, ?_, fun key => ?_,
    fun inner hstarts => ⟨?_, ?_, fun sub hsub => ?_⟩⟩
  · simp only [← Text.lt_iff_utf8_lt]
    exact (pairwise_keys h).filter _
  · rw [← mem_keys h]
    exact Key.mem_members hpath
  · rw [← listSnippets_eq]
    exact Key.exists_block hpath (Key.isPath_groupPath inner) hstarts
  · simp only [← Text.lt_iff_utf8_lt]
    exact Key.pairwise_subgroups r.keys _
  · refine ⟨((mem_listGroups_false h).1 hsub).1, fun key => ?_⟩
    rw [mem_listSnippets h, Key.groupPath_of_mem_subgroups hsub]

def nested : Registry :=
  Registry.empty.putAll (["/top", "/nav/item", "/nav/bar", "/nav/a-b/entry/", "/nav/a/x/y"].map
    fun path => ⟨Key.ofString path, "s", "h", ⟨⟨none, none, "p", []⟩, []⟩⟩)

theorem reached_nested : nested.Reached := .putAll .empty _

theorem listSnippets_partition_nested :
    nested.Reached ∧ Key.longest nested.keys < 20 ∧
      nested.listSnippetsWithin 20 "nav" = some (nested.listSnippets "nav" true) ∧
      (Key.groupPath "nav").toList <+: (Key.groupPath "nav/a").toList ∧
      (∃ before after, nested.listSnippets "nav" true =
          before ++ (nested.listSnippets "nav/a" false ++
            (nested.listGroups "nav/a" false).flatMap (nested.listSnippets · true)) ++ after ∧
        ∀ key ∈ before ++ after, ¬key.LiesIn (Key.groupPath "nav/a")) ∧
      "/nav/a/x/" ∈ nested.listGroups "nav/a" false ∧
      Key.ofString "/nav/a/x/y" ∈ nested.listSnippets "/nav/a/x/" true := by
  obtain ⟨hwithin, -, -, -, -, hinner⟩ := listSnippets_partition reached_nested "nav"
  have hdepth : Key.longest nested.keys < 20 := by decide +kernel
  have hstarts : (Key.groupPath "nav").toList <+: (Key.groupPath "nav/a").toList := by
    decide +kernel
  have hsub : "/nav/a/x/" ∈ nested.listGroups "nav/a" false := by decide +kernel
  obtain ⟨hblock, -, hsubs⟩ := hinner "nav/a" hstarts
  refine ⟨reached_nested, hdepth, hwithin 20 hdepth, hstarts, hblock, hsub, ?_⟩
  have hlies : Key.LiesIn (Key.ofString "/nav/a/x/y") "/nav/a/x/" := ⟨['y'], by decide +kernel⟩
  exact ((hsubs "/nav/a/x/" hsub).2 _).2 ⟨by decide +kernel, hlies⟩

example : (nested.listSnippets "/" true).map Key.text =
    ["/top", "/nav/bar", "/nav/item", "/nav/a-b/entry/", "/nav/a/x/y"] := by
  decide +kernel

/-- The recursive list of groups has, in the strict order of their bytes, the texts below the group
that end in a slash and that some stored key begins with. It comes to an end at the length of the
longest key. The direct sub-groups are those with no other slash behind the group. -/
theorem listGroups_exact (h : r.Reached) (path : String) :
    (∀ depth, Key.longest r.keys < depth →
      r.listGroupsWithin depth path = some (r.listGroups path true)) ∧
    (r.listGroups path true).Pairwise (fun s t => Text.utf8 s < Text.utf8 t) ∧
    (∀ g, g ∈ r.listGroups path true ↔
      g.toList.getLast? = some '/' ∧ (Key.groupPath path).length < g.length ∧
      (Key.groupPath path).toList <+: g.toList ∧
      ∃ key, r.has key = true ∧ g.toList <+: key.chars) ∧
    ∀ g, g ∈ r.listGroups path false ↔
      g ∈ r.listGroups path true ∧
        '/' ∉ (g.toList.drop (Key.groupPath path).length).dropLast := by
  have hmem (g : String) :
      g ∈ r.listGroups path true ↔ Key.IsBelow r.keys (Key.groupPath path) g := by
    rw [listGroups, if_pos rfl, Key.mem_groupsBelow]
  refine ⟨fun depth hdepth => listGroupsWithin_eq hdepth path, ?_, fun g => ?_, fun g => ?_⟩
  · simp only [← Text.lt_iff_utf8_lt, listGroups, ↓reduceIte]
    exact Key.pairwise_groupsBelow r.keys _
  · rw [hmem, Key.isBelow_iff]
    simp only [mem_keys h]
    exact Iff.rfl
  · rw [hmem]
    exact Key.mem_subgroups_iff_isBelow

theorem listGroups_exact_nested :
    nested.Reached ∧ Key.longest nested.keys < 20 ∧
      nested.listGroupsWithin 20 "nav" = some (nested.listGroups "nav" true) ∧
      "/nav/a/x/" ∈ nested.listGroups "nav" true ∧
      "/nav/a/x/" ∉ nested.listGroups "nav" false := by
  obtain ⟨hwithin, -, hmem, hdirect⟩ := listGroups_exact reached_nested "nav"
  have hdepth : Key.longest nested.keys < 20 := by decide +kernel
  refine ⟨reached_nested, hdepth, hwithin 20 hdepth, ?_, fun h => ?_⟩
  · exact (hmem _).2 ⟨by decide +kernel, by decide +kernel, by decide +kernel,
      Key.ofString "/nav/a/x/y", by decide +kernel, by decide +kernel⟩
  · exact absurd ((hdirect _).1 h).2 (by decide +kernel)

end Registry

end MarkupSnippets

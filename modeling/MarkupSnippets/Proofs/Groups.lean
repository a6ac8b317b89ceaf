import Mathlib.Data.List.Flatten
import Mathlib.Data.List.Lex
import Mathlib.Data.List.Nodup
import MarkupSnippets.Snippet.Group

namespace MarkupSnippets

namespace Text

variable {separator : Char}

theorem not_mem_afterLast (separator : Char) (cs : List Char) :
    separator ∉ afterLast separator cs := by
  induction cs with
  | nil => exact List.not_mem_nil
  | cons c cs ih =>
    rw [afterLast]
    split
    · exact ih
    · next h => simpa using h

/-- The text through its last separator is the one beginning that ends in a separator and has none
behind it. -/
theorem throughLast_eq_iff {cs start : List Char} (hstart : start.getLast? = some separator) :
    throughLast separator cs = start ↔ ∃ rest, cs = start ++ rest ∧ separator ∉ rest := by
  constructor
  · rintro rfl
    exact ⟨_, (throughLast_append_afterLast separator cs).symm, not_mem_afterLast separator cs⟩
  · rintro ⟨rest, rfl, hrest⟩
    obtain ⟨cs, rfl⟩ := List.getLast?_eq_some_iff.1 hstart
    have hnone : throughLast separator rest = [] := by
      cases rest with
      | nil => rfl
      | cons c rest => rw [throughLast, if_neg (by simpa using hrest)]
    clear hstart
    induction cs with
    | nil => simp [throughLast, hnone]
    | cons c cs ih =>
      have hmem : (c :: (cs ++ [separator] ++ rest)).contains separator = true := by simp
      rw [List.cons_append, List.cons_append, throughLast, if_pos hmem, ih]

theorem takeWhile_ne {name : List Char} (hname : separator ∉ name) (rest : List Char) :
    (name ++ separator :: rest).takeWhile (· != separator) = name := by
  have hall : ∀ c ∈ name, (c != separator) = true := by
    intro c hc
    simpa using ne_of_mem_of_not_mem hc hname
  rw [List.takeWhile_append_of_pos hall, List.takeWhile_cons_of_neg (by simp), List.append_nil]

theorem lt_of_prefix_of_ne {xs ys : List Char} (h : xs <+: ys) (hne : xs ≠ ys) : xs < ys := by
  obtain ⟨rest, rfl⟩ := h
  induction xs with
  | nil =>
    cases rest with
    | nil => exact absurd rfl hne
    | cons c rest => exact List.nil_lt_cons c rest
  | cons x xs ih =>
    exact List.cons_lt_cons_iff.2 (.inr ⟨rfl, ih fun h => hne (congrArg (x :: ·) h)⟩)

theorem append_lt_append_of_lt {xs ys : List Char} (h : xs < ys) (hpre : ¬xs <+: ys)
    (as bs : List Char) : xs ++ as < ys ++ bs := by
  induction xs generalizing ys with
  | nil => exact absurd List.nil_prefix hpre
  | cons x xs ih =>
    cases ys with
    | nil => exact absurd h (List.not_lt_nil _)
    | cons y ys =>
      obtain hlt | ⟨rfl, hlt⟩ := List.cons_lt_cons_iff.1 h
      · exact List.cons_lt_cons_iff.2 (.inl hlt)
      · have hpre : ¬xs <+: ys := fun h => hpre (List.cons_prefix_cons.2 ⟨rfl, h⟩)
        exact List.cons_lt_cons_iff.2 (.inr ⟨rfl, ih hlt hpre⟩)

end Text

namespace Key

/-- A group as a path: it ends in a slash. -/
def IsPath (group : String) : Prop := group.toList.getLast? = some '/'

def IsDirect (group sub : String) : Prop :=
  ∃ name, '/' ∉ name ∧ sub.toList = group.toList ++ (name ++ ['/'])

/-- Whether a key lies in a group, directly or in a group below. -/
def LiesIn (key : Key) (group : String) : Prop := group.toList <+: key.chars

variable {keys : List Key} {group sub : String} {key : Key}

theorem IsPath.exists_rest (h : IsPath sub) (hstarts : group.toList <+: sub.toList)
    (hne : group ≠ sub) : ∃ names, sub.toList = group.toList ++ (names ++ ['/']) := by
  obtain ⟨rest, hrest⟩ := hstarts
  rw [IsPath, ← hrest, List.getLast?_append] at h
  cases hlast : rest.getLast? with
  | none =>
    rw [List.getLast?_eq_none_iff.1 hlast, List.append_nil] at hrest
    exact absurd (String.toList_inj.1 hrest) hne
  | some c =>
    rw [hlast] at h
    obtain ⟨names, rfl⟩ := List.getLast?_eq_some_iff.1 (hlast.trans h)
    exact ⟨names, hrest.symm⟩

theorem IsPath.slash_mem_drop (h : IsPath sub) (hstarts : group.toList <+: sub.toList)
    (hne : group ≠ sub) : '/' ∈ sub.toList.drop group.toList.length := by
  obtain ⟨names, hsub⟩ := h.exists_rest hstarts hne
  rw [hsub, List.drop_left]
  exact List.mem_append_right names (List.mem_singleton_self '/')

theorem IsDirect.isPath (h : IsDirect group sub) : IsPath sub := by
  obtain ⟨name, -, hsub⟩ := h
  rw [IsPath, hsub, ← List.append_assoc]
  exact List.getLast?_concat

theorem IsDirect.starts (h : IsDirect group sub) : group.toList <+: sub.toList := by
  obtain ⟨name, -, hsub⟩ := h
  exact ⟨_, hsub.symm⟩

theorem IsDirect.ne (h : IsDirect group sub) : group ≠ sub := by
  rintro rfl
  obtain ⟨name, -, hsub⟩ := h
  simp at hsub

/-- Different direct sub-groups have nothing in common. -/
theorem IsDirect.eq_of_starts {other : String} (h : IsDirect group sub)
    (hother : IsDirect group other) {cs : List Char} (hsub : sub.toList <+: cs)
    (hcs : other.toList <+: cs) : sub = other := by
  obtain ⟨name, hname, hsubeq⟩ := h
  obtain ⟨name', hname', hothereq⟩ := hother
  obtain ⟨rest, rfl⟩ := hsub
  obtain ⟨rest', hrest⟩ := hcs
  rw [hsubeq, hothereq] at hrest
  simp only [List.append_assoc, List.append_cancel_left_eq, List.singleton_append,
    Text.append_cons_inj hname' hname] at hrest
  rw [← String.toList_inj, hsubeq, hothereq, hrest.1]

theorem mem_members (hgroup : IsPath group) :
    key ∈ members keys group ↔
      key ∈ keys ∧ ∃ rest, key.chars = group.toList ++ rest ∧ '/' ∉ rest := by
  rw [members, List.mem_filter, beq_iff_eq, Key.group, ← Text.throughLast_eq_iff hgroup,
    ← String.toList_inj, String.toList_ofList]

theorem subgroup?_eq_some :
    subgroup? group.toList key = some sub.toList ↔ IsDirect group sub ∧ key.LiesIn sub := by
  constructor
  · intro h
    rw [subgroup?] at h
    split at h
    · next rest hdrop =>
      have hkey := Text.dropStart?_eq_some.1 hdrop
      split at h
      · next hmem =>
        obtain ⟨name, tail, rfl, hname⟩ := List.eq_append_cons_of_mem hmem
        rw [Text.takeWhile_ne hname] at h
        have hsub := Option.some.inj h
        refine ⟨⟨name, hname, hsub.symm⟩, tail, ?_⟩
        rw [← hsub, hkey]
        simp
      · cases h
    · cases h
  · rintro ⟨⟨name, hname, hsub⟩, rest, hkey⟩
    have hdrop : Text.dropStart? group.toList key.chars = some (name ++ '/' :: rest) := by
      rw [Text.dropStart?_eq_some, ← hkey, hsub]
      simp
    rw [subgroup?, hdrop]
    simp [Text.takeWhile_ne hname, hsub]

theorem mem_subgroups :
    sub ∈ subgroups keys group ↔ IsDirect group sub ∧ ∃ key ∈ keys, key.LiesIn sub := by
  have hsub (key : Key) :
      (∃ cs, subgroup? group.toList key = some cs ∧ String.ofList cs = sub) ↔
        IsDirect group sub ∧ key.LiesIn sub := by
    rw [← subgroup?_eq_some]
    constructor
    · rintro ⟨cs, hcs, rfl⟩
      rwa [String.toList_ofList]
    · exact fun h => ⟨_, h, String.ofList_toList⟩
  simp only [subgroups, Record.mem_keys_ofList, List.map_map, List.mem_map, List.mem_filterMap,
    Function.comp]
  constructor
  · rintro ⟨cs, ⟨key, hkey, hcs⟩, rfl⟩
    obtain ⟨hdirect, hlies⟩ := (hsub key).1 ⟨cs, hcs, rfl⟩
    exact ⟨hdirect, key, hkey, hlies⟩
  · rintro ⟨hdirect, key, hkey, hlies⟩
    obtain ⟨cs, hcs, hsub⟩ := (hsub key).2 ⟨hdirect, hlies⟩
    exact ⟨cs, ⟨key, hkey, hcs⟩, hsub⟩

theorem pairwise_subgroups (keys : List Key) (group : String) :
    (subgroups keys group).Pairwise (· < ·) :=
  (Record.ofList _).ordered

theorem nodup_subgroups (keys : List Key) (group : String) : (subgroups keys group).Nodup :=
  (pairwise_subgroups keys group).imp String.ne_of_lt

theorem exists_direct {cs : List Char} (hgroup : group.toList <+: cs)
    (hslash : '/' ∈ cs.drop group.toList.length) :
    ∃ sub, IsDirect group sub ∧ sub.toList <+: cs := by
  obtain ⟨rest, rfl⟩ := hgroup
  rw [List.drop_left] at hslash
  obtain ⟨name, tail, rfl, hname⟩ := List.eq_append_cons_of_mem hslash
  refine ⟨String.ofList (group.toList ++ (name ++ ['/'])), ⟨name, hname, ?_⟩, tail, ?_⟩
  · rw [String.toList_ofList]
  · simp

theorem below_eq (keys : List Key) (group : String) :
    below keys group =
      members keys group ++ (subgroups keys group).flatMap (below keys) := by
  rw [below, List.flatMap_subtype (g := below keys) fun _ _ => rfl, List.unattach_attach]

theorem groupsBelow_eq (keys : List Key) (group : String) :
    groupsBelow keys group =
      (subgroups keys group).flatMap fun sub => sub :: groupsBelow keys sub := by
  rw [groupsBelow, List.flatMap_subtype (g := fun sub => sub :: groupsBelow keys sub)
    fun _ _ => rfl, List.unattach_attach]

theorem below_eq_flatMap (keys : List Key) (group : String) :
    below keys group = (group :: groupsBelow keys group).flatMap (members keys) := by
  induction group using below.induct keys with
  | case1 group ih =>
    rw [below_eq, List.flatMap_cons, groupsBelow_eq, List.flatMap_assoc]
    congr 1
    exact List.flatMap_congr ih

/-- A text that is a group below another: it ends in a slash, and some key lies in it. -/
structure IsBelow (keys : List Key) (group sub : String) : Prop where
  isPath : IsPath sub
  starts : group.toList <+: sub.toList
  ne : group ≠ sub
  inhabited : ∃ key ∈ keys, key.LiesIn sub

theorem isBelow_iff :
    IsBelow keys group sub ↔
      IsPath sub ∧ group.length < sub.length ∧ group.toList <+: sub.toList ∧
        ∃ key ∈ keys, key.LiesIn sub := by
  rw [← String.length_toList, ← String.length_toList]
  constructor
  · intro h
    obtain ⟨names, hsub⟩ := h.isPath.exists_rest h.starts h.ne
    refine ⟨h.isPath, ?_, h.starts, h.inhabited⟩
    simp [hsub]
  · rintro ⟨hpath, hlength, hstarts, hkey⟩
    refine ⟨hpath, hstarts, ?_, hkey⟩
    rintro rfl
    exact Nat.lt_irrefl _ hlength

theorem mem_subgroups_iff_isBelow :
    sub ∈ subgroups keys group ↔
      IsBelow keys group sub ∧ '/' ∉ (sub.toList.drop group.length).dropLast := by
  rw [mem_subgroups, ← String.length_toList]
  constructor
  · rintro ⟨hdirect, hkey⟩
    refine ⟨⟨hdirect.isPath, hdirect.starts, hdirect.ne, hkey⟩, ?_⟩
    obtain ⟨name, hname, hsub⟩ := hdirect
    rwa [hsub, List.drop_left, List.dropLast_concat]
  · rintro ⟨hbelow, hslash⟩
    obtain ⟨names, hsub⟩ := hbelow.isPath.exists_rest hbelow.starts hbelow.ne
    rw [hsub, List.drop_left, List.dropLast_concat] at hslash
    exact ⟨⟨names, hslash, hsub⟩, hbelow.inhabited⟩

theorem mem_groupsBelow (keys : List Key) (group sub : String) :
    sub ∈ groupsBelow keys group ↔ IsBelow keys group sub := by
  induction group using below.induct keys with
  | case1 group ih =>
    rw [groupsBelow_eq, List.mem_flatMap]
    constructor
    · rintro ⟨direct, hdirect, hmem⟩
      obtain ⟨hdir, hkey⟩ := mem_subgroups.1 hdirect
      obtain rfl | hmem := List.mem_cons.1 hmem
      · exact ⟨hdir.isPath, hdir.starts, hdir.ne, hkey⟩
      · have hbelow := (ih direct hdirect).1 hmem
        refine ⟨hbelow.isPath, hdir.starts.trans hbelow.starts, ?_, hbelow.inhabited⟩
        rintro rfl
        exact hdir.ne (String.toList_inj.1 (hdir.starts.eq_of_length_le hbelow.starts.length_le))
    · intro h
      obtain ⟨key, hkey, hlies⟩ := h.inhabited
      obtain ⟨direct, hdir, hpre⟩ := exists_direct h.starts (h.isPath.slash_mem_drop h.starts h.ne)
      have hdirect : direct ∈ subgroups keys group :=
        mem_subgroups.2 ⟨hdir, key, hkey, hpre.trans hlies⟩
      refine ⟨direct, hdirect, ?_⟩
      by_cases heq : sub = direct
      · exact heq ▸ List.mem_cons_self
      · exact List.mem_cons_of_mem _
          ((ih direct hdirect).2 ⟨h.isPath, hpre, Ne.symm heq, h.inhabited⟩)

theorem starts_of_mem_groupsBelow (h : sub ∈ group :: groupsBelow keys group) :
    group.toList <+: sub.toList := by
  obtain rfl | h := List.mem_cons.1 h
  · exact List.prefix_refl _
  · exact ((mem_groupsBelow keys group sub).1 h).starts

/-- The groups below a group are in order: each comes before those below it, and direct sub-groups
are told apart before they end. -/
theorem pairwise_groupsBelow (keys : List Key) (group : String) :
    (groupsBelow keys group).Pairwise (· < ·) := by
  induction group using below.induct keys with
  | case1 group ih =>
    rw [groupsBelow_eq, List.pairwise_flatMap]
    constructor
    · intro sub hsub
      refine List.pairwise_cons.2 ⟨fun inner hinner => ?_, ih sub hsub⟩
      have hbelow := (mem_groupsBelow keys sub inner).1 hinner
      exact Text.lt_of_prefix_of_ne hbelow.starts (mt String.toList_inj.1 hbelow.ne)
    · refine (pairwise_subgroups keys group).imp_of_mem fun {sub other} hsub hother hlt => ?_
      intro inner hinner later hlater
      obtain ⟨rest, hrest⟩ := starts_of_mem_groupsBelow hinner
      obtain ⟨rest', hrest'⟩ := starts_of_mem_groupsBelow hlater
      have hapart : ¬sub.toList <+: other.toList := fun hpre => by
        have hsame := (mem_subgroups.1 hsub).1.eq_of_starts (mem_subgroups.1 hother).1 hpre
          (List.prefix_refl _)
        exact String.lt_irrefl _ (hsame ▸ hlt)
      change inner.toList < later.toList
      rw [← hrest, ← hrest']
      exact Text.append_lt_append_of_lt hlt hapart rest rest'

theorem not_liesIn_of_mem_members (hgroup : IsPath group) (h : key ∈ members keys group)
    (hsub : IsPath sub) (hstarts : group.toList <+: sub.toList) (hne : group ≠ sub) :
    ¬key.LiesIn sub := by
  rintro ⟨tail, htail⟩
  obtain ⟨-, rest, hrest, hslash⟩ := (mem_members hgroup).1 h
  obtain ⟨inner, hinner⟩ := hstarts
  have hmem := hsub.slash_mem_drop ⟨inner, hinner⟩ hne
  rw [← hinner, List.drop_left] at hmem
  rw [← hinner, hrest, List.append_assoc, List.append_cancel_left_eq] at htail
  exact hslash (htail ▸ List.mem_append_left tail hmem)

theorem mem_below (hgroup : IsPath group) :
    key ∈ below keys group ↔ key ∈ keys ∧ key.LiesIn group := by
  induction group using below.induct keys with
  | case1 group ih =>
    rw [below_eq, List.mem_append, List.mem_flatMap]
    constructor
    · rintro (h | ⟨sub, hsub, h⟩)
      · obtain ⟨hkey, rest, hrest, -⟩ := (mem_members hgroup).1 h
        exact ⟨hkey, rest, hrest.symm⟩
      · have hdirect := (mem_subgroups.1 hsub).1
        obtain ⟨hkey, hlies⟩ := (ih sub hsub hdirect.isPath).1 h
        exact ⟨hkey, hdirect.starts.trans hlies⟩
    · rintro ⟨hkey, hlies⟩
      by_cases hslash : '/' ∈ key.chars.drop group.toList.length
      · obtain ⟨sub, hdirect, hsub⟩ := exists_direct hlies hslash
        have hmem := mem_subgroups.2 ⟨hdirect, key, hkey, hsub⟩
        exact .inr ⟨sub, hmem, (ih sub hmem hdirect.isPath).2 ⟨hkey, hsub⟩⟩
      · refine .inl ((mem_members hgroup).2 ⟨hkey, _, ?_, hslash⟩)
        exact (List.prefix_iff_eq_append.1 hlies).symm

theorem eq_of_mem_below {other : String} (hsub : sub ∈ subgroups keys group)
    (hother : other ∈ subgroups keys group) (h : key ∈ below keys sub)
    (hkey : key.LiesIn other) : sub = other := by
  have hdirect := (mem_subgroups.1 hsub).1
  exact hdirect.eq_of_starts (mem_subgroups.1 hother).1 ((mem_below hdirect.isPath).1 h).2 hkey

theorem nodup_below (hkeys : keys.Nodup) (hgroup : IsPath group) : (below keys group).Nodup := by
  induction group using below.induct keys with
  | case1 group ih =>
    rw [below_eq, List.nodup_append, List.nodup_flatMap]
    refine ⟨hkeys.filter _, ⟨fun sub hsub => ih sub hsub (mem_subgroups.1 hsub).1.isPath, ?_⟩, ?_⟩
    · refine (pairwise_subgroups keys group).imp_of_mem fun {sub other} hsub hother hlt => ?_
      intro key hkey hin
      have hpath := (mem_subgroups.1 hother).1.isPath
      obtain rfl := eq_of_mem_below hsub hother hkey ((mem_below hpath).1 hin).2
      exact String.lt_irrefl _ hlt
    · rintro key hkey _ hin rfl
      obtain ⟨sub, hsub, hin⟩ := List.mem_flatMap.1 hin
      have hdirect := (mem_subgroups.1 hsub).1
      exact not_liesIn_of_mem_members hgroup hkey hdirect.isPath hdirect.starts hdirect.ne
        ((mem_below hdirect.isPath).1 hin).2

/-- The keys below a group stand together in the list of any group around it. -/
theorem exists_block {inner : String} (hgroup : IsPath group) (hinner : IsPath inner)
    (hstarts : group.toList <+: inner.toList) :
    ∃ before after, below keys group = before ++ below keys inner ++ after ∧
      ∀ key ∈ before ++ after, ¬key.LiesIn inner := by
  induction group using below.induct keys with
  | case1 group ih =>
    by_cases hne : group = inner
    · exact ⟨[], [], by simp [hne], by simp⟩
    by_cases hempty : ∃ key ∈ keys, key.LiesIn inner
    · obtain ⟨key, hkey, hlies⟩ := hempty
      obtain ⟨sub, hdirect, hsub⟩ := exists_direct hstarts (hinner.slash_mem_drop hstarts hne)
      have hmem := mem_subgroups.2 ⟨hdirect, key, hkey, hsub.trans hlies⟩
      obtain ⟨before, after, hblock, hout⟩ := ih sub hmem hdirect.isPath hsub
      obtain ⟨xs, ys, hsplit⟩ := List.append_of_mem hmem
      -- A key in another sub-group cannot lie in the inner group, as no key is in two sub-groups.
      have hothers : ∀ other ∈ xs ++ ys, ∀ key ∈ below keys other, ¬key.LiesIn inner := by
        intro other hother key hkey hin
        have hnodup : (xs ++ sub :: ys).Nodup := hsplit ▸ nodup_subgroups keys group
        have hmem' : other ∈ subgroups keys group := by
          rw [hsplit]
          exact List.perm_middle.symm.subset (List.mem_cons_of_mem sub hother)
        obtain rfl := eq_of_mem_below hmem' hmem hkey (hsub.trans hin)
        exact (List.nodup_cons.1 (List.nodup_middle.1 hnodup)).1 hother
      refine ⟨members keys group ++ xs.flatMap (below keys) ++ before,
        after ++ ys.flatMap (below keys), ?_, fun key hkey => ?_⟩
      · rw [below_eq, hsplit, List.flatMap_append, List.flatMap_cons, hblock]
        simp only [List.append_assoc]
      · simp only [List.mem_append, List.mem_flatMap] at hkey hout hothers
        obtain ((hkey | ⟨other, hother, hkey⟩) | hkey) | hkey | ⟨other, hother, hkey⟩ := hkey
        · exact not_liesIn_of_mem_members hgroup hkey hinner hstarts hne
        · exact hothers other (.inl hother) key hkey
        · exact hout key (.inl hkey)
        · exact hout key (.inr hkey)
        · exact hothers other (.inr hother) key hkey
    -- Without a key in the inner group its block is empty and may stand anywhere.
    · refine ⟨below keys group, [], ?_, fun key hkey hin => ?_⟩
      · have hnil : below keys inner = [] := List.eq_nil_iff_forall_not_mem.2 fun key hkey =>
          hempty ⟨key, (mem_below hinner).1 hkey⟩
        rw [hnil, List.append_nil, List.append_nil]
      · rw [List.append_nil] at hkey
        exact hempty ⟨key, ((mem_below hgroup).1 hkey).1, hin⟩

end Key

end MarkupSnippets

import MarkupSnippets.Proofs.Segments

namespace MarkupSnippets.ResourcePath

/-- A way from the place where it begins: so many steps up, then down into the names, of which the
innermost is first. -/
structure Way where
  up : Nat
  names : List (List Char)
deriving DecidableEq

namespace Way

def start : Way := ⟨0, []⟩

def walk (way : Way) (segment : List Char) : Way :=
  if segment = [] ∨ segment = here then way
  else if segment = ResourcePath.up then
    match way.names with
    | [] => { way with up := way.up + 1 }
    | _ :: outer => { way with names := outer }
  else { way with names := segment :: way.names }

def along (segments : List (List Char)) : Way := segments.foldl walk start

def alongTaken (taken : List (List Char)) : Way :=
  taken.foldr (fun segment way => way.walk segment) start

/-- How far down a way leads. -/
def level (way : Way) : Int := way.names.length - way.up

end Way

def rise (segment : List Char) : Int :=
  if segment = [] ∨ segment = here then 0 else if segment = up then -1 else 1

def rises : List (List Char) → Int
  | [] => 0
  | segment :: segments => rise segment + rises segments

/-- Where a path leads: a way from the root, or from the current directory. -/
structure Destination where
  fromRoot : Bool
  way : Way
deriving DecidableEq

def destination (path : String) : Destination where
  fromRoot := path.toList.head? == some '/'
  way := .along (Text.splitChars '/' path.toList)

/-- Whether a step up takes back a segment for the place itself. -/
def TakesBackHere (segments : List (List Char)) : Prop :=
  ∃ before inner after, segments = before ++ here :: (inner ++ up :: after) ∧ Cancels inner

/-- Whether an empty segment comes to stand in front, with something left behind it. -/
def Surfaces (segments : List (List Char)) : Prop :=
  ∃ before after, segments = before ++ [] :: after ∧ Cancels before ∧ ¬Cancels after

variable {segments taken : List (List Char)} {segment : List Char}

theorem level_walk (way : Way) (segment : List Char) :
    (way.walk segment).level = way.level + rise segment := by
  rw [Way.walk, rise]
  split
  · rw [Int.add_zero]
  · split
    · split
      · next h =>
        simp only [Way.level, h]
        omega
      · next h =>
        simp only [Way.level, h, List.length_cons]
        omega
    · simp only [Way.level, List.length_cons]
      omega

theorem rises_append (segments others : List (List Char)) :
    rises (segments ++ others) = rises segments + rises others := by
  induction segments with
  | nil => exact (Int.zero_add _).symm
  | cons segment segments ih => rw [List.cons_append, rises, ih, rises, Int.add_assoc]

theorem rises_reverse (segments : List (List Char)) : rises segments.reverse = rises segments := by
  induction segments with
  | nil => rfl
  | cons segment segments ih =>
    rw [List.reverse_cons, rises_append, ih, rises, rises, rises]
    omega

theorem level_along (segments : List (List Char)) :
    (Way.along segments).level = rises segments := by
  induction segments using List.reverseRecOn with
  | nil => rfl
  | append_singleton segments segment ih =>
    rw [Way.along, List.foldl_append, List.foldl_cons, List.foldl_nil, level_walk, ← Way.along, ih,
      rises_append, rises, rises, Int.add_zero]

theorem walk_walk_up (hne : segment ≠ []) (hhere : segment ≠ here) (hup : segment ≠ up)
    (way : Way) :
    (way.walk segment).walk up = way := by
  have hname : way.walk segment = { way with names := segment :: way.names } := by
    simp [Way.walk, hne, hhere, hup]
  rw [hname]
  simp [Way.walk, up, here]

theorem alongTaken_push (h : segment = up → taken.head? ≠ some here) :
    Way.alongTaken (push taken segment) = (Way.alongTaken taken).walk segment := by
  obtain ⟨-, hpush⟩ | ⟨rfl, last, before, rfl, hne, hup, hpush⟩ := push_cases taken segment
  · rw [hpush]
    rfl
  · have hhere : last ≠ here := fun hlast => h rfl (congrArg some hlast)
    rw [hpush]
    exact (walk_walk_up hne hhere hup _).symm

theorem rises_push (taken : List (List Char)) (segment : List Char) :
    rises taken + rise segment ≤ rises (push taken segment) := by
  obtain ⟨-, hpush⟩ | ⟨rfl, last, before, rfl, hne, hup, hpush⟩ := push_cases taken segment
  · rw [hpush, rises]
    omega
  · have hlast : rise last ≤ 1 := by
      rw [rise]
      split_ifs <;> omega
    have hstep : rise up = -1 := rfl
    rw [hpush, rises]
    omega

theorem rises_foldl_push (segments taken : List (List Char)) :
    rises taken + rises segments ≤ rises (segments.foldl push taken) := by
  induction segments generalizing taken with
  | nil => simp [rises]
  | cons segment segments ih =>
    have hstep := rises_push taken segment
    have hrest := ih (push taken segment)
    rw [List.foldl_cons]
    rw [rises]
    omega

theorem takesBackHere_iff :
    TakesBackHere segments ↔ ∃ before after, segments = before ++ up :: after ∧
      (before.foldl push []).head? = some here := by
  constructor
  · rintro ⟨before, inner, after, rfl, hcancels⟩
    refine ⟨before ++ here :: inner, after, by simp, ?_⟩
    rw [List.foldl_append, List.foldl_cons, foldl_push_of_cancels hcancels,
      push_of_ne_up (by decide), List.head?_cons]
  · rintro ⟨before, after, rfl, hhead⟩
    have hleaves := leaves_foldl_push before
    obtain ⟨below, htaken⟩ := List.head?_eq_some_iff.1 hhead
    rw [htaken] at hleaves
    cases hleaves with
    | @cons outer _ inner _ _ hinner => exact ⟨outer, inner, after, by simp, hinner⟩

theorem along_collapse (segments : List (List Char)) :
    Way.along (collapse segments) = Way.alongTaken (segments.foldl push []) := by
  rw [Way.along, collapse, List.foldl_reverse, Way.alongTaken]

/-- Collapsing keeps the way unless a step up takes back a segment for the place itself: then the
way comes out one step too far down, and nothing makes up for it. -/
theorem along_collapse_iff :
    Way.along (collapse segments) = Way.along segments ↔ ¬TakesBackHere segments := by
  constructor
  · intro hway htakes
    obtain ⟨before, after, rfl, hhead⟩ := takesBackHere_iff.1 htakes
    obtain ⟨below, htaken⟩ := List.head?_eq_some_iff.1 hhead
    have hfold : (before ++ up :: after).foldl push [] = after.foldl push below := by
      rw [List.foldl_append, htaken, List.foldl_cons, push_up (by decide) (by decide)]
    -- Taking back the segment for the place itself is a step up that is not made.
    have hlevel := congrArg Way.level hway
    rw [level_along, level_along, collapse, hfold, rises_reverse] at hlevel
    have hbefore := rises_foldl_push before []
    have hafter := rises_foldl_push after below
    have hhere : rise here = 0 := rfl
    have hup : rise up = -1 := rfl
    rw [htaken] at hbefore
    simp only [rises_append, rises] at hlevel hbefore
    omega
  · intro hnot
    rw [along_collapse]
    induction segments using List.reverseRecOn with
    | nil => rfl
    | append_singleton segments segment ih =>
      have hearlier : ¬TakesBackHere segments := by
        rintro ⟨before, inner, after, rfl, hcancels⟩
        exact hnot ⟨before, inner, after ++ [segment], by simp, hcancels⟩
      simp only [Way.along, List.foldl_append, List.foldl_cons, List.foldl_nil] at ih ⊢
      rw [alongTaken_push, ih hearlier]
      rintro rfl hhead
      exact hnot (takesBackHere_iff.2 ⟨segments, [], rfl, hhead⟩)

theorem surfaces_iff :
    Surfaces segments ↔ ∃ next more, collapse segments = [] :: next :: more := by
  constructor
  · rintro ⟨before, after, rfl, hbefore, hafter⟩
    obtain ⟨next, more, hmore⟩ :=
      List.exists_cons_of_ne_nil (mt collapse_eq_nil_iff.1 hafter)
    exact ⟨next, more, by rw [collapse_of_cancels hbefore (.inl rfl), hmore]⟩
  · rintro ⟨next, more, hcollapse⟩
    have hleaves := leaves_foldl_push segments
    have htaken : segments.foldl push [] = (next :: more).reverse ++ [[]] := by
      rw [← List.reverse_reverse (segments.foldl push []), ← collapse, hcollapse, List.reverse_cons]
    rw [htaken] at hleaves
    obtain ⟨before, after, rfl, hbefore⟩ := hleaves.outermost
    refine ⟨before, after, rfl, hbefore, fun hafter => ?_⟩
    rw [collapse_of_cancels hbefore (.inl rfl), collapse_eq_nil_iff.2 hafter] at hcollapse
    cases hcollapse

theorem along_splitChars_intercalate {pieces : List (List Char)}
    (h : ∀ piece ∈ pieces, '/' ∉ piece) :
    Way.along (Text.splitChars '/' (['/'].intercalate pieces)) = Way.along pieces := by
  by_cases hne : pieces = []
  · subst hne
    rfl
  · rw [Text.splitChars_intercalate hne h]

theorem head?_intercalate_eq_slash_iff {pieces : List (List Char)}
    (h : ∀ piece ∈ pieces, '/' ∉ piece) :
    (['/'].intercalate pieces).head? = some '/' ↔ ∃ next more, pieces = [] :: next :: more := by
  have hfirst {c : Char} {piece : List Char} (hpiece : c :: piece ∈ pieces) : c ≠ '/' :=
    fun hc => h _ hpiece (hc ▸ List.mem_cons_self)
  match pieces with
  | [] => simp
  | [[]] => simp
  | [c :: piece] => simpa using hfirst List.mem_cons_self
  | [] :: next :: more => simp [List.intercalate_cons_cons]
  | (c :: piece) :: next :: more =>
    simpa [List.intercalate_cons_cons] using hfirst List.mem_cons_self

variable {source path : String}

theorem head?_ne_slash (hpath : isAbsolute path.toList = false) : path.toList.head? ≠ some '/' := by
  intro hhead
  obtain ⟨rest, hrest⟩ := List.head?_eq_some_iff.1 hhead
  simp [isAbsolute, hrest] at hpath

theorem head?_directory_append (hpath : path.toList.head? ≠ some '/') :
    (Text.throughLast '/' source.toList ++ path.toList).head? = some '/' ↔
      source.toList.head? = some '/' := by
  by_cases hmem : '/' ∈ source.toList
  · obtain ⟨start, hstart⟩ := Text.exists_throughLast_of_mem hmem
    have hhead : (start ++ ['/'] ++ Text.afterLast '/' source.toList).head? =
        source.toList.head? := by
      rw [← hstart, Text.throughLast_append_afterLast]
    rw [hstart, ← hhead]
    cases start <;> simp
  · rw [Text.throughLast_of_not_mem hmem, List.nil_append]
    refine iff_of_false hpath fun hhead => hmem ?_
    obtain ⟨rest, hrest⟩ := List.head?_eq_some_iff.1 hhead
    rw [hrest]
    exact List.mem_cons_self

theorem exists_splitChars_directory (source : List Char) :
    ∃ outer, ∀ rest, Text.splitChars '/' (Text.throughLast '/' source ++ rest) =
      outer ++ Text.splitChars '/' rest := by
  by_cases hmem : '/' ∈ source
  · obtain ⟨start, hstart⟩ := Text.exists_throughLast_of_mem hmem
    refine ⟨Text.splitChars '/' start, fun rest => ?_⟩
    rw [hstart, List.append_assoc, List.singleton_append, Text.splitChars_append_cons]
  · refine ⟨[], fun rest => ?_⟩
    rw [Text.throughLast_of_not_mem hmem, List.nil_append, List.nil_append]

/-- To leave out a leading step to the place itself makes no difference to the way. -/
theorem along_joinedSegments (source path : String) :
    Way.along (joinedSegments source path) =
      Way.along (Text.splitChars '/' (Text.throughLast '/' source.toList ++ path.toList)) := by
  obtain ⟨outer, houter⟩ := exists_splitChars_directory source.toList
  rw [joinedSegments, join, houter, houter]
  cases hdrop : Text.dropStart? "./".toList path.toList with
  | none => rfl
  | some rest =>
    have hpath : path.toList = here ++ '/' :: rest := by
      rw [Text.dropStart?_eq_some.1 hdrop]
      rfl
    have hhere : Text.splitChars '/' here = [here] := rfl
    rw [Option.getD_some, hpath, Text.splitChars_append_cons, hhere, Way.along, Way.along,
      List.foldl_append, List.foldl_append, List.singleton_append, List.foldl_cons]
    rfl

/-- Resolving a path that is not absolute leads to where the directory of the source followed by the
path leads, except that a step up may take back a segment for the place itself, and that the outcome
begins at the root if an empty segment comes to stand in front with something left behind it, and
not if there is none. -/
theorem destination_resolve_iff (hpath : isAbsolute path.toList = false) :
    destination (resolve source path) =
        destination (String.ofList (Text.throughLast '/' source.toList) ++ path) ↔
      ¬TakesBackHere (joinedSegments source path) ∧
        (source.toList.head? = some '/' ↔ Surfaces (joinedSegments source path)) := by
  have hpieces : ∀ piece ∈ collapse (joinedSegments source path), '/' ∉ piece :=
    fun piece => not_mem_of_mem_collapse_joinedSegments
  have hway : Way.along (Text.splitChars '/' (resolve source path).toList) =
      Way.along (collapse (joinedSegments source path)) := by
    rw [toList_resolve hpath, along_splitChars_intercalate hpieces]
  have hroot : (resolve source path).toList.head? = some '/' ↔
      Surfaces (joinedSegments source path) := by
    rw [toList_resolve hpath, head?_intercalate_eq_slash_iff hpieces, surfaces_iff]
  have hjoined : (Text.throughLast '/' source.toList ++ path.toList).head? = some '/' ↔
      source.toList.head? = some '/' := head?_directory_append (head?_ne_slash hpath)
  rw [destination, destination, Destination.mk.injEq, String.toList_append, String.toList_ofList,
    hway, ← along_joinedSegments, along_collapse_iff, ← hroot, ← hjoined, and_comm]
  refine and_congr_right' ?_
  rw [Bool.eq_iff_iff, beq_iff_eq, beq_iff_eq]
  exact iff_comm

theorem destination_resolve_iff_upward :
    isAbsolute "./../../c//../x.css".toList = false ∧
      resolve "/a/b/page.xml" "./../../c//../x.css" = "/c//../x.css" ∧
      destination (resolve "/a/b/page.xml" "./../../c//../x.css") =
        destination (String.ofList (Text.throughLast '/' "/a/b/page.xml".toList) ++
          "./../../c//../x.css") := by
  have hpath : isAbsolute "./../../c//../x.css".toList = false := by decide +kernel
  have hnot : ¬TakesBackHere (joinedSegments "/a/b/page.xml" "./../../c//../x.css") := by
    rintro ⟨before, inner, after, hsplit, -⟩
    have hmem : here ∈ before ++ here :: (inner ++ up :: after) := by simp
    rw [← hsplit] at hmem
    exact absurd hmem (by decide +kernel)
  have hsurfaces : Surfaces (joinedSegments "/a/b/page.xml" "./../../c//../x.css") :=
    surfaces_iff.2 ⟨['c'], [[], up, "x.css".toList], by decide +kernel⟩
  exact ⟨hpath, by decide +kernel,
    (destination_resolve_iff hpath).2 ⟨hnot, iff_of_true (by decide +kernel) hsurfaces⟩⟩

/-- A source in the current directory, named as such, and a path that leads out of it: the step up
is lost. -/
theorem destination_resolve_ne :
    ¬"://".toList <:+: "./page.xml".toList ∧ isAbsolute "../x.css".toList = false ∧
      resolve "./page.xml" "../x.css" = "x.css" ∧
      destination (resolve "./page.xml" "../x.css") ≠
        destination (String.ofList (Text.throughLast '/' "./page.xml".toList) ++ "../x.css") := by
  decide +kernel

/-- A relative path that begins at the root once it is resolved. -/
example : resolve "page.xml" "a/..//x.css" = "/x.css" := by decide +kernel

end MarkupSnippets.ResourcePath

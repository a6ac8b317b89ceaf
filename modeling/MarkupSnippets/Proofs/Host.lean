import MarkupSnippets.Proofs.Segments

namespace MarkupSnippets

theorem intercalate_append_cons {separator : Char} {pieces : List (List Char)} (hne : pieces ≠ [])
    (next : List Char) (more : List (List Char)) :
    [separator].intercalate (pieces ++ next :: more) =
      [separator].intercalate pieces ++ separator :: [separator].intercalate (next :: more) := by
  induction pieces with
  | nil => exact absurd rfl hne
  | cons piece pieces ih =>
    cases pieces with
    | nil => simp [List.intercalate_cons_cons]
    | cons second pieces =>
      rw [List.cons_append, List.cons_append, List.intercalate_cons_cons, ← List.cons_append,
        ih (List.cons_ne_nil _ _), List.intercalate_cons_cons]
      simp

namespace ResourcePath

theorem prefix_intercalate_iff {lead pieces : List (List Char)} (hne : lead ≠ [])
    (hlead : ∀ piece ∈ lead, '/' ∉ piece) (hpieces : ∀ piece ∈ pieces, '/' ∉ piece) :
    ['/'].intercalate lead ++ ['/'] <+: ['/'].intercalate pieces ↔
      ∃ next more, pieces = lead ++ next :: more := by
  constructor
  · rintro ⟨rest, hrest⟩
    have hsplit := congrArg (Text.splitChars '/') hrest
    have hsome : pieces ≠ [] := by
      rintro rfl
      simp at hrest
    rw [List.append_assoc, List.singleton_append, Text.splitChars_append_cons,
      Text.splitChars_intercalate hne hlead, Text.splitChars_intercalate hsome hpieces] at hsplit
    obtain ⟨next, more, hmore⟩ := List.exists_cons_of_ne_nil (Text.splitChars_ne_nil '/' rest)
    exact ⟨next, more, by rw [← hsplit, hmore]⟩
  · rintro ⟨next, more, rfl⟩
    rw [intercalate_append_cons hne]
    exact ⟨['/'].intercalate (next :: more), by simp⟩

theorem Cancels.not_climbs {segments : List (List Char)} (h : Cancels segments) :
    ¬Climbs segments := by
  rintro ⟨before, after, rfl, hbefore⟩
  have hcollapse := collapse_eq_nil_iff.2 h
  rw [collapse_of_cancels hbefore (.inr rfl)] at hcollapse
  cases hcollapse

variable {scheme authority rest path : String}

theorem joinedSegments_host (hscheme : '/' ∉ scheme.toList) (hauthority : '/' ∉ authority.toList)
    (rest path : String) :
    joinedSegments (scheme ++ "://" ++ authority ++ "/" ++ rest) path =
      [scheme.toList ++ [':'], [], authority.toList] ++ joinedSegments rest path := by
  have hlead : '/' ∉ scheme.toList ++ [':'] := by simpa using hscheme
  have hsource : (scheme ++ "://" ++ authority ++ "/" ++ rest).toList =
      (scheme.toList ++ [':']) ++
        '/' :: ([] ++ '/' :: (authority.toList ++ '/' :: rest.toList)) := by
    simp
  rw [joinedSegments, join, hsource]
  generalize scheme.toList ++ [':'] = lead at hlead
  simp only [Text.throughLast_append_cons, List.append_assoc, List.cons_append,
    Text.splitChars_append_cons]
  rw [Text.splitChars_of_not_mem hlead, Text.splitChars_of_not_mem hauthority]
  rfl

theorem solid_empty_cons (taken : List (List Char)) : Solid ([] :: taken) :=
  fun _ hlast => .inl (Option.some.inj hlast).symm

theorem foldl_push_host (lead authority : List Char) (inner : List (List Char)) :
    ([lead, [], authority] ++ inner).foldl push [] = inner.foldl push [authority, [], lead] := by
  have hempty : push [lead] [] = [[], lead] := push_of_ne_up (by decide)
  have hauthority : push [[], lead] authority = [authority, [], lead] :=
    push_of_solid (solid_empty_cons [lead]) authority
  rw [List.foldl_append, List.foldl_cons, List.foldl_cons, List.foldl_cons, List.foldl_nil,
    push_of_solid solid_nil, hempty, hauthority]

theorem collapse_host_of_stays (lead : List Char) {authority : List Char}
    {inner : List (List Char)} (h : authority = up ∨ ¬Climbs inner) :
    collapse ([lead, [], authority] ++ inner) = [lead, [], authority] ++ collapse inner := by
  have hsolid : Solid [authority, [], lead] ∨ ¬Climbs inner :=
    h.imp_left fun hup last hlast => .inr (Option.some.inj hlast ▸ hup)
  rw [collapse, foldl_push_host, foldl_push_eq_append hsolid, List.reverse_append]
  rfl

/-- A step up out of what is behind the host takes back the authority. -/
theorem collapse_host_of_climbs (lead : List Char) {authority : List Char}
    {before after : List (List Char)} (hne : authority ≠ []) (hup : authority ≠ up)
    (hbefore : Cancels before) :
    collapse ([lead, [], authority] ++ (before ++ up :: after)) = [lead, []] ++ collapse after := by
  rw [collapse, foldl_push_host, List.foldl_append, foldl_push_of_cancels hbefore, List.foldl_cons,
    push_up hne hup, foldl_push_eq_append (.inl (solid_empty_cons [lead])), List.reverse_append]
  rfl

/-- A resolved path stays on the host of its source: what is joined behind the authority has
something left, and if it leads out of there, it names the authority again and goes on. -/
theorem host_prefix_resolve_iff (hscheme : '/' ∉ scheme.toList) (hne : authority ≠ "")
    (hauthority : '/' ∉ authority.toList) (hpath : isAbsolute path.toList = false) :
    (scheme ++ "://" ++ authority ++ "/").toList <+:
        (resolve (scheme ++ "://" ++ authority ++ "/" ++ rest) path).toList ↔
      ¬Cancels (joinedSegments rest path) ∧
        (authority.toList ≠ up → ∀ before after, joinedSegments rest path = before ++ up :: after →
          Cancels before → ∃ next more, collapse after = authority.toList :: next :: more) := by
  have hname : authority.toList ≠ [] := by simpa using hne
  have hlead : ∀ piece ∈ [scheme.toList ++ [':'], [], authority.toList], '/' ∉ piece := by
    simpa using ⟨hscheme, hauthority⟩
  have horigin : (scheme ++ "://" ++ authority ++ "/").toList =
      ['/'].intercalate [scheme.toList ++ [':'], [], authority.toList] ++ ['/'] := by
    simp [List.intercalate_cons_cons]
  rw [toList_resolve hpath, horigin, prefix_intercalate_iff (List.cons_ne_nil _ _) hlead
    fun piece => not_mem_of_mem_collapse_joinedSegments, joinedSegments_host hscheme hauthority]
  generalize joinedSegments rest path = inner
  -- Whether the authority is taken back decides which segments are collapsed by themselves.
  constructor
  · rintro ⟨next, more, hmore⟩
    refine ⟨fun hcancels => ?_, ?_⟩
    · rw [collapse_host_of_stays _ (.inr hcancels.not_climbs),
        collapse_eq_nil_iff.2 hcancels] at hmore
      exact absurd (List.append_cancel_left hmore) (List.cons_ne_nil _ _).symm
    · rintro hup before after rfl hbefore
      rw [collapse_host_of_climbs _ hname hup hbefore] at hmore
      exact ⟨next, more, List.append_cancel_left hmore⟩
  · rintro ⟨hsome, hclimbs⟩
    by_cases hstays : authority.toList = up ∨ ¬Climbs inner
    · obtain ⟨next, more, hmore⟩ := List.exists_cons_of_ne_nil (mt collapse_eq_nil_iff.1 hsome)
      exact ⟨next, more, by rw [collapse_host_of_stays _ hstays, hmore]⟩
    · obtain ⟨hup, hnot⟩ := not_or.1 hstays
      obtain ⟨before, after, rfl, hbefore⟩ := not_not.1 hnot
      obtain ⟨next, more, hmore⟩ := hclimbs hup before after rfl hbefore
      exact ⟨next, more, by rw [collapse_host_of_climbs _ hname hup hbefore, hmore]; rfl⟩

theorem host_prefix_resolve_iff_nested :
    '/' ∉ "https".toList ∧ "host" ≠ "" ∧ '/' ∉ "host".toList ∧
      isAbsolute "x/../../y/../s.js".toList = false ∧
      ("https" ++ "://" ++ "host" ++ "/").toList <+:
        (resolve ("https" ++ "://" ++ "host" ++ "/" ++ "t/u/page.xml")
          "x/../../y/../s.js").toList := by
  have hscheme : '/' ∉ "https".toList := by decide
  have hne : "host" ≠ "" := by decide
  have hauthority : '/' ∉ "host".toList := by decide
  have hpath : isAbsolute "x/../../y/../s.js".toList = false := by decide +kernel
  have hcollapse : collapse (joinedSegments "t/u/page.xml" "x/../../y/../s.js") =
      [['t'], "s.js".toList] := by decide +kernel
  refine ⟨hscheme, hne, hauthority, hpath,
    (host_prefix_resolve_iff hscheme hne hauthority hpath).2 ⟨fun hcancels => ?_, ?_⟩⟩
  · rw [collapse_eq_nil_iff.2 hcancels] at hcollapse
    cases hcollapse
  · intro _ before after hsplit hbefore
    rw [hsplit, collapse_of_cancels hbefore (.inr rfl)] at hcollapse
    exact absurd (List.cons.inj hcollapse).1 (by decide)

/-- A page at the root of a host, and a path that leads out of it: the path comes out on another
host. -/
theorem not_host_prefix_resolve :
    isAbsolute "../s.js".toList = false ∧
      resolve ("https" ++ "://" ++ "host" ++ "/" ++ "page.xml") "../s.js" = "https://s.js" ∧
      ¬("https" ++ "://" ++ "host" ++ "/").toList <+:
        (resolve ("https" ++ "://" ++ "host" ++ "/" ++ "page.xml") "../s.js").toList := by
  decide +kernel

end ResourcePath

end MarkupSnippets

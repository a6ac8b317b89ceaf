import Mathlib.Data.List.Chain
import MarkupSnippets.Proofs.Listing
import MarkupSnippets.Proofs.Segments

namespace MarkupSnippets

namespace Key

def endsInSlash (known : Bool) (cs : List Char) : Bool := cs.foldl (fun _ c => c == '/') known

theorem endsInSlash_concat (known : Bool) (cs : List Char) (c : Char) :
    endsInSlash known (cs ++ [c]) = (c == '/') := by
  rw [endsInSlash, List.foldl_concat]

theorem endsInSlash_eq_true_iff (known : Bool) {cs : List Char} (hne : cs ≠ []) :
    endsInSlash known cs = true ↔ cs.getLast? = some '/' := by
  rw [← List.dropLast_append_getLast hne, endsInSlash_concat, List.getLast?_concat, beq_iff_eq,
    Option.some.injEq]

theorem squeeze_cons (afterSlash : Bool) (c : Char) (cs : List Char) :
    squeeze afterSlash (c :: cs) =
      (if afterSlash && c == '/' then [] else [c]) ++ squeeze (c == '/') cs := by
  by_cases hc : c = '/'
  · cases afterSlash <;> simp [squeeze, hc]
  · simp [squeeze, hc, beq_false_of_ne hc]

theorem squeeze_append (afterSlash : Bool) (cs ds : List Char) :
    squeeze afterSlash (cs ++ ds) =
      squeeze afterSlash cs ++ squeeze (endsInSlash afterSlash cs) ds := by
  induction cs generalizing afterSlash with
  | nil => rfl
  | cons c cs ih =>
    rw [List.cons_append, squeeze_cons, ih, squeeze_cons, List.append_assoc]
    rfl

theorem squeeze_of_not_mem {cs : List Char} (h : '/' ∉ cs) (afterSlash : Bool) :
    squeeze afterSlash cs = cs := by
  induction cs generalizing afterSlash with
  | nil => rfl
  | cons c cs ih =>
    obtain ⟨hc, hcs⟩ := not_or.1 (mt List.mem_cons.2 h)
    rw [squeeze, if_neg (Ne.symm hc), ih hcs]

theorem endsInSlash_squeeze (afterSlash : Bool) (cs : List Char) :
    endsInSlash afterSlash (squeeze afterSlash cs) = endsInSlash afterSlash cs := by
  induction cs generalizing afterSlash with
  | nil => rfl
  | cons c cs ih =>
    have hnext : endsInSlash (c == '/') (squeeze (c == '/') cs) = endsInSlash (c == '/') cs := ih _
    rw [squeeze_cons]
    split
    · next hdropped =>
      obtain ⟨rfl, hc⟩ := Bool.and_eq_true_iff.1 hdropped
      rw [hc] at hnext
      rw [List.nil_append, hc, hnext, eq_of_beq hc]
      rfl
    · exact hnext

theorem isChain_squeeze (c : Char) (cs : List Char) :
    (c :: squeeze (c == '/') cs).IsChain fun c d => c = '/' → d ≠ '/' := by
  induction cs generalizing c with
  | nil => exact .singleton c
  | cons d cs ih =>
    rw [squeeze_cons]
    split
    · next hdropped =>
      obtain ⟨hc, hd⟩ := Bool.and_eq_true_iff.1 hdropped
      obtain rfl := eq_of_beq hc
      obtain rfl := eq_of_beq hd
      exact ih '/'
    · next hkept =>
      refine .cons_cons (fun hc hd => hkept ?_) (ih d)
      rw [hc, hd]
      rfl

def closed (segments : List (List Char)) : List Char := segments.flatMap (· ++ ['/'])

variable {segments : List (List Char)}

theorem closed_cons (segment : List Char) (segments : List (List Char)) :
    closed (segment :: segments) = segment ++ '/' :: closed segments := by
  rw [closed, List.flatMap_cons, List.append_assoc, List.singleton_append, closed]

theorem closed_splitChars (cs : List Char) : closed (Text.splitChars '/' cs) = cs ++ ['/'] := by
  induction cs with
  | nil => rfl
  | cons c cs ih =>
    rw [Text.splitChars_cons]
    split
    · next hc => rw [closed_cons, ih, hc, List.nil_append, List.cons_append]
    · obtain ⟨first, pieces, hsplit⟩ :=
        List.exists_cons_of_ne_nil (Text.splitChars_ne_nil '/' cs)
      rw [hsplit, closed_cons] at ih
      rw [hsplit, List.modifyHead_cons, closed_cons, List.cons_append, ih, List.cons_append]

theorem splitChars_closed (h : ∀ segment ∈ segments, '/' ∉ segment) :
    Text.splitChars '/' (closed segments) = segments ++ [[]] := by
  induction segments with
  | nil => rfl
  | cons segment segments ih =>
    obtain ⟨hsegment, hrest⟩ := List.forall_mem_cons.1 h
    rw [closed_cons, Text.splitChars_append_cons, Text.splitChars_of_not_mem hsegment, ih hrest]
    rfl

theorem squeeze_closed (h : ∀ segment ∈ segments, '/' ∉ segment) :
    squeeze true (closed segments) = closed (segments.filter (· ≠ [])) := by
  induction segments with
  | nil => rfl
  | cons segment segments ih =>
    obtain ⟨hsegment, hrest⟩ := List.forall_mem_cons.1 h
    rw [closed_cons, squeeze_append, squeeze_of_not_mem hsegment]
    by_cases hempty : segment = []
    · simp [hempty, endsInSlash, squeeze, ih hrest]
    · have hopen : endsInSlash true segment = false := by
        rw [Bool.eq_false_iff, Ne, endsInSlash_eq_true_iff true hempty]
        exact fun hlast => hsegment (List.mem_of_getLast? hlast)
      rw [hopen, List.filter_cons_of_pos (by simpa using hempty), closed_cons, ← ih hrest]
      rfl

/-- The segments of a path that are not empty. -/
def names (cs : List Char) : List (List Char) := (Text.splitChars '/' cs).filter (· ≠ [])

theorem not_mem_of_mem_names {cs name : List Char} (h : name ∈ names cs) : '/' ∉ name :=
  Text.not_mem_of_mem_splitChars (List.mem_of_mem_filter h)

theorem names_concat_slash (cs : List Char) : names (cs ++ ['/']) = names cs := by
  rw [names, Text.splitChars_append_cons, List.filter_append]
  exact List.append_nil _

theorem names_closed (cs : List Char) : names (closed (names cs)) = names cs := by
  rw [names, splitChars_closed fun _ => not_mem_of_mem_names, List.filter_append, names,
    List.filter_filter]
  simp

/-- A squeezed text has its names with a slash behind each, but for the last one if the text does
not end in a slash. -/
theorem squeeze_cases (cs : List Char) :
    endsInSlash true cs = true ∧ squeeze true cs = closed (names cs) ∨
      endsInSlash true cs = false ∧ squeeze true cs ++ ['/'] = closed (names cs) := by
  have hclosed : squeeze true (cs ++ ['/']) = closed (names cs) := by
    rw [← closed_splitChars, squeeze_closed fun _ => Text.not_mem_of_mem_splitChars]
    rfl
  rw [squeeze_append] at hclosed
  cases hends : endsInSlash true cs with
  | true => exact .inl ⟨rfl, by simpa [hends, squeeze] using hclosed⟩
  | false => exact .inr ⟨rfl, by simpa [hends, squeeze] using hclosed⟩

theorem names_squeeze (cs : List Char) : names (squeeze true cs) = names cs := by
  obtain ⟨-, h⟩ | ⟨-, h⟩ := squeeze_cases cs
  · rw [h, names_closed]
  · rw [← names_concat_slash, h, names_closed]

theorem getLast?_normalize (cs : List Char) :
    (normalize cs).getLast? = some '/' ↔ endsInSlash true cs = true := by
  rw [normalize, ← endsInSlash_squeeze, ← endsInSlash_eq_true_iff true (List.cons_ne_nil '/' _)]
  exact Iff.rfl

theorem groupChars_eq (cs : List Char) : groupChars cs = '/' :: closed (names cs) := by
  rw [groupChars]
  obtain ⟨hends, h⟩ | ⟨hends, h⟩ := squeeze_cases cs
  · rw [if_pos ((getLast?_normalize cs).2 hends), normalize, h]
  · rw [if_neg (by rw [getLast?_normalize, hends]; exact Bool.false_ne_true), normalize,
      List.cons_append, h]

theorem closed_inj {others : List (List Char)}
    (h : ∀ segment ∈ segments, '/' ∉ segment) (hothers : ∀ segment ∈ others, '/' ∉ segment) :
    closed segments = closed others ↔ segments = others := by
  refine ⟨fun heq => ?_, congrArg closed⟩
  have hsplit := congrArg (Text.splitChars '/') heq
  rw [splitChars_closed h, splitChars_closed hothers] at hsplit
  exact List.append_cancel_right hsplit

theorem groupChars_eq_iff (cs ds : List Char) :
    groupChars cs = groupChars ds ↔ names cs = names ds := by
  rw [groupChars_eq, groupChars_eq, List.cons_inj_right]
  exact closed_inj (fun _ => not_mem_of_mem_names) fun _ => not_mem_of_mem_names

theorem normalize_eq_of_names {cs ds : List Char} (hnames : names cs = names ds)
    (hends : endsInSlash true cs = endsInSlash true ds) : normalize cs = normalize ds := by
  refine congrArg ('/' :: ·) ?_
  obtain ⟨hcs, h⟩ | ⟨hcs, h⟩ := squeeze_cases cs <;>
    obtain ⟨hds, h'⟩ | ⟨hds, h'⟩ := squeeze_cases ds
  · rw [h, h', hnames]
  · simp [hcs, hds] at hends
  · simp [hcs, hds] at hends
  · rw [← hnames, ← h] at h'
    exact List.append_cancel_right h'.symm

theorem endsInSlash_of_names_eq_nil {cs : List Char} (h : names cs = []) :
    endsInSlash true cs = true := by
  obtain ⟨hends, -⟩ | ⟨-, hclosed⟩ := squeeze_cases cs
  · exact hends
  · rw [h] at hclosed
    exact absurd hclosed (List.concat_ne_nil '/' _)

/-- Two texts have the same normal form if their names are the same and, where there are names, both
or neither of them end in a slash. -/
theorem normalize_eq_iff (cs ds : List Char) : normalize cs = normalize ds ↔
    names cs = names ds ∧ (names cs ≠ [] → (cs.getLast? = some '/' ↔ ds.getLast? = some '/')) := by
  have hlast {cs : List Char} (hne : names cs ≠ []) :
      cs.getLast? = some '/' ↔ endsInSlash true cs = true := by
    rw [endsInSlash_eq_true_iff]
    rintro rfl
    exact hne rfl
  constructor
  · intro h
    have hnames : names cs = names ds := by
      rw [← names_squeeze, (List.cons.inj h).2, names_squeeze]
    refine ⟨hnames, fun hne => ?_⟩
    rw [hlast hne, hlast (hnames ▸ hne), ← getLast?_normalize, ← getLast?_normalize, h]
  · rintro ⟨hnames, hends⟩
    refine normalize_eq_of_names hnames ?_
    by_cases hne : names cs = []
    · rw [endsInSlash_of_names_eq_nil hne, endsInSlash_of_names_eq_nil (hnames ▸ hne)]
    · have hends := hends hne
      rw [hlast hne, hlast (hnames ▸ hne)] at hends
      exact Bool.eq_iff_iff.2 hends

theorem squeeze_slashes (afterSlash : Bool) (more : Nat) (cs : List Char) :
    squeeze afterSlash (List.replicate (more + 1) '/' ++ cs) = squeeze afterSlash ('/' :: cs) := by
  induction more generalizing afterSlash with
  | zero => rfl
  | succ more ih =>
    rw [List.replicate_succ, List.cons_append, squeeze_cons, beq_self_eq_true, ih]
    rw [squeeze_cons afterSlash, squeeze_cons true]
    rfl

/-- Segments with one or more slashes at each seam: behind the first each comes with the number of
slashes in front of it beyond the one. -/
def joinSeams (first : String) (rest : List (Nat × String)) : String :=
  first ++ String.join (rest.map fun (more, segment) =>
    String.ofList (List.replicate (more + 1) '/') ++ segment)

theorem toList_joinSeams (first : String) (rest : List (Nat × String)) :
    (joinSeams first rest).toList = first.toList ++ rest.flatMap fun (more, segment) =>
      List.replicate (more + 1) '/' ++ segment.toList := by
  rw [joinSeams, String.toList_append]
  congr 1
  induction rest with
  | nil => rfl
  | cons part rest ih => simp [String.join_cons, ih]

theorem toList_joinSegments (first : String) (rest : List String) :
    (joinSegments (first :: rest)).toList =
      first.toList ++ rest.flatMap fun segment => '/' :: segment.toList := by
  induction rest generalizing first with
  | nil => simp [joinSegments]
  | cons second rest ih =>
    have hcons : (joinSegments (first :: second :: rest)).toList =
        first.toList ++ '/' :: (joinSegments (second :: rest)).toList := by
      simp [joinSegments, String.toList_intercalate]
    rw [hcons, ih, List.flatMap_cons, List.cons_append]

theorem squeeze_seams (afterSlash : Bool) (rest : List (Nat × String)) :
    squeeze afterSlash (rest.flatMap fun (more, segment) =>
        List.replicate (more + 1) '/' ++ segment.toList) =
      squeeze afterSlash ((rest.map Prod.snd).flatMap fun segment => '/' :: segment.toList) := by
  induction rest generalizing afterSlash with
  | nil => rfl
  | cons part rest ih =>
    rw [List.flatMap_cons, List.append_assoc, squeeze_slashes, List.map_cons, List.flatMap_cons,
      ← List.cons_append, squeeze_append, ih, ← squeeze_append]

theorem ofString_joinSeams (first : String) (rest : List (Nat × String)) :
    ofString (joinSeams first rest) = ofSegments (first :: rest.map Prod.snd) := by
  have hchars : normalize (joinSeams first rest).toList =
      normalize (joinSegments (first :: rest.map Prod.snd)).toList := by
    rw [normalize, normalize, toList_joinSeams, toList_joinSegments, squeeze_append,
      squeeze_seams, ← squeeze_append]
  rw [ofSegments, ofString, ofString, ofChars]
  simp only [hchars]
  rfl

theorem ofString_text (key : Key) : ofString key.text = key := by
  rw [ofString, text, String.toList_ofList, ofChars]
  simp only [key.normal]

theorem head?_chars (key : Key) : key.chars.head? = some '/' := by
  rw [← key.normal]
  rfl

theorem not_infix_chars (key : Key) : ¬['/', '/'] <:+: key.chars := by
  intro hinfix
  have hchain : key.chars.IsChain fun c d => c = '/' → d ≠ '/' := by
    rw [← key.normal]
    exact isChain_squeeze '/' key.chars
  have hpair := List.IsChain.infix hchain hinfix
  exact List.isChain_pair.1 hpair rfl rfl

theorem groupPath_group (key : Key) : groupPath key.group = key.group := by
  have hslash : '/' ∈ key.chars := List.mem_of_head? key.head?_chars
  obtain ⟨start, hstart⟩ := Text.exists_throughLast_of_mem hslash
  have hpath : IsPath key.group := by
    rw [IsPath, group, String.toList_ofList, hstart, List.getLast?_concat]
  have hlies : key.LiesIn key.group := by
    rw [LiesIn, group, String.toList_ofList]
    exact ⟨_, Text.throughLast_append_afterLast '/' key.chars⟩
  exact groupPath_of_liesIn hpath hlies

/-- The normal form of a key starts with a slash, has no two slashes in a row and is its own normal
form. Two texts have the same one if their names are the same and, where there are names, both or
neither of them end in a slash; they are of the same group if their names are the same. A key is its
group, which is a group in normal form, and a name without slashes. The number of slashes between
segments does not count. -/
theorem key_normal_form :
    (∀ text, (ofString text).text.toList.head? = some '/' ∧
      ¬['/', '/'] <:+: (ofString text).text.toList ∧
      ofString (ofString text).text = ofString text) ∧
    (∀ a b, ofString a = ofString b ↔ names a.toList = names b.toList ∧
      (names a.toList ≠ [] → (IsPath a ↔ IsPath b))) ∧
    (∀ a b, groupPath a = groupPath b ↔ names a.toList = names b.toList) ∧
    (∀ key : Key, key.group ++ key.name = key.text ∧ '/' ∉ key.name.toList ∧
      groupPath key.group = key.group) ∧
    ofSegments [] = ofString "" ∧
    ∀ first rest, ofSegments (first :: rest.map Prod.snd) = ofString (joinSeams first rest) := by
  refine ⟨fun text => ?_, fun a b => ?_, fun a b => ?_, fun key => ?_, rfl,
    fun first rest => (ofString_joinSeams first rest).symm⟩
  · rw [Key.text, String.toList_ofList, ← Key.text]
    exact ⟨head?_chars _, not_infix_chars _, ofString_text _⟩
  · rw [← text_inj, text, text, String.ofList_inj]
    exact normalize_eq_iff a.toList b.toList
  · rw [groupPath, groupPath, String.ofList_inj, groupChars_eq_iff]
  · refine ⟨?_, ?_, groupPath_group key⟩
    · rw [group, name, ← String.ofList_append, Text.throughLast_append_afterLast, text]
    · rw [name, String.toList_ofList]
      exact Text.not_mem_afterLast '/' key.chars

/-- Slashes too many do not tell keys apart, but a slash at the end does. -/
theorem key_normal_form_trailing :
    ofString "//nav//item" = ofString "nav/item" ∧ ofString "nav/item/" ≠ ofString "nav/item" ∧
      groupPath "nav/item/" = groupPath "//nav//item" ∧
      ofSegments ["nav/", "", "item"] = ofString "nav/////item" := by
  obtain ⟨-, hkeys, hgroups, -, -, hseams⟩ := key_normal_form
  simp only [IsPath] at hkeys
  refine ⟨(hkeys _ _).2 (by decide), fun h => ?_, (hgroups _ _).2 (by decide), ?_⟩
  · exact absurd ((hkeys _ _).1 h).2 (by decide)
  · exact hseams "nav/" [(1, ""), (1, "item")]

end Key

end MarkupSnippets

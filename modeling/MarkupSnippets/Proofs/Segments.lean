import Mathlib.Data.List.Induction
import MarkupSnippets.Snippet.ResourcePath

namespace MarkupSnippets

namespace Text

variable {separator : Char}

theorem splitChars_cons (c : Char) (cs : List Char) :
    splitChars separator (c :: cs) =
      if c = separator then [] :: splitChars separator cs
      else (splitChars separator cs).modifyHead (c :: ·) := by
  obtain ⟨piece, pieces, hsplit⟩ := List.exists_cons_of_ne_nil (splitChars_ne_nil separator cs)
  rw [splitChars, hsplit, List.modifyHead_cons]

theorem splitChars_eq_splitOn (separator : Char) (cs : List Char) :
    splitChars separator cs = cs.splitOn separator := by
  induction cs with
  | nil => rfl
  | cons c cs ih =>
    rw [splitChars_cons, ih]
    simp only [List.splitOn, List.splitOnP_cons_eq_if_modifyHead, beq_iff_eq]

theorem splitChars_append_cons (xs ys : List Char) :
    splitChars separator (xs ++ separator :: ys) =
      splitChars separator xs ++ splitChars separator ys := by
  simp only [splitChars_eq_splitOn]
  exact List.splitOnP_append_cons xs ys (beq_self_eq_true separator)

theorem splitChars_of_not_mem {cs : List Char} (h : separator ∉ cs) :
    splitChars separator cs = [cs] := by
  rw [splitChars_eq_splitOn, List.splitOn_eq_singleton h]

theorem splitChars_intercalate {pieces : List (List Char)} (hne : pieces ≠ [])
    (h : ∀ piece ∈ pieces, separator ∉ piece) :
    splitChars separator ([separator].intercalate pieces) = pieces := by
  rw [splitChars_eq_splitOn, List.splitOn_intercalate separator h hne]

theorem not_mem_of_mem_splitChars {cs piece : List Char} (h : piece ∈ splitChars separator cs) :
    separator ∉ piece := by
  induction cs generalizing piece with
  | nil =>
    obtain rfl := List.mem_singleton.1 h
    exact List.not_mem_nil
  | cons c cs ih =>
    rw [splitChars_cons] at h
    split at h
    · obtain rfl | h := List.mem_cons.1 h
      · exact List.not_mem_nil
      · exact ih h
    · next hc =>
      obtain ⟨first, pieces, hsplit⟩ := List.exists_cons_of_ne_nil (splitChars_ne_nil separator cs)
      rw [hsplit] at ih h
      obtain rfl | h := List.mem_cons.1 h
      · simpa [Ne.symm hc] using ih List.mem_cons_self
      · exact ih (List.mem_cons_of_mem _ h)

theorem throughLast_append_cons (xs ys : List Char) :
    throughLast separator (xs ++ separator :: ys) =
      xs ++ separator :: throughLast separator ys := by
  induction xs with
  | nil => simp [throughLast]
  | cons x xs ih => simp [throughLast, ih]

theorem throughLast_of_not_mem {cs : List Char} (h : separator ∉ cs) :
    throughLast separator cs = [] := by
  cases cs with
  | nil => rfl
  | cons c cs => rw [throughLast, if_neg (by simpa using h)]

theorem exists_throughLast_of_mem {cs : List Char} (h : separator ∈ cs) :
    ∃ start, throughLast separator cs = start ++ [separator] := by
  induction cs with
  | nil => cases h
  | cons c cs ih =>
    rw [throughLast, if_pos (by simpa using h)]
    by_cases hrest : separator ∈ cs
    · obtain ⟨start, hstart⟩ := ih hrest
      exact ⟨c :: start, by rw [hstart, List.cons_append]⟩
    · obtain rfl : separator = c := (List.mem_cons.1 h).resolve_right hrest
      exact ⟨[], by rw [throughLast_of_not_mem hrest, List.nil_append]⟩

end Text

namespace ResourcePath

def here : List Char := ['.']

def up : List Char := ['.', '.']

/-- Segments that take each other back: a step up takes back a segment that is not empty and no step
up itself, with nothing between the two but segments that take each other back. -/
inductive Cancels : List (List Char) → Prop where
  | nil : Cancels []
  | pair {segment : List Char} {inner rest : List (List Char)} (hne : segment ≠ [])
      (hup : segment ≠ up) (hinner : Cancels inner) (hrest : Cancels rest) :
      Cancels (segment :: (inner ++ up :: rest))

theorem Cancels.append {segments others : List (List Char)} (h : Cancels segments)
    (hothers : Cancels others) : Cancels (segments ++ others) := by
  induction h with
  | nil => exact hothers
  | @pair segment inner rest hne hup hinner _ _ ih =>
    rw [List.cons_append, List.append_assoc, List.cons_append]
    exact .pair hne hup hinner ih

variable {segments taken : List (List Char)} {segment : List Char}

/-- Whether a step up takes back nothing of the segments taken so far, innermost first. -/
def Solid (taken : List (List Char)) : Prop := ∀ last ∈ taken.head?, last = [] ∨ last = up

theorem solid_nil : Solid [] := fun _ h => nomatch h

theorem push_cases (taken : List (List Char)) (segment : List Char) :
    (segment = up → Solid taken) ∧ push taken segment = segment :: taken ∨
      segment = up ∧ ∃ last before, taken = last :: before ∧ last ≠ [] ∧ last ≠ up ∧
        push taken segment = before := by
  cases taken with
  | nil => exact .inl ⟨fun _ => solid_nil, rfl⟩
  | cons last before =>
    rw [push]
    split
    · next h => exact .inr ⟨h.1, last, before, rfl, h.2.1, h.2.2, rfl⟩
    · next h =>
      refine .inl ⟨fun hup other hother => ?_, rfl⟩
      obtain rfl := Option.some.inj hother
      by_contra hsolid
      exact h ⟨hup, (not_or.1 hsolid).1, (not_or.1 hsolid).2⟩

theorem push_of_ne_up (h : segment ≠ up) : push taken segment = segment :: taken :=
  (push_cases taken segment).elim (·.2) fun hup => absurd hup.1 h

theorem push_of_solid (h : Solid taken) (segment : List Char) :
    push taken segment = segment :: taken := by
  obtain ⟨-, hpush⟩ | ⟨-, last, before, rfl, hne, hup, -⟩ := push_cases taken segment
  · exact hpush
  · exact absurd (h last rfl) (not_or.2 ⟨hne, hup⟩)

theorem push_up (hne : segment ≠ []) (hup : segment ≠ up) : push (segment :: taken) up = taken :=
  if_pos ⟨rfl, hne, hup⟩

theorem foldl_push_of_cancels (h : Cancels segments) (taken : List (List Char)) :
    segments.foldl push taken = taken := by
  induction h generalizing taken with
  | nil => rfl
  | pair hne hup _ _ ihinner ihrest =>
    rw [List.foldl_cons, push_of_ne_up hup, List.foldl_append, ihinner, List.foldl_cons,
      push_up hne hup, ihrest]

/-- Segments of which some are left, innermost first. What stands in front of the first of them and
behind each takes each other back. -/
inductive Leaves : List (List Char) → List (List Char) → Prop where
  | nil {inner : List (List Char)} (h : Cancels inner) : Leaves inner []
  | cons {before taken inner : List (List Char)} {segment : List Char} (h : Leaves before taken)
      (hinner : Cancels inner) : Leaves (before ++ segment :: inner) (segment :: taken)

theorem Leaves.append {inner : List (List Char)} (h : Leaves segments taken)
    (hinner : Cancels inner) : Leaves (segments ++ inner) taken := by
  cases h with
  | nil h => exact .nil (h.append hinner)
  | cons hbefore h =>
    rw [List.append_assoc, List.cons_append]
    exact .cons hbefore (h.append hinner)

theorem leaves_foldl_push (segments : List (List Char)) :
    Leaves segments (segments.foldl push []) := by
  induction segments using List.reverseRecOn with
  | nil => exact .nil .nil
  | append_singleton segments segment ih =>
    rw [List.foldl_append, List.foldl_cons, List.foldl_nil]
    obtain ⟨-, hpush⟩ | ⟨rfl, last, before, htaken, hne, hup, hpush⟩ :=
      push_cases (segments.foldl push []) segment
    · rw [hpush]
      exact .cons ih .nil
    · -- The step up and the innermost segment that was left enclose what takes each other back.
      rw [hpush]
      rw [htaken] at ih
      cases ih with
      | cons hbefore hinner =>
        rw [List.append_assoc, List.cons_append]
        exact hbefore.append (.pair hne hup hinner .nil)

theorem collapse_eq_nil_iff : collapse segments = [] ↔ Cancels segments := by
  rw [collapse, List.reverse_eq_nil_iff]
  constructor
  · intro h
    have hleaves := leaves_foldl_push segments
    rw [h] at hleaves
    cases hleaves with
    | nil hcancels => exact hcancels
  · intro h
    exact foldl_push_of_cancels h []

/-- Whether the segments lead out of the place where they begin: what is in front of a step up takes
each other back. -/
def Climbs (segments : List (List Char)) : Prop :=
  ∃ before after, segments = before ++ up :: after ∧ Cancels before

/-- Segments that do not lead out of where they begin, or begin where nothing can be taken back, are
collapsed by themselves. -/
theorem foldl_push_eq_append (h : Solid taken ∨ ¬Climbs segments) :
    segments.foldl push taken = segments.foldl push [] ++ taken := by
  induction segments using List.reverseRecOn with
  | nil => rfl
  | append_singleton segments segment ih =>
    have hearlier : Solid taken ∨ ¬Climbs segments := by
      refine h.imp_right fun hnot => ?_
      rintro ⟨before, after, rfl, hcancels⟩
      exact hnot ⟨before, after ++ [segment], by simp, hcancels⟩
    simp only [List.foldl_append, List.foldl_cons, List.foldl_nil, ih hearlier]
    cases hown : segments.foldl push [] with
    | nil =>
      rw [List.nil_append, push_of_solid solid_nil, List.singleton_append]
      obtain hsolid | hnot := h
      · exact push_of_solid hsolid segment
      · refine push_of_ne_up ?_
        rintro rfl
        have hcancels : Cancels segments := collapse_eq_nil_iff.1 (by rw [collapse, hown]; rfl)
        exact hnot ⟨segments, [], rfl, hcancels⟩
    | cons last before =>
      rw [List.cons_append, push, push]
      split <;> rfl

theorem mem_of_mem_foldl_push (h : segment ∈ segments.foldl push []) : segment ∈ segments := by
  have hleaves := leaves_foldl_push segments
  generalize segments.foldl push [] = taken at h hleaves
  induction hleaves with
  | nil => cases h
  | cons _ _ ih =>
    obtain rfl | h := List.mem_cons.1 h
    · simp
    · exact List.mem_append_left _ (ih h)

theorem mem_of_mem_collapse (h : segment ∈ collapse segments) : segment ∈ segments :=
  mem_of_mem_foldl_push (List.mem_reverse.1 h)

theorem Leaves.outermost (h : Leaves segments (taken ++ [segment])) :
    ∃ before after, segments = before ++ segment :: after ∧ Cancels before := by
  generalize htaken : taken ++ [segment] = all at h
  induction h generalizing taken with
  | nil => simp at htaken
  | @cons before below inner last hbefore hinner ih =>
    cases taken with
    | nil =>
      obtain ⟨rfl, rfl⟩ := List.cons.inj htaken
      cases hbefore with
      | nil hcancels => exact ⟨before, inner, rfl, hcancels⟩
    | cons first taken =>
      obtain ⟨rfl, hbelow⟩ := List.cons.inj htaken
      obtain ⟨start, after, rfl, hcancels⟩ := ih hbelow
      exact ⟨start, after ++ first :: inner, by simp, hcancels⟩

theorem collapse_of_cancels {before after : List (List Char)} (hbefore : Cancels before)
    (hsegment : segment = [] ∨ segment = up) :
    collapse (before ++ segment :: after) = segment :: collapse after := by
  have hsolid : Solid [segment] := fun last hlast => Option.some.inj hlast ▸ hsegment
  rw [collapse, List.foldl_append, foldl_push_of_cancels hbefore, List.foldl_cons,
    push_of_solid solid_nil, foldl_push_eq_append (.inl hsolid), List.reverse_append]
  rfl

def joinedSegments (source path : String) : List (List Char) :=
  Text.splitChars '/' (join source.toList path.toList)

variable {source path : String}

theorem toList_resolve (hpath : isAbsolute path.toList = false) :
    (resolve source path).toList = ['/'].intercalate (collapse (joinedSegments source path)) := by
  rw [resolve, String.toList_ofList, resolveChars, if_neg (by simp [hpath]), joinedSegments]

theorem not_mem_of_mem_collapse_joinedSegments {piece : List Char}
    (h : piece ∈ collapse (joinedSegments source path)) : '/' ∉ piece :=
  Text.not_mem_of_mem_splitChars (mem_of_mem_collapse h)

end ResourcePath

end MarkupSnippets

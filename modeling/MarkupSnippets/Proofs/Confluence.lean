import Mathlib.Logic.Relation
import MarkupSnippets.Proofs.Segments

namespace MarkupSnippets.ResourcePath

open Relation (ReflTransGen)

/-- A segment and the step up right behind it are deleted. -/
inductive Deletes : List (List Char) → List (List Char) → Prop where
  | pair {before after : List (List Char)} {segment : List Char} (hne : segment ≠ [])
      (hup : segment ≠ up) : Deletes (before ++ segment :: up :: after) (before ++ after)

def Collapsed (segments : List (List Char)) : Prop := ∀ next, ¬Deletes segments next

/-- Segments to which every order of deleting leads. -/
structure NormalForm (segments normal : List (List Char)) : Prop where
  reached : ReflTransGen Deletes segments normal
  collapsed : Collapsed normal
  confluent : ∀ other, ReflTransGen Deletes segments other → ReflTransGen Deletes other normal
  unique : ∀ other, ReflTransGen Deletes segments other → Collapsed other → other = normal
  ends : ¬∃ run : Nat → List (List Char), run 0 = segments ∧ ∀ n, Deletes (run n) (run (n + 1))

variable {segments next : List (List Char)}

theorem Deletes.length_lt (h : Deletes segments next) : next.length < segments.length := by
  cases h with
  | pair hne hup =>
    simp only [List.length_append, List.length_cons]
    omega

theorem Deletes.concat (h : Deletes segments next) (segment : List Char) :
    Deletes (segments ++ [segment]) (next ++ [segment]) := by
  cases h with
  | @pair before after _ hne hup =>
    rw [List.append_assoc, List.append_assoc]
    exact .pair hne hup

theorem Deletes.collapse_eq (h : Deletes segments next) : collapse next = collapse segments := by
  cases h with
  | @pair before after segment hne hup =>
    have htaken : (segment :: up :: after).foldl push (before.foldl push []) =
        after.foldl push (before.foldl push []) := by
      rw [List.foldl_cons, push_of_ne_up hup, List.foldl_cons, push_up hne hup]
    rw [collapse, collapse, List.foldl_append, List.foldl_append, htaken]

theorem collapse_eq_of_deletes (h : ReflTransGen Deletes segments next) :
    collapse next = collapse segments := by
  induction h with
  | refl => rfl
  | tail _ hstep ih => exact hstep.collapse_eq.trans ih

theorem deletes_collapse (segments : List (List Char)) :
    ReflTransGen Deletes segments (collapse segments) := by
  induction segments using List.reverseRecOn with
  | nil => exact .refl
  | append_singleton segments segment ih =>
    have hearlier : ReflTransGen Deletes (segments ++ [segment]) (collapse segments ++ [segment]) :=
      ih.lift (· ++ [segment]) fun _ _ h => h.concat segment
    have hfold : collapse (segments ++ [segment]) =
        (push (segments.foldl push []) segment).reverse := by
      rw [collapse, List.foldl_append, List.foldl_cons, List.foldl_nil]
    obtain ⟨-, hpush⟩ | ⟨rfl, last, before, htaken, hne, hup, hpush⟩ :=
      push_cases (segments.foldl push []) segment
    · rw [hfold, hpush, List.reverse_cons]
      exact hearlier
    · -- What was left ends with the segment that the step up takes back.
      have hpair : Deletes (before.reverse ++ [last, up]) (before.reverse ++ []) := .pair hne hup
      rw [hfold, hpush]
      rw [collapse, htaken, List.reverse_cons, List.append_assoc] at hearlier
      rw [List.append_nil] at hpair
      exact hearlier.tail hpair

theorem collapse_collapse (segments : List (List Char)) :
    collapse (collapse segments) = collapse segments :=
  collapse_eq_of_deletes (deletes_collapse segments)

theorem eq_of_collapsed (h : Collapsed segments) (hreach : ReflTransGen Deletes segments next) :
    next = segments := by
  obtain heq | ⟨other, hstep, -⟩ := hreach.cases_head
  · exact heq.symm
  · exact absurd hstep (h other)

theorem collapsed_iff : Collapsed segments ↔ collapse segments = segments := by
  constructor
  · intro h
    exact eq_of_collapsed h (deletes_collapse segments)
  · intro h next hstep
    -- Nothing gets longer on the way from the shorter list to its normal form.
    have hle : (collapse next).length ≤ next.length := by
      have hreach := deletes_collapse next
      generalize collapse next = normal at hreach
      induction hreach with
      | refl => exact Nat.le_refl _
      | tail _ hlast ih => exact Nat.le_trans (Nat.le_of_lt hlast.length_lt) ih
    rw [hstep.collapse_eq, h] at hle
    exact absurd hstep.length_lt (Nat.not_lt.2 hle)

theorem not_exists_run (segments : List (List Char)) :
    ¬∃ run : Nat → List (List Char), run 0 = segments ∧ ∀ n, Deletes (run n) (run (n + 1)) := by
  rintro ⟨run, -, hrun⟩
  have hlength (n : Nat) : (run n).length + n ≤ (run 0).length := by
    induction n with
    | zero => exact Nat.le_refl _
    | succ n ih =>
      have := (hrun n).length_lt
      omega
  have := hlength ((run 0).length + 1)
  omega

theorem normalForm_collapse (segments : List (List Char)) :
    NormalForm segments (collapse segments) where
  reached := deletes_collapse segments
  collapsed := collapsed_iff.2 (collapse_collapse segments)
  confluent other hother := by
    rw [← collapse_eq_of_deletes hother]
    exact deletes_collapse other
  unique other hother hcollapsed := by
    rw [← collapse_eq_of_deletes hother]
    exact (collapsed_iff.1 hcollapsed).symm
  ends := not_exists_run segments

variable {source path : String}

/-- A resolved path is made of the normal form of the joined segments, which is therefore what its
segments are; the empty path, which has one empty segment, also stands for none at all. So there is
nothing left to delete in it, and collapsing it once more changes nothing. -/
theorem segments_resolve (hpath : isAbsolute path.toList = false) :
    ∃ normal, NormalForm (joinedSegments source path) normal ∧
      (resolve source path).toList = ['/'].intercalate normal ∧
      Text.splitChars '/' (resolve source path).toList = (if normal = [] then [[]] else normal) ∧
      Collapsed (Text.splitChars '/' (resolve source path).toList) ∧
      collapse (Text.splitChars '/' (resolve source path).toList) =
        Text.splitChars '/' (resolve source path).toList := by
  have hsplit : Text.splitChars '/' (resolve source path).toList =
      if collapse (joinedSegments source path) = [] then [[]]
      else collapse (joinedSegments source path) := by
    rw [toList_resolve hpath]
    split
    · next hnil =>
      rw [hnil]
      rfl
    · next hne =>
      exact Text.splitChars_intercalate hne fun _ => not_mem_of_mem_collapse_joinedSegments
  have hagain : collapse (Text.splitChars '/' (resolve source path).toList) =
      Text.splitChars '/' (resolve source path).toList := by
    rw [hsplit]
    split
    · rfl
    · exact collapse_collapse _
  exact ⟨_, normalForm_collapse _, toList_resolve hpath, hsplit, collapsed_iff.2 hagain, hagain⟩

theorem segments_resolve_mixed :
    isAbsolute "./x/../..//../../y/./..".toList = false ∧
      resolve "../a/b/page.xml" "./x/../..//../../y/./.." = "../a//../../y" ∧
      ∀ other, ReflTransGen Deletes
          (joinedSegments "../a/b/page.xml" "./x/../..//../../y/./..") other →
        Collapsed other → other = [up, ['a'], [], up, up, ['y']] := by
  have hpath : isAbsolute "./x/../..//../../y/./..".toList = false := by decide +kernel
  refine ⟨hpath, by decide +kernel, fun other hother hcollapsed => ?_⟩
  obtain ⟨normal, hnormal, -, hsplit, -⟩ := @segments_resolve "../a/b/page.xml" _ hpath
  have hresult : Text.splitChars '/'
      (resolve "../a/b/page.xml" "./x/../..//../../y/./..").toList =
        [up, ['a'], [], up, up, ['y']] := by decide +kernel
  rw [hnormal.unique other hother hcollapsed, ← hresult, hsplit, if_neg]
  rintro rfl
  rw [if_pos rfl, hresult] at hsplit
  cases hsplit

end MarkupSnippets.ResourcePath

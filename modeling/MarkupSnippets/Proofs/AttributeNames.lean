import Mathlib.Data.List.Nodup
import MarkupSnippets.Output.Syntax

namespace MarkupSnippets.Output

/-- What tells attributes of one element apart: the namespace and the name. -/
def Attribute.fullName (a : Attribute) : Option String × String := (a.ns, a.name)

theorem Attribute.sameName_iff {a b : Attribute} :
    a.sameName b = true ↔ a.fullName = b.fullName := by
  simp [sameName, fullName, and_comm]

def fullNames (attributes : List Attribute) : List (Option String × String) :=
  attributes.map Attribute.fullName

def findNamed (attributes : List Attribute) (name : Option String × String) : Option Attribute :=
  attributes.find? fun a => a.fullName == name

theorem fullNames_cons (a : Attribute) (attributes : List Attribute) :
    fullNames (a :: attributes) = a.fullName :: fullNames attributes := rfl

theorem findNamed_cons (a : Attribute) (attributes : List Attribute)
    (name : Option String × String) :
    findNamed (a :: attributes) name =
      if a.fullName = name then some a else findNamed attributes name := by
  rw [findNamed, List.find?_cons]
  by_cases h : a.fullName = name
  · rw [beq_iff_eq.2 h, if_pos h]
  · rw [beq_false_of_ne h, if_neg h, findNamed]

theorem fullNames_setAttribute (a : Attribute) (attributes : List Attribute) :
    fullNames (setAttribute a attributes) =
      if a.fullName ∈ fullNames attributes then fullNames attributes
      else fullNames attributes ++ [a.fullName] := by
  induction attributes with
  | nil => rfl
  | cons b rest ih =>
    rw [setAttribute]
    split
    · next hsame =>
      rw [fullNames_cons, fullNames_cons, Attribute.sameName_iff.1 hsame,
        if_pos List.mem_cons_self]
    · next hsame =>
      have hname : a.fullName ≠ b.fullName := fun h => hsame (Attribute.sameName_iff.2 h.symm)
      rw [fullNames_cons, ih, fullNames_cons]
      simp only [List.mem_cons, hname, false_or]
      split
      · rfl
      · rw [List.cons_append]

theorem findNamed_setAttribute (a : Attribute) (attributes : List Attribute)
    (name : Option String × String) :
    findNamed (setAttribute a attributes) name =
      if a.fullName = name then some a else findNamed attributes name := by
  induction attributes with
  | nil => exact findNamed_cons a [] name
  | cons b rest ih =>
    rw [setAttribute]
    split
    · next hsame =>
      rw [findNamed_cons, findNamed_cons, Attribute.sameName_iff.1 hsame]
      split <;> rfl
    · next hsame =>
      have hname : b.fullName ≠ a.fullName := mt Attribute.sameName_iff.2 hsame
      rw [findNamed_cons, ih, findNamed_cons]
      by_cases hquery : a.fullName = name
      · rw [if_pos hquery, if_neg (hquery ▸ hname), if_pos hquery]
      · rw [if_neg hquery, if_neg hquery]

theorem nodup_fullNames_setAttribute {attributes : List Attribute}
    (h : (fullNames attributes).Nodup) (a : Attribute) :
    (fullNames (setAttribute a attributes)).Nodup := by
  rw [fullNames_setAttribute]
  split
  · exact h
  · next hnew => exact List.nodup_append_comm.1 (List.nodup_cons.2 ⟨hnew, h⟩)

/-- A list of attributes with distinct names is that of its names, each with what is found. -/
theorem eq_filterMap_of_nodup {attributes : List Attribute} (h : (fullNames attributes).Nodup) :
    attributes = (fullNames attributes).filterMap (findNamed attributes) := by
  induction attributes with
  | nil => rfl
  | cons a rest ih =>
    rw [fullNames_cons, List.nodup_cons] at h
    obtain ⟨hnew, hrest⟩ := h
    have hothers : (fullNames rest).filterMap (findNamed (a :: rest)) =
        (fullNames rest).filterMap (findNamed rest) := by
      refine List.filterMap_congr fun name hname => ?_
      have hne : a.fullName ≠ name := fun heq => hnew (heq ▸ hname)
      rw [findNamed_cons, if_neg hne]
    rw [fullNames_cons, List.filterMap_cons, findNamed_cons, if_pos rfl, hothers, ← ih hrest]

end MarkupSnippets.Output

import MarkupSnippets.Text.Cut

namespace MarkupSnippets.Text

theorem exists_splitAt?_append (pattern before rest : List Char) :
    ∃ skipped behind, splitAt? pattern (before ++ (pattern ++ rest)) = some (skipped, behind) ∧
      rest <:+ behind := by
  induction before with
  | nil =>
    have hdrop : dropStart? pattern (pattern ++ rest) = some rest := dropStart?_eq_some.2 rfl
    refine ⟨[], rest, ?_, List.suffix_rfl⟩
    rw [List.nil_append]
    generalize pattern ++ rest = cs at hdrop
    cases cs with
    | nil => rw [splitAt?, hdrop]; rfl
    | cons c cs => rw [splitAt?, hdrop]
  | cons c before ih =>
    rw [List.cons_append, splitAt?]
    cases hdrop : dropStart? pattern (c :: (before ++ (pattern ++ rest))) with
    | some behind =>
      refine ⟨[], behind, rfl, ?_⟩
      have heq := dropStart?_eq_some.1 hdrop
      have hrest : rest <:+ c :: (before ++ (pattern ++ rest)) :=
        ⟨c :: (before ++ pattern), by simp⟩
      rw [heq] at hrest
      have hlength := congrArg List.length heq
      simp only [List.length_cons, List.length_append] at hlength
      exact List.suffix_of_suffix_length_le hrest (List.suffix_append pattern behind) (by omega)
    | none =>
      obtain ⟨skipped, behind, hsplit, hsuffix⟩ := ih
      exact ⟨c :: skipped, behind, by rw [hsplit]; rfl, hsuffix⟩

theorem splitAt?_eq_none_iff {pattern cs : List Char} :
    splitAt? pattern cs = none ↔ ¬pattern <:+: cs := by
  constructor
  · rintro hnone ⟨before, rest, rfl⟩
    obtain ⟨skipped, behind, hsplit, -⟩ := exists_splitAt?_append pattern before rest
    rw [List.append_assoc, hsplit] at hnone
    cases hnone
  · intro h
    cases hsplit : splitAt? pattern cs with
    | none => rfl
    | some found =>
      obtain ⟨before, rest⟩ := found
      exact absurd ⟨before, rest, by rw [eq_of_splitAt? hsplit, List.append_assoc]⟩ h

theorem prefix_of_splitAt? {pattern before after start rest : List Char}
    (h : splitAt? pattern (start ++ (pattern ++ rest)) = some (before, after)) :
    before <+: start := by
  obtain ⟨skipped, behind, hsplit, hsuffix⟩ := exists_splitAt?_append pattern start rest
  obtain ⟨rfl, rfl⟩ := Prod.mk.inj (Option.some.inj (h.symm.trans hsplit))
  have hcut : start ++ (pattern ++ rest) = before ++ (pattern ++ after) := eq_of_splitAt? h
  have hlength := congrArg List.length hcut
  have hrest := hsuffix.length_le
  simp only [List.length_append] at hlength
  refine List.prefix_of_prefix_length_le ⟨_, hcut.symm⟩ (List.prefix_append start _) (by omega)

theorem dropStart?_append_eq_none {pattern cs : List Char} (h : dropStart? pattern cs = none)
    (hlength : pattern.length ≤ cs.length) (after : List Char) :
    dropStart? pattern (cs ++ after) = none := by
  cases hdrop : dropStart? pattern (cs ++ after) with
  | none => rfl
  | some rest =>
    have hpattern : pattern <+: cs ++ after := ⟨rest, (dropStart?_eq_some.1 hdrop).symm⟩
    obtain ⟨kept, hkept⟩ :=
      List.prefix_of_prefix_length_le hpattern (List.prefix_append cs after) hlength
    rw [dropStart?_eq_some.2 hkept.symm] at h
    cases h

theorem splitAt?_append_right {pattern cs before rest : List Char}
    (h : splitAt? pattern cs = some (before, rest)) (after : List Char) :
    splitAt? pattern (cs ++ after) = some (before, rest ++ after) := by
  induction cs generalizing before with
  | nil =>
    have heq := eq_of_splitAt? h
    obtain ⟨rfl, hrest⟩ := List.append_eq_nil_iff.1 heq.symm
    obtain ⟨rfl, rfl⟩ := List.append_eq_nil_iff.1 hrest
    cases after <;> simp [splitAt?, dropStart?]
  | cons c cs ih =>
    simp only [splitAt?] at h
    rw [List.cons_append, splitAt?]
    split at h
    · next found hfound =>
      obtain ⟨rfl, rfl⟩ := Prod.mk.inj (Option.some.inj h)
      have hdrop : dropStart? pattern (c :: (cs ++ after)) = some (found ++ after) := by
        rw [dropStart?_eq_some, ← List.cons_append, dropStart?_eq_some.1 hfound,
          List.append_assoc]
      rw [hdrop]
    · next hnot =>
      obtain ⟨⟨inner, found⟩, hfound, heq⟩ := Option.map_eq_some_iff.1 h
      obtain ⟨rfl, rfl⟩ := Prod.mk.inj heq
      have hlength : pattern.length ≤ (c :: cs).length := by
        rw [eq_of_splitAt? hfound]
        simp only [List.length_cons, List.length_append]
        omega
      rw [← List.cons_append, dropStart?_append_eq_none hnot hlength, ih hfound]
      rfl

theorem splitAt?_append_left {c : Char} {pattern cs before rest skipped : List Char}
    (hskipped : c ∉ skipped) (h : splitAt? (c :: pattern) cs = some (before, rest)) :
    splitAt? (c :: pattern) (skipped ++ cs) = some (skipped ++ before, rest) := by
  induction skipped with
  | nil => exact h
  | cons d skipped ih =>
    obtain ⟨hne, hskipped⟩ := not_or.1 (mt List.mem_cons.2 hskipped)
    simp [splitAt?, dropStart?, hne, ih hskipped]

theorem byteSize_eq_zero_iff {cs : List Char} : byteSize cs = 0 ↔ cs = [] := by
  cases cs with
  | nil => simp
  | cons c cs =>
    have hpos := c.utf8Size_pos
    simp only [byteSize_cons, reduceCtorEq, iff_false]
    omega

theorem byteSize_mono {start cs : List Char} (h : start <+: cs) :
    byteSize start ≤ byteSize cs := by
  obtain ⟨rest, rfl⟩ := h
  rw [byteSize_append]
  exact Nat.le_add_right _ _

theorem prefix_of_byteSize_le {start other cs : List Char} (hstart : start <+: cs)
    (hother : other <+: cs) (h : byteSize start ≤ byteSize other) : start <+: other := by
  obtain hprefix | ⟨rest, rfl⟩ := List.prefix_or_prefix_of_prefix hstart hother
  · exact hprefix
  · rw [byteSize_append] at h
    obtain rfl : rest = [] := byteSize_eq_zero_iff.1 (by omega)
    exact ⟨[], by simp⟩

theorem append_inj_of_byteSize {start other rest rest' : List Char}
    (h : start ++ rest = other ++ rest') (hsize : byteSize start = byteSize other) :
    start = other ∧ rest = rest' := by
  have hother : other <+: start ++ rest := h ▸ List.prefix_append other rest'
  obtain ⟨between, rfl⟩ :=
    prefix_of_byteSize_le (List.prefix_append start rest) hother (Nat.le_of_eq hsize)
  rw [byteSize_append] at hsize
  obtain rfl : between = [] := byteSize_eq_zero_iff.1 (by omega)
  simpa using h

/-- Whether a pattern stands in a text behind so many bytes. -/
def OccursAt (pattern cs : List Char) (offset : Nat) : Prop :=
  ∃ before after, cs = before ++ (pattern ++ after) ∧ byteSize before = offset

/-- Whether a pattern stands at an offset, and nowhere from a bound on before that. -/
def FirstFrom (pattern cs : List Char) (bound offset : Nat) : Prop :=
  bound ≤ offset ∧ OccursAt pattern cs offset ∧
    ∀ other, bound ≤ other → OccursAt pattern cs other → offset ≤ other

theorem FirstFrom.unique {pattern cs : List Char} {bound offset other : Nat}
    (h : FirstFrom pattern cs bound offset) (hother : FirstFrom pattern cs bound other) :
    offset = other :=
  Nat.le_antisymm (h.2.2 other hother.1 hother.2.1) (hother.2.2 offset h.1 h.2.1)

theorem OccursAt.end {pattern cs : List Char} {offset : Nat} (h : OccursAt pattern cs offset) :
    OccursAt [] cs (offset + byteSize pattern) := by
  obtain ⟨before, after, rfl, rfl⟩ := h
  exact ⟨before ++ pattern, after, by simp, byteSize_append before pattern⟩

theorem OccursAt.unique {pattern other cs : List Char} {offset : Nat}
    (h : OccursAt pattern cs offset) (hother : OccursAt other cs offset)
    (hsize : byteSize pattern = byteSize other) : pattern = other := by
  obtain ⟨before, after, rfl, hbefore⟩ := h
  obtain ⟨before', after', hsplit, hbefore'⟩ := hother
  have hrest := (append_inj_of_byteSize hsplit (hbefore.trans hbefore'.symm)).2
  exact (append_inj_of_byteSize hrest hsize).1

theorem OccursAt.add_le {pattern cs : List Char} {offset : Nat} (h : OccursAt pattern cs offset) :
    offset + byteSize pattern ≤ byteSize cs := by
  obtain ⟨before, after, rfl, rfl⟩ := h
  simp only [byteSize_append]
  omega

theorem exists_of_occursAt_append {pattern start rest : List Char} {offset : Nat}
    (h : OccursAt pattern (start ++ rest) offset) (hoffset : byteSize start ≤ offset) :
    ∃ before after, rest = before ++ (pattern ++ after) ∧
      offset = byteSize start + byteSize before := by
  obtain ⟨lead, after, hsplit, rfl⟩ := h
  have hlead : lead <+: start ++ rest := hsplit ▸ List.prefix_append lead _
  obtain ⟨before, rfl⟩ :=
    prefix_of_byteSize_le (List.prefix_append start rest) hlead hoffset
  rw [List.append_assoc, List.append_cancel_left_eq] at hsplit
  exact ⟨before, after, hsplit, byteSize_append start before⟩

theorem not_occursAt_of_splitAt? {pattern rest : List Char} (start : List Char)
    (h : splitAt? pattern rest = none) {offset : Nat} (hoffset : byteSize start ≤ offset) :
    ¬OccursAt pattern (start ++ rest) offset := by
  intro hoccurs
  obtain ⟨before, after, rfl, -⟩ := exists_of_occursAt_append hoccurs hoffset
  exact splitAt?_eq_none_iff.1 h ⟨before, after, List.append_assoc _ _ _⟩

theorem firstFrom_of_splitAt? {pattern rest before after : List Char} (start : List Char)
    (h : splitAt? pattern rest = some (before, after)) :
    FirstFrom pattern (start ++ rest) (byteSize start) (byteSize start + byteSize before) := by
  refine ⟨Nat.le_add_right _ _, ⟨start ++ before, after, ?_, byteSize_append start before⟩, ?_⟩
  · rw [List.append_assoc, ← eq_of_splitAt? h]
  · intro other hother hoccurs
    obtain ⟨lead, behind, rfl, rfl⟩ := exists_of_occursAt_append hoccurs hother
    exact Nat.add_le_add_left (byteSize_mono (prefix_of_splitAt? h)) _

end MarkupSnippets.Text

import MarkupSnippets.Placeholder

namespace MarkupSnippets

namespace Text

theorem trimRight_isPrefix (cs : List Char) : trimRight cs <+: cs := by
  induction cs with
  | nil => exact List.prefix_rfl
  | cons c cs ih =>
    rw [trimRight]
    split
    · split
      · exact List.nil_prefix
      · exact ⟨cs, rfl⟩
    · exact List.cons_prefix_cons.2 ⟨rfl, ih⟩

theorem trimRight_trimRight (cs : List Char) : trimRight (trimRight cs) = trimRight cs := by
  induction cs with
  | nil => rfl
  | cons c cs ih =>
    cases hrest : trimRight cs with
    | nil => cases hc : isBlank c <;> simp [trimRight, hrest, hc]
    | cons d ds =>
      rw [hrest] at ih
      have hkept : trimRight (c :: cs) = c :: d :: ds := by rw [trimRight, hrest]
      rw [hkept, trimRight, ih]

theorem head?_trimRight {c : Char} (hc : isBlank c = false) (cs : List Char) :
    (trimRight (c :: cs)).head? = some c := by
  rw [trimRight]
  split
  · simp [hc]
  · rfl

theorem trimChars_trimChars (cs : List Char) : trimChars (trimChars cs) = trimChars cs := by
  have hkept : (trimChars cs).dropWhile isBlank = trimChars cs := by
    cases hstart : cs.dropWhile isBlank with
    | nil => simp [trimChars, hstart, trimRight]
    | cons c rest =>
      have hc : isBlank c = false := by
        have := List.head?_dropWhile_not isBlank cs
        simpa [hstart] using this
      have hhead := head?_trimRight hc rest
      rw [trimChars, hstart]
      cases htrim : trimRight (c :: rest) with
      | nil => rfl
      | cons d ds =>
        rw [htrim] at hhead
        obtain rfl := Option.some.inj hhead
        exact List.dropWhile_cons_of_neg (by simp [hc])
  rw [trimChars, hkept]
  exact trimRight_trimRight _

theorem trimRight_concat {c : Char} (hc : isBlank c = false) (cs : List Char) :
    trimRight (cs ++ [c]) = cs ++ [c] := by
  induction cs with
  | nil => simp [trimRight, hc]
  | cons d cs ih =>
    rw [List.cons_append, trimRight, ih]
    cases cs <;> rfl

theorem head?_of_trimChars_eq {cs : List Char} (h : trimChars cs = cs) :
    ∀ c ∈ cs.head?, isBlank c = false := by
  intro c hc
  cases cs with
  | nil => cases hc
  | cons d cs =>
    obtain rfl := Option.some.inj hc
    rw [Bool.eq_false_iff]
    intro hblank
    rw [trimChars, List.dropWhile_cons_of_pos hblank] at h
    have hlength := (trimRight_isPrefix (cs.dropWhile isBlank)).length_le
    rw [h] at hlength
    have hshorter := length_dropWhile_le isBlank cs
    simp only [List.length_cons] at hlength
    omega

theorem dropWhile_of_trimChars_eq {cs : List Char} (h : trimChars cs = cs) :
    cs.dropWhile isBlank = cs := by
  have hhead := head?_of_trimChars_eq h
  cases cs with
  | nil => rfl
  | cons c cs => rw [List.dropWhile_cons_of_neg (by simp [hhead c rfl])]

theorem trimRight_append {cs : List Char} (h : trimRight cs = cs) (hne : cs ≠ [])
    (before : List Char) : trimRight (before ++ cs) = before ++ cs := by
  induction before with
  | nil => exact h
  | cons c before ih =>
    rw [List.cons_append, trimRight, ih]
    cases hrest : before ++ cs with
    | nil => exact absurd (List.append_eq_nil_iff.1 hrest).2 hne
    | cons => rfl

theorem trimChars_append {start stop : List Char} (hstart : trimChars start = start)
    (hstop : trimChars stop = stop) (hstartNe : start ≠ []) (hstopNe : stop ≠ [])
    (between : List Char) :
    trimChars (start ++ (between ++ stop)) = start ++ (between ++ stop) := by
  have hkept : (start ++ (between ++ stop)).dropWhile isBlank = start ++ (between ++ stop) := by
    cases start with
    | nil => exact absurd rfl hstartNe
    | cons c start =>
      exact List.dropWhile_cons_of_neg (by simp [head?_of_trimChars_eq hstart c rfl])
  have hright : trimRight stop = stop := by
    have := hstop
    rwa [trimChars, dropWhile_of_trimChars_eq hstop] at this
  rw [trimChars, hkept, ← List.append_assoc]
  exact trimRight_append hright hstopNe (start ++ between)

theorem trim_trim (s : String) : trim (trim s) = trim s := by
  rw [trim, trim, String.toList_ofList, trimChars_trimChars]

/-- A text is its trimmed form between white space. -/
theorem exists_eq_append_trimChars (cs : List Char) :
    ∃ before after, (∀ c ∈ before, isBlank c = true) ∧ cs = before ++ (trimChars cs ++ after) := by
  obtain ⟨after, hafter⟩ := trimRight_isPrefix (cs.dropWhile isBlank)
  refine ⟨cs.takeWhile isBlank, after, List.all_eq_true.1 List.all_takeWhile, ?_⟩
  rw [trimChars, hafter, List.takeWhile_append_dropWhile]

end Text

theorem resolve?_trim (data : Data) (path : String) :
    resolve? data (Text.trim path) = resolve? data path := by
  rw [resolve?, resolve?, Text.trim_trim]

end MarkupSnippets

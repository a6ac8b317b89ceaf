namespace MarkupSnippets.Text

theorem length_dropWhile_le (p : Char → Bool) (cs : List Char) :
    (cs.dropWhile p).length ≤ cs.length :=
  (List.dropWhile_suffix p).length_le

/-- Cut at each separator; the result has one piece more than the text has separators. -/
def splitChars (separator : Char) : List Char → List (List Char)
  | [] => [[]]
  | c :: cs =>
    if c = separator then [] :: splitChars separator cs
    else
      match splitChars separator cs with
      | [] => [[c]]
      | piece :: pieces => (c :: piece) :: pieces

def split (separator : Char) (s : String) : List String :=
  (splitChars separator s.toList).map String.ofList

def byteSize (cs : List Char) : Nat :=
  cs.foldr (fun c size => c.utf8Size + size) 0

@[simp] theorem byteSize_nil : byteSize [] = 0 := rfl

@[simp] theorem byteSize_cons (c : Char) (cs : List Char) :
    byteSize (c :: cs) = c.utf8Size + byteSize cs := rfl

@[simp] theorem byteSize_append (xs ys : List Char) :
    byteSize (xs ++ ys) = byteSize xs + byteSize ys := by
  induction xs with
  | nil => simp
  | cons c cs ih => simp [ih, Nat.add_assoc]

theorem splitChars_ne_nil (separator : Char) (cs : List Char) : splitChars separator cs ≠ [] := by
  cases cs with
  | nil => simp [splitChars]
  | cons c cs =>
    simp only [splitChars]
    split
    · simp
    · split <;> simp

def throughLast (separator : Char) : List Char → List Char
  | [] => []
  | c :: cs => if (c :: cs).contains separator then c :: throughLast separator cs else []

def afterLast (separator : Char) : List Char → List Char
  | [] => []
  | c :: cs => if (c :: cs).contains separator then afterLast separator cs else c :: cs

theorem throughLast_append_afterLast (separator : Char) (cs : List Char) :
    throughLast separator cs ++ afterLast separator cs = cs := by
  induction cs with
  | nil => rfl
  | cons c cs ih =>
    simp only [throughLast, afterLast]
    split
    · rw [List.cons_append, ih]
    · rfl

def dropStart? : List Char → List Char → Option (List Char)
  | [], cs => some cs
  | _ :: _, [] => none
  | p :: ps, c :: cs => if p = c then dropStart? ps cs else none

theorem dropStart?_eq_some {start cs rest : List Char} :
    dropStart? start cs = some rest ↔ cs = start ++ rest := by
  induction start generalizing cs with
  | nil => simp [dropStart?]
  | cons p ps ih =>
    cases cs with
    | nil => simp [dropStart?]
    | cons c cs =>
      by_cases h : p = c
      · simp [dropStart?, h, ih]
      · simp [dropStart?, h, Ne.symm h]

def splitAt? (pattern : List Char) : List Char → Option (List Char × List Char)
  | [] => (dropStart? pattern []).map ([], ·)
  | c :: cs =>
    match dropStart? pattern (c :: cs) with
    | some rest => some ([], rest)
    | none => (splitAt? pattern cs).map fun (before, rest) => (c :: before, rest)

theorem eq_of_splitAt? {pattern cs before rest : List Char}
    (h : splitAt? pattern cs = some (before, rest)) : cs = before ++ (pattern ++ rest) := by
  induction cs generalizing before with
  | nil =>
    simp only [splitAt?, Option.map_eq_some_iff, Prod.mk.injEq] at h
    obtain ⟨r, hr, hb, rfl⟩ := h
    subst hb
    rw [List.nil_append, dropStart?_eq_some.1 hr]
  | cons c cs ih =>
    simp only [splitAt?] at h
    split at h
    · next hr =>
      obtain ⟨hb, rfl⟩ := Prod.mk.inj (Option.some.inj h)
      subst hb
      rw [List.nil_append, dropStart?_eq_some.1 hr]
    · obtain ⟨⟨b, r⟩, hb, he⟩ := Option.map_eq_some_iff.1 h
      obtain ⟨rfl, rfl⟩ := Prod.mk.inj he
      rw [ih hb, List.cons_append]

theorem splitAt?_length_le {pattern cs before rest : List Char}
    (h : splitAt? pattern cs = some (before, rest)) : rest.length ≤ cs.length := by
  rw [eq_of_splitAt? h]
  simp only [List.length_append]
  omega

def behind? (pattern cs : List Char) : Option (List Char) :=
  (splitAt? pattern cs).map (·.2)

theorem behind?_length_le {pattern cs rest : List Char} (h : behind? pattern cs = some rest) :
    rest.length ≤ cs.length := by
  obtain ⟨⟨_, _⟩, hsplit, rfl⟩ := Option.map_eq_some_iff.1 h
  exact splitAt?_length_le hsplit

/-- A text has one cut at a separator with nothing of it before. -/
theorem append_cons_inj {α : Type} {sep : α} {xs ys xs' ys' : List α} (hxs : sep ∉ xs)
    (hys : sep ∉ ys) : xs ++ sep :: xs' = ys ++ sep :: ys' ↔ xs = ys ∧ xs' = ys' := by
  constructor
  · intro h
    induction xs generalizing ys with
    | nil =>
      cases ys with
      | nil => exact ⟨rfl, (List.cons.inj h).2⟩
      | cons y ys => exact absurd ((List.cons.inj h).1 ▸ List.mem_cons_self) hys
    | cons x xs ih =>
      cases ys with
      | nil => exact absurd ((List.cons.inj h).1 ▸ List.mem_cons_self) hxs
      | cons y ys =>
        obtain ⟨rfl, htail⟩ := List.cons.inj h
        have hxs : sep ∉ xs := mt (List.mem_cons_of_mem x) hxs
        have hys : sep ∉ ys := mt (List.mem_cons_of_mem x) hys
        obtain ⟨rfl, rfl⟩ := ih hxs hys htail
        exact ⟨rfl, rfl⟩
  · rintro ⟨rfl, rfl⟩
    rfl

theorem append_cons_inj_right {α : Type} {sep : α} {xs ys xs' ys' : List α} (hxs : sep ∉ xs')
    (hys : sep ∉ ys') : xs ++ sep :: xs' = ys ++ sep :: ys' ↔ xs = ys ∧ xs' = ys' := by
  rw [← List.reverse_inj]
  simp only [List.reverse_append, List.reverse_cons, List.append_assoc, List.singleton_append]
  rw [append_cons_inj (mt List.mem_reverse.1 hxs) (mt List.mem_reverse.1 hys), List.reverse_inj,
    List.reverse_inj, and_comm]

end MarkupSnippets.Text

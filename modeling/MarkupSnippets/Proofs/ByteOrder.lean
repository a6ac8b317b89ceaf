import Mathlib.Data.List.Lex

namespace MarkupSnippets.Text

def utf8 (s : String) : List UInt8 := s.toByteArray.data.toList

theorem utf8_eq_flatMap (s : String) : utf8 s = s.toList.flatMap String.utf8EncodeChar := by
  have hbytes : s.toByteArray = s.toList.utf8Encode := by simp
  rw [utf8, hbytes, List.utf8Encode, List.toList_data_toByteArray]

theorem codePoint_lt (c : Char) : c.val.toNat < 0x110000 := by
  obtain h | ⟨-, h⟩ := c.valid
  · exact Nat.lt_trans h (by decide)
  · exact h

theorem ofNat_cons_lt {a b : Nat} (ha : a < 256) (hb : b < 256) (xs ys : List UInt8) :
    UInt8.ofNat a :: xs < UInt8.ofNat b :: ys ↔ a < b ∨ a = b ∧ xs < ys := by
  rw [List.cons_lt_cons_iff, UInt8.lt_iff_toNat_lt, ← UInt8.toNat_inj, UInt8.toNat_ofNat_of_lt' ha,
    UInt8.toNat_ofNat_of_lt' hb]

theorem div_lt_div_or {v w : Nat} (h : v < w) :
    v / 64 < w / 64 ∨ v / 64 = w / 64 ∧ v % 64 < w % 64 := by
  omega

theorem digits_lt {v w : Nat} (h : v < w) :
    v / 262144 < w / 262144 ∨ v / 262144 = w / 262144 ∧
      (v / 4096 % 64 < w / 4096 % 64 ∨ v / 4096 % 64 = w / 4096 % 64 ∧
        (v / 64 % 64 < w / 64 % 64 ∨ v / 64 % 64 = w / 64 % 64 ∧ v % 64 < w % 64)) := by
  have hquot (n : Nat) : n / 4096 = n / 64 / 64 ∧ n / 262144 = n / 64 / 64 / 64 := by
    simp only [Nat.div_div_eq_div_mul, and_self]
  rw [(hquot v).1, (hquot v).2, (hquot w).1, (hquot w).2]
  obtain h | ⟨h, hlast⟩ := div_lt_div_or h
  · obtain h | ⟨h, hthird⟩ := div_lt_div_or h
    · obtain h | ⟨h, hsecond⟩ := div_lt_div_or h
      · exact .inl h
      · exact .inr ⟨h, .inl hsecond⟩
    · rw [h]
      exact .inr ⟨rfl, .inr ⟨rfl, .inl hthird⟩⟩
  · rw [h]
    exact .inr ⟨rfl, .inr ⟨rfl, .inr ⟨rfl, hlast⟩⟩⟩

/-- The bytes of a smaller character are smaller, whatever follows. The first byte tells how many
there are, and more of them have a larger first byte; as many are compared like digits. -/
theorem utf8EncodeChar_append_lt {c d : Char} (h : c < d) (xs ys : List UInt8) :
    String.utf8EncodeChar c ++ xs < String.utf8EncodeChar d ++ ys := by
  have hlt : c.val.toNat < d.val.toNat := h
  have hd : d.val.toNat < 0x110000 := codePoint_lt d
  simp only [String.utf8EncodeChar]
  generalize c.val.toNat = v at hlt
  generalize d.val.toNat = w at hlt hd
  have hdigits := digits_lt hlt
  have hv : v / 262144 % 8 = v / 262144 := Nat.mod_eq_of_lt (by omega)
  have hw : w / 262144 % 8 = w / 262144 := Nat.mod_eq_of_lt (by omega)
  rw [hv, hw]
  clear hv hw
  split_ifs <;>
    simp (disch := omega) only [List.cons_append, List.nil_append, ofNat_cons_lt] <;> omega

theorem append_lt_append_left {xs ys : List UInt8} (zs : List UInt8) (h : xs < ys) :
    zs ++ xs < zs ++ ys := by
  induction zs with
  | nil => exact h
  | cons z zs ih => exact List.cons_lt_cons_iff.2 (.inr ⟨rfl, ih⟩)

theorem flatMap_utf8EncodeChar_lt {cs ds : List Char} (h : cs < ds) :
    cs.flatMap String.utf8EncodeChar < ds.flatMap String.utf8EncodeChar := by
  induction cs generalizing ds with
  | nil =>
    cases ds with
    | nil => exact absurd h (List.lt_irrefl _)
    | cons d ds =>
      obtain ⟨b, bs, hd⟩ := List.exists_cons_of_ne_nil (String.utf8EncodeChar_ne_nil (c := d))
      rw [List.flatMap_nil, List.flatMap_cons, hd]
      exact List.nil_lt_cons _ _
  | cons c cs ih =>
    cases ds with
    | nil => exact absurd h (List.not_lt_nil _)
    | cons d ds =>
      rw [List.flatMap_cons, List.flatMap_cons]
      obtain hlt | ⟨rfl, hlt⟩ := List.cons_lt_cons_iff.1 h
      · exact utf8EncodeChar_append_lt hlt _ _
      · exact append_lt_append_left _ (ih hlt)

/-- The order of texts is that of their bytes. -/
theorem lt_iff_utf8_lt (s t : String) : s < t ↔ utf8 s < utf8 t := by
  have hutf8 {s t : String} (h : s < t) : utf8 s < utf8 t := by
    rw [utf8_eq_flatMap, utf8_eq_flatMap]
    exact flatMap_utf8EncodeChar_lt h
  refine ⟨hutf8, fun h => Decidable.byContradiction fun hle => ?_⟩
  by_cases hge : t < s
  · exact List.lt_asymm h (hutf8 hge)
  · obtain rfl : s = t := String.le_antisymm hge hle
    exact List.lt_irrefl _ h

end MarkupSnippets.Text

import MarkupSnippets.Expr.Eval

namespace MarkupSnippets

theorem Number.eq_iff_compare? (x y : Number) : x.eq y = true ↔ x.compare? y = some .eq := by
  simp only [eq, compare?]
  cases x.place? with
  | none => simp
  | some a =>
    cases y.place? with
    | none => simp
    | some b => simp

namespace Value

def isScalar : Value → Bool
  | bool _ => true
  | number _ => true
  | text _ => true
  | _ => false

def numericOrder? (v w : Value) : Option Ordering :=
  v.asNumber?.bind fun x => w.asNumber?.bind fun y => x.compare? y

theorem numericOrder?_swap (v w : Value) :
    (v.numericOrder? w).map Ordering.swap = w.numericOrder? v := by
  simp only [numericOrder?]
  cases v.asNumber? with
  | none => cases w.asNumber? <;> rfl
  | some x =>
    cases w.asNumber? with
    | none => rfl
    | some y => exact Number.compare?_swap x y

theorem numericallyEqual_iff (v w : Value) :
    v.numericallyEqual w = true ↔ v.numericOrder? w = some .eq := by
  simp only [numericallyEqual, numericOrder?]
  cases v.asNumber? with
  | none => simp
  | some x =>
    cases w.asNumber? with
    | none => simp
    | some y => exact Number.eq_iff_compare? x y

theorem numericallyEqual_bool (a b : Bool) :
    (bool a).numericallyEqual (bool b) = (bool a).identical (bool b) := by
  rw [identical]
  cases a <;> cases b <;> decide +kernel

/-- Whether both values are texts: then the comparison is one of texts, not of numbers. -/
def areTexts : Value → Value → Bool
  | text _, text _ => true
  | _, _ => false

variable {v w : Value}

theorem order?_of_not_areTexts (h : v.areTexts w = false) : v.order? w = v.numericOrder? w := by
  cases v <;> cases w <;> first | rfl | simp_all [areTexts, order?, numericOrder?, asNumber?]

theorem looselyEqual_of_not_areTexts (h : v.areTexts w = false) :
    v.looselyEqual w = (v.numericallyEqual w || v.identical w) := by
  cases v with
  | null => cases w <;> rfl
  | bool a =>
    cases w with
    | bool b =>
      change (bool a).numericallyEqual (bool b) = _
      rw [numericallyEqual_bool, Bool.or_self]
    | _ => simp [looselyEqual, numericallyEqual, asNumber?, identical]
  | number x =>
    cases w with
    | number y => exact (Bool.or_self _).symm
    | _ => simp [looselyEqual, numericallyEqual, asNumber?, identical]
  | text s =>
    cases w with
    | text t => cases h
    | _ => simp [looselyEqual, numericallyEqual, asNumber?, identical]
  | list | record | callable =>
    cases w <;> simp [looselyEqual, numericallyEqual, asNumber?, identical]

theorem areTexts_comm (v w : Value) : v.areTexts w = w.areTexts v := by
  cases v <;> cases w <;> rfl

theorem eq_text_of_areTexts (h : v.areTexts w = true) : ∃ s t, v = text s ∧ w = text t := by
  cases v <;> cases w <;> first | exact ⟨_, _, rfl, rfl⟩ | cases h

theorem order?_swap (v w : Value) : (v.order? w).map Ordering.swap = w.order? v := by
  cases h : v.areTexts w with
  | true =>
    obtain ⟨s, t, rfl, rfl⟩ := eq_text_of_areTexts h
    exact congrArg some Std.OrientedOrd.eq_swap.symm
  | false =>
    have hswapped : w.areTexts v = false := (areTexts_comm w v).trans h
    rw [order?_of_not_areTexts h, order?_of_not_areTexts hswapped, numericOrder?_swap]

/-- Identical values are numerically equal if they are numbers or truth values; others have no
number, texts apart. -/
theorem numericOrder?_of_identical (htexts : v.areTexts w = false) (h : v.identical w = true) :
    v.numericOrder? w = if v.isScalar then some .eq else none := by
  cases v with
  | bool a =>
    cases w with
    | bool b => exact (numericallyEqual_iff _ _).1 ((numericallyEqual_bool a b).trans h)
    | _ => cases h
  | number x =>
    cases w with
    | number y => exact (Number.eq_iff_compare? x y).1 h
    | _ => cases h
  | text s =>
    cases w with
    | text t => cases htexts
    | _ => cases h
  | null | list | record | callable => rfl

theorem looselyEqual_iff (v w : Value) : v.looselyEqual w = true ↔
    v.order? w = some .eq ∨ v.order? w = none ∧ v.identical w = true := by
  cases htexts : v.areTexts w with
  | true =>
    obtain ⟨s, t, rfl, rfl⟩ := eq_text_of_areTexts htexts
    simp [looselyEqual, order?]
  | false =>
    rw [looselyEqual_of_not_areTexts htexts, order?_of_not_areTexts htexts, Bool.or_eq_true,
      numericallyEqual_iff]
    constructor
    · rintro (h | h)
      · exact .inl h
      · have horder := numericOrder?_of_identical htexts h
        split at horder
        · exact .inl horder
        · exact .inr ⟨horder, h⟩
    · rintro (h | ⟨-, h⟩)
      · exact .inl h
      · exact .inr h

theorem looselyEqual_comm (v w : Value) : v.looselyEqual w = w.looselyEqual v := by
  have hswap (v w : Value) (h : v.looselyEqual w = true) : w.looselyEqual v = true := by
    rw [looselyEqual_iff, ← order?_swap v w, identical_comm w v]
    obtain horder | ⟨horder, hidentical⟩ := (looselyEqual_iff v w).1 h
    · exact .inl (by rw [horder]; rfl)
    · exact .inr ⟨by rw [horder]; rfl, hidentical⟩
  exact Bool.eq_iff_iff.2 ⟨hswap v w, hswap w v⟩

theorem isScalar_of_asNumber? {x : Number} (h : v.asNumber? = some x) : v.isScalar = true := by
  cases v <;> first | rfl | cases h

theorem isScalar_of_order? {o : Ordering} (h : v.order? w = some o) :
    v.isScalar = true ∧ w.isScalar = true := by
  cases htexts : v.areTexts w with
  | true =>
    obtain ⟨s, t, rfl, rfl⟩ := eq_text_of_areTexts htexts
    exact ⟨rfl, rfl⟩
  | false =>
    rw [order?_of_not_areTexts htexts] at h
    obtain ⟨x, hx, h⟩ := Option.bind_eq_some_iff.1 h
    obtain ⟨y, hy, -⟩ := Option.bind_eq_some_iff.1 h
    exact ⟨isScalar_of_asNumber? hx, isScalar_of_asNumber? hy⟩

theorem order?_of_identical (h : v.identical w = true) (hscalar : v.isScalar = true) :
    v.order? w = some .eq := by
  cases htexts : v.areTexts w with
  | true =>
    obtain ⟨s, t, rfl, rfl⟩ := eq_text_of_areTexts htexts
    simpa [identical, order?] using h
  | false => rw [order?_of_not_areTexts htexts, numericOrder?_of_identical htexts h, if_pos hscalar]

theorem order?_eq_some_eq_iff (v w : Value) : v.order? w = some .eq ↔
    v.looselyEqual w = true ∧ v.isScalar = true ∧ w.isScalar = true := by
  rw [looselyEqual_iff]
  constructor
  · exact fun h => ⟨.inl h, isScalar_of_order? h⟩
  · rintro ⟨h | ⟨-, h⟩, hscalar, -⟩
    · exact h
    · exact order?_of_identical h hscalar

theorem looselyEqual_of_identical (h : v.identical w = true) : v.looselyEqual w = true := by
  rw [looselyEqual_iff]
  cases horder : v.order? w with
  | none => exact .inr ⟨rfl, h⟩
  | some o => exact .inl (horder ▸ order?_of_identical h (isScalar_of_order? horder).1)

end Value

namespace Comparison

variable (l r : Value)

def swap : Comparison → Comparison
  | less => greater
  | lessOrEqual => greaterOrEqual
  | greater => less
  | greaterOrEqual => lessOrEqual
  | c => c

theorem holds_swap (c : Comparison) : c.swap.holds r l = c.holds l r := by
  cases c with
  | equal => exact Value.looselyEqual_comm r l
  | notEqual => exact congrArg (!·) (Value.looselyEqual_comm r l)
  | strictEqual => exact Value.identical_comm r l
  | strictNotEqual => exact congrArg (!·) (Value.identical_comm r l)
  | less | lessOrEqual | greater | greaterOrEqual =>
    simp only [swap, holds, ← Value.order?_swap l r]
    cases l.order? r with
    | none => rfl
    | some o => cases o <;> rfl

theorem not_holds_equal_of_less (h : less.holds l r = true) : ¬equal.holds l r = true := by
  intro hequal
  have hless : l.order? r = some .lt := by simpa [holds] using h
  obtain horder | ⟨horder, -⟩ := (Value.looselyEqual_iff l r).1 hequal
  · cases hless.symm.trans horder
  · cases hless.symm.trans horder

theorem holds_lessOrEqual_iff : lessOrEqual.holds l r = true ↔ less.holds l r = true ∨
    equal.holds l r = true ∧ l.isScalar = true ∧ r.isScalar = true := by
  simp only [holds, Bool.or_eq_true, beq_iff_eq]
  exact or_congr_right (Value.order?_eq_some_eq_iff l r)

end Comparison

/-- Equality of both kinds is symmetric and has its negation, and strict equality implies the loose
one. Each order is the reverse of another, at most one of less, equal and greater holds, and what is
less or equal is one of the two, equal values counting if they are of kinds that have an order. -/
theorem comparisons_coherent (l r : Value) :
    Comparison.equal.holds l r = Comparison.equal.holds r l ∧
    Comparison.strictEqual.holds l r = Comparison.strictEqual.holds r l ∧
    Comparison.notEqual.holds l r = !Comparison.equal.holds l r ∧
    Comparison.strictNotEqual.holds l r = !Comparison.strictEqual.holds l r ∧
    (Comparison.strictEqual.holds l r = true → Comparison.equal.holds l r = true) ∧
    Comparison.less.holds l r = Comparison.greater.holds r l ∧
    Comparison.lessOrEqual.holds l r = Comparison.greaterOrEqual.holds r l ∧
    ¬(Comparison.less.holds l r = true ∧ Comparison.equal.holds l r = true) ∧
    ¬(Comparison.less.holds l r = true ∧ Comparison.greater.holds l r = true) ∧
    ¬(Comparison.greater.holds l r = true ∧ Comparison.equal.holds l r = true) ∧
    (Comparison.lessOrEqual.holds l r = true ↔ Comparison.less.holds l r = true ∨
      Comparison.equal.holds l r = true ∧ l.isScalar = true ∧ r.isScalar = true) := by
  refine ⟨Comparison.holds_swap r l .equal, Comparison.holds_swap r l .strictEqual, rfl, rfl,
    Value.looselyEqual_of_identical, Comparison.holds_swap r l .greater,
    Comparison.holds_swap r l .greaterOrEqual, ?_, ?_, ?_, Comparison.holds_lessOrEqual_iff l r⟩
  · exact fun h => Comparison.not_holds_equal_of_less l r h.1 h.2
  · rintro ⟨hless, hgreater⟩
    simp only [Comparison.holds, beq_iff_eq] at hless hgreater
    cases hless.symm.trans hgreater
  · rintro ⟨hgreater, hequal⟩
    have hless : Comparison.less.holds r l = true :=
      (Comparison.holds_swap l r .greater).trans hgreater
    have hswapped : Comparison.equal.holds r l = true :=
      (Comparison.holds_swap l r .equal).trans hequal
    exact Comparison.not_holds_equal_of_less r l hless hswapped

end MarkupSnippets

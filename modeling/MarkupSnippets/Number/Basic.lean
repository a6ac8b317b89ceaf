namespace MarkupSnippets

/-- The place of infinity when the non-negative magnitudes are numbered from zero upwards. There
are 2047 exponents with 2 ^ 52 magnitudes each below it. -/
def infiniteRank : Nat := 2047 * Nat.pow 2 52

/-- The double precision values, told apart by their place in the order of all magnitudes. Equality
and order are read off the place, so that both zeros are equal and a NaN is neither equal to nor
ordered with anything. -/
inductive Number where
  | nan
  | real (negative : Bool) (rank : Fin (infiniteRank + 1))
deriving DecidableEq

namespace Number

def ofRank (negative : Bool) (rank : Nat) : Number :=
  real negative ⟨min rank infiniteRank, by omega⟩

def zero : Number := ofRank false 0

instance : Inhabited Number := ⟨zero⟩

def infinity (negative : Bool) : Number := ofRank negative infiniteRank

def isNaN : Number → Bool
  | nan => true
  | real _ _ => false

/-- The place on the number line: both zeros at 0, negative numbers below. -/
def place? : Number → Option Int
  | nan => none
  | real false rank => some rank.val
  | real true rank => some (-rank.val)

def isZero (x : Number) : Bool := x.place? == some 0

def eq (x y : Number) : Bool :=
  match x.place?, y.place? with
  | some a, some b => a == b
  | _, _ => false

def compare? (x y : Number) : Option Ordering :=
  match x.place?, y.place? with
  | some a, some b => some (compare a b)
  | _, _ => none

theorem eq_comm (x y : Number) : x.eq y = y.eq x := by
  simp only [eq]
  cases x.place? <;> cases y.place? <;> simp [Bool.beq_comm]

theorem eq_iff (x y : Number) : x.eq y = true ↔ ∃ a, x.place? = some a ∧ y.place? = some a := by
  simp only [eq]
  cases x.place? with
  | none => simp
  | some a =>
    cases y.place? with
    | none => simp
    | some b => simp [Eq.comm (a := b)]

theorem eq_trans {x y z : Number} (hxy : x.eq y = true) (hyz : y.eq z = true) :
    x.eq z = true := by
  obtain ⟨a, hx, hy⟩ := (eq_iff x y).1 hxy
  obtain ⟨b, hy', hz⟩ := (eq_iff y z).1 hyz
  obtain rfl : a = b := Option.some.inj (hy.symm.trans hy')
  exact (eq_iff x z).2 ⟨a, hx, hz⟩

theorem eq_self_iff (x : Number) : x.eq x = true ↔ x ≠ nan := by
  cases x with
  | nan => simp [eq, place?]
  | real negative rank => cases negative <;> simp [eq, place?]

theorem compare?_swap (x y : Number) : (x.compare? y).map Ordering.swap = y.compare? x := by
  simp only [compare?]
  cases x.place? with
  | none => cases y.place? <;> rfl
  | some a =>
    cases y.place? with
    | none => rfl
    | some b => exact congrArg some Std.OrientedOrd.eq_swap.symm

def units (rank : Nat) : Nat :=
  let top := Nat.pow 2 52
  if rank < top then rank else (top + rank % top) * Nat.pow 2 (rank / top - 1)

end Number

end MarkupSnippets

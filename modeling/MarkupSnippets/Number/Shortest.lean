import MarkupSnippets.Number.Rounding

namespace MarkupSnippets.Number

/-- The power `e` of ten with `10 ^ (e - 1) ≤ magnitude < 10 ^ e`, for a positive magnitude. -/
def decimalTop (rank : Nat) : Int :=
  let one := Nat.pow 2 1074
  if one ≤ units rank then decimalLength (units rank / one)
  else 1 - decimalLength ((one - 1) / units rank)

/-- Whether `digits * 10 ^ exponent` lies between the midpoints to the neighbouring magnitudes.
The midpoints themselves belong to the even one of the two ranks. -/
def readsBack (rank digits : Nat) (exponent : Int) : Bool :=
  let low := (units (rank - 1) + units rank) * Nat.pow 10 (-exponent).toNat
  let high := (units rank + units (rank + 1)) * Nat.pow 10 (-exponent).toNat
  let point := digits * Nat.pow 10 exponent.toNat * Nat.pow 2 1075
  if rank % 2 = 0 then low ≤ point && point ≤ high else low < point && point < high

def nearestOfLength? (rank length : Nat) : Option (Nat × Int) :=
  let exponent := decimalTop rank - length
  let num := units rank * Nat.pow 10 (-exponent).toNat
  let den := Nat.pow 2 1074 * Nat.pow 10 exponent.toNat
  let below := num / den
  let upper :=
    if below + 1 = Nat.pow 10 length then (1, exponent + length) else (below + 1, exponent)
  match readsBack rank below exponent, readsBack rank (below + 1) exponent with
  | true, true => if 2 * (num % den) < den then some (below, exponent) else some upper
  | true, false => some (below, exponent)
  | false, true => some upper
  | false, false => none

/-- The digits of the first length with a decimal that reads back. Seventeen digits always suffice;
the last resort, all digits of the exact value, is never needed. -/
def shortest (rank : Nat) : Nat × Int :=
  ((List.range 17).findSome? fun i => nearestOfLength? rank (i + 1)).getD
    (units rank * Nat.pow 5 1074, -1074)

end MarkupSnippets.Number

import MarkupSnippets.Number.Basic

namespace MarkupSnippets

def roundHalfEven (num den : Nat) : Nat :=
  let q := num / den
  let r := num % den
  if 2 * r < den then q
  else if den < 2 * r then q + 1
  else q + q % 2

def floorLog2 (num den : Nat) : Int :=
  let b : Int := num.log2 - den.log2
  if den * Nat.pow 2 b.toNat ≤ num * Nat.pow 2 (-b).toNat then b else b - 1

namespace Number

/-- The rank of the magnitude nearest to `num / den`. A significand has 53 bits, and its unit is
never smaller than 2 ^ -1074. A significand that rounds up to 54 bits carries into the exponent
by the same sum. -/
def rankOfRatio (num den : Nat) : Nat :=
  if num = 0 then 0
  else
    let unit := max (-1074) (floorLog2 num den - 52)
    let significand :=
      roundHalfEven (num * Nat.pow 2 (-unit).toNat) (den * Nat.pow 2 unit.toNat)
    (unit + 1074).toNat * Nat.pow 2 52 + significand

def ofRatio (negative : Bool) (num den : Nat) : Number :=
  ofRank negative (rankOfRatio num den)

def ofNat (n : Nat) : Number := ofRatio false n 1

def ofInt (n : Int) : Number := ofRatio (decide (n < 0)) n.natAbs 1

end Number

structure Decimal where
  negative : Bool
  digits : Nat
  exponent : Int
deriving DecidableEq, Repr

def decimalLength (n : Nat) : Nat := (Nat.toDigits 10 n).length

/-- The nearest number. Every magnitude from 10 ^ 309 up rounds to infinity and every one below
10 ^ -324 to zero, so the powers far beyond these bounds need not be computed. -/
def Decimal.toNumber (d : Decimal) : Number :=
  let top := d.exponent + decimalLength d.digits
  if d.digits = 0 ∨ top < -330 then .ofRank d.negative 0
  else if 330 < top then .infinity d.negative
  else
    .ofRatio d.negative (d.digits * Nat.pow 10 d.exponent.toNat) (Nat.pow 10 (-d.exponent).toNat)

end MarkupSnippets

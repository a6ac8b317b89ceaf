import MarkupSnippets.Number.Literal
import MarkupSnippets.Value

namespace MarkupSnippets

/-- A number as it is written: sign, digits before and after the point, exponent. Two readings of it
are of use: the nearest number, and the one that reading in two rounded steps gives. -/
structure Numeral where
  negative : Bool
  whole : List Char
  fraction : List Char
  exponent : Int

namespace Numeral

def nearest (n : Numeral) : Number :=
  Decimal.toNumber
    ⟨n.negative, digitsValue (n.whole ++ n.fraction), n.exponent - n.fraction.length⟩

/-- Append digits for as long as the value fits 64 bits. The digits left over are returned. -/
def accumulate (value : Nat) : List Char → Nat × List Char
  | [] => (value, [])
  | c :: cs =>
    let next := 10 * value + (c.toNat - 48)
    if next < Nat.pow 2 64 then accumulate next cs else (value, c :: cs)

def tenRank (exponent : Nat) : Nat := Number.rankOfRatio (Nat.pow 10 exponent) 1

def shrink (rank exponent : Nat) : Nat :=
  if rank = 0 then 0
  else if exponent ≤ 308 then
    Number.rankOfRatio (Number.units rank) (Number.units (tenRank exponent))
  else
    shrink (Number.rankOfRatio (Number.units rank) (Number.units (tenRank 308))) (exponent - 308)
termination_by exponent

def grow? (rank exponent : Nat) : Option Nat :=
  if rank = 0 then some 0
  else if 308 < exponent then none
  else
    let product :=
      Number.rankOfRatio (Number.units rank * Number.units (tenRank exponent)) (Nat.pow 2 2148)
    if product < infiniteRank then some product else none

/-- The reading in two steps: a significand of at most 64 bits is rounded, then scaled by a power
of ten and rounded again. Digits that no longer fit the significand only count as places when they
stand before the point. -/
def stepwise? (n : Numeral) : Option Number :=
  let (head, left) := accumulate 0 n.whole
  let (significand, skipped) := accumulate head n.fraction
  let taken : Int := n.fraction.length - skipped.length
  let rank := Number.rankOfRatio significand 1
  let exponent := left.length - taken + n.exponent
  if exponent < 0 then some (.ofRank n.negative (shrink rank (-exponent).toNat))
  else (grow? rank exponent.toNat).map (.ofRank n.negative)

end Numeral

inductive Json where
  | null
  | bool (b : Bool)
  | number (n : Numeral)
  | string (s : String)
  | array (items : List Json)
  | object (entries : List (String × Json))

namespace Json

instance : Inhabited Json := ⟨null⟩

def kind : Json → String
  | null => "null"
  | bool _ => "a boolean"
  | number _ => "a number"
  | string _ => "a string"
  | array _ => "an array"
  | object _ => "an object"

mutual

/-- The value of a document; of equal keys in an object the last one counts. -/
def toValue : Json → Value
  | null => .null
  | bool b => .bool b
  | number n => .number (n.stepwise?.getD .nan)
  | string s => .text s
  | array items => .list (toValues items)
  | object entries => .record (toFields .nil entries)

def toValues : List Json → List Value
  | [] => []
  | j :: js => j.toValue :: toValues js

def toFields (fields : Fields Value) : List (String × Json) → Fields Value
  | [] => fields
  | (key, j) :: entries => toFields (fields.insert key j.toValue) entries

end

end Json

end MarkupSnippets

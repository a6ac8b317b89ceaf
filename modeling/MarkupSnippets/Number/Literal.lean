import MarkupSnippets.Number.Shortest
import MarkupSnippets.Text.Blank

namespace MarkupSnippets

def digitsValue (cs : List Char) : Nat :=
  cs.foldl (fun n c => 10 * n + (c.toNat - 48)) 0

namespace Number

/-- The digits without an exponent: zeros fill the places up to the point. -/
def positional (digits : Nat) (exponent : Int) : List Char :=
  let ds := Nat.toDigits 10 digits
  let places := (-exponent).toNat
  if 0 ≤ exponent then ds ++ List.replicate exponent.toNat '0'
  else if places < ds.length then
    ds.take (ds.length - places) ++ '.' :: ds.drop (ds.length - places)
  else '0' :: '.' :: (List.replicate (places - ds.length) '0' ++ ds)

def magnitudeText (rank : Nat) : List Char :=
  if rank = infiniteRank then "inf".toList
  else if rank = 0 then ['0']
  else
    let (digits, exponent) := shortest rank
    positional digits exponent

def render : Number → String
  | nan => "NaN"
  | real negative rank =>
    String.ofList ((if negative then ['-'] else []) ++ magnitudeText rank.val)

/-- Digits, optionally with a point before, between or after them; what follows is left over.
The point counts as part of the literal only next to a digit. -/
def significand? (cs : List Char) : Option (Nat × Int × List Char) :=
  let whole := cs.takeWhile Char.isDigit
  let (fraction, rest) :=
    match cs.dropWhile Char.isDigit with
    | '.' :: more => (more.takeWhile Char.isDigit, more.dropWhile Char.isDigit)
    | rest => ([], rest)
  if whole.isEmpty && fraction.isEmpty then none
  else some (digitsValue (whole ++ fraction), -(fraction.length : Int), rest)

def exponent? : List Char → Option Int
  | [] => some 0
  | e :: cs =>
    if e = 'e' || e = 'E' then
      let (negative, digits) :=
        match cs with
        | '-' :: digits => (true, digits)
        | '+' :: digits => (false, digits)
        | digits => (false, digits)
      if digits.isEmpty || !digits.all Char.isDigit then none
      else if negative then some (-(digitsValue digits : Int))
      else some (digitsValue digits)
    else none

def isWord (word : String) (cs : List Char) : Bool :=
  cs.map Char.toLower == word.toList

def readMagnitude? (negative : Bool) (cs : List Char) : Option Number :=
  match significand? cs with
  | some (digits, scale, rest) =>
    (exponent? rest).map fun e => Decimal.toNumber ⟨negative, digits, scale + e⟩
  | none =>
    if isWord "nan" cs then some nan
    else if isWord "inf" cs || isWord "infinity" cs then some (infinity negative)
    else none

/-- Read a whole text as a number: a sign, then digits with an optional point and exponent, or one
of the words for infinity and NaN in any case. -/
def read? : List Char → Option Number
  | '-' :: cs => readMagnitude? true cs
  | '+' :: cs => readMagnitude? false cs
  | cs => readMagnitude? false cs

end Number

end MarkupSnippets

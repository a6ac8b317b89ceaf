import MarkupSnippets.Text.Cut

namespace MarkupSnippets.Text

def endsLine (c : Char) : Bool :=
  (10 ≤ c.toNat && c.toNat ≤ 13) || c.toNat == 0x85 || c.toNat == 0x2028 || c.toNat == 0x2029

/-- A carriage return and the line feed behind it end one line. -/
def lines : List Char → List (List Char)
  | [] => []
  | '\r' :: '\n' :: cs => ['\r', '\n'] :: lines cs
  | c :: cs =>
    if endsLine c then [c] :: lines cs
    else
      match lines cs with
      | [] => [[c]]
      | line :: rest => (c :: line) :: rest

/-- The number of the line that holds a place of the text, and the place in that line. What lies
behind the last line is in the last line. -/
def locate : List (List Char) → Nat → Nat × Nat
  | [], place => (0, place)
  | [_], place => (0, place)
  | line :: next :: rest, place =>
    if place < line.length then (0, place)
    else
      let (number, column) := locate (next :: rest) (place - line.length)
      (number + 1, column)

def charsBefore : List Char → Nat → Nat
  | [], _ => 0
  | _ :: _, 0 => 0
  | c :: cs, byte + 1 => charsBefore cs (byte + 1 - c.utf8Size) + 1

end MarkupSnippets.Text

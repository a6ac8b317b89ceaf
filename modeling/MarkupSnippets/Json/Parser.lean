import MarkupSnippets.Json.Syntax
import MarkupSnippets.Text.Hex

namespace MarkupSnippets.Json

inductive Token where
  | braceOpen
  | braceClose
  | bracketOpen
  | bracketClose
  | comma
  | colon
  | null
  | bool (b : Bool)
  | number (n : Numeral)
  | string (s : String)

namespace Token

def unit? (a b c d : Char) : Option Nat := do
  let a ← Text.hexDigit? a
  let b ← Text.hexDigit? b
  let c ← Text.hexDigit? c
  let d ← Text.hexDigit? d
  return ((a * 16 + b) * 16 + c) * 16 + d

def escaped? : Char → Option Char
  | '"' => some '"'
  | '\\' => some '\\'
  | '/' => some '/'
  | 'b' => some '\x08'
  | 'f' => some '\x0c'
  | 'n' => some '\n'
  | 'r' => some '\r'
  | 't' => some '\t'
  | _ => none

def isHighSurrogate (n : Nat) : Bool := 0xD800 ≤ n && n < 0xDC00

def isLowSurrogate (n : Nat) : Bool := 0xDC00 ≤ n && n < 0xE000

/-- The characters of a string up to its closing quote, and the text after that. Surrogates have
to come in pairs. -/
def readString? : List Char → Option (List Char × List Char)
  | '"' :: cs => some ([], cs)
  | '\\' :: 'u' :: a :: b :: c :: d :: '\\' :: 'u' :: e :: f :: g :: h :: cs =>
    match unit? a b c d with
    | none => none
    | some high =>
      if isHighSurrogate high then
        match unit? e f g h with
        | some low =>
          if isLowSurrogate low then
            (readString? cs).map fun (s, rest) =>
              (Char.ofNat (0x10000 + (high - 0xD800) * 1024 + (low - 0xDC00)) :: s, rest)
          else none
        | none => none
      else if isLowSurrogate high then none
      else
        (readString? ('\\' :: 'u' :: e :: f :: g :: h :: cs)).map fun (s, rest) =>
          (Char.ofNat high :: s, rest)
  | '\\' :: 'u' :: a :: b :: c :: d :: cs =>
    match unit? a b c d with
    | none => none
    | some n =>
      if isHighSurrogate n || isLowSurrogate n then none
      else (readString? cs).map fun (s, rest) => (Char.ofNat n :: s, rest)
  | '\\' :: c :: cs =>
    match escaped? c with
    | some e => (readString? cs).map fun (s, rest) => (e :: s, rest)
    | none => none
  | c :: cs =>
    if c.toNat < 0x20 then none
    else (readString? cs).map fun (s, rest) => (c :: s, rest)
  | [] => none

def readExponent? : List Char → Option (Int × List Char)
  | [] => some (0, [])
  | e :: cs =>
    if e = 'e' || e = 'E' then
      let (negative, cs) :=
        match cs with
        | '-' :: cs => (true, cs)
        | '+' :: cs => (false, cs)
        | cs => (false, cs)
      let digits := cs.takeWhile Char.isDigit
      if digits.isEmpty then none
      else
        let n : Int := digitsValue digits
        some (if negative then -n else n, cs.dropWhile Char.isDigit)
    else some (0, e :: cs)

def readUnsigned? (negative : Bool) (cs : List Char) : Option (Numeral × List Char) :=
  let whole := cs.takeWhile Char.isDigit
  let rest := cs.dropWhile Char.isDigit
  if whole.isEmpty || (whole.head? == some '0' && whole.length != 1) then none
  else
    match rest with
    | '.' :: more =>
      let fraction := more.takeWhile Char.isDigit
      if fraction.isEmpty then none
      else
        (readExponent? (more.dropWhile Char.isDigit)).map fun (e, rest) =>
          (⟨negative, whole, fraction, e⟩, rest)
    | rest => (readExponent? rest).map fun (e, rest) => (⟨negative, whole, [], e⟩, rest)

def readNumeral? : List Char → Option (Numeral × List Char)
  | '-' :: cs => readUnsigned? true cs
  | cs => readUnsigned? false cs

def read? : List Char → Option (Token × List Char)
  | '\x7b' :: cs => some (braceOpen, cs)
  | '\x7d' :: cs => some (braceClose, cs)
  | '[' :: cs => some (bracketOpen, cs)
  | ']' :: cs => some (bracketClose, cs)
  | ',' :: cs => some (comma, cs)
  | ':' :: cs => some (colon, cs)
  | 'n' :: 'u' :: 'l' :: 'l' :: cs => some (null, cs)
  | 't' :: 'r' :: 'u' :: 'e' :: cs => some (bool true, cs)
  | 'f' :: 'a' :: 'l' :: 's' :: 'e' :: cs => some (bool false, cs)
  | '"' :: cs => (readString? cs).map fun (s, rest) => (string (String.ofList s), rest)
  | cs => (readNumeral? cs).map fun (n, rest) => (number n, rest)

end Token

def isSpace (c : Char) : Bool :=
  c == ' ' || c == '\t' || c == '\n' || c == '\r'

/-- The tokens of a text. Every token takes at least one character, so there are no more steps
than characters. -/
def tokens? : Nat → List Char → Option (List Token)
  | _, [] => some []
  | 0, _ :: _ => none
  | n + 1, c :: cs =>
    if isSpace c then tokens? n cs
    else
      match Token.read? (c :: cs) with
      | some (t, rest) => (tokens? n rest).map (t :: ·)
      | none => none

inductive Open where
  | array (items : List Json)
  | object (entries : List (String × Json)) (key : String)

mutual

def valueDue? (limit : Nat) (outer : List Open) : List Token → Option Json
  | .bracketOpen :: .bracketClose :: ts =>
    if outer.length + 1 < limit then valueDone? limit outer (array []) ts else none
  | .braceOpen :: .braceClose :: ts =>
    if outer.length + 1 < limit then valueDone? limit outer (object []) ts else none
  | .bracketOpen :: ts =>
    if outer.length + 1 < limit then valueDue? limit (.array [] :: outer) ts else none
  | .braceOpen :: .string key :: .colon :: ts =>
    if outer.length + 1 < limit then valueDue? limit (.object [] key :: outer) ts else none
  | .null :: ts => valueDone? limit outer null ts
  | .bool b :: ts => valueDone? limit outer (bool b) ts
  | .number n :: ts => valueDone? limit outer (number n) ts
  | .string s :: ts => valueDone? limit outer (string s) ts
  | _ => none

def valueDone? (limit : Nat) (outer : List Open) (v : Json) : List Token → Option Json
  | [] => if outer.isEmpty then some v else none
  | .comma :: ts =>
    match outer with
    | .array items :: outer => valueDue? limit (.array (v :: items) :: outer) ts
    | .object entries key :: outer =>
      match ts with
      | .string key' :: .colon :: ts =>
        valueDue? limit (.object ((key, v) :: entries) key' :: outer) ts
      | _ => none
    | [] => none
  | .bracketClose :: ts =>
    match outer with
    | .array items :: outer => valueDone? limit outer (array (v :: items).reverse) ts
    | _ => none
  | .braceClose :: ts =>
    match outer with
    | .object entries key :: outer =>
      valueDone? limit outer (object ((key, v) :: entries).reverse) ts
    | _ => none
  | _ => none

end

def parse? (limit : Nat) (text : String) : Option Json :=
  (tokens? text.length text.toList).bind (valueDue? limit [])

mutual

def inRange : Json → Bool
  | number n => n.stepwise?.isSome
  | array items => allInRange items
  | object entries => entriesInRange entries
  | _ => true

def allInRange : List Json → Bool
  | [] => true
  | j :: js => j.inRange && allInRange js

def entriesInRange : List (String × Json) → Bool
  | [] => true
  | (_, j) :: entries => j.inRange && entriesInRange entries

end

/-- A document whose numbers are all in range and whose arrays and objects nest less than 128
deep. -/
def document? (text : String) : Option Json :=
  (parse? 128 text).filter inRange

end MarkupSnippets.Json

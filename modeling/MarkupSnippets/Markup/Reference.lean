import MarkupSnippets.Markup.Fault
import MarkupSnippets.Text.Hex

namespace MarkupSnippets.Markup

def entity? (name : List Char) : Option Char :=
  if name = "lt".toList then some '<'
  else if name = "gt".toList then some '>'
  else if name = "amp".toList then some '&'
  else if name = "apos".toList then some '\''
  else if name = "quot".toList then some '"'
  else none

def decimalDigit? (c : Char) : Option Nat :=
  if c.isDigit then some (c.toNat - 48) else none

def readCode (radix : Nat) (digit? : Char → Option Nat) (n : Nat) :
    List Char → Except CodeFault Nat
  | [] => .ok n
  | c :: cs =>
    match digit? c with
    | none => .error .digit
    | some d =>
      if n * radix + d < 2 ^ 32 then readCode radix digit? (n * radix + d) cs else .error .range

def code (hex : Bool) (cs : List Char) : Except CodeFault Nat :=
  if cs.isEmpty then .error .empty
  else if hex then readCode 16 Text.hexDigit? 0 cs
  else readCode 10 decimalDigit? 0 cs

def valueCharacter (body : List Char) : Except CodeFault Char := do
  let (hex, digits) :=
    match body with
    | 'x' :: digits => (true, digits)
    | digits => (false, digits)
  if digits.head? = some '+' || digits.head? = some '-' then .error .sign
  else
    let n ← code hex digits
    if n = 0 then .error .nul
    else
      match Text.scalar? n with
      | some c => .ok c
      | none => .error (.scalar n)

def valueReference (start stop : Nat) (body : List Char) : Except Fault Char :=
  match body with
  | '#' :: number => (valueCharacter number).mapError .valueCharacter
  | name =>
    match entity? name with
    | some c => .ok c
    | none => .error (.unknownEntity start stop (String.ofList name))

/-- Resolve the references of a value. Positions count from the start of the value, which takes
`total` bytes. -/
def unescapeFrom (total offset : Nat) (cs : List Char) : Except Fault (List Char) :=
  match cs with
  | [] => .ok []
  | c :: rest =>
    if c = '&' then
      let body := rest.takeWhile fun c => c != ';' && c != '&'
      match h : rest.dropWhile fun c => c != ';' && c != '&' with
      | ';' :: after => do
        have : after.length < rest.length + 1 := by
          have hle := Text.length_dropWhile_le (fun c => c != ';' && c != '&') rest
          simp only [h, List.length_cons] at hle
          omega
        let stop := offset + 1 + Text.byteSize body
        let c ← valueReference (offset + 1) stop body
        let more ← unescapeFrom total (stop + 1) after
        return c :: more
      | _ => .error (.valueReferenceNotClosed offset total)
    else do
      let more ← unescapeFrom total (offset + c.utf8Size) rest
      return c :: more
termination_by cs.length

def unescape (value : List Char) : Except Fault (List Char) :=
  unescapeFrom (Text.byteSize value) 0 value

/-- What a reference in a text stands for. Numbers may have a plus sign, and an unknown entity
stands for its own spelling. -/
def textReference (body : List Char) : Except Fault (List Char) :=
  match entity? body with
  | some c => .ok [c]
  | none =>
    match body with
    | '#' :: number => do
      let (hex, digits) :=
        match number with
        | 'x' :: digits => (true, digits)
        | 'X' :: digits => (true, digits)
        | digits => (false, digits)
      let unsigned := if digits.head? = some '+' then digits.tail else digits
      match code hex unsigned with
      | .error _ =>
        let shown := String.ofList number
        .error (if hex then .hexCharacter shown else .decimalCharacter shown)
      | .ok n =>
        match Text.scalar? n with
        | some c => .ok [c]
        | none => .error (.textScalar n)
    | _ => .ok ('&' :: (body ++ [';']))

end MarkupSnippets.Markup

import MarkupSnippets.Text.Hex

namespace MarkupSnippets.Toml

def isWhite (c : Char) : Bool := c == ' ' || c == '\t'

def isControl (c : Char) : Bool := (c.toNat < 0x20 && c != '\t') || c.toNat == 0x7F

def isBare (c : Char) : Bool := c.isAlphanum || c == '_' || c == '-'

def newline? : List Char → Option (List Char)
  | '\n' :: cs => some cs
  | '\r' :: '\n' :: cs => some cs
  | _ => none

def skipBlankLines : List Char → List Char
  | '\n' :: cs => skipBlankLines cs
  | '\r' :: '\n' :: cs => skipBlankLines cs
  | c :: cs => if isWhite c then skipBlankLines cs else c :: cs
  | [] => []

def coded? (digits rest : List Char) : Option (List Char × List Char) := do
  let n ← Text.hexValue? digits
  let c ← Text.scalar? n
  return ([c], rest)

def escape? : List Char → Option (List Char × List Char)
  | 'b' :: cs => some (['\x08'], cs)
  | 't' :: cs => some (['\t'], cs)
  | 'n' :: cs => some (['\n'], cs)
  | 'f' :: cs => some (['\x0c'], cs)
  | 'r' :: cs => some (['\r'], cs)
  | '"' :: cs => some (['"'], cs)
  | '\\' :: cs => some (['\\'], cs)
  | 'u' :: cs => if cs.length < 4 then none else coded? (cs.take 4) (cs.drop 4)
  | 'U' :: cs => if cs.length < 8 then none else coded? (cs.take 8) (cs.drop 8)
  | _ => none

def unit? (escapes : Bool) : List Char → Option (List Char × List Char)
  | [] => none
  | c :: cs =>
    if escapes && c == '\\' then escape? cs
    else if isControl c then none
    else some ([c], cs)

/-- One character of a text that may run over several lines. Where escapes count, a backslash at
the end of a line joins the lines, with all blanks between them. -/
def longUnit? (escapes : Bool) (cs : List Char) : Option (List Char × List Char) :=
  match newline? cs with
  | some rest => some (['\n'], rest)
  | none =>
    match cs with
    | '\\' :: after =>
      match escapes, newline? (after.dropWhile isWhite) with
      | true, some rest => some ([], skipBlankLines rest)
      | _, _ => unit? escapes cs
    | _ => unit? escapes cs

def short? (quote : Char) (escapes : Bool) : Nat → List Char → Option (String × List Char)
  | 0, _ => none
  | n + 1, cs =>
    if cs.head? = some quote then some ("", cs.tail)
    else do
      let (taken, rest) ← unit? escapes cs
      let (more, rest) ← short? quote escapes n rest
      return (String.ofList taken ++ more, rest)

/-- A text over several lines, up to three closing quotes. Up to two quotes more may come before
them and belong to the text. -/
def long? (quote : Char) (escapes : Bool) : Nat → List Char → Option (String × List Char)
  | 0, _ => none
  | n + 1, cs =>
    let quotes := cs.takeWhile (· == quote)
    let after := cs.dropWhile (· == quote)
    if 5 < quotes.length then none
    else if 3 ≤ quotes.length then some (String.ofList (quotes.drop 3), after)
    else do
      let (taken, rest) ← if quotes.isEmpty then longUnit? escapes cs else some (quotes, after)
      let (more, rest) ← long? quote escapes n rest
      return (String.ofList taken ++ more, rest)

def quoted? (cs : List Char) : Option (String × List Char) :=
  match cs with
  | '"' :: inner => short? '"' true cs.length inner
  | '\'' :: inner => short? '\'' false cs.length inner
  | _ => none

def text? (cs : List Char) : Option (String × List Char) :=
  match cs with
  | '"' :: '"' :: '"' :: inner => long? '"' true cs.length ((newline? inner).getD inner)
  | '\'' :: '\'' :: '\'' :: inner => long? '\'' false cs.length ((newline? inner).getD inner)
  | _ => quoted? cs

def key? (cs : List Char) : Option (String × List Char) :=
  match quoted? cs with
  | some result => some result
  | none =>
    let bare := cs.takeWhile isBare
    if bare.isEmpty then none else some (String.ofList bare, cs.dropWhile isBare)

def lineEnd? (cs : List Char) : Option (List Char) :=
  let rest := cs.dropWhile isWhite
  let rest :=
    match rest with
    | '#' :: comment => comment.dropWhile fun c => !isControl c
    | rest => rest
  if rest.isEmpty then some [] else newline? rest

def pair? (cs : List Char) : Option ((String × String) × List Char) := do
  let (key, rest) ← key? cs
  match rest.dropWhile isWhite with
  | '=' :: rest =>
    let (value, rest) ← text? (rest.dropWhile isWhite)
    let rest ← lineEnd? rest
    return ((key, value), rest)
  | _ => none

/-- The pairs of a document, line by line. Tables, dotted keys and values other than texts are
refused. -/
def lines? : Nat → List Char → Option (List (String × String))
  | _, [] => some []
  | 0, _ :: _ => none
  | n + 1, cs =>
    match lineEnd? cs with
    | some rest => lines? n rest
    | none => do
      let (pair, rest) ← pair? (cs.dropWhile isWhite)
      let pairs ← lines? n rest
      return pair :: pairs

def pairs? (text : String) : Option (List (String × String)) :=
  let cs := text.toList
  lines? cs.length (if cs.head? = some '\uFEFF' then cs.tail else cs)

end MarkupSnippets.Toml

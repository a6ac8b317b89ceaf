import MarkupSnippets.Expr.Lexer
import MarkupSnippets.Report.Styled
import MarkupSnippets.Text.Blank
import MarkupSnippets.Text.Lines
import MarkupSnippets.Text.Width

namespace MarkupSnippets

/-- A text by its lines, a part of it in characters, and what is said of that part. A part inside
one line is underlined; one over several lines has a rail on the left, from its first line to its
last and on to the message. -/
structure Excerpt where
  lines : List (List Char)
  mark : Span
  message : String

namespace Excerpt

def first (e : Excerpt) : Nat × Nat :=
  Text.locate e.lines e.mark.start

def last (e : Excerpt) : Nat × Nat :=
  Text.locate e.lines (max (e.mark.stop - 1) e.mark.start)

def line (e : Excerpt) (number : Nat) : List Char :=
  (e.lines[number]?).getD []

def numberWidth (e : Excerpt) : Nat :=
  (e.last.1 + 1).repr.length

inductive Margin where
  | number (n : Nat)
  | blank
  | gap

def blanks (n : Nat) : String :=
  String.ofList (List.replicate n ' ')

def border : Color := .numbered 246

def margin (e : Excerpt) (m : Margin) : Styled :=
  let bar :=
    match m with
    | .number n => ⟨some border, blanks (e.numberWidth - n.repr.length) ++ n.repr ++ " │"⟩
    | .blank => ⟨some (.numbered 240), blanks (e.numberWidth + 1) ++ "│"⟩
    | .gap => ⟨some (.numbered 240), blanks (e.numberWidth + 1) ++ "┆"⟩
  [⟨none, " "⟩, bar, ⟨none, " "⟩]

/-- The places that a character fills at a column: a tab up to the next multiple of four, other
white space one, any other character its width. -/
def width (column : Nat) (c : Char) : Nat :=
  if c == '\t' then 4 - column % 4
  else if isBlank c then 1
  else Text.columns c

def shown (e : Excerpt) (number start : Nat) : Styled :=
  (Text.trimRight (e.line number)).zipIdx.flatMap fun (c, column) =>
    let marked := e.mark.start ≤ start + column && start + column < e.mark.stop
    let color := some (if marked then Color.red else .numbered 249)
    if isBlank c then List.replicate (width column c) ⟨color, " "⟩
    else [⟨color, c.toString⟩]

def row (e : Excerpt) (number columns : Nat) (symbols : Nat → Fragment × Fragment) : Styled :=
  (List.range columns).flatMap fun column =>
    let (head, tail) := symbols column
    match ((Text.trimRight (e.line number))[column]?).elim 1 (width column) with
    | 0 => []
    | places + 1 => head :: List.replicate places tail

def red (s : String) : Fragment := ⟨some .red, s⟩

def blankFragment : Fragment := ⟨none, " "⟩

def beside (rail : Fragment) : Styled := [rail, blankFragment, blankFragment, blankFragment]

def entering (corner arrow : String) (last : Fragment) : Styled :=
  [red corner, red "─", red arrow, last]

def newline : Styled := Styled.uncolored "\n"

def said (e : Excerpt) : Styled :=
  Styled.uncolored (" " ++ e.message ++ "\n")

def underlined (e : Excerpt) : Styled :=
  let (number, start) := e.first
  let stop := e.mark.stop - (e.mark.start - start)
  let middle := (start + stop) / 2
  let underline (column : Nat) : Fragment × Fragment :=
    let marked := start ≤ column && column < stop
    if column = middle then
      if marked then (red "┬", red "─") else (red "│", red " ")
    else if marked then (red "─", red "─")
    else (blankFragment, blankFragment)
  let arm (column : Nat) : Fragment × Fragment :=
    if column = middle then (red "╰", red "─")
    else if middle < column then (red "─", red "─")
    else (blankFragment, blankFragment)
  e.margin (.number (number + 1)) ++ e.shown number (e.mark.start - start) ++ newline ++
  e.margin .blank ++ e.row number (stop + 2) underline ++ newline ++
  e.margin .blank ++ e.row number (stop + 2) arm ++ e.said

/-- The rows for a mark over several lines; the lines between the first and the last are left
out. -/
def railed (e : Excerpt) : Styled :=
  let (number, start) := e.first
  let (final, stop) := e.last
  let columns := (e.line final).length + 2
  let gap := e.margin .gap ++ beside (red "┆") ++ newline
  e.margin (.number (number + 1)) ++ entering "╭" "▶" (red " ") ++
  e.shown number (e.mark.start - start) ++ newline ++
  (if number + 1 < final then gap else []) ++
  e.margin (.number (final + 1)) ++ entering "├" "▶" (red " ") ++
  e.shown final (e.mark.stop - 1 - stop) ++ newline ++
  e.margin .blank ++ beside (red "│") ++
  e.row final columns (fun _ => (blankFragment, blankFragment)) ++ newline ++
  e.margin .blank ++ entering "╰" "─" (red "─") ++
  e.row final columns (fun _ => (red "─", red "─")) ++ e.said

def isRailed (e : Excerpt) : Bool :=
  e.first.1 != e.last.1

def rows (e : Excerpt) : Styled :=
  if e.isRailed then e.railed else e.underlined

/-- The start of a row under the excerpt. It leaves room for the rail, which shows there when the
mark begins with the second line. -/
def footMargin (e : Excerpt) : Styled :=
  let rail := if e.first = (1, 0) then red "│" else blankFragment
  e.margin .blank ++ (if e.isRailed then beside rail else [])

def framed (e : Excerpt) (name : String) (note : Option String) : Styled :=
  let (number, column) := e.first
  let corner := blanks (e.numberWidth + 2)
  let place := name ++ ":" ++ (number + 1).repr ++ ":" ++ (column + 1).repr
  let edge (s : String) : Fragment := ⟨some border, s⟩
  let foot : Styled :=
    match note with
    | none => []
    | some note =>
      e.footMargin ++ newline ++
      e.footMargin ++ Styled.colored (.numbered 115) "Note" ++
      Styled.uncolored (": " ++ note ++ "\n")
  [⟨none, corner⟩, edge "╭", edge "─", edge "[", ⟨none, place⟩, edge "]"] ++ newline ++
  [⟨none, corner⟩, edge "│"] ++ newline ++
  e.rows ++ foot ++
  [edge (String.ofList (List.replicate (e.numberWidth + 2) '─') ++ "╯")] ++ newline

end Excerpt

end MarkupSnippets

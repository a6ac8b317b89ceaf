namespace MarkupSnippets

inductive Color where
  | red
  /-- A colour by its number in the table of 256. -/
  | numbered (n : Nat)
deriving DecidableEq

def Color.parameters : Color → String
  | red => "31"
  | numbered n => "38;5;" ++ n.repr

structure Fragment where
  color : Option Color
  text : String

/-- A coloured fragment stands between a control sequence for its colour and one that resets it. -/
def Fragment.terminal (p : Fragment) : String :=
  match p.color with
  | none => p.text
  | some c => "\x1b[" ++ c.parameters ++ "m" ++ p.text ++ "\x1b[0m"

abbrev Styled := List Fragment

namespace Styled

def uncolored (s : String) : Styled := [⟨none, s⟩]

def colored (c : Color) (s : String) : Styled := [⟨some c, s⟩]

def plain (s : Styled) : String := String.join (s.map Fragment.text)

def terminal (s : Styled) : String := String.join (s.map Fragment.terminal)

end Styled

end MarkupSnippets

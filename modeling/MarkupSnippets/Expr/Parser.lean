import MarkupSnippets.Expr.Lexer
import MarkupSnippets.Origin

namespace MarkupSnippets

namespace Expr

def ofToken? : Token → Option Expr
  | .null => some null
  | .undefined => some null
  | .bool b => some (bool b)
  | .number x => some (number x)
  | .text s => some (text s)
  | .reference path => some (reference path)
  | _ => none

def negate : Nat → Expr → Expr
  | 0, e => e
  | n + 1, e => not (negate n e)

end Expr

/-- What is read of an expression whose next operand is still due: the left sides of pending
operators, and the negations just before the operand. Three levels of operators, all grouping to the
left, bind ever more tightly, so there is one left side per level at most. -/
structure Pending where
  disjunct : Option Expr
  conjunct : Option Expr
  compared : Option (Comparison × Expr)
  negations : Nat

namespace Pending

def start : Pending := ⟨none, none, none, 0⟩

def closeComparison (p : Pending) (e : Expr) : Expr :=
  match p.compared with
  | some (c, left) => .compare c left e
  | none => e

def closeAnd (p : Pending) (e : Expr) : Expr :=
  match p.conjunct with
  | some left => .and left (p.closeComparison e)
  | none => p.closeComparison e

def close (p : Pending) (e : Expr) : Expr :=
  match p.disjunct with
  | some left => .or left (p.closeAnd e)
  | none => p.closeAnd e

end Pending

inductive Expectation where
  | token (t : Token)
  | value
  | endOfExpression
deriving DecidableEq

structure Unexpected where
  found : Option (Token × Span)
  expected : List Expectation

namespace Expectation

def operand : List Expectation := [token .not, value, token .parenOpen]

def operator (enclosed : Bool) : List Expectation :=
  [token .and, token .or, if enclosed then token .parenClose else endOfExpression]

end Expectation

mutual

/-- Read on where an operand is due. The pending parts of all open parentheses are kept, the
innermost first. -/
def operandDue (outer : List Pending) (p : Pending) :
    List (Token × Span) → Except Unexpected Expr
  | [] => .error ⟨none, Expectation.operand⟩
  | (t, span) :: ts =>
    match t with
    | .not => operandDue outer { p with negations := p.negations + 1 } ts
    | .parenOpen => operandDue (p :: outer) .start ts
    | t =>
      match Expr.ofToken? t with
      | some e => operatorDue outer p (e.negate p.negations) ts
      | none => .error ⟨some (t, span), Expectation.operand⟩

def operatorDue (outer : List Pending) (p : Pending) (e : Expr) :
    List (Token × Span) → Except Unexpected Expr
  | [] =>
    match outer with
    | [] => .ok (p.close e)
    | _ :: _ => .error ⟨none, Expectation.operator true⟩
  | (t, span) :: ts =>
    match t with
    | .comparison c =>
      operandDue outer ⟨p.disjunct, p.conjunct, some (c, p.closeComparison e), 0⟩ ts
    | .and => operandDue outer ⟨p.disjunct, some (p.closeAnd e), none, 0⟩ ts
    | .or => operandDue outer ⟨some (p.close e), none, none, 0⟩ ts
    | .parenClose =>
      match outer with
      | q :: outer => operatorDue outer q ((p.close e).negate q.negations) ts
      | [] => .error ⟨some (t, span), Expectation.operator false⟩
    | t => .error ⟨some (t, span), Expectation.operator !outer.isEmpty⟩

end

def Expr.ofTokens (ts : List (Token × Span)) : Except Unexpected Expr :=
  operandDue [] .start ts

end MarkupSnippets

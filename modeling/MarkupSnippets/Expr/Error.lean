import MarkupSnippets.Expr.Parser

namespace MarkupSnippets

def Token.describe (t : Token) : String :=
  match t with
  | .reference path => "placeholder '\x7b\x7b" ++ path ++ "\x7d\x7d'"
  | .text s => "string \"" ++ s ++ "\""
  | .number x => "number " ++ x.render
  | t => "'" ++ t.spelling?.getD "" ++ "'"

def Expectation.describe : Expectation → String
  | token t => t.describe
  | value => "value"
  | endOfExpression => "end of expression"

inductive ExpressionFault where
  | stray (text : String)
  | token (t : Token)
  | endOfExpression
  | missingTest

def ExpressionFault.message : ExpressionFault → String
  | stray text => "unexpected input '" ++ text ++ "'"
  | token t => "unexpected " ++ t.describe
  | endOfExpression => "unexpected end of expression"
  | missingTest => "missing \"test\" attribute"

/-- A test that cannot be read, with the bytes at fault and the place in the templates. -/
structure ExpressionError where
  expression : String
  fault : ExpressionFault
  span : Span
  expected : List Expectation
  origin : Origin

def ExpressionError.message (e : ExpressionError) : String :=
  "cannot evaluate expression \"" ++ e.expression ++ "\": " ++ e.fault.message ++ e.origin.suffix

def lastStop? (ts : List (Token × Span)) : Option Nat :=
  ts.getLast?.map fun (_, span) => span.stop

def Expr.parse (origin : Origin) (text : String) : Except ExpressionError Expr :=
  let size := Text.byteSize text.toList
  match tokenize 0 text.toList with
  | .error stray =>
    .error ⟨text, .stray (String.ofList stray.text), stray.span, [], origin⟩
  | .ok ts =>
    match Expr.ofTokens ts with
    | .ok e => .ok e
    | .error ⟨some (t, span), expected⟩ => .error ⟨text, .token t, span, expected, origin⟩
    | .error ⟨none, expected⟩ =>
      .error ⟨text, .endOfExpression, ⟨(lastStop? ts).getD size, size⟩, expected, origin⟩

end MarkupSnippets

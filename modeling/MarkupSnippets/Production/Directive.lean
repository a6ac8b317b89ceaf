namespace MarkupSnippets

inductive Directive where
  | text
  | callFunction
  | ifTest
  | otherwise
  | choose
  | forEach
  | forEmpty
  | insertSnippet
deriving DecidableEq

namespace Directive

def localName : Directive → String
  | text => "text"
  | callFunction => "call-function"
  | ifTest => "if"
  | otherwise => "else"
  | choose => "choose"
  | forEach => "for-each"
  | forEmpty => "for-empty"
  | insertSnippet => "insert-snippet"

def all : List Directive :=
  [text, callFunction, ifTest, otherwise, choose, forEach, forEmpty, insertSnippet]

def ofLocalName? (name : String) : Option Directive :=
  all.find? fun d => d.localName == name

end Directive

/-- What a choice does with the branches after the first that matches. -/
inductive ChooseMode where
  | strict
  | lax
deriving DecidableEq

def ChooseMode.ofName? : String → Option ChooseMode
  | "strict" => some strict
  | "lax" => some lax
  | _ => none

end MarkupSnippets

import MarkupSnippets.Expr.Error
import MarkupSnippets.Snippet.Key

namespace MarkupSnippets

inductive CallableRole where
  | callFunction
  | postproduction
deriving DecidableEq

def CallableRole.label : CallableRole → String
  | callFunction => "call-function"
  | postproduction => "postproduction"

inductive ProduceError where
  | notFound (key : Key) (origin : Origin)
  | recursion (key : Key) (tokens : List String) (origin : Origin)
  | notAList (path found : String) (origin : Origin)
  | notCallable (role : CallableRole) (path : String) (origin : Origin)
  | expression (error : ExpressionError)
  | callback (path reason : String) (origin : Origin)

namespace ProduceError

def origin : ProduceError → Origin
  | notFound _ origin => origin
  | recursion _ _ origin => origin
  | notAList _ _ origin => origin
  | notCallable _ _ origin => origin
  | expression error => error.origin
  | callback _ _ origin => origin

def message : ProduceError → String
  | notFound key origin => "unknown snippet \"" ++ key.text ++ "\"" ++ origin.suffix
  | recursion _ tokens origin =>
    "recursive snippet nesting: " ++ String.intercalate " -> " tokens ++ origin.suffix
  | notAList path found origin =>
    "\"" ++ path ++ "\" is " ++ found ++ ", expected a list" ++ origin.suffix
  | notCallable role path origin =>
    role.label ++ " reference \"" ++ path ++ "\" is not callable" ++ origin.suffix
  | expression error => error.message
  | callback path reason origin =>
    "callable \"" ++ path ++ "\" failed: " ++ reason ++ origin.suffix

end ProduceError

end MarkupSnippets

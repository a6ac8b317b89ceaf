import MarkupSnippets.Number.Basic

namespace MarkupSnippets

inductive Comparison where
  | equal
  | notEqual
  | strictEqual
  | strictNotEqual
  | less
  | lessOrEqual
  | greater
  | greaterOrEqual
deriving DecidableEq

def Comparison.symbol : Comparison → String
  | equal => "=="
  | notEqual => "!="
  | strictEqual => "==="
  | strictNotEqual => "!=="
  | less => "<"
  | lessOrEqual => "<="
  | greater => ">"
  | greaterOrEqual => ">="

/-- The tree of a test. A text may hold placeholders; a reference is a bare placeholder. -/
inductive Expr where
  | null
  | bool (b : Bool)
  | number (x : Number)
  | text (s : String)
  | reference (path : String)
  | not (operand : Expr)
  | or (left right : Expr)
  | and (left right : Expr)
  | compare (comparison : Comparison) (left right : Expr)
deriving DecidableEq, Inhabited

inductive Token where
  | comparison (comparison : Comparison)
  | and
  | or
  | not
  | parenOpen
  | parenClose
  | bool (b : Bool)
  | null
  | undefined
  | reference (path : String)
  | text (s : String)
  | number (x : Number)
deriving DecidableEq

namespace Token

/-- The tokens with a spelling of their own. A spelling stands before those it begins with, so that
the first match is the longest. -/
def spellings : List (String × Token) := [
  ("===", comparison .strictEqual),
  ("!==", comparison .strictNotEqual),
  ("==", comparison .equal),
  ("!=", comparison .notEqual),
  ("<=", comparison .lessOrEqual),
  (">=", comparison .greaterOrEqual),
  ("<", comparison .less),
  (">", comparison .greater),
  ("&&", and),
  ("||", or),
  ("!", not),
  ("(", parenOpen),
  (")", parenClose),
  ("true", bool true),
  ("false", bool false),
  ("null", null),
  ("undefined", undefined)]

def spelling? : Token → Option String
  | comparison c => some c.symbol
  | and => some "&&"
  | or => some "||"
  | not => some "!"
  | parenOpen => some "("
  | parenClose => some ")"
  | bool b => some (if b then "true" else "false")
  | null => some "null"
  | undefined => some "undefined"
  | reference _ | text _ | number _ => none

end Token

end MarkupSnippets

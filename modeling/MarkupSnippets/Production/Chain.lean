namespace MarkupSnippets

/-- The snippets that are being produced, outermost first, each by its token. -/
structure Chain where
  tokens : List String
deriving DecidableEq

namespace Chain

def empty : Chain := ⟨[]⟩

def contains (chain : Chain) (token : String) : Bool := chain.tokens.contains token

def extend (chain : Chain) (token : String) : Chain := ⟨chain.tokens ++ [token]⟩

end Chain

end MarkupSnippets

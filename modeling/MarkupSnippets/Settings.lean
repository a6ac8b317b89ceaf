import MarkupSnippets.Toml

namespace MarkupSnippets

/-- The namespace of directives, the namespace of output elements whose source has none, and the
name of the root element of snippet documents. -/
structure Settings where
  directiveNs : String
  defaultNs : String
  documentElement : String
deriving DecidableEq

namespace Settings

def standard : Settings where
  directiveNs := "https://github.com/suppenhuhn79/pagesnippets"
  defaultNs := "http://www.w3.org/1999/xhtml"
  documentElement := "pagesnippets"

def names : List String := ["directive_namespace", "default_namespace", "document_element"]

/-- Read settings from a document. Each may be given once; those left out keep their standard
values, and nothing else may be set. -/
def ofToml? (text : String) : Option Settings := do
  let pairs ← Toml.pairs? text
  let keys := pairs.map Prod.fst
  if keys.all names.contains && keys.eraseDups.length == keys.length then
    let value (name standardValue : String) : String := (pairs.lookup name).getD standardValue
    return {
      directiveNs := value "directive_namespace" standard.directiveNs
      defaultNs := value "default_namespace" standard.defaultNs
      documentElement := value "document_element" standard.documentElement }
  else none

end Settings

end MarkupSnippets

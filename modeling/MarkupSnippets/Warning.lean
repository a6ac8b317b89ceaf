import MarkupSnippets.Origin

namespace MarkupSnippets

inductive WarningKind where
  | unexpectedElement
  | elementNotAllowed
  | attributeNotAllowed
  | missingAttribute
  | multipleRootElements
  | emptySnippet
  | invalidChooseMode
  | handlerNotCallable
deriving DecidableEq

def WarningKind.label : WarningKind → String
  | unexpectedElement => "unexpected-element"
  | elementNotAllowed => "element-not-allowed"
  | attributeNotAllowed => "attribute-not-allowed"
  | missingAttribute => "missing-attribute"
  | multipleRootElements => "multiple-root-elements"
  | emptySnippet => "empty-snippet"
  | invalidChooseMode => "invalid-choose-mode"
  | handlerNotCallable => "handler-not-callable"

structure Warning where
  kind : WarningKind
  message : String
  origin : Origin
deriving DecidableEq

def Warning.render (w : Warning) : String :=
  w.message ++ "\n" ++ w.origin.render

end MarkupSnippets

import MarkupSnippets.Expr.Error
import MarkupSnippets.Report.Excerpt

namespace MarkupSnippets.ExpressionError

def explanation (e : ExpressionError) : String :=
  if e.expected.isEmpty then e.fault.message
  else
    e.fault.message ++ "\nExpected: " ++
    String.intercalate ", " (e.expected.map Expectation.describe)

def excerpt (e : ExpressionError) : Excerpt :=
  let cs := e.expression.toList
  ⟨Text.lines cs, ⟨Text.charsBefore cs e.span.start, Text.charsBefore cs e.span.stop⟩,
    e.explanation⟩

/-- The fault, and the test under a name with its origin as a note. An empty test is not shown, and
then its origin is not either. -/
def report (e : ExpressionError) (name : String) : Styled :=
  let heading := Styled.colored .red "Error:" ++ Styled.uncolored (" " ++ e.fault.message ++ "\n")
  let note := if e.origin.isEmpty then none else some e.origin.render
  if e.expression.isEmpty then heading else heading ++ e.excerpt.framed name note

end MarkupSnippets.ExpressionError

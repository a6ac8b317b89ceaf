import MarkupSnippets.Text.Cut

namespace MarkupSnippets.Markup

inductive CodeFault where
  | empty
  | sign
  | digit
  | range
  | nul
  | scalar (code : Nat)

def CodeFault.message : CodeFault → String
  | empty => "cannot parse integer from empty string"
  | sign => "unexpected number sign"
  | digit => "invalid digit found in string"
  | range => "number too large to fit in target type"
  | nul => "0x0 character is not permitted in XML"
  | scalar code => "`" ++ toString code ++ "` is not a valid codepoint"

inductive Fault where
  | tagNotClosed
  | valueNotClosed (quote : Char)
  | commentNotClosed
  | cdataNotClosed
  | doctypeNotClosed
  | instructionNotClosed
  | declarationNotClosed
  | unknownMarkup
  | mismatchedEnd (expected found : String)
  | unmatchedEnd (found : String)
  | missingDoctypeName
  | referenceNotClosed
  | keyWithoutEquals (position : Nat)
  | missingValue (position : Nat)
  | unquotedValue (position : Nat)
  | missingQuote (position : Nat) (quote : Char)
  | duplicate (position previous : Nat)
  | unknownEntity (start stop : Nat) (name : String)
  | valueReferenceNotClosed (start stop : Nat)
  | valueCharacter (fault : CodeFault)
  | hexCharacter (body : String)
  | decimalCharacter (body : String)
  | textScalar (code : Nat)
  | reservedPrefixXml (ns : List Char)
  | reservedPrefixXmlns (ns : List Char)
  | reservedXml (pfx : List Char)
  | reservedXmlns (pfx : List Char)

def xmlNs : String := "http://www.w3.org/XML/1998/namespace"

def xmlnsNs : String := "http://www.w3.org/2000/xmlns/"

def upperHex (n : Nat) : String :=
  String.ofList ((Nat.toDigits 16 n).map Char.toUpper)

/-- Printable ASCII as it is, a double quote behind a backslash, every other byte as a number. -/
def byteText (b : Nat) : String :=
  if b = 34 then "\\\""
  else if 32 ≤ b && b ≤ 126 then (Char.ofNat b).toString
  else "0x" ++ upperHex b

def quotedBytes (cs : List Char) : String :=
  "\"" ++ String.join ((String.ofList cs).toUTF8.toList.map fun b => byteText b.toNat) ++ "\""

namespace Fault

def notClosed (what closing : String) : String :=
  "syntax error: " ++ what ++ " not closed: `" ++ closing ++ "` not found before end of input"

def illFormed (text : String) : String := "ill-formed document: " ++ text

def atPosition (position : Nat) (text : String) : String :=
  "position " ++ toString position ++ ": " ++ text

def cannotBind (pfx ns : String) : String :=
  "the namespace prefix '" ++ pfx ++ "' cannot be bound to '" ++ ns ++ "'"

def message : Fault → String
  | tagNotClosed => notClosed "tag" ">"
  | valueNotClosed quote => notClosed "attribute value" quote.toString
  | commentNotClosed => notClosed "comment" "-->"
  | cdataNotClosed => notClosed "CDATA" "]]>"
  | doctypeNotClosed => notClosed "DOCTYPE" ">"
  | instructionNotClosed => notClosed "processing instruction" "?>"
  | declarationNotClosed => notClosed "XML declaration" "?>"
  | unknownMarkup => "syntax error: unknown or missed symbol in markup"
  | mismatchedEnd expected found =>
    illFormed ("expected `</" ++ expected ++ ">`, but `</" ++ found ++ ">` was found")
  | unmatchedEnd found =>
    illFormed ("close tag `</" ++ found ++ ">` does not match any open tag")
  | missingDoctypeName =>
    illFormed "`<!DOCTYPE>` declaration does not contain a name of a document type"
  | referenceNotClosed =>
    illFormed "entity or character reference not closed: `;` not found before end of input"
  | keyWithoutEquals position =>
    atPosition position "attribute key must be directly followed by `=` or space"
  | missingValue position => atPosition position "`=` must be followed by an attribute value"
  | unquotedValue position =>
    atPosition position "attribute value must be enclosed in `\"` or `'`"
  | missingQuote position quote =>
    atPosition position ("missing closing quote `" ++ quote.toString ++ "` in attribute value")
  | duplicate position previous =>
    atPosition position
      ("duplicated attribute, previous declaration at position " ++ toString previous)
  | unknownEntity start stop name =>
    "at " ++ toString start ++ ".." ++ toString stop ++ ": unrecognized entity `" ++ name ++ "`"
  | valueReferenceNotClosed start stop =>
    "Error while escaping character at range " ++ toString start ++ ".." ++ toString stop ++
      ": Cannot find ';' after '&'"
  | valueCharacter fault => "invalid character reference: " ++ fault.message
  | hexCharacter body => "invalid hex entity: #" ++ body
  | decimalCharacter body => "invalid decimal entity: #" ++ body
  | textScalar code => "invalid code point: " ++ toString code
  | reservedPrefixXml ns => cannotBind "xml" (quotedBytes ns)
  | reservedPrefixXmlns ns => cannotBind "xmlns" (quotedBytes ns)
  | reservedXml pfx => cannotBind (quotedBytes pfx) xmlNs
  | reservedXmlns pfx => cannotBind (quotedBytes pfx) xmlnsNs

end Fault

inductive Error where
  | fault (fault : Fault)
  | noRoot
  | unexpectedEnd (name : String)
  | trailing

def Error.message : Error → String
  | fault f => "XML parse error: " ++ f.message
  | noRoot => "document has no root element"
  | unexpectedEnd name => "unexpected end of document inside <" ++ name ++ ">"
  | trailing => "content after the root element"

end MarkupSnippets.Markup

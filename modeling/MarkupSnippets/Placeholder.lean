import MarkupSnippets.Text.Blank
import MarkupSnippets.Text.Cut
import MarkupSnippets.Value

namespace MarkupSnippets

def Value.descend? : Value → List String → Option Value
  | v, [] => some v
  | .record fields, segment :: rest => (fields.get? segment).bind fun v => v.descend? rest
  | _, _ :: _ => none

/-- The value that a dotted path leads to, white space around the path aside. The blank path leads
nowhere. -/
def resolve? (data : Data) (path : String) : Option Value :=
  let path := Text.trim path
  if path = "" then none
  else (Value.record data.fields).descend? (Text.split '.' path)

inductive Piece where
  | plain (cs : List Char)
  | reference (path : List Char)

namespace Piece

def opening : List Char := ['{', '{']

def closing : List Char := ['}', '}']

def source : Piece → List Char
  | plain cs => cs
  | reference path => opening ++ (path ++ closing)

theorem length_lt_of_splitAt? {cs before inner path rest : List Char}
    (hopen : Text.splitAt? opening cs = some (before, inner))
    (hclose : Text.splitAt? closing inner = some (path, rest)) : rest.length < cs.length := by
  rw [Text.eq_of_splitAt? hopen, Text.eq_of_splitAt? hclose]
  simp only [opening, closing, List.length_append, List.length_cons, List.length_nil]
  omega

/-- Cut at the first opening and the first closing after it, then go on behind the closing. What
is never closed stays plain. -/
def pieces (cs : List Char) : List Piece :=
  match hopen : Text.splitAt? opening cs with
  | none => [plain cs]
  | some (before, inner) =>
    match hclose : Text.splitAt? closing inner with
    | none => [plain cs]
    | some (path, rest) =>
      have := length_lt_of_splitAt? hopen hclose
      plain before :: reference path :: pieces rest
termination_by cs.length

def fill (data : Data) : Piece → List Char
  | plain cs => cs
  | reference path =>
    match resolve? data (String.ofList path) with
    | some v => v.toText.toList
    | none => []

end Piece

structure Placeholder where
  start : Nat
  stop : Nat
  path : String
deriving DecidableEq

namespace Placeholder

def locate (offset : Nat) : List Piece → List Placeholder
  | [] => []
  | .plain cs :: rest => locate (offset + Text.byteSize cs) rest
  | .reference path :: rest =>
    let stop := offset + Text.byteSize (Piece.reference path).source
    ⟨offset, stop, Text.trim (String.ofList path)⟩ :: locate stop rest

def all (text : String) : List Placeholder :=
  locate 0 (Piece.pieces text.toList)

/-- The path of a text that, white space around it aside, is one placeholder and nothing else. -/
def sole? (text : String) : Option String :=
  match Piece.pieces (Text.trim text).toList with
  | [.plain [], .reference path, .plain []] => some (Text.trim (String.ofList path))
  | _ => none

end Placeholder

/-- Put the texts of the data into the placeholders. What they bring in is not looked at again. -/
def substitute (data : Data) (text : String) : String :=
  String.ofList ((Piece.pieces text.toList).flatMap (Piece.fill data))

end MarkupSnippets

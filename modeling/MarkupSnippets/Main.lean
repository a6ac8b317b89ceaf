import MarkupSnippets.CommandLine.Run

namespace MarkupSnippets.CommandLine

/-- A code may come with either sign. -/
def isCode (expected code : UInt32) : Bool :=
  code == expected || -code == expected

def faultOfError (error : IO.Error) : FileFault :=
  match error with
  | .noFileOrDirectory _ _ _ => .notFound
  | .inappropriateType _ code _ => if isCode 21 code then .isDirectory else .notDirectory
  | .invalidArgument _ code _ =>
    if isCode 36 code then .nameTooLong else .other error.toString
  | .permissionDenied _ code _ => if isCode 13 code then .denied else .other error.toString
  | _ => .other error.toString

def readFile (path : String) : IO (String × Except FileFault String) := do
  try
    return (path, textOfBytes (← IO.FS.readBinFile path))
  catch error =>
    return (path, .error (faultOfError error))

end MarkupSnippets.CommandLine

open MarkupSnippets.CommandLine in
def main (args : List String) : IO UInt32 := do
  let paths :=
    match Options.parse args with
    | .ok (some o) => o.paths
    | _ => []
  let contents ← paths.mapM readFile
  let outcome := run (fun path => (contents.lookup path).getD (.error .notFound)) args
  IO.print outcome.output
  IO.eprint outcome.said
  return outcome.status.toUInt32

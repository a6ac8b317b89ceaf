import MarkupSnippets.CommandLine.Files
import MarkupSnippets.CommandLine.Options
import MarkupSnippets.Engine
import MarkupSnippets.Json.Parser
import MarkupSnippets.Report.Expression

namespace MarkupSnippets.CommandLine

/-- How a run ends: its status, what it puts out, and what it says besides. -/
structure Outcome where
  status : Nat
  output : String
  said : String

def unlines (lines : List String) : String :=
  String.join (lines.map (· ++ "\n"))

def usage : List String := [
  "Usage: [OPTIONS] <FILES>...",
  "",
  "  -l, --list           list the snippets of the documents and their groups",
  "  -s, --snippet <KEY>  produce a snippet",
  "  -d, --data <FILE>    take the data from a JSON object",
  "  -c, --config <FILE>  take the settings from a TOML document",
  "  -v, --verbose        say more (repeatable)",
  "  -q, --quiet          say only why a run fails",
  "  -h, --help           show this text"]

def noHost : Host := fun _ target _ => (target, none)

/-- The keys of the topmost group, then each group with its own keys. -/
def listing (r : Registry) : List String :=
  (r.listSnippets "/" false).map Key.text ++
  (r.listGroups "/" true).flatMap fun group =>
    group :: (r.listSnippets group false).map fun key => "  " ++ key.text

def readSettings (files : Files) (path : String) : Except String Settings :=
  match files path with
  | .error fault => .error ("Failed to read config file: " ++ fault.message)
  | .ok text =>
    match Settings.ofToml? text with
    | some settings => .ok settings
    | none => .error "Failed to parse config TOML: settings are expected"

def readData (files : Files) (path : String) : Except String Data :=
  match files path with
  | .error fault => .error fault.message
  | .ok text =>
    match Json.document? text with
    | none => .error "not a JSON document"
    | some document =>
      match document.toValue with
      | .record fields => .ok (Record.empty.merge fields)
      | _ => .error ("expected a JSON object, found " ++ document.kind)

structure Session where
  engine : Engine
  said : String

namespace Options

def saidOfWarnings (o : Options) (warnings : List Warning) : String :=
  if o.quiet then "" else unlines (warnings.map fun w => "warning: " ++ w.render)

def saidOfResources (o : Options) (told : List Resource) : String :=
  if o.verbosity = 0 then ""
  else unlines (told.map fun r => "resource: " ++ r.kind.label ++ " " ++ r.path)

def importFile (o : Options) (files : Files) (session : Session) (path : String) :
    Except String Session :=
  match files path with
  | .error fault =>
    .error (session.said ++ "Error reading file '" ++ path ++ "': " ++ fault.message ++ "\n")
  | .ok text =>
    let (engine, imported) := session.engine.importText path text
    let said := session.said ++ o.saidOfResources imported.told
    match imported.outcome with
    | .error error => .error (said ++ "Error: " ++ (EngineError.load error).message ++ "\n")
    | .ok report => .ok ⟨engine, said ++ o.saidOfWarnings report.warnings⟩

def prepare (o : Options) (files : Files) : Except String (Session × Data) := do
  let settings ←
    match o.settings with
    | none => .ok Settings.standard
    | some path =>
      (readSettings files path).mapError fun reason =>
        "Error loading config '" ++ path ++ "': " ++ reason ++ "\n"
  let data ←
    match o.data with
    | none => .ok Record.empty
    | some path =>
      (readData files path).mapError fun reason =>
        "Error reading data '" ++ path ++ "': " ++ reason ++ "\n"
  let session ← o.files.foldlM (o.importFile files) ⟨Engine.new settings, ""⟩
  return (session, data)

def run (o : Options) (files : Files) : Outcome :=
  match o.prepare files with
  | .error said => ⟨1, "", said⟩
  | .ok (session, data) =>
    let listed := if o.list then unlines (listing session.engine.registry) else ""
    match o.snippet with
    | none =>
      if o.list then ⟨0, listed, session.said⟩
      else ⟨2, "", session.said ++ "Nothing to do: pass --snippet <KEY> or --list\n"⟩
    | some key =>
      match session.engine.produce noHost (Key.ofString key) data with
      | .ok draft =>
        ⟨0, listed ++ draft.target.toXml ++ "\n", session.said ++ o.saidOfWarnings draft.warnings⟩
      | .error (.expression error) => ⟨1, listed, session.said ++ (error.report key).terminal⟩
      | .error error =>
        ⟨1, listed, session.said ++ "Error: " ++ (EngineError.produce error).message ++ "\n"⟩

def paths (o : Options) : List String :=
  o.settings.toList ++ o.data.toList ++ o.files

end Options

def run (files : Files) (args : List String) : Outcome :=
  match Options.parse args with
  | .error fault => ⟨2, "", unlines (("error: " ++ fault.message) :: "" :: usage)⟩
  | .ok none => ⟨0, unlines usage, ""⟩
  | .ok (some o) => o.run files

end MarkupSnippets.CommandLine

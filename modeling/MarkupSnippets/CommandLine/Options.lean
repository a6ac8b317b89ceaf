namespace MarkupSnippets.CommandLine

structure Options where
  files : List String
  list : Bool
  snippet : Option String
  data : Option String
  settings : Option String
  verbosity : Nat
  quiet : Bool

def Options.start : Options := ⟨[], false, none, none, none, 0, false⟩

inductive Switch where
  | list
  | verbose
  | quiet
  | help
deriving DecidableEq

inductive Parameter where
  | snippet
  | data
  | settings
deriving DecidableEq

inductive OptionName where
  | switch (s : Switch)
  | parameter (p : Parameter)

def Switch.name : Switch → String
  | list => "--list"
  | verbose => "--verbose"
  | quiet => "--quiet"
  | help => "--help"

def Parameter.name : Parameter → String
  | snippet => "--snippet"
  | data => "--data"
  | settings => "--config"

namespace OptionName

def ofLetter? : Char → Option OptionName
  | 'l' => some (switch .list)
  | 'v' => some (switch .verbose)
  | 'q' => some (switch .quiet)
  | 'h' => some (switch .help)
  | 's' => some (parameter .snippet)
  | 'd' => some (parameter .data)
  | 'c' => some (parameter .settings)
  | _ => none

def ofWord? : String → Option OptionName
  | "list" => some (switch .list)
  | "verbose" => some (switch .verbose)
  | "quiet" => some (switch .quiet)
  | "help" => some (switch .help)
  | "snippet" => some (parameter .snippet)
  | "data" => some (parameter .data)
  | "config" => some (parameter .settings)
  | _ => none

end OptionName

inductive UsageFault where
  | unknownOption (name : String)
  | repeated (name : String)
  | missingValue (p : Parameter)
  | unwantedValue (s : Switch)
  | emptyPath
  | noFiles
  | conflict
deriving DecidableEq

def UsageFault.message : UsageFault → String
  | unknownOption name => "unknown option " ++ name
  | repeated name => name ++ " can be given only once"
  | missingValue p => p.name ++ " needs a value"
  | unwantedValue s => s.name ++ " takes no value"
  | emptyPath => "a path is empty"
  | noFiles => "no snippet document is given"
  | conflict => "--quiet and --verbose exclude each other"

namespace Options

def addFile (o : Options) (path : String) : Except UsageFault Options :=
  if path.isEmpty then .error .emptyPath else .ok { o with files := o.files ++ [path] }

/-- Set a parameter. The key of a snippet may be empty, a path may not. -/
def set (o : Options) (p : Parameter) (value : String) : Except UsageFault Options :=
  let isSet :=
    match p with
    | .snippet => o.snippet.isSome
    | .data => o.data.isSome
    | .settings => o.settings.isSome
  if p ≠ .snippet ∧ value.isEmpty then .error .emptyPath
  else if isSet then .error (.repeated p.name)
  else
    match p with
    | .snippet => .ok { o with snippet := some value }
    | .data => .ok { o with data := some value }
    | .settings => .ok { o with settings := some value }

def complete (o : Options) : Except UsageFault Options :=
  if o.files.isEmpty then .error .noFiles
  else if o.quiet && o.verbosity != 0 then .error .conflict
  else .ok o

end Options

/-- What has been read of a command line: options, options of which the last still lacks its value,
or a call for help, which ends the reading. -/
inductive Reading where
  | options (o : Options)
  | lacking (o : Options) (p : Parameter)
  | help

namespace Reading

def turnOn (o : Options) : Switch → Except UsageFault Reading
  | .list =>
    if o.list then .error (.repeated Switch.list.name)
    else .ok (options { o with list := true })
  | .quiet =>
    if o.quiet then .error (.repeated Switch.quiet.name)
    else .ok (options { o with quiet := true })
  | .verbose => .ok (options { o with verbosity := o.verbosity + 1 })
  | .help => .ok help

/-- A cluster of letters. A parameter takes what is left of the cluster for its value. -/
def cluster (o : Options) : List Char → Except UsageFault Reading
  | [] => .ok (options o)
  | c :: cs =>
    match OptionName.ofLetter? c with
    | none => .error (.unknownOption ("-" ++ c.toString))
    | some (.parameter p) =>
      match cs with
      | [] => .ok (lacking o p)
      | '=' :: value => (o.set p (String.ofList value)).map options
      | value => (o.set p (String.ofList value)).map options
    | some (.switch s) =>
      match turnOn o s with
      | .ok (options o) => cluster o cs
      | reading => reading

def long (o : Options) (cs : List Char) : Except UsageFault Reading :=
  let word := String.ofList (cs.takeWhile (· != '='))
  match OptionName.ofWord? word, cs.dropWhile (· != '=') with
  | none, _ => .error (.unknownOption ("--" ++ word))
  | some (.switch s), [] => turnOn o s
  | some (.switch s), _ :: _ => .error (.unwantedValue s)
  | some (.parameter p), [] => .ok (lacking o p)
  | some (.parameter p), _ :: value => (o.set p (String.ofList value)).map options

def argument (o : Options) (arg : String) : Except UsageFault Reading :=
  match arg.toList with
  | '-' :: '-' :: cs => long o cs
  | '-' :: c :: cs => cluster o (c :: cs)
  | _ => (o.addFile arg).map options

def isOption (arg : String) : Bool :=
  match arg.toList with
  | '-' :: _ :: _ => true
  | _ => false

def all : Reading → List String → Except UsageFault Reading
  | help, _ => .ok help
  | options o, [] => o.complete.map options
  | lacking _ p, [] => .error (.missingValue p)
  | lacking o p, arg :: args =>
    if isOption arg then .error (.missingValue p)
    else
      match o.set p arg with
      | .ok o => all (options o) args
      | .error fault => .error fault
  | options o, arg :: args =>
    if arg = "--" then do
      let o ← args.foldlM Options.addFile o
      o.complete.map options
    else
      match argument o arg with
      | .ok reading => all reading args
      | .error fault => .error fault

end Reading

/-- Read the arguments: the options, or none if help is called for. A short option stands alone or
in a cluster behind one hyphen; the value of a parameter follows it at once, behind an equals sign,
or as the next argument. Behind a lone double hyphen every argument is a file. -/
def Options.parse (args : List String) : Except UsageFault (Option Options) :=
  (Reading.all (.options .start) args).map fun reading =>
    match reading with
    | .options o => some o
    | _ => none

end MarkupSnippets.CommandLine

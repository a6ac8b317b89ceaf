import MarkupSnippets.Text.Cut

namespace MarkupSnippets.CommandLine

inductive FileFault where
  | notFound
  | isDirectory
  | notDirectory
  | nameTooLong
  | denied
  | notText
  | other (reason : String)
deriving DecidableEq

def FileFault.message : FileFault → String
  | notFound => "No such file or directory (os error 2)"
  | isDirectory => "Is a directory (os error 21)"
  | notDirectory => "Not a directory (os error 20)"
  | nameTooLong => "File name too long (os error 36)"
  | denied => "Permission denied (os error 13)"
  | notText => "stream did not contain valid UTF-8"
  | other reason => reason

abbrev Files := String → Except FileFault String

def textOfBytes (bytes : ByteArray) : Except FileFault String :=
  match String.fromUTF8? bytes with
  | some text => .ok text
  | none => .error .notText

def longestName : Nat := 255

def longestPath : Nat := 4095

inductive Entry where
  | directory
  | file (bytes : ByteArray)

/-- A directory: the names that lead to what is in it, the entry's own last. The directories on the
way to an entry need no entries of their own. -/
structure Directory where
  entries : List (List String × Entry)
  /-- There is no directory above the root. -/
  isRoot : Bool

namespace Directory

def ofPaths (files : List (String × ByteArray)) : Directory where
  entries := files.map fun (path, bytes) =>
    ((Text.split '/' path).filter fun name => name ≠ "" ∧ name ≠ ".", .file bytes)
  isRoot := false

/-- What the root holds on every system: the standard directories, and the device that is always
empty. -/
def root : Directory where
  entries :=
    (["dev", "null"], .file ByteArray.empty) ::
    ["bin", "boot", "dev", "etc", "home", "lib", "media", "mnt", "opt", "proc", "root", "run",
      "sbin", "srv", "sys", "tmp", "usr", "var"].map fun name => ([name], .directory)
  isRoot := true

def file? (d : Directory) (names : List String) : Option ByteArray :=
  match d.entries.lookup names with
  | some (.file bytes) => some bytes
  | _ => none

def isAbove (names : List String) : Bool :=
  names.all (· == "..")

/-- A directory is there for what is in it. The topmost one and those above it always are. -/
def hasDirectory (d : Directory) (names : List String) : Bool :=
  isAbove names || d.entries.any fun (path, entry) =>
    names.isPrefixOf path && (names != path || entry matches .directory)

def above (d : Directory) (here : List String) : List String :=
  if !isAbove here then here.dropLast
  else if d.isRoot then here
  else here ++ [".."]

def walk (d : Directory) (here : List String) : List String → Except FileFault (List String)
  | [] => .ok here
  | name :: names =>
    if d.hasDirectory here then
      if name = "" ∨ name = "." then walk d here names
      else if name = ".." then walk d (d.above here) names
      else if longestName < name.utf8ByteSize then .error .nameTooLong
      else walk d (here ++ [name]) names
    else if (d.file? here).isSome then .error .notDirectory
    else .error .notFound

def readAt (d : Directory) (path : List String) : Except FileFault String :=
  match d.walk [] path with
  | .error fault => .error fault
  | .ok names =>
    if d.hasDirectory names then .error .isDirectory
    else
      match d.file? names with
      | some bytes => textOfBytes bytes
      | none => .error .notFound

/-- Read a text by its path, which starts at the root if its first character is a slash. -/
def read (d : Directory) : Files := fun path =>
  if path.isEmpty then .error .notFound
  else if longestPath < path.utf8ByteSize then .error .nameTooLong
  else (if path.front == '/' then root else d).readAt (Text.split '/' path)

end Directory

end MarkupSnippets.CommandLine

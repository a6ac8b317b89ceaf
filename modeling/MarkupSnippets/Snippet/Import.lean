import MarkupSnippets.Markup.Document
import MarkupSnippets.Settings
import MarkupSnippets.Snippet.Registry
import MarkupSnippets.Snippet.ResourcePath
import MarkupSnippets.Warning

namespace MarkupSnippets

inductive ResourceKind where
  | stylesheet
  | script
deriving DecidableEq

def ResourceKind.label : ResourceKind → String
  | stylesheet => "stylesheet"
  | script => "script"

structure Resource where
  kind : ResourceKind
  path : String
deriving DecidableEq

structure ImportReport where
  source : String
  skipped : Bool
  snippets : List Key
  resources : List Resource
  warnings : List Warning

namespace ImportReport

def start (source : String) : ImportReport := ⟨source, false, [], [], []⟩

def skip (source : String) : ImportReport := { start source with skipped := true }

end ImportReport

inductive LoadError where
  | notSnippetDocument (source found : String)
  | malformed (source : String) (error : Markup.Error)

def LoadError.message : LoadError → String
  | notSnippetDocument source found =>
    "\"" ++ source ++ "\" is not a snippet document: root element is <" ++ found ++ ">"
  | malformed source error => "\"" ++ source ++ "\" is not well-formed: " ++ error.message

/-- An import under way: the store, the report, what the host was told, and the scripts of which
it still has to be told. -/
structure Importing where
  registry : Registry
  report : ImportReport
  told : List Resource
  scripts : List Resource

namespace Importing

def warn (st : Importing) (kind : WarningKind) (message : String) (origin : Origin) : Importing :=
  { st with report.warnings := st.report.warnings ++ [⟨kind, message, origin⟩] }

def tell (st : Importing) (resource : Resource) : Importing :=
  { st with
    told := st.told ++ [resource]
    report.resources := st.report.resources ++ [resource] }

def define (settings : Settings) (source group : String) (origin : Origin)
    (tag : Markup.Tag) (children : List Markup.Node) (st : Importing) : Importing :=
  match tag.attributeEither? settings.directiveNs "name" with
  | none => st.warn .missingAttribute "Snippet without \"name\" attribute." origin
  | some name =>
    match Markup.Element.childElements children with
    | [] => st.warn .emptySnippet "Snippet has no element." origin
    | template :: others =>
      let st :=
        if others.isEmpty then st
        else st.warn .multipleRootElements "Only one child element allowed." origin
      let key := Key.ofString (group ++ "/" ++ name)
      let snippet : Snippet := {
        key, source, template
        ns := template.tag.ns.getD settings.defaultNs }
      { st with
        registry := st.registry.put snippet
        report.snippets := st.report.snippets ++ [key] }

/-- Take up a stylesheet or a script. The host is told of a stylesheet where it stands, and of the
scripts at the end. -/
def refer (source : String) (kind : ResourceKind) (origin : Origin) (tag : Markup.Tag)
    (st : Importing) : Importing :=
  match tag.attribute? "src" with
  | none => st.warn .missingAttribute ("The " ++ kind.label ++ " has no \"src\" attribute.") origin
  | some src =>
    let resource : Resource := ⟨kind, ResourcePath.resolve source src⟩
    match kind with
    | .stylesheet => st.tell resource
    | .script => { st with scripts := st.scripts ++ [resource] }

inductive Item where
  | snippet
  | group
  | resource (kind : ResourceKind)

def Item.ofName? : String → Option Item
  | "snippet" => some snippet
  | "snippet-group" => some group
  | "stylesheet" => some (resource .stylesheet)
  | "script" => some (resource .script)
  | _ => none

mutual

/-- Take up one node in a group. The group is the path of names that leads to it, each behind a
slash; at the root of a document it is empty. -/
def node (settings : Settings) (source group : String) (origin : Origin)
    (st : Importing) : Markup.Node → Importing
  | .text _ => st
  | .element tag children =>
    let here := origin ++ [⟨tag.opening, source⟩]
    if tag.isIn settings.directiveNs then
      match Item.ofName? tag.name with
      | some .snippet => st.define settings source group here tag children
      | some .group =>
        match tag.attributeEither? settings.directiveNs "name" with
        | some name => nodes settings source (group ++ "/" ++ name) here st children
        | none => st.warn .missingAttribute "Snippet group without \"name\" attribute." here
      | some (.resource kind) =>
        if group == "" then st.refer source kind here tag
        else st.warn .elementNotAllowed "Element not allowed here." here
      | none => st.warn .elementNotAllowed "Element not allowed here." here
    else st.warn .unexpectedElement "Unexpected element." here

def nodes (settings : Settings) (source group : String) (origin : Origin)
    (st : Importing) : List Markup.Node → Importing
  | [] => st
  | child :: rest =>
    nodes settings source group origin (node settings source group origin st child) rest

end

def finish (st : Importing) : Importing :=
  st.scripts.foldl tell { st with scripts := [] }

end Importing

/-- What an import leaves behind, whether it succeeds or fails: the store, what the host was told,
and how it ended. -/
structure Imported where
  registry : Registry
  told : List Resource
  outcome : Except LoadError ImportReport

def Registry.load (settings : Settings) (registry : Registry) (source : String)
    (document : Markup.Element) : Imported :=
  if registry.hasSource source then ⟨registry, [], .ok (.skip source)⟩
  else if document.tag.isIn settings.directiveNs && document.tag.name == settings.documentElement
  then
    let start : Importing := ⟨registry, .start source, [], []⟩
    let done := (Importing.nodes settings source "" [] start document.children).finish
    ⟨done.registry.markSource source, done.told, .ok done.report⟩
  else ⟨registry, [], .error (.notSnippetDocument source document.tag.qualifiedName)⟩

/-- Import the text of a document from a source. The text of a known source is not looked at. -/
def Registry.loadText (settings : Settings) (registry : Registry) (source text : String) :
    Imported :=
  if registry.hasSource source then ⟨registry, [], .ok (.skip source)⟩
  else
    match Markup.parse text with
    | .ok document => registry.load settings source document
    | .error error => ⟨registry, [], .error (.malformed source error)⟩

end MarkupSnippets

import MarkupSnippets.Output.Writer
import MarkupSnippets.Production.Produce
import MarkupSnippets.Snippet.Import

namespace MarkupSnippets

structure Engine where
  settings : Settings
  registry : Registry

inductive EngineError where
  | load (error : LoadError)
  | produce (error : ProduceError)

def EngineError.message : EngineError → String
  | load error => "load error: " ++ error.message
  | produce error => "production error: " ++ error.message

/-- A call of a handler: the tree after it, and whether there was a handler or why it failed. -/
structure Triggered where
  target : Output.Element
  fired : Except String Bool

def Output.Element.trigger (host : Host) (e : Output.Element) (name : String) (data : Data) :
    Triggered :=
  match e.handler? name with
  | none => ⟨e, .ok false⟩
  | some callable =>
    match host callable e data with
    | (target, none) => ⟨target, .ok true⟩
    | (target, some reason) => ⟨target, .error reason⟩

namespace Engine

def new (settings : Settings) : Engine := ⟨settings, .empty⟩

def importDocument (engine : Engine) (source : String) (document : Markup.Element) :
    Engine × Imported :=
  let imported := engine.registry.load engine.settings source document
  ({ engine with registry := imported.registry }, imported)

def importText (engine : Engine) (source text : String) : Engine × Imported :=
  let imported := engine.registry.loadText engine.settings source text
  ({ engine with registry := imported.registry }, imported)

def produce (engine : Engine) (host : Host) (key : Key) (data : Data) :
    Except ProduceError Draft :=
  Workshop.produce ⟨engine.settings, engine.registry, host⟩ key data

end Engine

end MarkupSnippets

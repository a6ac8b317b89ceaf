import MarkupSnippets.Expr.Eval
import MarkupSnippets.Markup.Syntax
import MarkupSnippets.Output.Syntax
import MarkupSnippets.Production.Directive
import MarkupSnippets.Production.Error
import MarkupSnippets.Settings
import MarkupSnippets.Warning

namespace MarkupSnippets

/-- What a callable does: the element as the call leaves it, and the reason if the call fails. -/
abbrev Host := String → Output.Element → Data → Output.Element × Option String

/-- The element that is being built, and the warnings so far. -/
structure Draft where
  target : Output.Element
  warnings : List Warning

namespace Draft

def append (draft : Draft) (node : Output.Node) : Draft :=
  { draft with target := draft.target.append node }

def warn (draft : Draft) (kind : WarningKind) (message : String) (origin : Origin) : Draft :=
  { draft with warnings := draft.warnings ++ [⟨kind, message, origin⟩] }

end Draft

def Origin.enter (origin : Origin) (tag : Markup.Tag) (location : String) : Origin :=
  origin ++ [⟨tag.opening, location⟩]

/-- How to produce an inserted snippet at a place. -/
abbrev Insert := Key → Data → Origin → Except ProduceError Draft

/-- What stays the same while a template is carried out. -/
structure Stage where
  settings : Settings
  host : Host
  insert : Insert
  location : String

namespace Stage

variable (stage : Stage)

def isDirective (tag : Markup.Tag) : Bool := tag.isIn stage.settings.directiveNs

def argument (tag : Markup.Tag) (name : String) : String :=
  (tag.attributeEither? stage.settings.directiveNs name).getD ""

def invoke (role : CallableRole) (path : String) (data : Data) (origin : Origin)
    (draft : Draft) : Except ProduceError Draft :=
  match resolve? data path with
  | some (.callable name) =>
    match stage.host name draft.target data with
    | (target, none) => .ok { draft with target }
    | (_, some reason) => .error (.callback path reason origin)
  | _ => .error (.notCallable role path origin)

def bindsHandler (name : String) : Bool :=
  match name.toList with
  | 'o' :: 'n' :: _ :: _ => true
  | _ => false

def takeAttribute (data : Data) (origin : Origin) (draft : Draft) (a : Markup.Attribute) : Draft :=
  if a.ns != some stage.settings.directiveNs then
    { draft with
      target := draft.target.setAttribute ⟨a.ns, a.pfx, a.name, substitute data a.value⟩ }
  else if bindsHandler a.name then
    match resolve? data a.value with
    | some (.callable name) => { draft with target := draft.target.setHandler a.name name }
    | _ =>
      draft.warn .handlerNotCallable ("Event handler \"" ++ a.value ++ "\" is not callable.") origin
  else if a.name != "postproduction" then
    draft.warn .attributeNotAllowed
      ("Attribute \"" ++ a.qualifiedName ++ "\" is not allowed here.") origin
  else draft

theorem takeAttribute_cases (data : Data) (a : Markup.Attribute) :
    (∃ change : Output.Element → Output.Element, ∀ origin draft,
      stage.takeAttribute data origin draft a =
        { draft with target := change draft.target }) ∨
    ∃ kind message, ∀ origin draft,
      stage.takeAttribute data origin draft a = draft.warn kind message origin := by
  simp only [takeAttribute]
  split
  · exact .inl ⟨fun target => target.setAttribute _, fun _ _ => rfl⟩
  · split
    · split
      · exact .inl ⟨fun target => target.setHandler _ _, fun _ _ => rfl⟩
      · exact .inr ⟨_, _, fun _ _ => rfl⟩
    · split
      · exact .inr ⟨_, _, fun _ _ => rfl⟩
      · exact .inl ⟨id, fun _ _ => rfl⟩

def postproduction (tag : Markup.Tag) (data : Data) (origin : Origin) (draft : Draft) :
    Except ProduceError Draft :=
  match tag.attributeIn? (some stage.settings.directiveNs) "postproduction" with
  | some path => stage.invoke .postproduction path data origin draft
  | none => .ok draft

/-- Build one element: its attributes, then its content, then what is called when it is complete.
The warnings so far go in front. -/
def element (ns : String) (tag : Markup.Tag) (data : Data) (origin : Origin)
    (warnings : List Warning) (content : Draft → Except ProduceError Draft) :
    Except ProduceError Draft := do
  let start : Draft := ⟨Output.Element.new ns tag.name, warnings⟩
  let draft ← content (tag.attributes.foldl (stage.takeAttribute data origin) start)
  stage.postproduction tag data origin draft

def holds (tag : Markup.Tag) (data : Data) (origin : Origin) : Except ProduceError Bool :=
  match tag.attributeEither? stage.settings.directiveNs "test" with
  | some test =>
    match Expr.parse origin test with
    | .ok e => .ok (e.eval data).holds
    | .error e => .error (.expression e)
  | none => .error (.expression ⟨"", .missingTest, ⟨0, 0⟩, [], origin⟩)

def chooseMode (tag : Markup.Tag) (origin : Origin) (draft : Draft) : ChooseMode × Draft :=
  match tag.attributeEither? stage.settings.directiveNs "mode" with
  | none => (.strict, draft)
  | some name =>
    match ChooseMode.ofName? name with
    | some mode => (mode, draft)
    | none =>
      (.strict, draft.warn .invalidChooseMode
        ("Invalid choose mode \"" ++ name ++ "\", using \"strict\".") origin)

theorem chooseMode_cases (tag : Markup.Tag) :
    (∃ mode, ∀ origin draft, stage.chooseMode tag origin draft = (mode, draft)) ∨
      ∃ message, ∀ origin draft, stage.chooseMode tag origin draft =
        (.strict, draft.warn .invalidChooseMode message origin) := by
  simp only [chooseMode]
  split
  · exact .inl ⟨.strict, fun _ _ => rfl⟩
  · split
    · exact .inl ⟨_, fun _ _ => rfl⟩
    · exact .inr ⟨_, fun _ _ => rfl⟩

/-- The data for one round of a loop: the item's own entries, or the item under a name of its own,
and the count of the round. -/
def roundData (data : Data) (count position : Nat) (item : Value) : Data :=
  let fields : Fields Value :=
    match item with
    | .record fields => fields
    | item => .cons "_value" item .nil
  data.merge ((fields.insert "_position" (.number (.ofNat position))).insert "_count"
    (.number (.ofNat count)))

def rounds (data : Data) (items : List Value) : List Data :=
  items.zipIdx.map fun (item, i) => roundData data items.length (i + 1) item

def listItems (path : String) (data : Data) (origin : Origin) :
    Except ProduceError (List Value) :=
  match resolve? data path with
  | some (.list items) => .ok items
  | some other => .error (.notAList path other.kind origin)
  | none => .error (.notAList path "undefined" origin)

def hasItems (path : String) (data : Data) : Bool :=
  match resolve? data path with
  | some (.list items) => !items.isEmpty
  | _ => false

mutual

def node (data : Data) (origin : Origin) (draft : Draft) : Markup.Node → Except ProduceError Draft
  | .text content =>
    .ok (if Text.allBlank content then draft else draft.append (.text (substitute data content)))
  | .element tag children =>
    let here := origin.enter tag stage.location
    if stage.isDirective tag then
      match Directive.ofLocalName? tag.name with
      | none => .ok (draft.warn .elementNotAllowed "Element not allowed here." here)
      | some .text =>
        match Markup.Element.firstText? children with
        | some content => .ok (draft.append (.text (substitute data content)))
        | none => .ok draft
      | some .callFunction =>
        stage.invoke .callFunction (stage.argument tag "name") data here draft
      | some .ifTest => do
        if ← stage.holds tag data here then nodes data here draft children else .ok draft
      | some .choose =>
        let (mode, draft) := stage.chooseMode tag here draft
        branches mode false data here draft children
      | some .forEach => do
        let items ← listItems (stage.argument tag "list") data here
        (rounds data items).foldlM (fun draft data => nodes data here draft children) draft
      | some .forEmpty =>
        if hasItems (stage.argument tag "list") data then .ok draft
        else nodes data here draft children
      | some .insertSnippet => do
        let key := Key.ofString (substitute data (stage.argument tag "name"))
        let inserted ← stage.insert key data here
        return ⟨draft.target.appendChild inserted.target, draft.warnings ++ inserted.warnings⟩
      | some .otherwise =>
        .ok (draft.warn .elementNotAllowed "Element not allowed outside of <choose>." here)
    else do
      let ns := tag.ns.getD stage.settings.defaultNs
      let built ← stage.element ns tag data here draft.warnings fun inner =>
        nodes data here inner children
      return ⟨draft.target.appendChild built.target, built.warnings⟩

def nodes (data : Data) (origin : Origin) (draft : Draft) :
    List Markup.Node → Except ProduceError Draft
  | [] => .ok draft
  | child :: rest => do
    let draft ← node data origin draft child
    nodes data origin draft rest

/-- Carry out the branches of a choice, with the knowledge whether one has matched. -/
def branches (mode : ChooseMode) (matched : Bool) (data : Data) (origin : Origin) (draft : Draft) :
    List Markup.Node → Except ProduceError Draft
  | [] => .ok draft
  | .text _ :: rest => branches mode matched data origin draft rest
  | .element tag children :: rest =>
    let here := origin.enter tag stage.location
    match stage.isDirective tag, Directive.ofLocalName? tag.name with
    | true, some .ifTest => do
      if ← stage.holds tag data here then
        let draft ← nodes data here draft children
        match mode with
        | .strict => return draft
        | .lax => branches mode true data origin draft rest
      else branches mode matched data origin draft rest
    | true, some .otherwise => do
      let draft ← if matched then pure draft else nodes data here draft children
      branches mode matched data origin draft rest
    | _, _ =>
      branches mode matched data origin
        (draft.warn .elementNotAllowed "Element not allowed here." here) rest

end

end Stage

end MarkupSnippets

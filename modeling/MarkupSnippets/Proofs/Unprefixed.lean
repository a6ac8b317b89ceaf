import MarkupSnippets.Proofs.Relocation

namespace MarkupSnippets

namespace Markup

def Attribute.unprefixed (a : Attribute) : Attribute := { a with pfx := none }

def Tag.unprefixed (tag : Tag) : Tag :=
  { tag with pfx := none, attributes := tag.attributes.map Attribute.unprefixed }

mutual

def Node.unprefixed : Node → Node
  | .text content => .text content
  | .element tag children => .element tag.unprefixed (unprefixedNodes children)

def unprefixedNodes : List Node → List Node
  | [] => []
  | child :: rest => child.unprefixed :: unprefixedNodes rest

end

def Element.unprefixed (e : Element) : Element := ⟨e.tag.unprefixed, unprefixedNodes e.children⟩

theorem Tag.attributeIn?_unprefixed (tag : Tag) (ns : Option String) (name : String) :
    tag.unprefixed.attributeIn? ns name = tag.attributeIn? ns name := by
  rw [attributeIn?, attributeIn?, unprefixed, List.find?_map, Option.map_map]
  rfl

theorem Tag.attributeEither?_unprefixed (tag : Tag) (ns name : String) :
    tag.unprefixed.attributeEither? ns name = tag.attributeEither? ns name := by
  simp only [attributeEither?, attribute?, attributeIn?_unprefixed]

end Markup

def Snippet.unprefixed (snippet : Snippet) : Snippet :=
  { snippet with template := snippet.template.unprefixed }

namespace Output

def Attribute.unprefixed (a : Attribute) : Attribute := { a with pfx := none }

def Tag.unprefixed (tag : Tag) : Tag :=
  { tag with attributes := tag.attributes.map Attribute.unprefixed }

mutual

def Node.unprefixed : Node → Node
  | .text content => .text content
  | .element tag children => .element tag.unprefixed (unprefixedNodes children)

def unprefixedNodes : List Node → List Node
  | [] => []
  | child :: rest => child.unprefixed :: unprefixedNodes rest

end

theorem unprefixedNodes_append (nodes others : List Node) :
    unprefixedNodes (nodes ++ others) = unprefixedNodes nodes ++ unprefixedNodes others := by
  induction nodes with
  | nil => rfl
  | cons node nodes ih =>
    rw [List.cons_append, unprefixedNodes, unprefixedNodes, ih, List.cons_append]

theorem map_unprefixed_setAttribute (a : Attribute) (attributes : List Attribute) :
    (setAttribute a attributes).map Attribute.unprefixed =
      setAttribute a.unprefixed (attributes.map Attribute.unprefixed) := by
  induction attributes with
  | nil => rfl
  | cons b rest ih =>
    have hsame : b.unprefixed.sameName a.unprefixed = b.sameName a := rfl
    simp only [setAttribute, List.map_cons, hsame]
    split
    · rfl
    · rw [List.map_cons, ih]

namespace Element

def unprefixed (e : Element) : Element := ⟨e.tag.unprefixed, unprefixedNodes e.children⟩

theorem unprefixed_setAttribute (e : Element) (a : Attribute) :
    (e.setAttribute a).unprefixed = e.unprefixed.setAttribute a.unprefixed := by
  simp only [unprefixed, setAttribute, Tag.unprefixed, map_unprefixed_setAttribute]

theorem unprefixed_setHandler (e : Element) (name callable : String) :
    (e.setHandler name callable).unprefixed = e.unprefixed.setHandler name callable := rfl

theorem unprefixed_append (e : Element) (node : Node) :
    (e.append node).unprefixed = e.unprefixed.append node.unprefixed := by
  simp only [unprefixed, append, unprefixedNodes_append, unprefixedNodes]

theorem unprefixed_appendChild (e child : Element) :
    (e.appendChild child).unprefixed = e.unprefixed.appendChild child.unprefixed :=
  e.unprefixed_append child.toNode

end Element

end Output

/-- The host does with an element what it does with one that differs in its prefixes only. -/
def Host.IgnoresPrefixes (host : Host) : Prop :=
  ∀ (name : String) (data : Data) (e f : Output.Element), e.unprefixed = f.unprefixed →
    (host name e data).1.unprefixed = (host name f data).1.unprefixed ∧
      (host name e data).2 = (host name f data).2

/-- The frame without its tag, which is shown with its prefixes. -/
def Frame.unprefixed (frame : Frame) : Frame := { frame with tag := "" }

def Origin.unprefixed (origin : Origin) : Origin := origin.map Frame.unprefixed

/-- The warning without its message, which may show a prefix. -/
def Warning.unprefixed (warning : Warning) : Warning :=
  { warning with message := "", origin := warning.origin.unprefixed }

def Draft.unprefixed (draft : Draft) : Draft :=
  ⟨draft.target.unprefixed, draft.warnings.map Warning.unprefixed⟩

def ExpressionError.unprefixed (e : ExpressionError) : ExpressionError :=
  { e with origin := e.origin.unprefixed }

def ProduceError.unprefixed : ProduceError → ProduceError
  | notFound key origin => notFound key origin.unprefixed
  | recursion key tokens origin => recursion key tokens origin.unprefixed
  | notAList path found origin => notAList path found origin.unprefixed
  | notCallable role path origin => notCallable role path origin.unprefixed
  | expression error => expression error.unprefixed
  | callback path reason origin => callback path reason origin.unprefixed

def outcomeUnprefixed : Except ProduceError Draft → Except ProduceError Draft
  | .ok draft => .ok draft.unprefixed
  | .error e => .error e.unprefixed

theorem Origin.unprefixed_append (origin other : Origin) :
    Origin.unprefixed (origin ++ other) = origin.unprefixed ++ other.unprefixed :=
  List.map_append

theorem Origin.unprefixed_enter (origin : Origin) (tag : Markup.Tag) (location : String) :
    (origin.enter tag location).unprefixed = origin.unprefixed ++ [⟨"", location⟩] :=
  origin.unprefixed_append _

theorem ProduceError.unprefixed_under (place : Origin) (e : ProduceError) :
    (e.under place).unprefixed = e.unprefixed.under place.unprefixed := by
  cases e <;> simp [under, unprefixed, ExpressionError.under, ExpressionError.unprefixed,
    Origin.unprefixed_append]

namespace Draft

theorem unprefixed_append (draft : Draft) (node : Output.Node) :
    (draft.append node).unprefixed = draft.unprefixed.append node.unprefixed := by
  simp only [unprefixed, append, Output.Element.unprefixed_append]

theorem unprefixed_warn (draft : Draft) (kind : WarningKind) (message : String) (origin : Origin) :
    (draft.warn kind message origin).unprefixed =
      draft.unprefixed.warn kind "" origin.unprefixed := by
  simp only [unprefixed, warn, List.map_append, List.map_cons, List.map_nil, Warning.unprefixed]

end Draft

namespace Stage

variable (stage : Stage) {origin origin' : Origin} {draft draft' : Draft}

theorem unprefixed_takeAttribute (data : Data) {a b : Markup.Attribute}
    (ha : a.unprefixed = b.unprefixed) (horigin : origin.unprefixed = origin'.unprefixed)
    (hdraft : draft.unprefixed = draft'.unprefixed) :
    (stage.takeAttribute data origin draft a).unprefixed =
      (stage.takeAttribute data origin' draft' b).unprefixed := by
  obtain ⟨ns, pfx, name, value⟩ := a
  obtain ⟨ns', pfx', name', value'⟩ := b
  obtain ⟨rfl, -, rfl, rfl⟩ := Markup.Attribute.mk.inj ha
  obtain ⟨htarget, hwarnings⟩ := Draft.mk.inj hdraft
  rw [takeAttribute, takeAttribute]
  split
  · simp only [Draft.unprefixed, Output.Element.unprefixed_setAttribute, htarget, hwarnings]
    rfl
  · split
    · simp only
      split
      · rw [Draft.unprefixed, Draft.unprefixed, Output.Element.unprefixed_setHandler,
          Output.Element.unprefixed_setHandler, htarget, hwarnings]
      · rw [Draft.unprefixed_warn, Draft.unprefixed_warn, hdraft, horigin]
    · split
      · rw [Draft.unprefixed_warn, Draft.unprefixed_warn, hdraft, horigin]
      · exact hdraft

theorem unprefixed_takeAttributes (data : Data) {attributes others : List Markup.Attribute}
    (hattributes : attributes.map Markup.Attribute.unprefixed =
      others.map Markup.Attribute.unprefixed)
    (horigin : origin.unprefixed = origin'.unprefixed)
    (hdraft : draft.unprefixed = draft'.unprefixed) :
    (attributes.foldl (stage.takeAttribute data origin) draft).unprefixed =
      (others.foldl (stage.takeAttribute data origin') draft').unprefixed := by
  induction attributes generalizing others draft draft' with
  | nil =>
    obtain rfl := List.map_eq_nil_iff.1 hattributes.symm
    exact hdraft
  | cons a attributes ih =>
    obtain ⟨b, rest, rfl, ha, hrest⟩ := List.map_eq_cons_iff.1 hattributes.symm
    rw [List.foldl_cons, List.foldl_cons]
    exact ih hrest.symm (stage.unprefixed_takeAttribute data ha.symm horigin hdraft)

theorem unprefixed_invoke (hhost : stage.host.IgnoresPrefixes) (role : CallableRole)
    (path : String) (data : Data) (horigin : origin.unprefixed = origin'.unprefixed)
    (hdraft : draft.unprefixed = draft'.unprefixed) :
    outcomeUnprefixed (stage.invoke role path data origin draft) =
      outcomeUnprefixed (stage.invoke role path data origin' draft') := by
  obtain ⟨htarget, hwarnings⟩ := Draft.mk.inj hdraft
  rw [invoke, invoke]
  split
  · next name hname =>
    obtain ⟨hcalled, hreason⟩ := hhost name data _ _ htarget
    generalize stage.host name draft.target data = result at hcalled hreason ⊢
    generalize stage.host name draft'.target data = result' at hcalled hreason ⊢
    obtain ⟨target, reason⟩ := result
    obtain ⟨target', reason'⟩ := result'
    obtain rfl : reason = reason' := hreason
    cases reason with
    | none => simp only [outcomeUnprefixed, Draft.unprefixed, hwarnings, hcalled]
    | some reason => simp only [outcomeUnprefixed, ProduceError.unprefixed, horigin]
  · simp only [outcomeUnprefixed, ProduceError.unprefixed, horigin]

end Stage

end MarkupSnippets

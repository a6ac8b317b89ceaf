import MarkupSnippets.Engine
import MarkupSnippets.Proofs.Imported

namespace MarkupSnippets

inductive ImportRequest where
  | ofDocument (source : String) (document : Markup.Element)
  | ofText (source text : String)

namespace ImportRequest

def source : ImportRequest → String
  | ofDocument source _ => source
  | ofText source _ => source

def document? : ImportRequest → Option Markup.Element
  | ofDocument _ document => some document
  | ofText _ text => (Markup.parse text).toOption

/-- The document that a request imports, the given sources being known. -/
def effect? (settings : Settings) (known : List String) (request : ImportRequest) :
    Option Markup.Element :=
  if request.source ∈ known then none else request.document?.filter settings.accepts

end ImportRequest

/-- The imports that the requests of a history lead to, each with its source. -/
def effects (settings : Settings) (known : List String) :
    List ImportRequest → List (String × Markup.Element)
  | [] => []
  | request :: rest =>
    match request.effect? settings known with
    | some document =>
      (request.source, document) :: effects settings (request.source :: known) rest
    | none => effects settings known rest

/-- The last definition of a key in the last import that defines it. -/
def lastDefinition? (settings : Settings) (imports : List (String × Markup.Element)) (key : Key) :
    Option Snippet :=
  imports.reverse.findSome? fun entry => lastOf? key (entry.2.definitions settings entry.1)

namespace Engine

def receive (engine : Engine) : ImportRequest → Engine × Imported
  | .ofDocument source document => engine.importDocument source document
  | .ofText source text => engine.importText source text

def after (engine : Engine) (request : ImportRequest) : Engine := (engine.receive request).1

def afterAll (engine : Engine) (requests : List ImportRequest) : Engine :=
  requests.foldl after engine

def filledFrom (engine : Engine) (source : String) (document : Markup.Element) : Engine :=
  { engine with
    registry := (engine.registry.putAll (document.definitions engine.settings source)).markSource
      source }

variable {engine : Engine} {request : ImportRequest}

theorem receive_of_known (hknown : request.source ∈ engine.registry.sources) :
    engine.receive request = (engine, ⟨engine.registry, [], .ok (.skip request.source)⟩) := by
  cases request with
  | ofDocument source document =>
    have hsource : engine.registry.hasSource source = true := Registry.hasSource_iff.2 hknown
    rw [receive, importDocument, Registry.load_of_known hsource]
    rfl
  | ofText source text =>
    have hsource : engine.registry.hasSource source = true := Registry.hasSource_iff.2 hknown
    rw [receive, importText, Registry.loadText_of_known hsource]
    rfl

theorem receive_of_new (hnew : request.source ∉ engine.registry.sources) :
    (∃ document, request.document? = some document ∧
      engine.receive request = engine.importDocument request.source document) ∨
    request.document? = none ∧
      ∃ error, engine.receive request = (engine, ⟨engine.registry, [], .error error⟩) := by
  cases request with
  | ofDocument source document => exact .inl ⟨document, rfl, rfl⟩
  | ofText source text =>
    have hsource : ¬engine.registry.hasSource source = true := mt Registry.hasSource_iff.1 hnew
    rw [receive, importText, Registry.loadText, if_neg hsource, ImportRequest.document?]
    cases Markup.parse text with
    | ok document => exact .inl ⟨document, rfl, rfl⟩
    | error error => exact .inr ⟨rfl, _, rfl⟩

theorem receive_of_effect {document : Markup.Element}
    (h : request.effect? engine.settings engine.registry.sources = some document) :
    (engine.receive request).1 = engine.filledFrom request.source document ∧
      ∃ report, (engine.receive request).2.outcome = .ok report ∧ report.skipped = false := by
  rw [ImportRequest.effect?] at h
  split at h
  · cases h
  · next hnew =>
    obtain ⟨hdocument, haccepts⟩ := Option.filter_eq_some_iff.1 h
    have hload := Registry.load_of_accepts (Registry.hasSource_eq_false_iff.2 hnew) haccepts
    obtain ⟨other, hother, hreceive⟩ | ⟨hnone, -⟩ := receive_of_new hnew
    · obtain rfl := Option.some.inj (hdocument.symm.trans hother)
      rw [hreceive, importDocument, hload, filledFrom]
      exact ⟨rfl, _, rfl, rfl⟩
    · cases hdocument.symm.trans hnone

theorem receive_of_no_effect (hnew : request.source ∉ engine.registry.sources)
    (h : request.effect? engine.settings engine.registry.sources = none) :
    ∃ error, engine.receive request = (engine, ⟨engine.registry, [], .error error⟩) := by
  rw [ImportRequest.effect?, if_neg hnew] at h
  obtain ⟨document, hdocument, hreceive⟩ | ⟨-, herror⟩ := receive_of_new hnew
  · have haccepts : engine.settings.accepts document = false := by
      simpa [hdocument] using h
    rw [hreceive, importDocument,
      Registry.load_of_not_accepts (Registry.hasSource_eq_false_iff.2 hnew) haccepts]
    exact ⟨_, rfl⟩
  · exact herror

theorem after_eq (engine : Engine) (request : ImportRequest) :
    engine.after request =
      match request.effect? engine.settings engine.registry.sources with
      | some document => engine.filledFrom request.source document
      | none => engine := by
  split
  · next document heffect =>
    exact (receive_of_effect heffect).1
  · next heffect =>
    by_cases hknown : request.source ∈ engine.registry.sources
    · rw [after, receive_of_known hknown]
    · obtain ⟨error, hreceive⟩ := receive_of_no_effect hknown heffect
      rw [after, hreceive]

theorem sources_filledFrom {source : String} (hnew : source ∉ engine.registry.sources)
    (document : Markup.Element) :
    (engine.filledFrom source document).registry.sources = source :: engine.registry.sources := by
  have hcontains : ¬engine.registry.sources.contains source = true := by simpa using hnew
  rw [filledFrom, Registry.markSource, Registry.sources_putAll, if_neg hcontains]

theorem get?_filledFrom (source : String) (document : Markup.Element) (key : Key) :
    (engine.filledFrom source document).registry.get? key =
      (lastOf? key (document.definitions engine.settings source)).or
        (engine.registry.get? key) := by
  rw [filledFrom, Registry.get?_markSource, Registry.get?_putAll]

/-- Every entry of the store is under the key of its snippet and from a source that is known. -/
def Sound (engine : Engine) : Prop :=
  ∀ entry ∈ engine.registry.snippets.toList,
    entry.1 = entry.2.key.text ∧ entry.2.source ∈ engine.registry.sources

theorem Sound.filledFrom (h : engine.Sound) {source : String}
    (hnew : source ∉ engine.registry.sources) (document : Markup.Element) :
    (engine.filledFrom source document).Sound := by
  intro entry hentry
  rw [sources_filledFrom hnew]
  rw [Engine.filledFrom, Registry.snippets_markSource] at hentry
  obtain ⟨snippet, hmem, rfl⟩ | hold := Registry.mem_toList_putAll hentry
  · refine ⟨rfl, ?_⟩
    rw [(fields_of_mem_definitions hmem).1]
    exact List.mem_cons_self
  · exact ⟨(h entry hold).1, List.mem_cons_of_mem source (h entry hold).2⟩

end Engine

theorem ImportRequest.not_mem_of_effect? {settings : Settings} {known : List String}
    {request : ImportRequest} {document : Markup.Element}
    (h : request.effect? settings known = some document) : request.source ∉ known := by
  intro hknown
  rw [effect?, if_pos hknown] at h
  cases h

theorem lastDefinition?_cons (settings : Settings) (source : String) (document : Markup.Element)
    (imports : List (String × Markup.Element)) (key : Key) :
    lastDefinition? settings ((source, document) :: imports) key =
      (lastDefinition? settings imports key).or
        (lastOf? key (document.definitions settings source)) := by
  rw [lastDefinition?, List.reverse_cons, List.findSome?_append, lastDefinition?]
  congr 1
  simp only [List.findSome?_cons, List.findSome?_nil]
  cases lastOf? key (document.definitions settings source) <;> rfl

/-- What holds of an engine after a history that began with the given one. -/
structure Engine.Records (start engine : Engine) (imports : List (String × Markup.Element)) :
    Prop where
  settings : engine.settings = start.settings
  get? : ∀ key, engine.registry.get? key =
    (lastDefinition? start.settings imports key).or (start.registry.get? key)
  sources : ∀ source, source ∈ engine.registry.sources ↔
    source ∈ imports.map Prod.fst ∨ source ∈ start.registry.sources
  sound : start.Sound → engine.Sound

theorem Engine.records_afterAll (engine : Engine) (requests : List ImportRequest) :
    engine.Records (engine.afterAll requests)
      (effects engine.settings engine.registry.sources requests) := by
  induction requests generalizing engine with
  | nil =>
    exact ⟨rfl, fun _ => rfl, fun source => by simp [afterAll, effects], id⟩
  | cons request rest ih =>
    have hrest := ih (engine.after request)
    rw [after_eq] at hrest
    rw [afterAll, List.foldl_cons, ← afterAll, after_eq, effects]
    cases heffect : request.effect? engine.settings engine.registry.sources with
    | none =>
      rw [heffect] at hrest
      exact hrest
    | some document =>
      have hnew := ImportRequest.not_mem_of_effect? heffect
      simp only [heffect, sources_filledFrom hnew] at hrest
      refine ⟨hrest.settings, fun key => ?_, fun source => ?_, fun h =>
        hrest.sound (h.filledFrom hnew document)⟩
      · rw [hrest.get?, get?_filledFrom, lastDefinition?_cons, Option.or_assoc]
        rfl
      · rw [hrest.sources, sources_filledFrom hnew]
        rw [List.map_cons, List.mem_cons, List.mem_cons, or_left_comm, or_assoc]
        exact Iff.rfl

/-- A history of imports on a new engine leaves under every key the last definition of it in the
last import with one; records are under their own keys and from the sources of the imports. A
request without an effect leaves the engine as it is and tells the host of nothing, skipped if its
source is known and failing otherwise. -/
theorem import_history (settings : Settings) (requests : List ImportRequest) :
    let engine := (Engine.new settings).afterAll requests
    let imports := effects settings [] requests
    (∀ key, engine.registry.get? key = lastDefinition? settings imports key) ∧
    (∀ entry ∈ engine.registry.snippets.toList,
      entry.1 = entry.2.key.text ∧ engine.registry.hasSource entry.2.source = true) ∧
    (∀ source, engine.registry.hasSource source = true ↔ source ∈ imports.map Prod.fst) ∧
    ∀ request : ImportRequest,
      let next := (engine.receive request).1
      let imported := (engine.receive request).2
      match request.effect? settings (imports.map Prod.fst) with
      | some document =>
        next = engine.filledFrom request.source document ∧
          ∃ report, imported.outcome = .ok report ∧ report.skipped = false
      | none =>
        next = engine ∧ imported.registry = engine.registry ∧ imported.told = [] ∧
          if request.source ∈ imports.map Prod.fst then
            imported.outcome = .ok (.skip request.source)
          else ∃ error, imported.outcome = .error error := by
  intro engine imports
  have records : (Engine.new settings).Records engine imports :=
    (Engine.new settings).records_afterAll requests
  have hsources (source : String) :
      source ∈ engine.registry.sources ↔ source ∈ imports.map Prod.fst := by
    rw [records.sources]
    exact or_iff_left List.not_mem_nil
  -- The sources that the store knows are those of the effects, so both tell what has an effect.
  have heffect (request : ImportRequest) :
      request.effect? settings (imports.map Prod.fst) =
        request.effect? engine.settings engine.registry.sources := by
    simp only [ImportRequest.effect?, hsources, records.settings]
    rfl
  refine ⟨fun key => ?_, fun entry hentry => ?_, fun source => ?_, fun request => ?_⟩
  · rw [records.get?]
    exact Option.or_none
  · have hsound := records.sound nofun entry hentry
    exact ⟨hsound.1, Registry.hasSource_iff.2 hsound.2⟩
  · rw [← hsources, Registry.hasSource_iff]
  · intro next imported
    split
    · next document hsome =>
      rw [heffect] at hsome
      exact Engine.receive_of_effect hsome
    · next hnone =>
      rw [heffect] at hnone
      split
      · next hknown =>
        have hreceive := Engine.receive_of_known ((hsources _).2 hknown)
        exact ⟨congrArg (·.1) hreceive, congrArg (·.2.registry) hreceive,
          congrArg (·.2.told) hreceive, congrArg (·.2.outcome) hreceive⟩
      · next hnew =>
        obtain ⟨error, hreceive⟩ := Engine.receive_of_no_effect (mt (hsources _).1 hnew) hnone
        exact ⟨congrArg (·.1) hreceive, congrArg (·.2.registry) hreceive,
          congrArg (·.2.told) hreceive, error, congrArg (·.2.outcome) hreceive⟩

end MarkupSnippets

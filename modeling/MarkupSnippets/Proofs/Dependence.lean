import MarkupSnippets.Proofs.Relocation
import MarkupSnippets.Proofs.Search
import MarkupSnippets.Proofs.Trimming

namespace MarkupSnippets

namespace Fields

variable {α : Type}

theorem get?_merge (base overlay : Fields α) (query : String) :
    (base.merge overlay).get? query =
      ((nil.merge overlay).get? query).or (base.get? query) := by
  induction overlay generalizing base with
  | nil => rfl
  | cons k v rest ih =>
    rw [merge, ih, merge, ih (nil.insert k v), get?_insert, get?_insert, Option.or_assoc]
    by_cases hq : query = k <;> simp [hq, get?]

end Fields

/-- The first segment of a path. The blank path has none. -/
def firstSegment? (path : String) : Option String :=
  let path := Text.trim path
  if path = "" then none else (Text.split '.' path).head?

def descendRest? (path : String) (v : Value) : Option Value :=
  v.descend? (Text.split '.' (Text.trim path)).tail

theorem resolve?_eq (data : Data) (path : String) :
    resolve? data path =
      (firstSegment? path).bind fun segment => (data.get? segment).bind (descendRest? path) := by
  rw [resolve?, firstSegment?]
  by_cases hblank : Text.trim path = ""
  · simp [hblank]
  · simp only [hblank, if_false, descendRest?]
    cases hsplit : Text.split '.' (Text.trim path) with
    | nil => exact absurd (List.map_eq_nil_iff.1 hsplit) (Text.splitChars_ne_nil '.' _)
    | cons segment rest =>
      rw [Value.descend?, List.head?_cons, Option.bind_some]
      exact Option.bind_congr fun v _ => by rw [descendRest?, hsplit, List.tail_cons]

theorem resolve?_insert_of_ne {k path : String} (h : firstSegment? path ≠ some k) (data : Data)
    (v : Value) : resolve? (data.insert k v) path = resolve? data path := by
  rw [resolve?_eq, resolve?_eq]
  cases hfirst : firstSegment? path with
  | none => rfl
  | some segment =>
    have hne : segment ≠ k := fun heq => h (by rw [hfirst, heq])
    simp [hne]

theorem resolve?_merge {data other : Data} {path : String}
    (h : resolve? data path = resolve? other path) (overlay : Fields Value) :
    resolve? (data.merge overlay) path = resolve? (other.merge overlay) path := by
  rw [resolve?_eq, resolve?_eq] at h ⊢
  cases hfirst : firstSegment? path with
  | none => rfl
  | some segment =>
    rw [hfirst] at h
    have hget (data : Data) : (data.merge overlay).get? segment =
        ((Fields.nil.merge overlay).get? segment).or (data.get? segment) :=
      Fields.get?_merge data.fields overlay segment
    simp only [Option.bind_some, hget] at h ⊢
    cases (Fields.nil.merge overlay).get? segment with
    | none => exact h
    | some v => rfl

namespace Data

/-- The paths lead to the same values. -/
def AgreeOn (paths : String → Prop) (data other : Data) : Prop :=
  ∀ path, paths path → resolve? data path = resolve? other path

variable {paths : String → Prop} {data other : Data}

theorem AgreeOn.merge (h : AgreeOn paths data other) (overlay : Fields Value) :
    AgreeOn paths (data.merge overlay) (other.merge overlay) :=
  fun path hpath => resolve?_merge (h path hpath) overlay

end Data

def Placeholder.paths (text : String) : List String :=
  (Placeholder.all text).map Placeholder.path

theorem Placeholder.mem_paths_iff {text path : String} :
    path ∈ Placeholder.paths text ↔
      ∃ cs, Piece.reference cs ∈ Piece.pieces text.toList ∧
        path = Text.trim (String.ofList cs) := by
  suffices h : ∀ (pieces : List Piece) (offset : Nat),
      path ∈ (locate offset pieces).map Placeholder.path ↔
        ∃ cs, Piece.reference cs ∈ pieces ∧ path = Text.trim (String.ofList cs) from
    h (Piece.pieces text.toList) 0
  intro pieces
  induction pieces with
  | nil => simp [locate]
  | cons piece rest ih => cases piece <;> simp [locate, ih, or_and_right, exists_or]

theorem Placeholder.mem_paths_of_sole? {text path : String}
    (h : Placeholder.sole? text = some path) : path ∈ Placeholder.paths text := by
  rw [sole?, Text.trim, String.toList_ofList] at h
  split at h
  · next cs hpieces =>
    obtain rfl := Option.some.inj h
    generalize htrim : Text.trimChars text.toList = trimmed at hpieces
    obtain ⟨before, after, hbefore, htext⟩ := Text.exists_eq_append_trimChars text.toList
    have hbrace : '{' ∉ before := fun hmem => absurd (hbefore _ hmem) (by decide)
    rw [htrim] at htext
    rw [Piece.pieces] at hpieces
    split at hpieces
    · cases hpieces
    · next skipped inner hopen =>
      split at hpieces
      · cases hpieces
      · next path rest hclose =>
        obtain ⟨-, hpieces⟩ := List.cons.inj hpieces
        obtain ⟨hpath, -⟩ := List.cons.inj hpieces
        obtain rfl := Piece.reference.inj hpath
        have hopen := Text.splitAt?_append_left hbrace (Text.splitAt?_append_right hopen after)
        have hclose := Text.splitAt?_append_right hclose after
        rw [← htext] at hopen
        refine mem_paths_iff.2 ⟨path, ?_, rfl⟩
        rw [Piece.pieces]
        split
        · next hnone => cases hnone.symm.trans hopen
        · next hsome =>
          obtain ⟨-, rfl⟩ := Prod.mk.inj (Option.some.inj (hsome.symm.trans hopen))
          split
          · next hnone => cases hnone.symm.trans hclose
          · next hsome =>
            obtain ⟨rfl, -⟩ := Prod.mk.inj (Option.some.inj (hsome.symm.trans hclose))
            simp
  · cases h

theorem substitute_congr {text : String} {data other : Data}
    (h : data.AgreeOn (· ∈ Placeholder.paths text) other) :
    substitute data text = substitute other text := by
  have hfill : ∀ piece ∈ Piece.pieces text.toList, piece.fill data = piece.fill other := by
    intro piece hpiece
    cases piece with
    | plain cs => rfl
    | reference cs =>
      have hpath := h (Text.trim (String.ofList cs))
        (Placeholder.mem_paths_iff.2 ⟨cs, hpiece, rfl⟩)
      rw [resolve?_trim, resolve?_trim] at hpath
      rw [Piece.fill, Piece.fill, hpath]
  rw [substitute, substitute, List.flatMap_congr hfill]

/-- The paths that a test refers to, bare or in its texts. -/
def Expr.paths : Expr → List String
  | null | bool _ | number _ => []
  | text s => Placeholder.paths s
  | reference path => [path]
  | not e => e.paths
  | or l r | and l r | compare _ l r => l.paths ++ r.paths

theorem Expr.eval_congr {e : Expr} {data other : Data} (h : data.AgreeOn (· ∈ e.paths) other) :
    e.eval data = e.eval other := by
  induction e with
  | null => rfl
  | bool b => rfl
  | number x => rfl
  | text s =>
    rw [eval, eval, substitute_congr h]
    cases hsole : Placeholder.sole? s with
    | none => rfl
    | some path => simp only [lookup, h path (Placeholder.mem_paths_of_sole? hsole)]
  | reference path => rw [eval, eval, lookup, lookup, h path (List.mem_singleton.2 rfl)]
  | not e ih => rw [eval, eval, ih h]
  | or l r ihl ihr | and l r ihl ihr | compare c l r ihl ihr =>
    have hl := ihl fun path hpath => h path (List.mem_append_left _ hpath)
    have hr := ihr fun path hpath => h path (List.mem_append_right _ hpath)
    rw [eval, eval, hl, hr]

def testPaths (test : String) : List String :=
  match Expr.parse [] test with
  | .ok e => e.paths
  | .error _ => []

namespace Markup

variable (directiveNs : String)

def Attribute.paths (a : Attribute) : List String :=
  if a.ns != some directiveNs then Placeholder.paths a.value
  else if Stage.bindsHandler a.name then [a.value]
  else []

def Tag.attributePaths (tag : Tag) : List String :=
  tag.attributes.flatMap (Attribute.paths directiveNs)

def Tag.directivePaths (tag : Tag) : List String :=
  match Directive.ofLocalName? tag.name with
  | some .ifTest => ((tag.attributeEither? directiveNs "test").map testPaths).getD []
  | some .forEach | some .forEmpty => [(tag.attributeEither? directiveNs "list").getD ""]
  | some .insertSnippet =>
    Placeholder.paths ((tag.attributeEither? directiveNs "name").getD "")
  | _ => []

mutual

def Node.paths : Node → List String
  | .text content => Placeholder.paths content
  | .element tag children =>
    (if tag.isIn directiveNs then tag.directivePaths directiveNs
      else tag.attributePaths directiveNs) ++ nodesPaths children

def nodesPaths : List Node → List String
  | [] => []
  | child :: rest => child.paths ++ nodesPaths rest

end

/-- All paths in a template. Its root is built, even if it looks like a directive. -/
def Element.paths (e : Element) : List String :=
  e.tag.attributePaths directiveNs ++ nodesPaths directiveNs e.children

def Tag.hasPostproduction (tag : Tag) : Bool :=
  (tag.attributeIn? (some directiveNs) "postproduction").isSome

mutual

def Node.usesHost : Node → Bool
  | .text _ => false
  | .element tag children =>
    (if tag.isIn directiveNs then Directive.ofLocalName? tag.name == some .callFunction
      else tag.hasPostproduction directiveNs) || nodesUseHost children

def nodesUseHost : List Node → Bool
  | [] => false
  | child :: rest => child.usesHost || nodesUseHost rest

end

def Element.usesHost (e : Element) : Bool :=
  e.tag.hasPostproduction directiveNs || nodesUseHost directiveNs e.children

end Markup

namespace Stage

variable (stage : Stage) {data other : Data}

theorem takeAttribute_congr {a : Markup.Attribute}
    (h : data.AgreeOn (· ∈ a.paths stage.settings.directiveNs) other) (origin : Origin)
    (draft : Draft) :
    stage.takeAttribute data origin draft a = stage.takeAttribute other origin draft a := by
  rw [Markup.Attribute.paths] at h
  rw [takeAttribute, takeAttribute]
  by_cases hns : (a.ns != some stage.settings.directiveNs) = true
  · rw [if_pos hns] at h
    rw [if_pos hns, if_pos hns, substitute_congr h]
  · rw [if_neg hns] at h
    rw [if_neg hns, if_neg hns]
    by_cases hhandler : bindsHandler a.name = true
    · rw [if_pos hhandler] at h
      rw [if_pos hhandler, if_pos hhandler, h a.value (List.mem_singleton.2 rfl)]
    · rw [if_neg hhandler, if_neg hhandler]

theorem takeAttributes_congr {attributes : List Markup.Attribute}
    (h : data.AgreeOn
      (· ∈ attributes.flatMap (Markup.Attribute.paths stage.settings.directiveNs)) other)
    (origin : Origin) (draft : Draft) :
    attributes.foldl (stage.takeAttribute data origin) draft =
      attributes.foldl (stage.takeAttribute other origin) draft := by
  induction attributes generalizing draft with
  | nil => rw [List.foldl_nil, List.foldl_nil]
  | cons a attributes ih =>
    rw [List.flatMap_cons] at h
    have hfirst : data.AgreeOn (· ∈ a.paths stage.settings.directiveNs) other :=
      fun path hpath => h path (List.mem_append_left _ hpath)
    rw [List.foldl_cons, List.foldl_cons, stage.takeAttribute_congr hfirst]
    exact ih (fun path hpath => h path (List.mem_append_right _ hpath)) _

theorem holds_congr {tag : Markup.Tag} (hname : Directive.ofLocalName? tag.name = some .ifTest)
    (h : data.AgreeOn (· ∈ tag.directivePaths stage.settings.directiveNs) other)
    (origin : Origin) : stage.holds tag data origin = stage.holds tag other origin := by
  rw [Markup.Tag.directivePaths, hname] at h
  rw [holds, holds]
  cases htest : tag.attributeEither? stage.settings.directiveNs "test" with
  | none => rfl
  | some test =>
    have hparse : Expr.parse origin test =
        (Expr.parse [] test).mapError (ExpressionError.under origin) := by
      rw [← Expr.parse_append, List.append_nil]
    simp only [htest, Option.map_some, Option.getD_some, testPaths] at h
    simp only [hparse]
    cases hread : Expr.parse [] test with
    | error e => rfl
    | ok e =>
      rw [hread] at h
      simp only [Except.mapError, Expr.eval_congr h]

theorem resolve?_list_congr {tag : Markup.Tag}
    (hname : Directive.ofLocalName? tag.name = some .forEach ∨
      Directive.ofLocalName? tag.name = some .forEmpty)
    (h : data.AgreeOn (· ∈ tag.directivePaths stage.settings.directiveNs) other) :
    resolve? data (stage.argument tag "list") = resolve? other (stage.argument tag "list") := by
  apply h
  rcases hname with hname | hname <;> simp [Markup.Tag.directivePaths, hname, argument]

theorem substitute_name_congr {tag : Markup.Tag}
    (hname : Directive.ofLocalName? tag.name = some .insertSnippet)
    (h : data.AgreeOn (· ∈ tag.directivePaths stage.settings.directiveNs) other) :
    substitute data (stage.argument tag "name") = substitute other (stage.argument tag "name") := by
  rw [Markup.Tag.directivePaths, hname] at h
  exact substitute_congr h

end Stage

namespace Workshop

variable (w : Workshop)

/-- The paths that occur in the stored templates. -/
def Reads (path : String) : Prop :=
  ∃ key snippet, w.registry.get? key = some snippet ∧
    path ∈ snippet.template.paths w.settings.directiveNs

/-- Whether a stored template calls the host. -/
def UsesHost : Prop :=
  ∃ key snippet, w.registry.get? key = some snippet ∧
    snippet.template.usesHost w.settings.directiveNs = true

end Workshop

end MarkupSnippets

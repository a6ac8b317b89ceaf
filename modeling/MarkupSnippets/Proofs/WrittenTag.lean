import MarkupSnippets.Proofs.Entries
import MarkupSnippets.Proofs.Writable

namespace MarkupSnippets

theorem lookup_reverse_of_mem {α β : Type} [BEq α] [LawfulBEq α] {l : List (α × β)} {k : α} {v : β}
    (hnodup : (l.map Prod.fst).Nodup) (hmem : (k, v) ∈ l) : l.reverse.lookup k = some v := by
  obtain ⟨before, after, rfl⟩ := List.append_of_mem hmem
  rw [List.map_append, List.map_cons] at hnodup
  have hnot := (List.nodup_cons.1 hnodup.of_append_right).1
  refine List.lookup_eq_some_iff.2 ⟨after.reverse, before.reverse, by simp, fun p hp => ?_⟩
  have hne : k ≠ p.1 := by
    rintro rfl
    exact hnot (List.mem_map.2 ⟨p, List.mem_reverse.1 hp, rfl⟩)
  simpa using hne

theorem lookup_reverse_of_not_mem {α β : Type} [BEq α] [LawfulBEq α] {l : List (α × β)} {k : α}
    (h : ∀ p ∈ l, p.1 ≠ k) : l.reverse.lookup k = none := by
  refine List.lookup_eq_none_iff.2 fun p hp => ?_
  simpa using (h p (List.mem_reverse.1 hp)).symm

namespace Markup

theorem declared?_xmlns : Scope.declared? "xmlns".toList = some none := by decide

theorem declared?_declaration (pfx : String) :
    Scope.declared? ("xmlns:" ++ pfx).toList = some (some pfx.toList) := by
  have hkey : ("xmlns:" ++ pfx).toList = "xmlns:".toList ++ pfx.toList := String.toList_append
  have hne : ("xmlns:" ++ pfx).toList ≠ "xmlns".toList := by
    rw [hkey]
    exact fun h => absurd (congrArg List.length h) (by simp)
  rw [Scope.declared?, if_neg hne, Text.dropStart?_eq_some.2 hkey]
  rfl

theorem declared?_of_not_mem {key : List Char} (hcolon : ':' ∉ key) (hne : key ≠ "xmlns".toList) :
    Scope.declared? key = none := by
  rw [Scope.declared?, if_neg hne]
  cases hdrop : Text.dropStart? "xmlns:".toList key with
  | none => rfl
  | some rest =>
    rw [Text.dropStart?_eq_some] at hdrop
    exact absurd (hdrop ▸ List.mem_append_left rest (by decide)) hcolon

theorem declared?_qualified {pfx name : List Char} (hcolon : ':' ∉ pfx)
    (hne : pfx ≠ "xmlns".toList) : Scope.declared? (pfx ++ ':' :: name) = none := by
  have hxmlns : pfx ++ ':' :: name ≠ "xmlns".toList := by
    intro h
    have hmem : ':' ∈ "xmlns".toList := h ▸ List.mem_append_right pfx List.mem_cons_self
    exact absurd hmem (by decide)
  rw [Scope.declared?, if_neg hxmlns]
  cases hdrop : Text.dropStart? "xmlns:".toList (pfx ++ ':' :: name) with
  | none => rfl
  | some rest =>
    rw [Text.dropStart?_eq_some] at hdrop
    have heq : pfx ++ ':' :: name = "xmlns".toList ++ ':' :: rest := hdrop
    exact absurd ((Text.append_cons_inj hcolon (by decide)).1 heq).1 hne

theorem bind_of_unreserved {pfx ns : List Char} (scope : Scope) (hxml : pfx ≠ "xml".toList)
    (hxmlns : pfx ≠ "xmlns".toList) (hxmlNs : ns ≠ xmlNs.toList) (hxmlnsNs : ns ≠ xmlnsNs.toList) :
    scope.bind (some pfx) ns = .ok ((pfx, ns) :: scope) := by
  rw [Scope.bind, if_neg hxml, if_neg hxmlns, if_neg hxmlNs, if_neg hxmlnsNs]

/-- Whether a scope is that inside of an element with a namespace. -/
structure Scope.Fits (scope : Scope) (outer : Option String) : Prop where
  xml : scope.lookup "xml".toList = some xmlNs.toList
  default : ∀ ns, outer = some ns → scope.lookup [] = some (Output.valueMarkup ns)

end Markup

namespace Output

open Markup (Bare Scope)

def Tag.entries (outer : Option String) (tag : Tag) : List (String × String) :=
  (if outer = some tag.ns then [] else [("xmlns", tag.ns)]) ++
    tag.declared.map (fun entry => ("xmlns:" ++ entry.1, entry.2)) ++
    tag.attributes.map fun a => (tag.declared.writtenName a, a.value)

theorem tagMarkup_eq (outer : Option String) (tag : Tag) :
    tagMarkup outer tag = '<' :: (tag.name.toList ++ entriesMarkup (tag.entries outer)) := by
  have hzip : (tag.attributes.map tag.declared.writtenName).zip tag.attributes =
      tag.attributes.map fun a => (tag.declared.writtenName a, a) := by
    simpa using List.zip_map' (l := tag.attributes) (f := tag.declared.writtenName) (g := id)
  have hown : entriesMarkup (if outer = some tag.ns then [] else [("xmlns", tag.ns)]) =
      if outer = some tag.ns then [] else attributeMarkup "xmlns" tag.ns := by
    split
    · rfl
    · exact List.append_nil _
  have hnames : Declarations.allocate [] tag.attributes =
      (tag.declared, tag.attributes.map tag.declared.writtenName) :=
    Prod.ext rfl (Declarations.names_allocate [] tag.attributes)
  simp only [tagMarkup, hnames, hzip, Tag.entries, entriesMarkup, List.flatMap_append,
    List.flatMap_map, List.append_assoc] at hown ⊢
  rw [hown]

theorem Tag.entries_cases {tag : Tag} {outer : Option String} {entry : String × String}
    (hmem : entry ∈ tag.entries outer) :
    entry = ("xmlns", tag.ns) ∨
      (∃ other ∈ tag.declared, entry = ("xmlns:" ++ other.1, other.2)) ∨
      ∃ a ∈ tag.attributes, entry = (tag.declared.writtenName a, a.value) := by
  rw [Tag.entries, List.mem_append, List.mem_append] at hmem
  obtain (hmem | hmem) | hmem := hmem
  · split at hmem
    · cases hmem
    · exact .inl (List.mem_singleton.1 hmem)
  · obtain ⟨other, hother, rfl⟩ := List.mem_map.1 hmem
    exact .inr (.inl ⟨other, hother, rfl⟩)
  · obtain ⟨a, ha, rfl⟩ := List.mem_map.1 hmem
    exact .inr (.inr ⟨a, ha, rfl⟩)

def Tag.inner (outer : Option String) (tag : Tag) (scope : Scope) : Scope :=
  ((tag.entries outer).filterMap binding?).reverse ++ scope

theorem Tag.sound_declared (tag : Tag) : tag.declared.Sound :=
  Declarations.sound_allocate Declarations.sound_nil tag.attributes

namespace Tag.Named

variable {tag : Tag} {a b : Attribute}

theorem isNcName_of_mem (h : tag.Named) {entry : String × String} (hmem : entry ∈ tag.declared) :
    Markup.isNcName entry.1 = true :=
  Declarations.isNcName_of_mem_allocate (fun a ha => (h.attributes a ha).pfx) entry hmem

theorem pfx_cases (h : tag.Named) (ha : a ∈ tag.attributes) :
    tag.declared.writtenPfx? a = none ∧ a.ns = none ∨
      ∃ pfx, tag.declared.writtenPfx? a = some pfx ∧ Markup.isNcName pfx = true ∧
        pfx ≠ "xmlns" := by
  have hcarries : tag.declared.Carries (tag.declared.writtenPfx? a) a.ns :=
    Declarations.carries_writtenPfx? ha
  generalize tag.declared.writtenPfx? a = pfx? at hcarries
  generalize a.ns = ns? at hcarries
  cases hcarries with
  | plain => exact .inl ⟨rfl, rfl⟩
  | xml => exact .inr ⟨_, rfl, by decide, by decide⟩
  | declared hxml hmem =>
    exact .inr ⟨_, rfl, h.isNcName_of_mem hmem, tag.sound_declared.ne_xmlns _ hmem⟩

theorem bare_writtenName (h : tag.Named) (ha : a ∈ tag.attributes) :
    Bare (tag.declared.writtenName a).toList := by
  have hname := Markup.bare_of_isNcName (h.attributes a ha).name
  obtain ⟨hpfx, -⟩ | ⟨pfx, hpfx, hnc, -⟩ := h.pfx_cases ha
  · rw [Declarations.writtenName, hpfx]
    exact hname
  · rw [Declarations.writtenName, hpfx, Markup.toList_qualify]
    exact (Markup.bare_of_isNcName hnc).qualified hname

theorem declared?_writtenName (h : tag.Named) (ha : a ∈ tag.attributes) :
    Scope.declared? (tag.declared.writtenName a).toList = none := by
  obtain ⟨hpfx, hns⟩ | ⟨pfx, hpfx, hnc, hne⟩ := h.pfx_cases ha
  · rw [Declarations.writtenName, hpfx]
    exact Markup.declared?_of_not_mem
      (Markup.colon_not_mem_of_isNcName (h.attributes a ha).name)
      (mt String.toList_inj.1 ((h.attributes a ha).ne_xmlns hns))
  · rw [Declarations.writtenName, hpfx, Markup.toList_qualify]
    exact Markup.declared?_qualified (Markup.colon_not_mem_of_isNcName hnc)
      (mt String.toList_inj.1 hne)

theorem splitName_writtenName (h : tag.Named) (ha : a ∈ tag.attributes) :
    Markup.splitName (tag.declared.writtenName a).toList =
      ((tag.declared.writtenPfx? a).map String.toList, a.name.toList) := by
  obtain ⟨hpfx, -⟩ | ⟨pfx, hpfx, hnc, -⟩ := h.pfx_cases ha
  · have hcolon := Markup.colon_not_mem_of_isNcName (h.attributes a ha).name
    rw [Declarations.writtenName, hpfx, Markup.splitName, Markup.qualify,
      Text.splitAt?_of_not_mem hcolon]
    rfl
  · rw [Declarations.writtenName, hpfx, Markup.toList_qualify, Markup.splitName,
      Text.splitAt?_append (Markup.colon_not_mem_of_isNcName hnc)]
    rfl

theorem eq_of_writtenName_eq (h : tag.Named) (ha : a ∈ tag.attributes) (hb : b ∈ tag.attributes)
    (heq : tag.declared.writtenName a = tag.declared.writtenName b) :
    a.ns = b.ns ∧ a.name = b.name :=
  Declarations.eq_of_writtenName_eq tag.sound_declared ha hb
    (Markup.colon_not_mem_of_isNcName (h.attributes a ha).name)
    (Markup.colon_not_mem_of_isNcName (h.attributes b hb).name) heq

theorem bare_of_mem_entries (h : tag.Named) (outer : Option String) :
    ∀ entry ∈ tag.entries outer, Bare entry.1.toList := by
  intro entry hmem
  have hxmlns : Bare "xmlns".toList := Markup.bare_of_isNcName (by decide)
  obtain rfl | ⟨other, hother, rfl⟩ | ⟨a, ha, rfl⟩ := Tag.entries_cases hmem
  · exact hxmlns
  · rw [String.toList_append]
    exact hxmlns.qualified (Markup.bare_of_isNcName (h.isNcName_of_mem hother))
  · exact h.bare_writtenName ha

theorem nodup_entries (h : tag.Named) (outer : Option String) :
    ((tag.entries outer).map Prod.fst).Nodup := by
  have hnames : (tag.attributes.map tag.declared.writtenName).Nodup := by
    have hdistinct := List.pairwise_map.1 h.distinct
    refine List.pairwise_map.2 (hdistinct.imp_of_mem fun ha hb hne heq => hne ?_)
    obtain ⟨hns, hname⟩ := h.eq_of_writtenName_eq ha hb heq
    rw [hns, hname]
  have hprefixes : (tag.declared.map fun entry => "xmlns:" ++ entry.1).Nodup := by
    have hnodup := tag.sound_declared.nodup
    rw [List.Nodup, List.pairwise_map] at hnodup ⊢
    exact hnodup.imp fun hne heq => hne ((String.append_right_inj _).1 heq)
  have hdeclarations : ((if outer = some tag.ns then [] else ["xmlns"]) ++
      tag.declared.map fun entry => "xmlns:" ++ entry.1).Nodup := by
    split
    · exact hprefixes
    · refine List.nodup_cons.2 ⟨fun hmem => ?_, hprefixes⟩
      obtain ⟨entry, -, heq⟩ := List.mem_map.1 hmem
      have hdeclared := Markup.declared?_declaration entry.1
      rw [heq, Markup.declared?_xmlns] at hdeclared
      cases hdeclared
  have hkeys : (tag.entries outer).map Prod.fst =
      ((if outer = some tag.ns then [] else ["xmlns"]) ++
        tag.declared.map fun entry => "xmlns:" ++ entry.1) ++
      tag.attributes.map tag.declared.writtenName := by
    rw [Tag.entries]
    split <;> simp [Function.comp_def]
  -- A name that is written for an attribute is never that of a declaration.
  rw [hkeys, List.nodup_append]
  refine ⟨hdeclarations, hnames, ?_⟩
  rintro key hkey other hother rfl
  obtain ⟨a, ha, rfl⟩ := List.mem_map.1 hother
  have hnone := h.declared?_writtenName ha
  obtain hown | hpfx := List.mem_append.1 hkey
  · split at hown
    · cases hown
    · rw [List.mem_singleton.1 hown, Markup.declared?_xmlns] at hnone
      cases hnone
  · obtain ⟨entry, -, heq⟩ := List.mem_map.1 hpfx
    rw [← heq, Markup.declared?_declaration] at hnone
    cases hnone

/-- No declared namespace looks like a reserved one, as those have nothing that is escaped. -/
theorem unreserved_of_mem_declared (h : tag.Named) {entry : String × String}
    (hmem : entry ∈ tag.declared) :
    valueMarkup entry.2 ≠ Markup.xmlNs.toList ∧ valueMarkup entry.2 ≠ Markup.xmlnsNs.toList := by
  obtain ⟨hxml, a, ha, hns⟩ := Declarations.exists_attribute_of_mem_allocate entry hmem
  rw [Ne, Ne, valueMarkup_eq_toList_iff (by decide), valueMarkup_eq_toList_iff (by decide)]
  refine ⟨hxml, ?_⟩
  intro heq
  exact (h.attributes a ha).ns_ne_xmlnsNs (heq ▸ hns)

theorem binds_of_mem_entries (h : tag.Named) {outer : Option String} :
    ∀ entry ∈ tag.entries outer, Binds entry := by
  intro entry hmem pfx hdeclared scope
  obtain rfl | ⟨other, hother, rfl⟩ | ⟨a, ha, rfl⟩ := Tag.entries_cases hmem
  · obtain rfl : pfx = none := by
      rw [Markup.declared?_xmlns] at hdeclared
      exact (Option.some.inj hdeclared).symm
    rfl
  · obtain rfl : pfx = some other.1.toList := by
      rw [Markup.declared?_declaration] at hdeclared
      exact (Option.some.inj hdeclared).symm
    obtain ⟨hxml, hxmlns⟩ := h.unreserved_of_mem_declared hother
    exact Markup.bind_of_unreserved scope
      (mt String.toList_inj.1 (tag.sound_declared.ne_xml other hother))
      (mt String.toList_inj.1 (tag.sound_declared.ne_xmlns other hother)) hxml hxmlns
  · rw [h.declared?_writtenName ha] at hdeclared
    cases hdeclared

theorem filterMap_binding? (h : tag.Named) (outer : Option String) :
    (tag.entries outer).filterMap binding? =
      (if outer = some tag.ns then [] else [([], valueMarkup tag.ns)]) ++
        tag.declared.map fun entry => (entry.1.toList, valueMarkup entry.2) := by
  have hown : (if outer = some tag.ns then [] else [("xmlns", tag.ns)]).filterMap binding? =
      if outer = some tag.ns then [] else [([], valueMarkup tag.ns)] := by
    have hbinding : binding? ("xmlns", tag.ns) = some ([], valueMarkup tag.ns) := by
      rw [binding?, Markup.declared?_xmlns]
      rfl
    split
    · rfl
    · rw [List.filterMap_cons_some hbinding, List.filterMap_nil]
  have hprefixes : (tag.declared.map fun entry => ("xmlns:" ++ entry.1, entry.2)).filterMap
      binding? = tag.declared.map fun entry => (entry.1.toList, valueMarkup entry.2) := by
    rw [List.filterMap_map, ← List.filterMap_eq_map]
    refine List.filterMap_congr fun entry _ => ?_
    simp only [Function.comp_apply, binding?, Markup.declared?_declaration]
    rfl
  have hnames : (tag.attributes.map fun a => (tag.declared.writtenName a, a.value)).filterMap
      binding? = [] := by
    rw [List.filterMap_map, List.filterMap_eq_nil_iff]
    intro a ha
    simp only [Function.comp_apply, binding?, h.declared?_writtenName ha]
    rfl
  rw [Tag.entries, List.filterMap_append, List.filterMap_append, hown, hprefixes, hnames,
    List.append_nil]

theorem filterMap_attributeOf? (h : tag.Named) (outer : Option String) {scope : Scope}
    (hscope : ∀ a ∈ tag.attributes,
      scope.attribute? ((tag.declared.writtenPfx? a).map String.toList) = a.ns.map asWritten) :
    (tag.entries outer).filterMap (attributeOf? scope) =
      (tag.readBack.mapNs asWritten).attributes := by
  have hown : (if outer = some tag.ns then [] else [("xmlns", tag.ns)]).filterMap
      (attributeOf? scope) = [] := by
    have hattribute : attributeOf? scope ("xmlns", tag.ns) = none := by
      rw [attributeOf?, Markup.declared?_xmlns]
      rfl
    split
    · rfl
    · rw [List.filterMap_cons_none hattribute, List.filterMap_nil]
  have hprefixes : (tag.declared.map fun entry => ("xmlns:" ++ entry.1, entry.2)).filterMap
      (attributeOf? scope) = [] := by
    rw [List.filterMap_map, List.filterMap_eq_nil_iff]
    intro entry _
    simp only [Function.comp_apply, attributeOf?, Markup.declared?_declaration]
    rfl
  have hnames : (tag.attributes.map fun a => (tag.declared.writtenName a, a.value)).filterMap
      (attributeOf? scope) = (tag.readBack.mapNs asWritten).attributes := by
    have hmap : (tag.readBack.mapNs asWritten).attributes =
        tag.attributes.map (Markup.Attribute.mapNs asWritten ∘ Attribute.readBack tag.declared) :=
      List.map_map
    rw [hmap, List.filterMap_map, ← List.filterMap_eq_map]
    refine List.filterMap_congr fun a ha => ?_
    have hpfx : ((tag.declared.writtenPfx? a).map String.toList).map String.ofList =
        tag.declared.writtenPfx? a := by
      cases tag.declared.writtenPfx? a <;> simp
    simp [attributeOf?, h.declared?_writtenName ha, h.splitName_writtenName ha, hscope a ha,
      hpfx, Attribute.readBack, Markup.Attribute.mapNs]
  rw [Tag.entries, List.filterMap_append, List.filterMap_append, hown, hprefixes, hnames,
    List.nil_append, List.nil_append]

theorem lookup_inner_of_not_mem (h : tag.Named) {outer : Option String} {scope : Scope}
    {pfx : List Char} (hown : outer = some tag.ns ∨ pfx ≠ [])
    (hpfx : ∀ entry ∈ tag.declared, entry.1.toList ≠ pfx) :
    (tag.inner outer scope).lookup pfx = scope.lookup pfx := by
  have hnone : ((tag.entries outer).filterMap binding?).reverse.lookup pfx = none := by
    refine lookup_reverse_of_not_mem fun binding hmem => ?_
    rw [h.filterMap_binding?, List.mem_append] at hmem
    obtain hmem | hmem := hmem
    · split at hmem
      · cases hmem
      · next hne =>
        rw [List.mem_singleton.1 hmem]
        exact (hown.resolve_left hne).symm
    · obtain ⟨entry, hentry, rfl⟩ := List.mem_map.1 hmem
      exact hpfx entry hentry
  rw [Tag.inner, List.lookup_append, hnone, Option.none_or]

theorem lookup_inner_of_mem (h : tag.Named) {outer : Option String} {scope : Scope}
    {pfx ns : List Char} (hmem : (pfx, ns) ∈ (tag.entries outer).filterMap binding?) :
    (tag.inner outer scope).lookup pfx = some ns := by
  have hne : ∀ entry ∈ tag.declared, entry.1.toList ≠ [] := fun entry hentry =>
    (Markup.bare_of_isNcName (h.isNcName_of_mem hentry)).ne_nil
  have hprefixes : (tag.declared.map fun entry => entry.1.toList).Nodup := by
    have hnodup := tag.sound_declared.nodup
    rw [List.Nodup, List.pairwise_map] at hnodup ⊢
    exact hnodup.imp fun hne heq => hne (String.toList_inj.1 heq)
  have hnodup : (((tag.entries outer).filterMap binding?).map Prod.fst).Nodup := by
    rw [h.filterMap_binding?, List.map_append, List.map_map]
    split
    · exact hprefixes
    · refine List.nodup_cons.2 ⟨fun hnil => ?_, hprefixes⟩
      obtain ⟨entry, hentry, heq⟩ := List.mem_map.1 hnil
      exact hne entry hentry heq
  rw [Tag.inner, List.lookup_append, lookup_reverse_of_mem hnodup hmem, Option.some_or]

theorem fits_inner (h : tag.Named) {outer : Option String} {scope : Scope}
    (hfits : scope.Fits outer) : (tag.inner outer scope).Fits (some tag.ns) where
  xml := by
    rw [h.lookup_inner_of_not_mem (.inr (by decide)) fun entry hentry =>
      mt String.toList_inj.1 (tag.sound_declared.ne_xml entry hentry)]
    exact hfits.xml
  default := by
    rintro _ ⟨⟩
    by_cases hsame : outer = some tag.ns
    · rw [h.lookup_inner_of_not_mem (.inl hsame) fun entry hentry =>
        (Markup.bare_of_isNcName (h.isNcName_of_mem hentry)).ne_nil]
      exact hfits.default tag.ns hsame
    · apply h.lookup_inner_of_mem
      rw [h.filterMap_binding?, if_neg hsame]
      exact List.mem_cons_self

theorem attribute?_inner (h : tag.Named) {outer : Option String} {scope : Scope}
    (hfits : scope.Fits outer) (ha : a ∈ tag.attributes) :
    (tag.inner outer scope).attribute? ((tag.declared.writtenPfx? a).map String.toList) =
      a.ns.map asWritten := by
  have hcarries : tag.declared.Carries (tag.declared.writtenPfx? a) a.ns :=
    Declarations.carries_writtenPfx? ha
  have hempty := (h.attributes a ha).ns_ne_empty
  generalize tag.declared.writtenPfx? a = pfx? at hcarries ⊢
  generalize a.ns = ns? at hcarries hempty ⊢
  cases hcarries with
  | plain => rfl
  | xml =>
    have hlookup := (h.fits_inner hfits).xml
    simp only [Option.map_some, Scope.attribute?, Scope.namespace?, hlookup]
    decide
  | @declared pfx ns hxml hmem =>
    have hlookup : (tag.inner outer scope).lookup pfx.toList = some (valueMarkup ns) := by
      apply h.lookup_inner_of_mem
      rw [h.filterMap_binding?]
      exact List.mem_append_right _ (List.mem_map.2 ⟨_, hmem, rfl⟩)
    have hpfx : pfx.toList.isEmpty = false := List.isEmpty_eq_false_iff.2
      (Markup.bare_of_isNcName (h.isNcName_of_mem hmem)).ne_nil
    have hns : ns ≠ "" := fun heq => hempty (heq ▸ rfl)
    simp only [Option.map_some, Scope.attribute?, hpfx, Scope.namespace?, hlookup]
    simp [valueMarkup_eq_nil_iff, hns, asWritten]

/-- A tag that was written is read back, and inside of it is the scope of its namespace. -/
theorem readOpening_entries (h : tag.Named) {outer : Option String} {scope : Scope}
    (hfits : scope.Fits outer) :
    Markup.readOpening scope (tag.name.toList ++ entriesMarkup (tag.entries outer)) =
      .ok (tag.readBack.mapNs asWritten, tag.inner outer scope) := by
  obtain ⟨raw, hraw, hfinds⟩ :=
    readTag_entries (Markup.bare_of_isNcName h.name) (h.bare_of_mem_entries outer)
  have henter : scope.enter raw = .ok (tag.inner outer scope) :=
    enter_of_finds hfinds h.binds_of_mem_entries scope
  have hattributes : Markup.readAttributes (tag.inner outer scope) [] none raw =
      .ok (tag.readBack.mapNs asWritten).attributes := by
    rw [readAttributes_of_finds hfinds (h.nodup_entries outer) _ [] nofun,
      h.filterMap_attributeOf? outer fun a ha => h.attribute?_inner hfits ha]
  have hsplit : Markup.splitName tag.name.toList = (none, tag.name.toList) := by
    rw [Markup.splitName, Text.splitAt?_of_not_mem (Markup.colon_not_mem_of_isNcName h.name)]
  have hns : (tag.inner outer scope).element? none = tag.readBack.ns.map asWritten := by
    rw [Scope.element?, Scope.namespace?, (h.fits_inner hfits).default tag.ns rfl, readBack]
    by_cases hempty : tag.ns = "" <;> simp [valueMarkup_eq_nil_iff, hempty, asWritten]
  rw [Markup.readOpening, hraw]
  simp only [henter, hsplit]
  change (Markup.readAttributes (tag.inner outer scope) [] none raw >>= fun attributes =>
    pure (Markup.Tag.mk ((tag.inner outer scope).element? none) none
      (String.ofList tag.name.toList) attributes, tag.inner outer scope)) = _
  rw [hattributes, hns, String.ofList_toList]
  rfl

end Tag.Named

end Output

end MarkupSnippets

import MarkupSnippets.Proofs.AttributeNames
import MarkupSnippets.Proofs.WrittenTag

namespace MarkupSnippets.Output

namespace Declarations

variable {declared : Declarations}

theorem nodup_ns_allocate (h : (declared.map Prod.snd).Nodup) (attributes : List Attribute) :
    ((declared.allocate attributes).1.map Prod.snd).Nodup := by
  apply allocate_induction (P := fun final => (final.map Prod.snd).Nodup)
  · intro other hother a _ ns _ _ hnew
    exact nodup_map_concat hother hnew
  · exact h

theorem mem_ns_allocate_iff {attributes : List Attribute} {ns : String} :
    ns ∈ (allocate [] attributes).1.map Prod.snd ↔
      ns ≠ Markup.xmlNs ∧ ∃ a ∈ attributes, a.ns = some ns := by
  constructor
  · intro hmem
    obtain ⟨entry, hentry, rfl⟩ := List.mem_map.1 hmem
    exact exists_attribute_of_mem_allocate entry hentry
  · rintro ⟨hxml, a, ha, hns⟩
    obtain ⟨entry, hfind⟩ := exists_find?_allocate [] ha hns hxml
    have heq : entry.2 = ns := by simpa using List.find?_some hfind
    exact List.mem_map.2 ⟨entry, List.mem_of_find?_eq_some hfind, heq⟩

end Declarations

/-- What stands in a tag behind its name is the declaration of its own namespace, if it needs one,
the declarations of prefixes, and the attributes under their names. The prefixes are not empty, not
reserved and all different. Each namespace of an attribute, that of XML apart, has exactly one of
them, and no other namespace has one. The name of an attribute has the prefix of its namespace, so
that attributes that differ in namespace or name have different names in the tag, if there is no
colon in the names that they have without a prefix. A prefix is generated from the least number for
which it is free, and this is not above the number of the declarations that are there already. -/
theorem prefixes_allocated (outer : Option String) (tag : Tag) :
    tagMarkup outer tag = '<' :: (tag.name.toList ++ entriesMarkup
      ((if outer = some tag.ns then [] else [("xmlns", tag.ns)]) ++
        tag.declared.map (fun entry => ("xmlns:" ++ entry.1, entry.2)) ++
        tag.attributes.map fun a => (tag.declared.writtenName a, a.value))) ∧
    (∀ entry ∈ tag.declared, entry.1 ≠ "" ∧ entry.1 ≠ "xml" ∧ entry.1 ≠ "xmlns") ∧
    (tag.declared.map Prod.fst).Nodup ∧
    (tag.declared.map Prod.snd).Nodup ∧
    (∀ ns, ns ∈ tag.declared.map Prod.snd ↔
      ns ≠ Markup.xmlNs ∧ ∃ a ∈ tag.attributes, a.ns = some ns) ∧
    (∀ a ∈ tag.attributes, ∃ pfx, tag.declared.writtenName a = Markup.qualify pfx a.name ∧
      tag.declared.Carries pfx a.ns) ∧
    (∀ a ∈ tag.attributes, ∀ b ∈ tag.attributes, ':' ∉ a.name.toList → ':' ∉ b.name.toList →
      a.fullName ≠ b.fullName → tag.declared.writtenName a ≠ tag.declared.writtenName b) ∧
    ∀ declared : Declarations, ∃ n ≤ declared.length,
      declared.fresh = Declarations.generated n ∧
      IsLeast {m | declared.taken (Declarations.generated m) = false} n := by
  have hsound := tag.sound_declared
  refine ⟨tagMarkup_eq outer tag, fun entry hentry => ?_, hsound.nodup,
    @Declarations.nodup_ns_allocate [] List.nodup_nil tag.attributes,
    fun ns => Declarations.mem_ns_allocate_iff, fun a ha => ?_, ?_, Declarations.exists_fresh_eq⟩
  · exact ⟨Declarations.ne_empty_of_mem_allocate entry hentry, hsound.ne_xml entry hentry,
      hsound.ne_xmlns entry hentry⟩
  · exact ⟨_, rfl, Declarations.carries_writtenPfx? ha⟩
  · intro a ha b hb hacolon hbcolon hne heq
    obtain ⟨hns, hname⟩ := Declarations.eq_of_writtenName_eq hsound ha hb hacolon hbcolon heq
    exact hne (Prod.ext hns hname)

def numberedWish : Attribute := ⟨some "urn:a", some "ns1", "k", "1"⟩

def reservedWish : Attribute := ⟨some "urn:c", some "xmlns", "k", "3"⟩

/-- A tag of attributes that are in each other's way, with a wish for a prefix that is already
declared and with a second prefix for a namespace. -/
def clashingTag : Tag where
  ns := "urn:a"
  name := "p"
  attributes := [numberedWish, ⟨some "urn:b", none, "k", "2"⟩, reservedWish,
    ⟨some "urn:d", some "ns0", "k", "4"⟩, ⟨some "urn:a", some "z", "j", "5"⟩,
    ⟨some Markup.xmlNs, some "z", "lang", "en"⟩, ⟨none, none, "k", "6"⟩]
  handlers := .empty

theorem prefixes_allocated_clashing :
    clashingTag.declared =
      [("ns1", "urn:a"), ("ns0", "urn:b"), ("ns2", "urn:c"), ("ns3", "urn:d")] ∧
    (clashingTag.declared.map Prod.snd).Nodup ∧
    "urn:d" ∈ clashingTag.declared.map Prod.snd ∧
    numberedWish ∈ clashingTag.attributes ∧ reservedWish ∈ clashingTag.attributes ∧
    ':' ∉ "k".toList ∧ numberedWish.fullName ≠ reservedWish.fullName ∧
    clashingTag.declared.writtenName numberedWish ≠
      clashingTag.declared.writtenName reservedWish ∧
    ∃ n ≤ 4, clashingTag.declared.fresh = Declarations.generated n := by
  obtain ⟨-, -, -, hnodup, hmem, -, hnames, hsearch⟩ := prefixes_allocated none clashingTag
  have hdeclared : clashingTag.declared =
      [("ns1", "urn:a"), ("ns0", "urn:b"), ("ns2", "urn:c"), ("ns3", "urn:d")] := by decide
  have hnumbered : numberedWish ∈ clashingTag.attributes := by simp [clashingTag]
  have hreserved : reservedWish ∈ clashingTag.attributes := by simp [clashingTag]
  have hcolon : ':' ∉ "k".toList := by decide
  have hne : numberedWish.fullName ≠ reservedWish.fullName := by decide
  have hused : "urn:d" ∈ clashingTag.declared.map Prod.snd :=
    (hmem "urn:d").2 ⟨by decide, ⟨some "urn:d", some "ns0", "k", "4"⟩, by simp [clashingTag], rfl⟩
  obtain ⟨n, hn, hfresh, -⟩ := hsearch clashingTag.declared
  rw [hdeclared] at hn
  exact ⟨hdeclared, hnodup, hused, hnumbered, hreserved, hcolon, hne,
    hnames _ hnumbered _ hreserved hcolon hcolon hne, n, hn, hfresh⟩

end MarkupSnippets.Output

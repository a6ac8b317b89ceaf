import Mathlib.Data.List.Nodup
import Mathlib.Data.List.Perm.Subperm
import Mathlib.Order.Bounds.Defs
import MarkupSnippets.Markup.Syntax
import MarkupSnippets.Output.Writer
import MarkupSnippets.Proofs.Names

namespace MarkupSnippets

namespace Markup

theorem toList_qualify (pfx name : String) :
    (qualify (some pfx) name).toList = pfx.toList ++ ':' :: name.toList := by
  simp [qualify]

/-- The last colon of a name ends its prefix, whatever colons the prefix itself may have. -/
theorem qualify_inj {pfx pfx' : Option String} {name name' : String} (hname : ':' ∉ name.toList)
    (hname' : ':' ∉ name'.toList) :
    qualify pfx name = qualify pfx' name' ↔ pfx = pfx' ∧ name = name' := by
  have hne (p : String) {plain other : String} (hplain : ':' ∉ plain.toList) :
      qualify none plain ≠ qualify (some p) other := by
    intro h
    apply hplain
    rw [show plain = qualify (some p) other from h, toList_qualify]
    simp
  cases pfx with
  | none =>
    cases pfx' with
    | none => simp [qualify]
    | some p' => simp [hne p' hname]
  | some p =>
    cases pfx' with
    | none => simp [(hne p hname').symm]
    | some p' =>
      rw [← String.toList_inj, toList_qualify, toList_qualify,
        Text.append_cons_inj_right hname hname', String.toList_inj, String.toList_inj,
        Option.some_inj]

end Markup

namespace Output.Declarations

variable {declared : Declarations}

theorem toList_generated (n : Nat) : (generated n).toList = 'n' :: 's' :: Nat.toDigits 10 n := by
  rw [generated, String.toList_append, Nat.toString_eq_repr, Nat.toList_repr]
  rfl

theorem generated_injective : Function.Injective generated := by
  intro m n h
  have hlist := congrArg String.toList h
  rw [toList_generated, toList_generated] at hlist
  have hdigits : Nat.toDigits 10 m = Nat.toDigits 10 n := (List.cons.inj (List.cons.inj hlist).2).2
  calc m = Nat.ofDigitChars 10 (Nat.toDigits 10 m) 0 :=
        (Nat.ofDigitChars_toDigits (by decide) (by decide)).symm
    _ = Nat.ofDigitChars 10 (Nat.toDigits 10 n) 0 := by rw [hdigits]
    _ = n := Nat.ofDigitChars_toDigits (by decide) (by decide)

theorem isNcName_generated (n : Nat) : Markup.isNcName (generated n) = true := by
  have hdigits : (Nat.toDigits 10 n).all Markup.isNameChar = true := by
    refine List.all_eq_true.2 fun c hc => Markup.isNameChar_of_isDigit ?_
    exact Nat.isDigit_of_mem_toDigits (by decide) (by decide) hc
  rw [Markup.isNcName, toList_generated]
  simp only [List.all_cons, hdigits]
  decide

theorem taken_eq_false_iff {pfx : String} :
    declared.taken pfx = false ↔
      pfx ≠ "xml" ∧ pfx ≠ "xmlns" ∧ ∀ entry ∈ declared, entry.1 ≠ pfx := by
  simp [taken, and_assoc]

theorem exists_free_generated (declared : Declarations) :
    ∃ n ∈ List.range (declared.length + 1), declared.taken (generated n) = false := by
  by_contra hnone
  push Not at hnone
  have hsub : (List.range (declared.length + 1)).map generated ⊆ declared.map Prod.fst := by
    intro pfx hpfx
    obtain ⟨n, hn, rfl⟩ := List.mem_map.1 hpfx
    have htaken := hnone n hn
    rw [Ne, taken_eq_false_iff] at htaken
    push Not at htaken
    have hxml : generated n ≠ "xml" := by
      intro h
      have h := congrArg String.toList h
      rw [toList_generated] at h
      exact absurd (List.cons.inj h).1 (by decide)
    have hxmlns : generated n ≠ "xmlns" := by
      intro h
      have h := congrArg String.toList h
      rw [toList_generated] at h
      exact absurd (List.cons.inj h).1 (by decide)
    obtain ⟨entry, hentry, heq⟩ := htaken hxml hxmlns
    exact List.mem_map.2 ⟨entry, hentry, heq⟩
  have hnodup : ((List.range (declared.length + 1)).map generated).Nodup :=
    List.nodup_range.map generated_injective
  have hlength := (List.subperm_of_subset hnodup hsub).length_le
  simp only [List.length_map, List.length_range] at hlength
  omega

/-- The search ends at the least number whose prefix is free, and there is one not above the number
of declarations. -/
theorem exists_fresh_eq (declared : Declarations) : ∃ n ≤ declared.length,
    declared.fresh = generated n ∧ IsLeast {m | declared.taken (generated m) = false} n := by
  obtain ⟨m, hm, hfree⟩ := exists_free_generated declared
  have hfind : ((List.range (declared.length + 1)).find?
      ((fun pfx => !declared.taken pfx) ∘ generated)).isSome = true := by
    rw [List.find?_isSome]
    exact ⟨m, hm, by simp [hfree]⟩
  obtain ⟨n, hn⟩ := Option.isSome_iff_exists.1 hfind
  obtain ⟨hnot, hrange, hbelow⟩ := List.find?_range_eq_some.1 hn
  have hnfree : declared.taken (generated n) = false := by simpa using hnot
  refine ⟨n, Nat.lt_succ_iff.1 (List.mem_range.1 hrange), ?_, hnfree, ?_⟩
  · rw [fresh, List.find?_map, hn]
    rfl
  · intro k hk
    by_contra hlt
    have htaken : declared.taken (generated k) = true := by
      simpa using hbelow k (Nat.lt_of_not_le hlt)
    cases htaken.symm.trans hk

theorem choose_cases (declared : Declarations) (preferred : Option String) :
    (preferred = some (declared.choose preferred) ∧ declared.choose preferred ≠ "" ∧
      declared.taken (declared.choose preferred) = false) ∨
    ∃ n, declared.choose preferred = generated n ∧ declared.taken (generated n) = false := by
  obtain ⟨n, -, hfresh, hfree, -⟩ := exists_fresh_eq declared
  unfold choose
  split
  · split
    · next h =>
      obtain ⟨hne, hnot⟩ := Bool.and_eq_true_iff.1 h
      exact .inl ⟨rfl, by simpa using hne, by simpa using hnot⟩
    · exact .inr ⟨n, hfresh, hfree⟩
  · exact .inr ⟨n, hfresh, hfree⟩

theorem taken_choose (declared : Declarations) (preferred : Option String) :
    declared.taken (declared.choose preferred) = false := by
  obtain ⟨-, -, hfree⟩ | ⟨n, hchoose, hfree⟩ := choose_cases declared preferred
  · exact hfree
  · rw [hchoose, hfree]

theorem choose_ne_empty (declared : Declarations) (preferred : Option String) :
    declared.choose preferred ≠ "" := by
  obtain ⟨-, hne, -⟩ | ⟨n, hchoose, -⟩ := choose_cases declared preferred
  · exact hne
  · rw [hchoose, Ne, ← String.toList_eq_nil_iff, toList_generated]
    exact List.cons_ne_nil _ _

theorem isNcName_choose (declared : Declarations) {preferred : Option String}
    (h : ∀ pfx, preferred = some pfx → Markup.isNcName pfx = true) :
    Markup.isNcName (declared.choose preferred) = true := by
  obtain ⟨hpreferred, -⟩ | ⟨n, hchoose, -⟩ := choose_cases declared preferred
  · exact h _ hpreferred
  · rw [hchoose, isNcName_generated]

theorem allocate_induction {P : Declarations → Prop} {attributes : List Attribute}
    (step : ∀ declared, P declared → ∀ a ∈ attributes, ∀ ns, a.ns = some ns → ns ≠ Markup.xmlNs →
      (∀ entry ∈ declared, entry.2 ≠ ns) → P (declared ++ [(declared.choose a.pfx, ns)]))
    (h : P declared) : P (declared.allocate attributes).1 := by
  induction attributes generalizing declared with
  | nil => exact h
  | cons a rest ih =>
    have later := fun other hother b (hb : b ∈ rest) =>
      step other hother b (List.mem_cons_of_mem a hb)
    rw [allocate]
    split
    · exact ih later h
    · next ns hns =>
      split
      · exact ih later h
      · next hxml =>
        apply ih later
        rw [prefixFor]
        split
        · exact h
        · next hfind =>
          refine step _ h a List.mem_cons_self ns hns hxml fun entry hentry heq => ?_
          exact absurd (List.find?_eq_none.1 hfind entry hentry) (by simp [heq])

theorem allocate_isPrefix (declared : Declarations) (attributes : List Attribute) :
    declared <+: (declared.allocate attributes).1 :=
  allocate_induction (P := fun final => declared <+: final)
    (fun _ h _ _ _ _ _ _ => h.trans (List.prefix_append _ _)) (List.prefix_refl _)

/-- The declarations of the tag that the attributes are in have each prefix once, and none that is
reserved. -/
structure Sound (declared : Declarations) : Prop where
  nodup : (declared.map Prod.fst).Nodup
  ne_xml : ∀ entry ∈ declared, entry.1 ≠ "xml"
  ne_xmlns : ∀ entry ∈ declared, entry.1 ≠ "xmlns"

theorem sound_nil : Sound [] := ⟨List.nodup_nil, nofun, nofun⟩

theorem nodup_map_concat {α : Type} {f : String × String → α} {entry : String × String}
    (h : (declared.map f).Nodup) (hnew : ∀ other ∈ declared, f other ≠ f entry) :
    ((declared ++ [entry]).map f).Nodup := by
  rw [List.map_append, List.map_singleton, ← List.concat_eq_append]
  apply h.concat
  intro hmem
  obtain ⟨other, hother, heq⟩ := List.mem_map.1 hmem
  exact hnew other hother heq

theorem Sound.concat {pfx ns : String} (h : Sound declared) (hfree : declared.taken pfx = false) :
    Sound (declared ++ [(pfx, ns)]) := by
  obtain ⟨hxml, hxmlns, hnew⟩ := taken_eq_false_iff.1 hfree
  refine ⟨nodup_map_concat h.nodup hnew, ?_, ?_⟩
  · simpa [or_imp, forall_and, hxml] using h.ne_xml
  · simpa [or_imp, forall_and, hxmlns] using h.ne_xmlns

theorem sound_allocate (h : Sound declared) (attributes : List Attribute) :
    Sound (declared.allocate attributes).1 :=
  allocate_induction (fun other hother a _ _ _ _ _ => hother.concat (other.taken_choose a.pfx)) h

theorem forall_mem_allocate {p : String × String → Prop} {attributes : List Attribute}
    (step : ∀ (other : Declarations), ∀ a ∈ attributes, ∀ ns, a.ns = some ns → ns ≠ Markup.xmlNs →
      p (other.choose a.pfx, ns)) : ∀ entry ∈ (allocate [] attributes).1, p entry := by
  apply allocate_induction (P := fun final => ∀ entry ∈ final, p entry)
  · intro other hother a ha ns hns hxml _ entry hentry
    obtain hentry | rfl := (List.mem_append.1 hentry).imp_right List.mem_singleton.1
    · exact hother entry hentry
    · exact step other a ha ns hns hxml
  · exact nofun

theorem isNcName_of_mem_allocate {attributes : List Attribute}
    (h : ∀ a ∈ attributes, ∀ pfx, a.pfx = some pfx → Markup.isNcName pfx = true) :
    ∀ entry ∈ (allocate [] attributes).1, Markup.isNcName entry.1 = true :=
  forall_mem_allocate fun other a ha _ _ _ => isNcName_choose other (h a ha)

theorem ne_empty_of_mem_allocate {attributes : List Attribute} :
    ∀ entry ∈ (allocate [] attributes).1, entry.1 ≠ "" :=
  forall_mem_allocate fun other a _ _ _ _ => choose_ne_empty other a.pfx

theorem exists_attribute_of_mem_allocate {attributes : List Attribute} :
    ∀ entry ∈ (allocate [] attributes).1,
      entry.2 ≠ Markup.xmlNs ∧ ∃ a ∈ attributes, a.ns = some entry.2 :=
  forall_mem_allocate fun _ a ha _ hns hxml => ⟨hxml, a, ha, hns⟩

def writtenPfx? (declared : Declarations) (a : Attribute) : Option String :=
  match a.ns with
  | none => none
  | some ns =>
    if ns = Markup.xmlNs then some "xml"
    else (declared.find? fun entry => entry.2 == ns).map Prod.fst

def writtenName (declared : Declarations) (a : Attribute) : String :=
  Markup.qualify (declared.writtenPfx? a) a.name

theorem find?_prefixFor (declared : Declarations) (preferred : Option String) (ns : String) :
    (declared.prefixFor preferred ns).2.find? (fun entry => entry.2 == ns) =
      some ((declared.prefixFor preferred ns).1, ns) := by
  rw [prefixFor]
  split
  · next entry hfind =>
    have hns : entry.2 = ns := by simpa using List.find?_some hfind
    rw [hfind, ← hns]
  · next hfind => simp [List.find?_append, hfind]

theorem writtenPfx?_allocate {a : Attribute} {ns : String} (hns : a.ns = some ns)
    (hxml : ns ≠ Markup.xmlNs) (rest : List Attribute) :
    ((declared.prefixFor a.pfx ns).2.allocate rest).1.writtenPfx? a =
      some (declared.prefixFor a.pfx ns).1 := by
  have hfind := (allocate_isPrefix _ rest).find?_eq_some (find?_prefixFor declared a.pfx ns)
  simp only [writtenPfx?, hns, if_neg hxml, hfind, Option.map_some]

theorem names_allocate (declared : Declarations) (attributes : List Attribute) :
    (declared.allocate attributes).2 =
      attributes.map (declared.allocate attributes).1.writtenName := by
  induction attributes generalizing declared with
  | nil => rfl
  | cons a rest ih =>
    rw [allocate]
    split
    · next hns =>
      rw [List.map_cons, ← ih]
      simp only [writtenName, writtenPfx?, hns, Markup.qualify]
    · next ns hns =>
      split
      · next hxml =>
        rw [List.map_cons, ← ih]
        simp only [writtenName, writtenPfx?, hns, if_pos hxml, Markup.qualify]
        rfl
      · next hxml =>
        rw [List.map_cons, ← ih]
        simp only [writtenName, writtenPfx?_allocate hns hxml, Markup.qualify]

/-- Which prefixes stand for which namespaces in the names of attributes. -/
inductive Carries (declared : Declarations) : Option String → Option String → Prop where
  | plain : Carries declared none none
  | xml : Carries declared (some "xml") (some Markup.xmlNs)
  | declared {pfx ns : String} (hxml : ns ≠ Markup.xmlNs) (hmem : (pfx, ns) ∈ declared) :
      Carries declared (some pfx) (some ns)

theorem exists_find?_allocate (declared : Declarations) {attributes : List Attribute}
    {a : Attribute} {ns : String}
    (ha : a ∈ attributes) (hns : a.ns = some ns) (hxml : ns ≠ Markup.xmlNs) :
    ∃ entry, (declared.allocate attributes).1.find? (fun entry => entry.2 == ns) = some entry := by
  induction attributes generalizing declared with
  | nil => cases ha
  | cons b rest ih =>
    rw [allocate]
    obtain rfl | ha := List.mem_cons.1 ha
    · simp only [hns, if_neg hxml]
      exact ⟨_, (allocate_isPrefix _ rest).find?_eq_some (find?_prefixFor _ _ _)⟩
    · split
      · exact ih _ ha
      · split <;> exact ih _ ha

theorem carries_writtenPfx? {attributes : List Attribute} {a : Attribute} (ha : a ∈ attributes) :
    (declared.allocate attributes).1.Carries
      ((declared.allocate attributes).1.writtenPfx? a) a.ns := by
  cases hns : a.ns with
  | none =>
    simp only [writtenPfx?, hns]
    exact .plain
  | some ns =>
    by_cases hxml : ns = Markup.xmlNs
    · subst hxml
      simp only [writtenPfx?, hns, ↓reduceIte]
      exact .xml
    · obtain ⟨⟨pfx, other⟩, hfind⟩ := exists_find?_allocate declared ha hns hxml
      obtain rfl : other = ns := by simpa using List.find?_some hfind
      simp only [writtenPfx?, hns, if_neg hxml, hfind, Option.map_some]
      exact .declared hxml (List.mem_of_find?_eq_some hfind)

theorem Carries.ns_inj {pfx? ns? ns'? : Option String} (h : declared.Carries pfx? ns?)
    (h' : declared.Carries pfx? ns'?) (hsound : Sound declared) : ns? = ns'? := by
  cases h with
  | plain =>
    cases h'
    rfl
  | xml =>
    cases h' with
    | xml => rfl
    | declared hxml hmem => exact absurd rfl (hsound.ne_xml _ hmem)
  | declared hxml hmem =>
    cases h' with
    | xml => exact absurd rfl (hsound.ne_xml _ hmem)
    | declared hxml' hmem' =>
      have heq := List.inj_on_of_nodup_map hsound.nodup hmem hmem' rfl
      rw [(Prod.mk.inj heq).2]

/-- Attributes with the same name in their tag are in the same namespace and have the same name. -/
theorem eq_of_writtenName_eq {attributes : List Attribute} {a b : Attribute}
    (hsound : Sound (declared.allocate attributes).1) (ha : a ∈ attributes) (hb : b ∈ attributes)
    (hacolon : ':' ∉ a.name.toList) (hbcolon : ':' ∉ b.name.toList)
    (heq : (declared.allocate attributes).1.writtenName a =
      (declared.allocate attributes).1.writtenName b) :
    a.ns = b.ns ∧ a.name = b.name := by
  obtain ⟨hpfx, hname⟩ := (Markup.qualify_inj hacolon hbcolon).1 heq
  have hcarries := @carries_writtenPfx? declared attributes a ha
  have hcarries' := @carries_writtenPfx? declared attributes b hb
  exact ⟨hcarries.ns_inj (hpfx ▸ hcarries') hsound, hname⟩

end Output.Declarations

end MarkupSnippets

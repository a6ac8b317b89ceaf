import MarkupSnippets.Proofs.Definitions
import MarkupSnippets.Proofs.Lockstep

namespace MarkupSnippets.Workshop

variable {w : Workshop}

/-- Without calls a production depends on nothing but the values that the paths in the stored
templates lead to. -/
theorem produce_congr (hhost : ¬w.UsesHost) {data other : Data} (h : data.AgreeOn w.Reads other)
    (key : Key) : w.produce key data = w.produce key other := by
  let accord : Accord := ⟨w.Reads, False, True⟩
  have hbetween : accord.Between w w.registry :=
    ⟨fun _ => .refl _ _, fun _ hpath => hpath, hhost, nofun⟩
  have hdata : accord.SameData data other := ⟨h, nofun⟩
  exact (same_outcome hbetween (.snippet .empty key hdata (.refl _ []))).eq trivial

/-- What an entry holds that no stored template refers to makes no difference. -/
theorem produce_insert_of_unread (hhost : ¬w.UsesHost) {k : String}
    (hunread : ∀ path, w.Reads path → firstSegment? path ≠ some k) (key : Key) (data : Data)
    (v : Value) : w.produce key (data.insert k v) = w.produce key data :=
  produce_congr hhost (fun path hpath => resolve?_insert_of_ne (hunread path hpath) data v) key

def peopleSnippet : Snippet where
  key := Key.ofString "/people"
  source := "s"
  ns := "h"
  template := ⟨⟨none, none, "ul", []⟩, [
    .element ⟨some "d", some "d", "for-each", [⟨none, none, "list", "people"⟩]⟩
      [.element ⟨none, none, "li", []⟩ [.text "\x7b\x7bname\x7d\x7d"]]]⟩

def peopleLoop : Workshop where
  settings := ⟨"d", "h", "doc"⟩
  registry := Registry.empty.put peopleSnippet
  host := fun _ target _ => (target, none)

def peopleData : Data :=
  Record.empty.insert "people"
    (.list [.record (.cons "name" (.text "Ann") (.cons "note" .null .nil))])

theorem get?_peopleLoop {key : Key} {snippet : Snippet}
    (h : peopleLoop.registry.get? key = some snippet) : snippet = peopleSnippet := by
  rw [peopleLoop, Registry.get?_put] at h
  split at h
  · exact (Option.some.inj h).symm
  · cases h

theorem peopleSnippet_paths : peopleSnippet.template.paths "d" = ["people", "name"] := by
  have hpieces : Piece.pieces "\x7b\x7bname\x7d\x7d".toList =
      [.plain [], .reference "name".toList, .plain []] := by
    simp [Piece.pieces, Piece.opening, Piece.closing, Text.splitAt?, Text.dropStart?]
  have hname : Placeholder.paths "\x7b\x7bname\x7d\x7d" = ["name"] := by
    rw [Placeholder.paths, Placeholder.all, hpieces]
    rfl
  have hpaths : peopleSnippet.template.paths "d" =
      "people" :: (((Placeholder.paths "\x7b\x7bname\x7d\x7d" ++ []) ++ []) ++ []) := rfl
  rw [hpaths, hname]
  rfl

theorem produce_insert_of_unread_in_item :
    ¬peopleLoop.UsesHost ∧
      (∀ path, peopleLoop.Reads path → firstSegment? path ≠ some "note") ∧
      peopleLoop.produce peopleSnippet.key (peopleData.insert "note" (.bool true)) =
        peopleLoop.produce peopleSnippet.key peopleData := by
  have hhost : ¬peopleLoop.UsesHost := by
    rintro ⟨key, snippet, hget, huses⟩
    rw [get?_peopleLoop hget] at huses
    cases huses
  have hunread : ∀ path, peopleLoop.Reads path → firstSegment? path ≠ some "note" := by
    rintro path ⟨key, snippet, hget, hpath⟩
    rw [get?_peopleLoop hget] at hpath
    change path ∈ peopleSnippet.template.paths "d" at hpath
    rw [peopleSnippet_paths] at hpath
    have hall : ∀ path ∈ ["people", "name"], firstSegment? path ≠ some "note" := by decide
    exact hall path hpath
  exact ⟨hhost, hunread, produce_insert_of_unread hhost hunread _ _ _⟩

/-- Stores that differ in the prefixes of their templates only give outcomes that differ in the
prefixes of the output only, and in the texts of warnings and places that show them. -/
theorem unprefixed_produce {other : Registry} (hhost : w.host.IgnoresPrefixes)
    (hstored : ∀ key, (w.registry.get? key).map Snippet.unprefixed =
      (other.get? key).map Snippet.unprefixed) (key : Key) (data : Data) :
    outcomeUnprefixed (w.produce key data) =
      outcomeUnprefixed ((w.withRegistry other).produce key data) := by
  let accord : Accord := ⟨fun _ => True, True, False⟩
  have hbetween : accord.Between w other :=
    ⟨fun key => ⟨hstored key, nofun⟩, fun _ _ => trivial, fun _ => trivial, fun _ => hhost⟩
  have hdata : accord.SameData data data := ⟨fun _ _ => rfl, fun _ => rfl⟩
  exact (same_outcome hbetween (.snippet .empty key hdata (.refl _ []))).unprefixed_eq

def itemTemplate (pfx directivePfx : Option String) : Markup.Element where
  tag := ⟨none, none, "li",
    [⟨some "x", pfx, "class", "a"⟩, ⟨some "d", directivePfx, "stray", ""⟩]⟩
  children :=
    [.element ⟨some "d", directivePfx, "call-function", [⟨none, none, "name", "mark"⟩]⟩ []]

def prefixed (pfx directivePfx : Option String) : Workshop where
  settings := ⟨"d", "h", "doc"⟩
  registry := Registry.empty.put ⟨itemSnippet.key, "s", "h", itemTemplate pfx directivePfx⟩
  host := fun _ target _ => (target.setAttribute ⟨some "x", none, "class", "b"⟩, none)

theorem unprefixed_produce_prefixed :
    (prefixed (some "x") (some "d")).host.IgnoresPrefixes ∧
      (∀ key, ((prefixed (some "x") (some "d")).registry.get? key).map Snippet.unprefixed =
        ((prefixed (some "y") none).registry.get? key).map Snippet.unprefixed) ∧
      outcomeUnprefixed ((prefixed (some "x") (some "d")).produce itemSnippet.key
          (Record.empty.insert "mark" (.callable "mark"))) =
        outcomeUnprefixed (((prefixed (some "x") (some "d")).withRegistry
          (prefixed (some "y") none).registry).produce itemSnippet.key
            (Record.empty.insert "mark" (.callable "mark"))) := by
  have hhost : (prefixed (some "x") (some "d")).host.IgnoresPrefixes := by
    intro name data e f heq
    refine ⟨?_, rfl⟩
    simp only [prefixed, Output.Element.unprefixed_setAttribute, heq]
  have hstored : ∀ key,
      ((prefixed (some "x") (some "d")).registry.get? key).map Snippet.unprefixed =
        ((prefixed (some "y") none).registry.get? key).map Snippet.unprefixed := by
    intro key
    rw [prefixed, prefixed, Registry.get?_put, Registry.get?_put]
    split <;> rfl
  exact ⟨hhost, hstored, unprefixed_produce hhost hstored _ _⟩

end MarkupSnippets.Workshop

import MarkupSnippets.Proofs.Loop
import MarkupSnippets.Proofs.Segments

namespace MarkupSnippets

namespace Record

variable {α : Type}

def mergeAll (base : Record α) (overlays : List (Record α)) : Record α :=
  overlays.foldl (fun scope overlay => scope.merge overlay.fields) base

/-- The last of the records laid over a base that has an entry for the key; the base if none has
one. -/
def owner (base : Record α) (overlays : List (Record α)) (key : String) : Record α :=
  (overlays.reverse.find? (·.contains key)).getD base

theorem get?_mergeAll (base : Record α) (overlays : List (Record α)) (key : String) :
    (base.mergeAll overlays).get? key = (base.owner overlays key).get? key := by
  induction overlays using List.reverseRecOn with
  | nil => rfl
  | append_singleton overlays overlay ih =>
    have hmerge : base.mergeAll (overlays ++ [overlay]) =
        (base.mergeAll overlays).merge overlay.fields := List.foldl_concat ..
    rw [hmerge, get?_merge, ih, owner, owner, List.reverse_concat, List.find?_cons, contains]
    cases hkey : overlay.get? key with
    | none => rfl
    | some v => exact hkey.symm

theorem merge_assoc (r s t : Record α) :
    (r.merge s.fields).merge t.fields = r.merge (s.merge t.fields).fields := by
  ext1 query
  simp only [get?_merge, Option.or_assoc]

theorem merge_empty (r : Record α) : r.merge empty.fields = r := rfl

theorem empty_merge (r : Record α) : empty.merge r.fields = r := by
  ext1 query
  rw [get?_merge]
  exact Option.or_none

end Record

/-- Records laid over one another hide an entry as a whole: a path is followed in the owner of its
first segment, even if it leads nowhere there. -/
theorem resolve?_mergeAll (data : Data) (overlays : List Data) (path : String) :
    resolve? (data.mergeAll overlays) path =
      (firstSegment? path).bind fun key => resolve? (data.owner overlays key) path := by
  rw [resolve?_eq]
  refine Option.bind_congr fun key hkey => ?_
  rw [resolve?_eq, hkey, Option.bind_some, Record.get?_mergeAll]

namespace Value

def resolveIn? (path : String) : Value → Option Value
  | record fields =>
    if Text.trim path = "" then none
    else (record fields).descend? (Text.split '.' (Text.trim path))
  | _ => none

theorem resolveIn?_record (data : Data) (path : String) :
    (record data.fields).resolveIn? path = resolve? data path := rfl

theorem descend?_append (v : Value) (segments others : List String) :
    v.descend? (segments ++ others) = (v.descend? segments).bind fun w => w.descend? others := by
  induction segments generalizing v with
  | nil => cases v <;> rfl
  | cons segment segments ih =>
    cases v with
    | record fields =>
      rw [List.cons_append, descend?, descend?, Option.bind_assoc]
      exact Option.bind_congr fun w _ => ih w
    | _ => rfl

theorem descend?_split (v : Value) {path : String} (hpath : path ≠ "")
    (htrim : Text.trim path = path) : v.descend? (Text.split '.' path) = v.resolveIn? path := by
  cases v with
  | record fields => rw [resolveIn?, htrim, if_neg hpath]
  | _ =>
    obtain ⟨segment, rest, hsplit⟩ := List.exists_cons_of_ne_nil
      (mt List.map_eq_nil_iff.1 (Text.splitChars_ne_nil '.' path.toList))
    rw [Text.split, hsplit]
    rfl

end Value

namespace Text

theorem split_append (p q : String) :
    split '.' (p ++ "." ++ q) = split '.' p ++ split '.' q := by
  have hchars : (p ++ "." ++ q).toList = p.toList ++ '.' :: q.toList := by simp
  rw [split, split, split, hchars, splitChars_append_cons, List.map_append]

theorem trimChars_of_trim_eq {s : String} (h : trim s = s) : trimChars s.toList = s.toList := by
  have hchars := congrArg String.toList h
  rwa [trim, String.toList_ofList] at hchars

theorem trim_append {p q : String} (hp : trim p = p) (hq : trim q = q) (hpne : p ≠ "")
    (hqne : q ≠ "") : trim (p ++ "." ++ q) = p ++ "." ++ q := by
  have hchars : (p ++ "." ++ q).toList = p.toList ++ (['.'] ++ q.toList) := by simp
  rw [trim, hchars, trimChars_append (trimChars_of_trim_eq hp) (trimChars_of_trim_eq hq)
    (mt String.toList_eq_nil_iff.1 hpne) (mt String.toList_eq_nil_iff.1 hqne), ← hchars,
    String.ofList_toList]

end Text

theorem resolve?_append (data : Data) {p q : String} (hp : p ≠ "") (hptrim : Text.trim p = p)
    (hq : q ≠ "") (hqtrim : Text.trim q = q) :
    resolve? data (p ++ "." ++ q) = (resolve? data p).bind (Value.resolveIn? q) := by
  have htrim : Text.trim (p ++ "." ++ q) = p ++ "." ++ q := Text.trim_append hptrim hqtrim hp hq
  have hne : p ++ "." ++ q ≠ "" := by
    intro h
    have hlength := congrArg String.length h
    simp only [String.length_append] at hlength
    exact absurd hlength (by simp)
  calc resolve? data (p ++ "." ++ q)
      = (Value.record data.fields).descend? (Text.split '.' (p ++ "." ++ q)) := by
        rw [Value.descend?_split _ hne htrim, Value.resolveIn?_record]
    _ = ((Value.record data.fields).descend? (Text.split '.' p)).bind fun v =>
          v.descend? (Text.split '.' q) := by
        rw [Text.split_append, Value.descend?_append]
    _ = (resolve? data p).bind (Value.resolveIn? q) := by
        rw [Value.descend?_split _ hp hptrim, Value.resolveIn?_record]
        exact Option.bind_congr fun v _ => v.descend?_split hq hqtrim

/-- In records laid over one another a path is followed in the innermost that has an entry for its
first segment, and nowhere else. Laying over is associative and leaves a record as it is with the
empty one. A path that is cut at a dot leads to where its second part leads from the record that the
first part leads to; if this is no record, it leads nowhere. -/
theorem lookup_in_scopes (data : Data) :
    (∀ overlays path, resolve? (data.mergeAll overlays) path =
      (firstSegment? path).bind fun key => resolve? (data.owner overlays key) path) ∧
    (∀ inner innermost : Data, (data.merge inner.fields).merge innermost.fields =
      data.merge (inner.merge innermost.fields).fields) ∧
    data.merge Record.empty.fields = data ∧ Record.empty.merge data.fields = data ∧
    (∀ (inner : Data) q, (Value.record inner.fields).resolveIn? q = resolve? inner q) ∧
    ∀ p q, p ≠ "" → Text.trim p = p → q ≠ "" → Text.trim q = q →
      resolve? data (p ++ "." ++ q) = (resolve? data p).bind (Value.resolveIn? q) :=
  ⟨resolve?_mergeAll data, data.merge_assoc, data.merge_empty, data.empty_merge,
    Value.resolveIn?_record,
    fun _ _ hp hptrim hq hqtrim => resolve?_append data hp hptrim hq hqtrim⟩

def pageData : Data :=
  Record.empty.insert "menu"
    (.record (.cons "title" (.text "All")
      (.cons "top" (.record (.cons "id" (.text "1") .nil)) .nil)))

def menuData : Data :=
  Record.empty.insert "menu" (.record (.cons "top" (.record (.cons "id" (.text "2") .nil)) .nil))

def itemData : Data := Record.empty.insert "item" (.text "3")

/-- The inner menu has no title, so there is none; its other entries are found through both records
around it. -/
theorem lookup_in_scopes_shadowed :
    resolve? pageData "menu.title" = some (.text "All") ∧
      resolve? (pageData.mergeAll [menuData, itemData]) "menu.title" = none ∧
      Text.trim "menu.top" = "menu.top" ∧ Text.trim "id" = "id" ∧
      resolve? (pageData.mergeAll [menuData, itemData]) ("menu.top" ++ "." ++ "id") =
        some (.text "2") := by
  obtain ⟨hscopes, -⟩ := lookup_in_scopes pageData
  obtain ⟨-, -, -, -, -, hcut⟩ := lookup_in_scopes (pageData.mergeAll [menuData, itemData])
  have htop : Text.trim "menu.top" = "menu.top" := by decide
  have hid : Text.trim "id" = "id" := by decide
  refine ⟨rfl, ?_, htop, hid, ?_⟩
  · rw [hscopes]
    rfl
  · rw [hcut "menu.top" "id" (by decide) htop (by decide) hid]
    rfl

end MarkupSnippets

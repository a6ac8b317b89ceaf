import MarkupSnippets.CommandLine.Run
import MarkupSnippets.Proofs.History
import MarkupSnippets.Proofs.Listing

namespace MarkupSnippets

theorem Key.liesIn_root (key : Key) : key.LiesIn (Key.groupPath "/") := by
  have hroot : (Key.groupPath "/").toList = ['/'] := by decide +kernel
  refine ⟨key.chars.tail, ?_⟩
  rw [hroot, ← key.normal]
  rfl

namespace Registry

variable {r : Registry}

theorem groupPath_of_mem {path g : String} (h : g ∈ Key.groupPath path :: r.listGroups path true) :
    Key.groupPath g = g := by
  obtain rfl | h := List.mem_cons.1 h
  · exact Key.groupPath_groupPath path
  · rw [listGroups, if_pos rfl, Key.mem_groupsBelow] at h
    obtain ⟨key, -, hlies⟩ := h.inhabited
    exact Key.groupPath_of_liesIn h.isPath hlies

theorem group_of_mem_listSnippets {path : String} {key : Key}
    (h : key ∈ r.listSnippets path false) : key.group = Key.groupPath path :=
  beq_iff_eq.1 (List.mem_filter.1 h).2

/-- The recursive list of keys goes through the groups as the recursive list of groups does. -/
theorem flatMap_listSnippets (r : Registry) (path : String) :
    (Key.groupPath path :: r.listGroups path true).flatMap (r.listSnippets · false) =
      r.listSnippets path true := by
  have hmembers : ∀ g ∈ Key.groupPath path :: r.listGroups path true,
      r.listSnippets g false = Key.members r.keys g := by
    intro g hg
    simp only [listSnippets, Bool.false_eq_true, ↓reduceIte, groupPath_of_mem hg]
  rw [List.flatMap_congr hmembers, listSnippets, if_pos rfl, Key.below_eq_flatMap, listGroups,
    if_pos rfl]

end Registry

theorem Engine.reached_after {engine : Engine} (h : engine.registry.Reached)
    (request : ImportRequest) : (engine.after request).registry.Reached := by
  rw [after_eq]
  split
  · exact (h.putAll _).markSource _
  · exact h

namespace CommandLine

theorem bind_eq_ok {α β ε : Type} {x : Except ε α} {f : α → Except ε β} {b : β}
    (h : x >>= f = .ok b) : ∃ a, x = .ok a ∧ f a = .ok b := by
  cases x with
  | ok a => exact ⟨a, rfl, h⟩
  | error e => cases h

namespace Options

variable {o : Options} {files : Files} {session session' : Session} {data : Data}

theorem reached_importFile {path : String} (h : session.engine.registry.Reached)
    (himport : o.importFile files session path = .ok session') :
    session'.engine.registry.Reached := by
  rw [importFile] at himport
  split at himport
  · cases himport
  · next text _ =>
    simp only at himport
    split at himport
    · cases himport
    · obtain rfl := Except.ok.inj himport
      exact Engine.reached_after h (.ofText path text)

theorem reached_importFiles {paths : List String} (h : session.engine.registry.Reached)
    (himport : paths.foldlM (o.importFile files) session = .ok session') :
    session'.engine.registry.Reached := by
  induction paths generalizing session with
  | nil =>
    obtain rfl := Except.ok.inj himport
    exact h
  | cons path paths ih =>
    rw [List.foldlM_cons] at himport
    obtain ⟨next, hnext, himport⟩ := bind_eq_ok himport
    exact ih (reached_importFile h hnext) himport

theorem reached_prepare {data : Data} (h : o.prepare files = .ok (session, data)) :
    session.engine.registry.Reached := by
  cases hsettings : o.settings <;> cases hdata : o.data
  all_goals
    simp only [prepare, hsettings, hdata] at h
    obtain ⟨settings, -, h⟩ := bind_eq_ok h
    obtain ⟨data, -, h⟩ := bind_eq_ok h
    obtain ⟨filled, hfilled, h⟩ := bind_eq_ok h
    obtain ⟨rfl, -⟩ := Prod.mk.inj (Except.ok.inj h)
    exact reached_importFiles .empty hfilled

theorem output_run (h : o.prepare files = .ok (session, data)) (hlist : o.list = true) :
    ∃ produced, (o.run files).output = unlines (listing session.engine.registry) ++ produced ∧
      (o.snippet = none → produced = "") := by
  rw [run, h]
  simp only [hlist, ↓reduceIte]
  cases hsnippet : o.snippet with
  | none => exact ⟨"", String.append_empty.symm, fun _ => rfl⟩
  | some key =>
    refine Exists.imp (fun _ hout => ⟨hout, fun hnone => nomatch hnone⟩) ?_
    dsimp only
    cases session.engine.produce noHost (Key.ofString key) data with
    | ok draft => exact ⟨draft.target.toXml ++ "\n", String.append_assoc ..⟩
    | error error => cases error <;> exact ⟨"", String.append_empty.symm⟩

end Options

/-- Read the lines of a listing. A line that is set in is a key in the group whose line came last;
another line is that of a group if it ends in a slash behind the first one. -/
def readListing (group : String) : List String → List (String × String)
  | [] => []
  | line :: rest =>
    match Text.dropStart? [' ', ' '] line.toList with
    | some key => (group, String.ofList key) :: readListing group rest
    | none =>
      if line.toList.getLast? = some '/' ∧ 1 < line.length then readListing line rest
      else (group, line) :: readListing group rest

theorem readListing_group {g : String} (hgroup : Key.IsPath g) (hlength : 1 < g.length)
    (hstarts : ['/'] <+: g.toList) (group : String) (rest : List String) :
    readListing group (g :: rest) = readListing g rest := by
  obtain ⟨cs, hcs⟩ := hstarts
  have hdrop : Text.dropStart? [' ', ' '] g.toList = none := by
    rw [← hcs]
    rfl
  rw [readListing, hdrop]
  exact if_pos ⟨hgroup, hlength⟩

theorem readListing_setIn (group : String) (keys : List Key) (rest : List String) :
    readListing group ((keys.map fun key => "  " ++ key.text) ++ rest) =
      keys.map (fun key => (group, key.text)) ++ readListing group rest := by
  induction keys with
  | nil => rfl
  | cons key keys ih =>
    have hdrop : Text.dropStart? [' ', ' '] ("  " ++ key.text).toList = some key.text.toList := by
      rw [Text.dropStart?_eq_some, String.toList_append]
      rfl
    rw [List.map_cons, List.cons_append, readListing, hdrop]
    simp only [String.ofList_toList, ih, List.map_cons, List.cons_append]

theorem readListing_top {keys : List Key}
    (h : ∀ key ∈ keys, ∃ name, key.chars = '/' :: name ∧ '/' ∉ name) (group : String)
    (rest : List String) :
    readListing group (keys.map Key.text ++ rest) =
      keys.map (fun key => (group, key.text)) ++ readListing group rest := by
  induction keys with
  | nil => rfl
  | cons key keys ih =>
    obtain ⟨name, hname, hslash⟩ := h key List.mem_cons_self
    have htext : key.text.toList = '/' :: name := by rw [Key.text, String.toList_ofList, hname]
    have hdrop : Text.dropStart? [' ', ' '] key.text.toList = none := by
      rw [htext]
      rfl
    have hkey : ¬(key.text.toList.getLast? = some '/' ∧ 1 < key.text.length) := by
      rintro ⟨hlast, hlength⟩
      rw [← String.length_toList] at hlength
      rw [htext] at hlast hlength
      cases name with
      | nil => exact Nat.lt_irrefl 1 hlength
      | cons c cs =>
        rw [List.getLast?_cons_cons] at hlast
        exact hslash (List.mem_of_getLast? hlast)
    rw [List.map_cons, List.cons_append, readListing, hdrop]
    simp only [hkey, ↓reduceIte, ih fun key hkey => h key (List.mem_cons_of_mem _ hkey),
      List.map_cons, List.cons_append]

theorem readListing_groups {r : Registry} {groups : List String}
    (h : ∀ g ∈ groups, Key.IsPath g ∧ 1 < g.length ∧ ['/'] <+: g.toList) (group : String) :
    readListing group (groups.flatMap fun g =>
        g :: (r.listSnippets g false).map fun key => "  " ++ key.text) =
      groups.flatMap fun g => (r.listSnippets g false).map fun key => (g, key.text) := by
  induction groups generalizing group with
  | nil => rfl
  | cons g groups ih =>
    obtain ⟨hpath, hlength, hstarts⟩ := h g List.mem_cons_self
    rw [List.flatMap_cons, List.flatMap_cons, List.cons_append,
      readListing_group hpath hlength hstarts, readListing_setIn,
      ih fun g hg => h g (List.mem_cons_of_mem _ hg)]

theorem readListing_listing (r : Registry) :
    readListing "/" (listing r) =
      (r.listSnippets "/" true).map fun key => (key.group, key.text) := by
  have htop : ∀ key ∈ r.listSnippets "/" false, ∃ name, key.chars = '/' :: name ∧ '/' ∉ name :=
    fun key hkey => ((Key.mem_members (Key.isPath_groupPath "/")).1 hkey).2
  have hgroups : ∀ g ∈ r.listGroups "/" true,
      Key.IsPath g ∧ 1 < g.length ∧ ['/'] <+: g.toList := by
    intro g hg
    rw [Registry.listGroups, if_pos rfl, Key.mem_groupsBelow, Key.isBelow_iff] at hg
    exact ⟨hg.1, hg.2.1, hg.2.2.1⟩
  have hroot : Key.groupPath "/" = "/" := by decide +kernel
  have hlist := r.flatMap_listSnippets "/"
  rw [hroot] at hlist
  have hkeys : ∀ g ∈ "/" :: r.listGroups "/" true,
      (r.listSnippets g false).map (fun key => (g, key.text)) =
        (r.listSnippets g false).map fun key => (key.group, key.text) := by
    intro g hg
    refine List.map_congr_left fun key hkey => ?_
    rw [← hroot] at hg
    rw [Registry.group_of_mem_listSnippets hkey, Registry.groupPath_of_mem hg]
  rw [listing, readListing_top htop, readListing_groups hgroups, ← hlist, List.map_flatMap]
  exact List.flatMap_congr hkeys

/-- The recursive list of keys is made of the members of the groups in the order of their list. So
the listing of a run has each stored key once and under its own group, in the order of the recursive
list. -/
theorem listings_agree :
    (∀ (r : Registry) (path : String),
      (Key.groupPath path :: r.listGroups path true).flatMap (r.listSnippets · false) =
        r.listSnippets path true) ∧
    ∀ (o : Options) (files : Files) (session : Session) (data : Data),
      o.prepare files = .ok (session, data) → o.list = true →
        let r := session.engine.registry
        (∃ produced, (o.run files).output = unlines (listing r) ++ produced ∧
          (o.snippet = none → produced = "")) ∧
        readListing "/" (listing r) =
          (r.listSnippets "/" true).map (fun key => (key.group, key.text)) ∧
        (r.listSnippets "/" true).Nodup ∧
        ∀ key, key ∈ r.listSnippets "/" true ↔ r.has key = true := by
  refine ⟨Registry.flatMap_listSnippets, fun o files session data hprepare hlist => ?_⟩
  have hreached := Options.reached_prepare hprepare
  refine ⟨?_, readListing_listing _,
    Key.nodup_below (Registry.nodup_keys hreached) (Key.isPath_groupPath "/"), fun key => ?_⟩
  · exact Options.output_run hprepare hlist
  · rw [Registry.mem_listSnippets hreached]
    exact and_iff_left key.liesIn_root

def groupedText : String :=
  "<pagesnippets xmlns=\"https://github.com/suppenhuhn79/pagesnippets\">" ++
  "<snippet name=\"top\"><p/></snippet>" ++
  "<snippet-group name=\"nav\"><snippet name=\"item\"><li/></snippet></snippet-group>" ++
  "</pagesnippets>"

def groupedFiles : Files
  | "grouped.xml" => .ok groupedText
  | _ => .error .notFound

def groupedOptions : Options := { Options.start with files := ["grouped.xml"], list := true }

theorem groupedOptions_prepare :
    ∃ session data, groupedOptions.prepare groupedFiles = .ok (session, data) ∧
      (session.engine.registry.listSnippets "/" true).map (fun key => (key.group, key.text)) =
        [("/", "/top"), ("/nav/", "/nav/item")] := by
  have hlist : (match groupedOptions.prepare groupedFiles with
      | .ok (session, _) =>
        (session.engine.registry.listSnippets "/" true).map (fun key => (key.group, key.text))
      | .error _ => []) = [("/", "/top"), ("/nav/", "/nav/item")] := by decide +kernel
  split at hlist
  · next hprepare => exact ⟨_, _, hprepare, hlist⟩
  · cases hlist

theorem listings_agree_grouped :
    groupedOptions.list = true ∧
      ∃ session data, groupedOptions.prepare groupedFiles = .ok (session, data) ∧
        (groupedOptions.run groupedFiles).output = unlines (listing session.engine.registry) ∧
        readListing "/" (listing session.engine.registry) =
          [("/", "/top"), ("/nav/", "/nav/item")] := by
  obtain ⟨session, data, hprepare, hlist⟩ := groupedOptions_prepare
  obtain ⟨⟨produced, hout, hnone⟩, hread, -⟩ :=
    listings_agree.2 groupedOptions groupedFiles session data hprepare rfl
  refine ⟨rfl, session, data, hprepare, ?_, hread.trans hlist⟩
  rw [hout, hnone rfl, String.append_empty]

end CommandLine

end MarkupSnippets

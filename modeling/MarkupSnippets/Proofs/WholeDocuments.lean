import MarkupSnippets.Proofs.Pieces

namespace MarkupSnippets.Markup

namespace Reading

variable {r r' : Reading} {root : Element}

@[simp] theorem text_root (r : Reading) (content : String) : (r.text content).root = r.root := by
  obtain ⟨elements, root⟩ := r
  cases elements <;> rfl

theorem add_eq_ok {element : Element} (h : r.add element = .ok r') :
    r'.root = r.root ∨ r.root = none ∧ r'.elements = [] := by
  obtain ⟨elements, root⟩ := r
  cases elements with
  | cons e outer =>
    obtain rfl := Except.ok.inj h
    exact .inl rfl
  | nil =>
    cases root with
    | some root => cases h
    | none =>
      obtain rfl := Except.ok.inj h
      exact .inr ⟨rfl, rfl⟩

theorem step_eq_ok {event : Event} (h : r.step event = .ok r') :
    r'.root = r.root ∨ r.root = none ∧ r'.elements = [] := by
  obtain ⟨elements, root⟩ := r
  -- Only a tag that closes the outermost element makes a root, and only if there is none.
  cases event with
  | opening content =>
    simp only [step, open?] at h
    split at h
    · cases h
    · split at h
      · cases h
      · obtain rfl := Except.ok.inj h
        exact .inl rfl
  | empty content =>
    simp only [step, empty?] at h
    split at h
    · cases h
    · exact add_eq_ok h
  | closing name =>
    simp only [step, close?] at h
    split at h
    · cases h
    · next e outer =>
      split at h
      · exact add_eq_ok (r := ⟨outer, root⟩) h
      · cases h
  | text content =>
    obtain rfl := Except.ok.inj h
    exact .inl (text_root _ _)
  | fault fault => cases h

theorem root_of_run {cs : List Char} (hroot : r.root = some root) (h : r.run cs = .ok r') :
    r'.root = some root := by
  refine run_keeps (P := fun r => r.root = some root) (fun r event next hr hstep => ?_) hroot h
  obtain heq | ⟨hnone, -⟩ := step_eq_ok hstep
  · rw [heq, hr]
  · rw [hr] at hnone
    cases hnone

theorem step_behind_root {event : Event} (h : start.step event = .ok r') (root : Element) :
    r' = start ∧ Reading.step ⟨[], some root⟩ event = .ok ⟨[], some root⟩ ∨
      Reading.step ⟨[], some root⟩ event = .error .trailing := by
  have hscope : (Reading.mk [] (some root)).scope = start.scope := rfl
  cases event with
  | opening content =>
    simp only [step, open?, hscope] at h ⊢
    cases hread : readOpening start.scope content with
    | error fault => rw [hread] at h; cases h
    | ok opening => exact .inr rfl
  | empty content =>
    simp only [step, empty?, hscope] at h ⊢
    cases hread : readOpening start.scope content with
    | error fault => rw [hread] at h; cases h
    | ok opening => exact .inr rfl
  | closing name => cases h
  | text content => exact .inl ⟨(Except.ok.inj h).symm, rfl⟩
  | fault fault => cases h

theorem trailing_of_run {cs : List Char} (root : Element) (hroot : r'.root ≠ none)
    (h : start.run cs = .ok r') : Reading.run ⟨[], some root⟩ cs = .error .trailing := by
  rw [run] at h ⊢
  generalize events cs = pieces at h ⊢
  induction pieces with
  | nil =>
    obtain rfl := Except.ok.inj h
    exact absurd rfl hroot
  | cons event pieces ih =>
    rw [List.foldlM_cons] at h ⊢
    cases hstep : start.step event with
    | error => rw [hstep] at h; cases h
    | ok next =>
      rw [hstep] at h
      obtain ⟨rfl, hbehind⟩ | hbehind := step_behind_root hstep root
      · rw [hbehind]
        exact ih h
      · rw [hbehind]
        rfl

theorem run_of_plain {cs : List Char} (h : ∀ c ∈ cs, isPlain c = true) (root : Option Element) :
    Reading.run ⟨[], root⟩ cs = .ok ⟨[], root⟩ := by
  induction cs with
  | nil => exact run_nil _
  | cons c cs ih =>
    rw [run_plain (h c List.mem_cons_self)]
    exact ih fun d hd => h d (List.mem_cons_of_mem c hd)

theorem finish_eq_ok_iff : r.finish = .ok root ↔ r = ⟨[], some root⟩ := by
  obtain ⟨elements, complete⟩ := r
  cases elements <;> cases complete <;> simp [finish]

end Reading

open Reading (start)

/-- Whether the root element is complete behind a tag, given without its `<`, and not before. -/
def LastTag (r : Reading) (before tag after : List Char) (root : Element) : Prop :=
  ∃ outer event, r.run before = .ok outer ∧ outer.root = none ∧
    readMarkup (tag ++ after) = .ok (some event, after) ∧ outer.step event = .ok ⟨[], some root⟩

variable {r : Reading} {root : Element} {before tag after : List Char}

theorem eq_open_of_completes {c : Char} {cs rest : List Char} {event : Option Event}
    {next : Reading} (hread : readPiece c cs = .ok (event, rest))
    (hstep : r.stepOver event = .ok next) (hroot : next.root ≠ r.root) : c = '<' := by
  by_contra hopen
  obtain ⟨content, rfl⟩ : ∃ content, event = some (.text content) := by
    rw [readPiece, if_neg hopen] at hread
    split at hread
    · unfold readReference at hread
      split at hread
      · obtain ⟨content, -, heq⟩ := map_eq_ok hread
        exact ⟨content, (Prod.mk.inj heq).1.symm⟩
      · cases hread
    · exact ⟨[c], (Prod.mk.inj (Except.ok.inj hread)).1.symm⟩
  rw [Reading.stepOver_some] at hstep
  obtain rfl := Except.ok.inj hstep
  exact hroot (Reading.text_root r _)

theorem exists_of_completes {event : Option Event} {next : Reading}
    (hstep : r.stepOver event = .ok next) (hroot : r.root = none) (hnext : next.root = some root) :
    ∃ tagEvent, event = some tagEvent ∧ next = ⟨[], some root⟩ := by
  cases event with
  | none =>
    obtain rfl := Except.ok.inj hstep
    rw [hroot] at hnext
    cases hnext
  | some event =>
    rw [Reading.stepOver_some] at hstep
    obtain heq | ⟨-, helements⟩ := Reading.step_eq_ok hstep
    · rw [heq, hroot] at hnext
      cases hnext
    · exact ⟨event, rfl, by rw [← helements, ← hnext]⟩

theorem exists_lastTag {cs : List Char} (hroot : r.root = none)
    (h : r.run cs = .ok ⟨[], some root⟩) : ∃ before tag after,
      cs = before ++ '<' :: (tag ++ after) ∧ LastTag r before tag after root := by
  revert hroot
  refine Reading.run_induction (motive := fun r cs => r.root = none → ∃ before tag after,
    cs = before ++ '<' :: (tag ++ after) ∧ LastTag r before tag after root) ?_ ?_ h
  · nofun
  · intro r c cs event rest next hread hstep hrun ih hroot
    obtain ⟨piece, rfl, hpiece⟩ := readPiece_takes hread
    cases hnext : next.root with
    | none =>
      obtain ⟨before, tag, after, rfl, outer, last, hbefore, htag⟩ := ih hnext
      refine ⟨c :: (piece ++ before), tag, after, by simp, outer, last, ?_, htag⟩
      exact (Reading.run_piece (hpiece before) hstep).trans hbefore
    | some element =>
      -- The first piece is the last tag already.
      obtain rfl : root = element := Option.some.inj (Reading.root_of_run hnext hrun)
      have hne : next.root ≠ r.root := by
        rw [hnext, hroot]
        nofun
      obtain rfl := eq_open_of_completes hread hstep hne
      obtain ⟨event, rfl, rfl⟩ := exists_of_completes hstep hroot hnext
      rw [Reading.stepOver_some] at hstep
      exact ⟨[], piece, rest, rfl, r, event, Reading.run_nil r, hroot, hread, hstep⟩

theorem LastTag.not_run {cs kept : List Char} (h : LastTag r before tag after root)
    (hcut : before ++ '<' :: tag = cs ++ kept) (hkept : kept ≠ []) (other : Element) :
    r.run cs ≠ .ok ⟨[], some other⟩ := by
  intro hrun
  obtain ⟨outer, event, hbefore, hroot, htag, -⟩ := h
  obtain ⟨between, rfl, htag'⟩ | ⟨between, rfl, -⟩ := List.append_eq_append_iff.1 hcut
  · rw [Reading.run_append hbefore] at hrun
    cases between with
    | nil =>
      rw [Reading.run_nil] at hrun
      rw [Except.ok.inj hrun] at hroot
      cases hroot
    | cons c between =>
      -- What is read of the tag has to be all of it, whatever follows.
      obtain ⟨rfl, rfl⟩ := List.cons.inj htag'
      obtain ⟨event', rest, next, hread, -⟩ := Reading.run_cons_eq_ok hrun
      have hmore := (readPiece_takes hread).append (kept ++ after)
      have heq := Except.ok.inj (hmore.symm.trans (List.append_assoc .. ▸ htag))
      have hlength := congrArg (fun p => p.2.length) heq
      simp only [List.length_append] at hlength
      exact hkept (List.length_eq_zero_iff.1 (by omega))
  · rw [Reading.run_append hrun] at hbefore
    rw [Reading.root_of_run rfl hbefore] at hroot
    cases hroot

theorem LastTag.run_eq (h : LastTag r before tag after root) :
    r.run (before ++ '<' :: (tag ++ after)) = Reading.run ⟨[], some root⟩ after := by
  obtain ⟨outer, event, hbefore, -, htag, hclose⟩ := h
  have hread : readPiece '<' (tag ++ after) = .ok (some event, after) := htag
  rw [Reading.run_append hbefore, Reading.run_piece hread ((Reading.stepOver_some ..).trans hclose)]

/-- The characters of a text without the byte order mark that it may start with. -/
def body (text : String) : List Char :=
  if text.toList.head? = some '\uFEFF' then text.toList.tail else text.toList

theorem parse_eq (text : String) : parse text = start.run (body text) >>= Reading.finish := by
  change build (events (body text)) = _
  rw [build, Reading.run]
  cases (events (body text)).foldlM Reading.step start <;> rfl

theorem parse_eq_ok_iff {text : String} :
    parse text = .ok root ↔ start.run (body text) = .ok ⟨[], some root⟩ := by
  rw [parse_eq]
  cases hrun : start.run (body text) with
  | error e => exact iff_of_false nofun nofun
  | ok r =>
    rw [Except.ok.injEq]
    exact Reading.finish_eq_ok_iff

theorem run_toList (root : Option Element) (text : String) :
    Reading.run ⟨[], root⟩ text.toList = Reading.run ⟨[], root⟩ (body text) := by
  rw [body]
  split
  · next hmark =>
    obtain ⟨cs, hcs⟩ := List.head?_eq_some_iff.1 hmark
    rw [hcs, Reading.run_plain (by decide)]
    rfl
  · rfl

theorem body_append {text : String} (h : text ≠ "") (more : String) :
    body (text ++ more) = body text ++ more.toList := by
  have hne : text.toList ≠ [] := by simpa using h
  obtain ⟨c, cs, hcs⟩ := List.exists_cons_of_ne_nil hne
  by_cases hmark : c = '\uFEFF' <;> simp [body, hcs, hmark]

theorem ne_empty_of_parse {text : String} (h : parse text = .ok root) : text ≠ "" := by
  rintro rfl
  rw [parse_eq_ok_iff] at h
  cases (Reading.run_nil start).symm.trans h

theorem run_body_append {text : String} (h : parse text = .ok root) (more : String) :
    start.run (body (text ++ more)) = Reading.run ⟨[], some root⟩ more.toList := by
  rw [body_append (ne_empty_of_parse h), Reading.run_append (parse_eq_ok_iff.1 h)]

theorem LastTag.error_of_cut {first rest : String} (h : LastTag start before tag after root)
    (hbody : body (first ++ rest) = before ++ '<' :: (tag ++ after))
    (hshort : after.length < rest.length) : ∃ e, parse first = .error e := by
  cases hparse : parse first with
  | error e => exact ⟨e, rfl⟩
  | ok other =>
    rw [body_append (ne_empty_of_parse hparse)] at hbody
    have hcut : before ++ '<' :: tag ++ after = body first ++ rest.toList := by
      rw [hbody, List.append_assoc, List.cons_append]
    rw [← String.length_toList] at hshort
    obtain ⟨kept, -, hafter⟩ | ⟨kept, htag, hrest⟩ := List.append_eq_append_iff.1 hcut
    · have hlength := congrArg List.length hafter
      simp only [List.length_append] at hlength
      omega
    · have hkept : kept ≠ [] := by
        rintro rfl
        rw [hrest, List.nil_append] at hshort
        exact Nat.lt_irrefl _ hshort
      exact absurd (parse_eq_ok_iff.1 hparse) (h.not_run htag hkept other)

/-- A document is read up to the last tag of its root, and nothing but text may follow: what ends
earlier is refused, and so is another document behind it. -/
theorem documents_are_whole {text : String} {root : Element} (h : parse text = .ok root) :
    (∃ before tag after, body text = before ++ '<' :: (tag ++ after) ∧
      LastTag start before tag after root) ∧
    (∀ before tag after, body text = before ++ '<' :: (tag ++ after) →
      LastTag start before tag after root → ∀ first rest, text = first ++ rest →
        after.length < rest.length → ∃ e, parse first = .error e) ∧
    (∀ other root', parse other = .ok root' → parse (text ++ other) = .error .trailing) ∧
    ∀ tail : String, (∀ c ∈ tail.toList, c ≠ '<' ∧ c ≠ '&') → parse (text ++ tail) = .ok root := by
  refine ⟨exists_lastTag rfl (parse_eq_ok_iff.1 h), ?_, fun other root' hother => ?_,
    fun tail htail => ?_⟩
  · rintro before tag after hbody hlast first rest rfl hshort
    exact hlast.error_of_cut hbody hshort
  · have htrailing := Reading.trailing_of_run root (nofun : some root' ≠ none)
      (parse_eq_ok_iff.1 hother)
    rw [parse_eq, run_body_append h, run_toList, htrailing]
    rfl
  · rw [parse_eq_ok_iff, run_body_append h]
    exact Reading.run_of_plain (fun c hc => by simpa [isPlain] using htail c hc) _

def lineEnded : String := "<p>Hi</p>\n"

def lineEndedRoot : Element := ⟨⟨none, none, "p", []⟩, [.text "Hi"]⟩

theorem stepOver_opening : start.stepOver (some (.opening ['p'])) =
    .ok ⟨[⟨⟨none, none, "p", []⟩, Scope.initial, []⟩], none⟩ := by
  have htag : readTag ['p'] = (['p'], [], none) := by
    rw [readTag, rawAttributes]
    rfl
  rw [Reading.stepOver_some, Reading.step, Reading.open?, readOpening, htag]
  rfl

theorem lastTag_lineEnded :
    LastTag start "<p>Hi".toList "/p>".toList "\n".toList lineEndedRoot := by
  have hread : readPiece '<' "p>Hi".toList = .ok (some (.opening ['p']), "Hi".toList) := rfl
  have hrun : start.run "<p>Hi".toList =
      .ok ⟨[⟨lineEndedRoot.tag, Scope.initial, [.text "Hi"]⟩], none⟩ := by
    refine (Reading.run_piece hread stepOver_opening).trans ?_
    refine (Reading.run_plain (by decide) _ _).trans ?_
    refine (Reading.run_plain (by decide) _ _).trans ?_
    exact Reading.run_nil _
  exact ⟨_, _, hrun, rfl, rfl, rfl⟩

theorem body_lineEnded :
    body lineEnded = "<p>Hi".toList ++ '<' :: ("/p>".toList ++ "\n".toList) := by
  rfl

theorem parse_lineEnded : parse lineEnded = .ok lineEndedRoot := by
  rw [parse_eq_ok_iff, body_lineEnded, lastTag_lineEnded.run_eq]
  exact Reading.run_of_plain (by simp [isPlain]) _

theorem documents_are_whole_line_end :
    parse lineEnded = .ok lineEndedRoot ∧ (∃ e, parse "<p>Hi</p" = .error e) ∧
      parse (lineEnded ++ lineEnded) = .error .trailing ∧
      parse (lineEnded ++ "Bye") = .ok lineEndedRoot := by
  obtain ⟨-, hcut, htwice, htext⟩ := documents_are_whole parse_lineEnded
  refine ⟨parse_lineEnded, ?_, htwice lineEnded lineEndedRoot parse_lineEnded,
    htext "Bye" (by simp)⟩
  exact hcut _ _ _ body_lineEnded lastTag_lineEnded "<p>Hi</p" ">\n" (by decide) (by decide)

end MarkupSnippets.Markup

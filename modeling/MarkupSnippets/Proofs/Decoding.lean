import MarkupSnippets.Proofs.Meanings
import MarkupSnippets.Proofs.ReadBack
import MarkupSnippets.Proofs.WholeDocuments

namespace MarkupSnippets.Markup

/-- Whether a text is another one with its references replaced by what they stand for. -/
inductive Decodes (meaning : List Char → Option (List Char)) : List Char → List Char → Prop where
  | nil : Decodes meaning [] []
  | plain {c : Char} {cs ds : List Char} (hc : c ≠ '&') (h : Decodes meaning cs ds) :
      Decodes meaning (c :: cs) (c :: ds)
  | reference {body found cs ds : List Char} (hbody : ∀ d ∈ body, (d != ';' && d != '&') = true)
      (hmeaning : meaning body = some found) (h : Decodes meaning cs ds) :
      Decodes meaning ('&' :: (body ++ ';' :: cs)) (found ++ ds)

def references : List Char → List (List Char)
  | [] => []
  | c :: cs =>
    if c = '&' then
      let body := cs.takeWhile fun d => d != ';' && d != '&'
      match cs.dropWhile fun d => d != ';' && d != '&' with
      | ';' :: _ => body :: references cs
      | _ => references cs
    else references cs

variable {meaning meaning' : List Char → Option (List Char)} {body cs ds : List Char}

theorem references_plain {c : Char} (hc : c ≠ '&') (cs : List Char) :
    references (c :: cs) = references cs := by
  rw [references, if_neg hc]

theorem references_ended (hbody : ∀ d ∈ body, (d != ';' && d != '&') = true) (cs : List Char) :
    references ('&' :: (body ++ ';' :: cs)) = body :: references cs := by
  have hdrop : (body ++ ';' :: cs).dropWhile (fun d => d != ';' && d != '&') = ';' :: cs :=
    dropWhile_append_cons hbody (by decide) cs
  have htake : (body ++ ';' :: cs).takeWhile (fun d => d != ';' && d != '&') = body :=
    takeWhile_append_cons hbody (by decide) cs
  have hrest : references (body ++ ';' :: cs) = references cs := by
    clear hdrop htake
    induction body with
    | nil => exact references_plain (by decide) cs
    | cons d body ih =>
      obtain ⟨hd, hbody⟩ := List.forall_mem_cons.1 hbody
      rw [List.cons_append, references_plain (by simp_all), ih hbody]
  rw [references, if_pos rfl]
  simp only [hdrop, htake, hrest]

namespace Decodes

theorem isSome_of_mem (h : Decodes meaning cs ds) (hbody : body ∈ references cs) :
    (meaning body).isSome = true := by
  induction h with
  | nil => cases hbody
  | plain hc _ ih =>
    rw [references_plain hc] at hbody
    exact ih hbody
  | reference hclean hmeaning _ ih =>
    rw [references_ended hclean] at hbody
    obtain rfl | hbody := List.mem_cons.1 hbody
    · rw [hmeaning]
      rfl
    · exact ih hbody

theorem congr (h : Decodes meaning cs ds)
    (heq : ∀ body ∈ references cs, meaning body = meaning' body) : Decodes meaning' cs ds := by
  induction h with
  | nil => exact .nil
  | plain hc _ ih =>
    rw [references_plain hc] at heq
    exact .plain hc (ih heq)
  | reference hclean hmeaning _ ih =>
    rw [references_ended hclean] at heq
    obtain ⟨hfirst, heq⟩ := List.forall_mem_cons.1 heq
    exact .reference hclean (hfirst ▸ hmeaning) (ih heq)

theorem congr_iff (heq : ∀ body ∈ references cs, meaning body = meaning' body) :
    Decodes meaning cs ds ↔ Decodes meaning' cs ds :=
  ⟨fun h => h.congr heq, fun h => h.congr fun body hbody => (heq body hbody).symm⟩

end Decodes

theorem unescapeFrom_eq_ok_iff {total offset : Nat} :
    unescapeFrom total offset cs = .ok ds ↔ Decodes valueMeaning cs ds := by
  constructor
  · intro h
    induction hlength : cs.length using Nat.strong_induction_on generalizing offset cs ds with
    | _ length ih =>
      cases cs with
      | nil =>
        rw [unescapeFrom] at h
        obtain rfl := Except.ok.inj h
        exact .nil
      | cons c cs =>
        by_cases hc : c = '&'
        · obtain ⟨rest, hdrop⟩ :
              ∃ rest, cs.dropWhile (fun d => d != ';' && d != '&') = ';' :: rest := by
            rw [unescapeFrom, if_pos hc] at h
            split at h
            · next rest hrest => exact ⟨rest, hrest⟩
            · cases h
          obtain ⟨body, rfl, hbody⟩ := exists_of_dropWhile hdrop
          -- The reference ends at its semicolon; the rest is decoded by induction on the length.
          obtain ⟨start, stop, next, hended⟩ := @unescapeFrom_ended total offset rest _ hbody
          rw [hc, hended] at h
          cases hvalue : valueReference start stop body with
          | error => rw [hvalue] at h; cases h
          | ok d =>
            rw [hvalue] at h
            obtain ⟨more, hmore, rfl⟩ := map_eq_ok h
            have hlt : rest.length < length := by
              rw [← hlength, List.length_cons, List.length_append, List.length_cons]
              omega
            rw [hc]
            exact .reference hbody ((valueMeaning_eq_some_iff start stop).2 ⟨d, hvalue, rfl⟩)
              (ih _ hlt hmore rfl)
        · rw [unescapeFrom_plain hc] at h
          obtain ⟨more, hmore, rfl⟩ := map_eq_ok h
          exact .plain hc (ih _ (by simp [← hlength]) hmore rfl)
  · intro h
    induction h generalizing offset with
    | nil => rw [unescapeFrom]
    | plain hc _ ih => rw [unescapeFrom_plain hc, ih]; rfl
    | @reference body found cs ds hbody hmeaning _ ih =>
      obtain ⟨start, stop, next, hended⟩ := @unescapeFrom_ended total offset cs _ hbody
      obtain ⟨d, hvalue, rfl⟩ := (valueMeaning_eq_some_iff start stop).1 hmeaning
      rw [hended, hvalue]
      exact congrArg (Except.map (d :: ·)) ih

theorem Decodes.ne_nil (h : Decodes textMeaning cs ds) (hne : cs ≠ []) : ds ≠ [] := by
  cases h with
  | nil => exact absurd rfl hne
  | plain => exact List.cons_ne_nil _ _
  | reference _ hmeaning _ =>
    exact List.append_ne_nil_of_left_ne_nil (ne_nil_of_textMeaning hmeaning) _

namespace Reading

variable {r r' : Reading} {rest : List Char}

def fill (r : Reading) (cs : List Char) : Reading :=
  if cs = [] then r else r.text (String.ofList cs)

theorem text_fill {found : List Char} (hfound : found ≠ []) (r : Reading) (ds : List Char) :
    (r.text (String.ofList found)).fill ds = r.fill (found ++ ds) := by
  have hne : found ++ ds ≠ [] := by simp [hfound]
  rw [fill, fill, if_neg hne, String.ofList_append]
  split
  · next hnil => rw [hnil, String.ofList_nil, String.append_empty]
  · rw [text_text]

/-- A text in front of a tag is read as it is decoded. -/
theorem run_decoded_iff (hopen : '<' ∉ cs) : r.run (cs ++ '<' :: rest) = .ok r' ↔
    ∃ ds, Decodes textMeaning cs ds ∧ (r.fill ds).run ('<' :: rest) = .ok r' := by
  constructor
  · intro h
    induction hlength : cs.length using Nat.strong_induction_on generalizing r cs with
    | _ length ih =>
      cases cs with
      | nil => exact ⟨[], .nil, h⟩
      | cons c cs =>
        obtain ⟨hc, hopen⟩ := not_or.1 (mt List.mem_cons.2 hopen)
        obtain ⟨event, behind, next, hread, hstep, hnext⟩ := run_cons_eq_ok h
        rw [readPiece, if_neg (Ne.symm hc)] at hread
        by_cases hand : c = '&'
        · rw [if_pos hand] at hread
          obtain ⟨body, content, heq, hclean, htext, rfl⟩ := readReference_eq_ok hread
          have hcontent : textMeaning body = some content := textMeaning_eq_some_iff.2 htext
          have hbody : ∀ d ∈ body, (d != ';' && d != '&') = true := fun d hd => by
            have hends := hclean d hd
            simp_all [endsReference]
          obtain ⟨cs', rfl, rfl⟩ :
              ∃ cs', cs = body ++ ';' :: cs' ∧ behind = cs' ++ '<' :: rest := by
            -- The reference is ended in front of the tag.
            obtain ⟨between, rfl, htag⟩ | ⟨between, rfl, hend⟩ := List.append_eq_append_iff.1 heq
            · cases between with
              | nil => cases htag
              | cons d between =>
                obtain rfl := (List.cons.inj htag).1
                exact absurd (hclean '<' (by simp)) (by decide)
            · cases between with
              | nil => cases hend
              | cons d between =>
                obtain ⟨rfl, rfl⟩ := List.cons.inj hend
                exact ⟨between, rfl, rfl⟩
          rw [stepOver_some] at hstep
          obtain rfl := Except.ok.inj hstep
          have hlt : cs'.length < length := by
            rw [← hlength, List.length_cons, List.length_append, List.length_cons]
            omega
          have hopen : '<' ∉ cs' := fun hmem => hopen (by simp [hmem])
          obtain ⟨ds, hds, hrun⟩ := ih _ hlt hopen hnext rfl
          rw [text_fill (ne_nil_of_textMeaning hcontent)] at hrun
          rw [hand]
          exact ⟨content ++ ds, .reference hbody hcontent hds, hrun⟩
        · rw [if_neg hand] at hread
          obtain ⟨rfl, rfl⟩ := Prod.mk.inj (Except.ok.inj hread)
          rw [stepOver_some] at hstep
          obtain rfl := Except.ok.inj hstep
          obtain ⟨ds, hds, hrun⟩ := ih _ (by simp [← hlength]) hopen hnext rfl
          rw [text_fill (List.cons_ne_nil c [])] at hrun
          exact ⟨c :: ds, .plain hand hds, hrun⟩
  · rintro ⟨ds, hds, hrun⟩
    induction hds generalizing r with
    | nil => exact hrun
    | @plain c cs ds hc _ ih =>
      obtain ⟨hne, hopen⟩ := not_or.1 (mt List.mem_cons.2 hopen)
      rw [List.cons_append, run_plain (by simp [isPlain, hc, Ne.symm hne])]
      refine ih hopen ?_
      exact (text_fill (List.cons_ne_nil c []) r ds).symm ▸ hrun
    | @reference body found cs ds hbody hmeaning _ ih =>
      have hopen : '<' ∉ body ∧ '<' ∉ cs := by
        simpa [not_or] using hopen
      have hclean : ∀ d ∈ body, (!endsReference d) = true := by
        intro d hd
        have hne : d ≠ '<' := fun heq => hopen.1 (heq ▸ hd)
        simpa [endsReference, hne] using hbody d hd
      have hread : readPiece '&' (body ++ ';' :: (cs ++ '<' :: rest)) =
          .ok (some (.text found), cs ++ '<' :: rest) := by
        rw [readPiece, if_neg (by decide), if_pos rfl, readReference_append hclean,
          textMeaning_eq_some_iff.1 hmeaning]
        rfl
      rw [List.cons_append, List.append_assoc, List.cons_append,
        run_piece hread (stepOver_some r _)]
      refine ih hopen.2 ?_
      exact (text_fill (ne_nil_of_textMeaning hmeaning) r ds).symm ▸ hrun

end Reading

open Reading (start)

variable {s t : String} {root : Element}

def inText (s : String) : String := "<p>" ++ s ++ "</p>"

def inValue (s : String) : String := "<p a=\"" ++ s ++ "\"/>"

def textElement (t : String) : Element := ⟨⟨none, none, "p", []⟩, [.text t]⟩

def valueElement (t : String) : Element := ⟨⟨none, none, "p", [⟨none, none, "a", t⟩]⟩, []⟩

theorem ok_root_iff (other : Element) :
    (Except.ok ⟨[], some other⟩ : Except Error Reading) = .ok ⟨[], some root⟩ ↔ root = other := by
  simp [eq_comm]

theorem parse_inText_iff (hne : s ≠ "") (hopen : '<' ∉ s.toList) :
    parse (inText s) = .ok root ↔
      ∃ ds, Decodes textMeaning s.toList ds ∧ root = textElement (String.ofList ds) := by
  have hbody : body (inText s) = '<' :: ("p>".toList ++ (s.toList ++ '<' :: "/p>".toList)) := by
    simp [body, inText]
  have hread (rest : List Char) : readPiece '<' ("p>".toList ++ rest) =
      .ok (some (.opening ['p']), rest) := rfl
  have hclose : readPiece '<' "/p>".toList = .ok (some (.closing ['p']), []) := rfl
  rw [parse_eq_ok_iff, hbody, Reading.run_piece (hread _) stepOver_opening,
    Reading.run_decoded_iff hopen]
  refine exists_congr fun ds => and_congr_right fun hds => ?_
  have hds : ds ≠ [] := hds.ne_nil (by simpa using hne)
  have hrun : (Reading.mk [⟨⟨none, none, "p", []⟩, Scope.initial, []⟩] none).fill ds =
      ⟨[⟨⟨none, none, "p", []⟩, Scope.initial, [.text (String.ofList ds)]⟩], none⟩ := if_neg hds
  rw [hrun, Reading.run_piece hclose (Reading.stepOver_some _ _), Reading.run_nil]
  exact ok_root_iff _

theorem readOpening_value (hquote : '"' ∉ cs) :
    readOpening Scope.initial ("p a=".toList ++ '"' :: (cs ++ ['"'])) =
      (unescape cs).map fun ds => ((valueElement (String.ofList ds)).tag, Scope.initial) := by
  have htag : ∃ position, readTag ("p a=".toList ++ '"' :: (cs ++ ['"'])) =
      (['p'], [⟨position, ['a'], cs⟩], none) := by
    have hstart : (" a=".toList ++ '"' :: (cs ++ ['"'])).dropWhile isSpace =
        'a' :: ([] ++ '=' :: '"' :: (cs ++ ['"'])) := rfl
    obtain ⟨position, hraw⟩ := rawAttributes_cons hstart nofun
      fun position => readValue_quoted
        (Text.byteSize ("p a=".toList ++ '"' :: (cs ++ ['"']))) position hquote []
    refine ⟨position, ?_⟩
    have hrest : rawAttributes (Text.byteSize ("p a=".toList ++ '"' :: (cs ++ ['"']))) [] =
        ([], none) := by
      rw [rawAttributes]
      rfl
    rw [hrest] at hraw
    exact congrArg (fun found => (['p'], found)) hraw
  obtain ⟨position, htag⟩ := htag
  have hread : readAttributes Scope.initial [] none [⟨position, ['a'], cs⟩] =
      (unescape cs).map fun ds => [⟨none, none, "a", String.ofList ds⟩] := by
    change (unescape cs >>= fun ds => pure [Attribute.mk none none "a" (String.ofList ds)]) = _
    cases unescape cs <;> rfl
  rw [readOpening, htag]
  change (readAttributes Scope.initial [] none [⟨position, ['a'], cs⟩] >>= fun attributes =>
    pure (Tag.mk none none "p" attributes, Scope.initial)) = _
  rw [hread]
  cases unescape cs <;> rfl

theorem parse_inValue_iff (hquote : '"' ∉ s.toList) :
    parse (inValue s) = .ok root ↔
      ∃ ds, Decodes valueMeaning s.toList ds ∧ root = valueElement (String.ofList ds) := by
  have hbody : body (inValue s) =
      '<' :: (("p a=".toList ++ '"' :: (s.toList ++ ['"'])) ++ ['/'] ++ '>' :: []) := by
    simp [body, inValue]
  have hpasses : Passes ("p a=".toList ++ '"' :: (s.toList ++ ['"']) ++ ['/']) :=
    ((Passes.of_forall (by simp)).append (Passes.quoted hquote)).append
      (Passes.singleton (by decide))
  have hevent : tagEvent ("p a=".toList ++ '"' :: (s.toList ++ ['"']) ++ ['/']) =
      .empty ("p a=".toList ++ '"' :: (s.toList ++ ['"'])) := by
    refine tagEvent_empty (List.cons_ne_nil _ _) fun hfirst => ?_
    exact absurd (Option.some.inj hfirst) (by decide)
  have hmark : ∀ c ∈ ("p a=".toList ++ '"' :: (s.toList ++ ['"']) ++ ['/']).head?,
      c ≠ '!' ∧ c ≠ '?' := by
    rintro c ⟨⟩
    decide
  rw [parse_eq_ok_iff, hbody, Reading.run_tag hpasses hmark, hevent, Reading.step, Reading.empty?]
  have hscope : start.scope = Scope.initial := rfl
  have hdecodes (ds : List Char) :
      Decodes valueMeaning s.toList ds ↔ unescape s.toList = .ok ds := unescapeFrom_eq_ok_iff.symm
  simp only [hdecodes, hscope, readOpening_value hquote]
  cases unescape s.toList with
  | error fault =>
    refine iff_of_false (fun h => ?_) ?_
    · cases h
    · rintro ⟨_, h, -⟩
      cases h
  | ok ds =>
    change (Reading.run ⟨[], some (valueElement (String.ofList ds))⟩ [] = _) ↔ _
    rw [Reading.run_nil, ok_root_iff]
    simp

/-- Whether a text comes out the same from both documents, or from neither. -/
def DecodedAlike (s : String) : Prop :=
  (∃ t, parse (inText s) = .ok (textElement t) ∧ parse (inValue s) = .ok (valueElement t)) ∨
    (∃ e, parse (inText s) = .error e) ∧ ∃ e, parse (inValue s) = .error e

theorem exists_error_iff {text : String} :
    (∃ e, parse text = .error e) ↔ ∀ root, parse text ≠ .ok root := by
  cases parse text <;> simp

/-- Without numbers that XML does not have, a text is decoded alike in both documents, unless it has
a reference that only texts know: then the value is refused, and the text has the spelling of the
name, or the character whose number follows the upper-case `X`. -/
theorem references_decoded (hne : s ≠ "") (hopen : '<' ∉ s.toList) (hquote : '"' ∉ s.toList)
    (hchecked : ∀ body ∈ references s.toList, isUnchecked body = false) :
    ((∀ body ∈ references s.toList, isTextual body = false) → DecodedAlike s) ∧
    ((∃ body ∈ references s.toList, isTextual body = true) →
      ∃ e, parse (inValue s) = .error e) ∧
    ∀ root, parse (inText s) = .ok root ↔
      ∃ ds, Decodes forgiving s.toList ds ∧ root = textElement (String.ofList ds) := by
  have hforgiving (ds : List Char) :
      Decodes textMeaning s.toList ds ↔ Decodes forgiving s.toList ds :=
    Decodes.congr_iff fun body hbody => textMeaning_eq_forgiving (hchecked body hbody)
  -- Either the text can be decoded strictly, and both documents agree on it, or neither is read.
  refine ⟨fun hstrict => ?_, ?_, fun root => ?_⟩
  · have hvalue (ds : List Char) :
        Decodes textMeaning s.toList ds ↔ Decodes valueMeaning s.toList ds :=
      (hforgiving ds).trans (Decodes.congr_iff fun body hbody =>
        forgiving_of_not_isTextual (hstrict body hbody))
    by_cases h : ∃ ds, Decodes valueMeaning s.toList ds
    · obtain ⟨ds, hds⟩ := h
      exact .inl ⟨String.ofList ds, (parse_inText_iff hne hopen).2 ⟨ds, (hvalue ds).2 hds, rfl⟩,
        (parse_inValue_iff hquote).2 ⟨ds, hds, rfl⟩⟩
    · refine .inr ⟨exists_error_iff.2 fun root hroot => h ?_,
        exists_error_iff.2 fun root hroot => h ?_⟩
      · obtain ⟨ds, hds, -⟩ := (parse_inText_iff hne hopen).1 hroot
        exact ⟨ds, (hvalue ds).1 hds⟩
      · obtain ⟨ds, hds, -⟩ := (parse_inValue_iff hquote).1 hroot
        exact ⟨ds, hds⟩
  · rintro ⟨body, hbody, htextual⟩
    refine exists_error_iff.2 fun root hroot => ?_
    obtain ⟨ds, hds, -⟩ := (parse_inValue_iff hquote).1 hroot
    have hsome := hds.isSome_of_mem hbody
    rw [valueMeaning_of_isTextual htextual] at hsome
    cases hsome
  · rw [parse_inText_iff hne hopen]
    exact exists_congr fun ds => and_congr_left' (hforgiving ds)

theorem references_decoded_mixed :
    DecodedAlike "1&lt;&#x32;" ∧ (∃ e, parse (inValue "&lt;&#X41;&b;") = .error e) ∧
      parse (inText "&lt;&#X41;&b;") = .ok (textElement "<A&b;") := by
  obtain ⟨halike, -⟩ := @references_decoded "1&lt;&#x32;" (by decide) (by decide) (by decide)
    (by decide)
  obtain ⟨-, hvalue, htext⟩ := @references_decoded "&lt;&#X41;&b;" (by decide) (by decide)
    (by decide) (by decide)
  refine ⟨halike (by decide), hvalue (by decide), (htext _).2 ⟨"<A&b;".toList, ?_, rfl⟩⟩
  have hname : Decodes forgiving ('&' :: ("b".toList ++ ';' :: [])) ("&b;".toList ++ []) :=
    .reference (by simp) (by decide) .nil
  have hnumber : Decodes forgiving ('&' :: ("#X41".toList ++ ';' :: "&b;".toList))
      (['A'] ++ "&b;".toList) := .reference (by simp) (by decide) hname
  have hlt : Decodes forgiving ('&' :: ("lt".toList ++ ';' :: "&#X41;&b;".toList))
      (['<'] ++ "A&b;".toList) := .reference (by simp) (by decide) hnumber
  exact hlt

/-- The name of no predefined entity is kept in a text and refused in a value. -/
theorem unknown_name_not_alike :
    "&nbsp;" ≠ "" ∧ (∀ c ∈ "&nbsp;".toList, c ∉ ['<', '"', '\'', '\t', '\n', '\r']) ∧
      parse (inText "&nbsp;") = .ok (textElement "&nbsp;") ∧
      (∃ e, parse (inValue "&nbsp;") = .error e) ∧ ¬DecodedAlike "&nbsp;" := by
  have hname : Decodes textMeaning ('&' :: ("nbsp".toList ++ ';' :: [])) ("&nbsp;".toList ++ []) :=
    .reference (by simp) (by decide) .nil
  have htext : parse (inText "&nbsp;") = .ok (textElement "&nbsp;") :=
    (parse_inText_iff (by decide) (by decide)).2 ⟨"&nbsp;".toList, hname, rfl⟩
  have hvalue : ∃ e, parse (inValue "&nbsp;") = .error e := by
    refine exists_error_iff.2 fun root hroot => ?_
    obtain ⟨ds, hds, -⟩ := (parse_inValue_iff (by decide)).1 hroot
    exact absurd (hds.isSome_of_mem (by decide : "nbsp".toList ∈ references "&nbsp;".toList))
      (by decide)
  refine ⟨by decide, by simp, htext, hvalue, ?_⟩
  rintro (⟨t, -, hok⟩ | ⟨⟨e, herror⟩, -⟩)
  · exact exists_error_iff.1 hvalue _ hok
  · rw [htext] at herror
    cases herror

end MarkupSnippets.Markup

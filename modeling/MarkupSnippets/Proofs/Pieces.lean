import Mathlib.Data.List.Basic
import Mathlib.Data.List.TakeWhile
import MarkupSnippets.Proofs.Escaping
import MarkupSnippets.Proofs.Search

namespace MarkupSnippets

namespace Text

theorem isPrefix_append_cons_iff {start cs : List Char} {c : Char} (hstart : c ∉ start)
    (more : List Char) : start <+: cs ++ c :: more ↔ start <+: cs := by
  constructor
  · intro h
    obtain hprefix | ⟨kept, rfl⟩ := List.prefix_or_prefix_of_prefix h (List.prefix_append cs _)
    · exact hprefix
    · rw [List.prefix_append_right_inj] at h
      cases kept with
      | nil => simp
      | cons d kept =>
        obtain rfl := (List.cons_prefix_cons.1 h).1
        simp at hstart
  · exact fun h => h.trans (List.prefix_append cs _)

theorem dropStart?_eq_none_iff {start cs : List Char} :
    dropStart? start cs = none ↔ ¬start <+: cs := by
  rw [← not_iff_not, not_not, ← ne_eq, Option.ne_none_iff_exists']
  exact exists_congr fun rest => dropStart?_eq_some.trans eq_comm

theorem splitAt?_before {pattern cs before rest : List Char}
    (h : splitAt? pattern cs = some (before, rest)) (more : List Char) :
    splitAt? pattern (before ++ (pattern ++ more)) = some (before, more) := by
  obtain ⟨skipped, behind, hsplit, -⟩ := exists_splitAt?_append pattern before []
  have hcut := eq_of_splitAt? hsplit
  rw [List.append_nil] at hsplit hcut
  have hbefore : before <+: skipped := by
    have hcs : cs = skipped ++ (pattern ++ (behind ++ rest)) := by
      rw [eq_of_splitAt? h, ← List.append_assoc, hcut]
      simp
    exact prefix_of_splitAt? (hcs ▸ h)
  obtain ⟨between, rfl⟩ := hbefore
  have hlength := congrArg List.length hcut
  simp only [List.length_append] at hlength
  obtain rfl : between = [] := List.length_eq_zero_iff.1 (by omega)
  obtain rfl : behind = [] := List.length_eq_zero_iff.1 (by omega)
  have hmore := splitAt?_append_right hsplit more
  simpa using hmore

end Text

/-- Whether a reader takes a piece from the start of a text, and leaves the rest, because of the
characters of the piece alone. -/
def Takes {α : Type} (read : List Char → α) (result : List Char → α) (cs rest : List Char) : Prop :=
  ∃ piece, cs = piece ++ rest ∧ ∀ more, read (piece ++ more) = result more

namespace Takes

variable {α : Type} {read : List Char → α} {result : List Char → α} {cs rest : List Char}

theorem behind {inner : List Char → α} (h : Takes inner result cs rest) (start : List Char)
    (hread : ∀ more, read (start ++ more) = inner more) : Takes read result (start ++ cs) rest := by
  obtain ⟨piece, rfl, hpiece⟩ := h
  refine ⟨start ++ piece, (List.append_assoc ..).symm, fun more => ?_⟩
  rw [List.append_assoc, hread, hpiece]

theorem length_le (h : Takes read result cs rest) : rest.length ≤ cs.length := by
  obtain ⟨piece, rfl, -⟩ := h
  simp

theorem append (h : Takes read result cs rest) (more : List Char) :
    read (cs ++ more) = result (rest ++ more) := by
  obtain ⟨piece, rfl, hpiece⟩ := h
  rw [List.append_assoc, hpiece]

end Takes

namespace Text

theorem behind?_takes {pattern cs rest : List Char} (h : behind? pattern cs = some rest) :
    Takes (behind? pattern) some cs rest := by
  obtain ⟨⟨before, _⟩, hsplit, rfl⟩ := Option.map_eq_some_iff.1 h
  refine ⟨before ++ pattern, ?_, fun more => ?_⟩
  · rw [eq_of_splitAt? hsplit, List.append_assoc]
  · rw [List.append_assoc, behind?, splitAt?_before hsplit]
    rfl

end Text

namespace Markup

variable {cs rest : List Char}

theorem cutTag_append {quote : Option Char} {content : List Char}
    (h : cutTag quote cs = .ok (content, rest)) (more : List Char) :
    cutTag quote (content ++ '>' :: more) = .ok (content, more) := by
  induction cs generalizing quote content with
  | nil => cases quote <;> cases h
  | cons c cs ih =>
    have step {q : Option Char}
        (h : (cutTag q cs).map (fun cut => (c :: cut.1, cut.2)) = .ok (content, rest)) :
        ∃ content', content = c :: content' ∧
          cutTag q (content' ++ '>' :: more) = .ok (content', more) := by
      obtain ⟨⟨content', _⟩, hcut, heq⟩ := map_eq_ok h
      obtain ⟨rfl, rfl⟩ := Prod.mk.inj heq
      exact ⟨content', rfl, ih hcut⟩
    cases quote with
    | some q =>
      obtain ⟨content', rfl, hcut⟩ := step h
      rw [List.cons_append, cutTag, hcut]
      rfl
    | none =>
      simp only [cutTag] at h
      split at h
      · next hc =>
        obtain ⟨rfl, rfl⟩ := Prod.mk.inj (Except.ok.inj h)
        rfl
      · next hc =>
        obtain ⟨content', rfl, hcut⟩ := step h
        simp only [List.cons_append, cutTag, if_neg hc, hcut]
        rfl

theorem quotingStarts_any_append (content more : List Char) :
    (quotingStarts.any fun start => start.toList.isPrefixOf (content ++ '>' :: more)) =
      quotingStarts.any fun start => start.toList.isPrefixOf content := by
  have hstarts : ∀ start ∈ quotingStarts, '>' ∉ start.toList := by decide
  rw [Bool.eq_iff_iff, List.any_eq_true, List.any_eq_true]
  refine exists_congr fun start => and_congr_right fun hmem => ?_
  rw [List.isPrefixOf_iff_prefix, List.isPrefixOf_iff_prefix,
    Text.isPrefix_append_cons_iff (hstarts start hmem)]

theorem skipBracketMarkup_cut {content : List Char} (more : List Char)
    (hcomment : Text.dropStart? "!--".toList (content ++ '>' :: rest) = none)
    (hinstruction : Text.dropStart? "?".toList (content ++ '>' :: rest) = none) :
    skipBracketMarkup (content ++ '>' :: more) =
      if quotingStarts.any fun start => start.toList.isPrefixOf content then
        (cutTag none (content ++ '>' :: more)).toOption.map (·.2)
      else Text.behind? ">".toList (content ++ '>' :: more) := by
  have hnone {start : List Char} (hstart : '>' ∉ start)
      (h : Text.dropStart? start (content ++ '>' :: rest) = none) :
      Text.dropStart? start (content ++ '>' :: more) = none := by
    rw [Text.dropStart?_eq_none_iff, Text.isPrefix_append_cons_iff hstart] at h ⊢
    exact h
  rw [skipBracketMarkup, hnone (by decide) hcomment, quotingStarts_any_append]
  simp only [hnone (by decide : '>' ∉ "?".toList) hinstruction]

theorem skipBracketMarkup_takes (h : skipBracketMarkup cs = some rest) :
    Takes skipBracketMarkup some cs rest := by
  unfold skipBracketMarkup at h
  split at h
  · next body hstart =>
    rw [Text.dropStart?_eq_some.1 hstart]
    refine (Text.behind?_takes h).behind _ fun more => ?_
    rw [skipBracketMarkup, Text.dropStart?_eq_some.2 rfl]
  · next hcomment =>
    split at h
    · next body hstart =>
      rw [Text.dropStart?_eq_some.1 hstart]
      exact (Text.behind?_takes h).behind _ fun more => rfl
    · next hinstruction =>
      -- Neither start has a `>`, so what follows the first one does not matter to the choice.
      split at h
      · next hquoting =>
        obtain ⟨content, hcut⟩ : ∃ content, cutTag none cs = .ok (content, rest) := by
          cases hcut : cutTag none cs with
          | error => rw [hcut] at h; cases h
          | ok cut =>
            rw [hcut] at h
            obtain rfl := Option.some.inj h
            exact ⟨cut.1, rfl⟩
        obtain rfl := cutTag_eq_ok hcut
        refine ⟨content ++ ['>'], by simp, fun more => ?_⟩
        rw [quotingStarts_any_append] at hquoting
        rw [List.append_assoc, List.singleton_append,
          skipBracketMarkup_cut more hcomment hinstruction, if_pos hquoting, cutTag_append hcut]
        rfl
      · next hquoting =>
        obtain ⟨⟨content, _⟩, hsplit, rfl⟩ := Option.map_eq_some_iff.1 h
        obtain rfl : cs = content ++ '>' :: _ := Text.eq_of_splitAt? hsplit
        refine ⟨content ++ ['>'], by simp, fun more => ?_⟩
        have hmore := Text.splitAt?_before hsplit more
        rw [quotingStarts_any_append] at hquoting
        rw [List.append_assoc, List.singleton_append,
          skipBracketMarkup_cut more hcomment hinstruction, if_neg hquoting, Text.behind?]
        exact congrArg (Option.map (·.2)) hmore

theorem skipBracket_takes (h : skipBracket cs = some rest) : Takes skipBracket some cs rest := by
  fun_induction skipBracket cs with
  | case1 => cases h
  | case2 =>
    obtain rfl := Option.some.inj h
    exact ⟨[']'], rfl, fun more => by rw [List.singleton_append, skipBracket, if_pos rfl]⟩
  | case3 => cases h
  | case4 cs cs' hmarkup hlt hbracket ih =>
    obtain ⟨piece, rfl, hpiece⟩ := skipBracketMarkup_takes hmarkup
    refine (ih h).behind ('<' :: piece) fun more => ?_
    rw [List.cons_append, skipBracket, if_neg hbracket, if_pos rfl]
    split
    · next hnone => rw [hpiece] at hnone; cases hnone
    · next after hafter =>
      obtain rfl := Option.some.inj ((hpiece more).symm.trans hafter)
      rfl
  | case5 c cs' hbracket hopen ih =>
    refine (ih h).behind [c] fun more => ?_
    rw [List.singleton_append, skipBracket, if_neg hbracket, if_neg hopen]

theorem behindDoctype_takes {quote : Option Char} (h : behindDoctype quote cs = some rest) :
    Takes (behindDoctype quote) some cs rest := by
  induction cs generalizing quote with
  | nil => cases h
  | cons c cs ih =>
    cases quote with
    | some q => exact (ih h).behind [c] fun more => rfl
    | none =>
      simp only [behindDoctype] at h
      split at h
      · next hc =>
        obtain rfl := Option.some.inj h
        exact ⟨[c], rfl, fun more => by simp [behindDoctype, hc]⟩
      · next hend =>
        split at h
        · next hbracket =>
          obtain ⟨inside, hskip, hbehind⟩ := Option.bind_eq_some_iff.1 h
          obtain ⟨bracket, rfl, htake⟩ := skipBracket_takes hskip
          refine (Text.behind?_takes hbehind).behind (c :: bracket) fun more => ?_
          rw [List.cons_append, behindDoctype]
          simp only [if_neg hend, if_pos hbracket, htake, Option.bind_some]
        · next hbracket =>
          refine (ih h).behind [c] fun more => ?_
          rw [List.singleton_append, behindDoctype]
          simp only [if_neg hend, if_neg hbracket]

theorem mem_of_behindDoctype {quote : Option Char} (h : behindDoctype quote cs = some rest) :
    '>' ∈ cs := by
  induction cs generalizing quote with
  | nil => cases h
  | cons c cs ih =>
    simp only [behindDoctype] at h
    split at h
    · exact List.mem_cons_of_mem c (ih h)
    · split at h
      · next hc => exact hc ▸ List.mem_cons_self
      · split at h
        · obtain ⟨inside, hskip, hbehind⟩ := Option.bind_eq_some_iff.1 h
          obtain ⟨bracket, rfl, -⟩ := skipBracket_takes hskip
          obtain ⟨⟨before, _⟩, hsplit, rfl⟩ := Option.map_eq_some_iff.1 hbehind
          rw [Text.eq_of_splitAt? hsplit]
          simp
        · exact List.mem_cons_of_mem c (ih h)

/-- A piece with a `>` has all of the keyword in it, and the `>` behind it. -/
theorem mem_drop_of_keyword {piece : List Char} (hend : '>' ∈ piece)
    (hkeyword : ((piece ++ rest).take 7).map Char.toUpper = "DOCTYPE".toList) :
    7 ≤ piece.length ∧ '>' ∈ piece.drop 7 := by
  have hbefore : '>' ∉ (piece ++ rest).take 7 := fun hmem => by
    have hupper : '>'.toUpper ∈ "DOCTYPE".toList := hkeyword ▸ List.mem_map_of_mem hmem
    exact absurd hupper (by decide)
  have hlength : 7 ≤ piece.length := by
    refine Nat.le_of_not_lt fun hlt => hbefore ?_
    rw [List.take_append, List.take_of_length_le (Nat.le_of_lt hlt)]
    exact List.mem_append_left _ hend
  rw [List.take_append_of_le_length hlength] at hbefore
  have hmem : '>' ∈ piece.take 7 ++ piece.drop 7 := by rwa [List.take_append_drop]
  exact ⟨hlength, (List.mem_append.1 hmem).resolve_left hbefore⟩

theorem skipDoctype_takes (h : skipDoctype cs = .ok rest) : Takes skipDoctype .ok cs rest := by
  unfold skipDoctype at h
  split at h
  · cases h
  · next behind hbehind =>
    split at h
    · next hkeyword =>
      split at h
      · cases h
      · next hname =>
        obtain rfl : behind = rest := Except.ok.inj h
        obtain ⟨piece, rfl, hpiece⟩ := behindDoctype_takes hbehind
        have hend : '>' ∈ piece := by simpa using mem_of_behindDoctype (hpiece [])
        obtain ⟨hlength, hmem⟩ := mem_drop_of_keyword hend hkeyword
        have hdrop : (piece.drop 7).dropWhile isSpace ≠ [] := fun hnil =>
          absurd (List.dropWhile_eq_nil_iff.1 hnil '>' hmem) (by decide)
        have hmore (more : List Char) : (((piece ++ more).drop 7).dropWhile isSpace).head? =
            ((piece.drop 7).dropWhile isSpace).head? := by
          rw [List.drop_append_of_le_length hlength, List.dropWhile_append,
            if_neg (by simpa using hdrop), List.head?_append_of_ne_nil _ hdrop]
        rw [List.take_append_of_le_length hlength] at hkeyword
        rw [hmore] at hname
        refine ⟨piece, rfl, fun more => ?_⟩
        rw [skipDoctype, hpiece]
        simp only [List.take_append_of_le_length hlength, hkeyword, hmore, if_neg hname, ↓reduceIte]
    · cases h

theorem skipComment_takes (h : skipComment cs = .ok rest) : Takes skipComment .ok cs rest := by
  unfold skipComment at h
  split at h
  · next hbehind =>
    obtain rfl := Except.ok.inj h
    obtain ⟨piece, rfl, hpiece⟩ := Text.behind?_takes hbehind
    exact ⟨piece, rfl, fun more => by rw [skipComment, hpiece]⟩
  · cases h

theorem readDeclaration_takes {event : Option Event} (h : readDeclaration cs = .ok (event, rest)) :
    Takes readDeclaration (fun rest => .ok (event, rest)) cs rest := by
  unfold readDeclaration at h
  split at h
  · next after =>
    split at h
    · next body =>
      obtain ⟨behind, hskip, heq⟩ := map_eq_ok h
      obtain ⟨rfl, rfl⟩ := Prod.mk.inj heq
      obtain ⟨piece, rfl, hpiece⟩ := skipComment_takes hskip
      refine ⟨'-' :: '-' :: piece, rfl, fun more => ?_⟩
      simp only [List.cons_append, readDeclaration, hpiece]
      rfl
    · cases h
  · next after =>
    split at h
    · next body hbody =>
      split at h
      · next content behind hsplit =>
        obtain ⟨rfl, rfl⟩ := Prod.mk.inj (Except.ok.inj h)
        have hmore := Text.splitAt?_before hsplit
        rw [Text.dropStart?_eq_some.1 hbody, Text.eq_of_splitAt? hsplit]
        refine ⟨'[' :: ("CDATA[".toList ++ (content ++ "]]>".toList)), by simp, fun more => ?_⟩
        simp only [List.cons_append, List.append_assoc, readDeclaration,
          Text.dropStart?_eq_some.2 rfl, hmore]
      · cases h
    · cases h
  · next c cs hcomment hcdata =>
    split at h
    · next hc =>
      obtain ⟨behind, hskip, heq⟩ := map_eq_ok h
      obtain ⟨rfl, rfl⟩ := Prod.mk.inj heq
      obtain ⟨piece, hpiece, htake⟩ := skipDoctype_takes hskip
      cases piece with
      | nil => cases htake []
      | cons d piece =>
        obtain ⟨rfl, rfl⟩ := List.cons.inj hpiece
        refine ⟨c :: piece, rfl, fun more => ?_⟩
        have hmore : skipDoctype (c :: (piece ++ more)) = .ok more := htake more
        simp only [List.cons_append, readDeclaration, if_pos hc, hmore]
        rfl
    · cases h
  · cases h

theorem readInstruction_takes {event : Option Event} (h : readInstruction cs = .ok (event, rest)) :
    Takes readInstruction (fun rest => .ok (event, rest)) cs rest := by
  unfold readInstruction at h
  split at h
  · cases h
  · next hhead =>
    split at h
    · next behind hbehind =>
      obtain ⟨rfl, rfl⟩ := Prod.mk.inj (Except.ok.inj h)
      obtain ⟨piece, rfl, hpiece⟩ := Text.behind?_takes hbehind
      have hne : piece ≠ [] := by
        rintro rfl
        cases hpiece []
      refine ⟨piece, rfl, fun more => ?_⟩
      rw [List.head?_append_of_ne_nil _ hne] at hhead
      rw [readInstruction, List.head?_append_of_ne_nil _ hne, if_neg hhead, hpiece]
    · cases h

theorem readMarkup_of_cutTag {content : List Char}
    (hcut : cutTag none (content ++ '>' :: rest) = .ok (content, rest))
    (hmark : ∀ c ∈ content.head?, c ≠ '!' ∧ c ≠ '?') :
    readMarkup (content ++ '>' :: rest) = .ok (some (tagEvent content), rest) := by
  have hhead (c : Char) (cs : List Char) (heq : content ++ '>' :: rest = c :: cs) :
      c ≠ '!' ∧ c ≠ '?' := by
    cases content with
    | nil =>
      obtain rfl := (List.cons.inj heq).1
      decide
    | cons d ds =>
      obtain rfl := (List.cons.inj heq).1
      exact hmark d rfl
  unfold readMarkup
  split
  · next heq => exact absurd rfl (hhead _ _ heq).1
  · next heq => exact absurd rfl (hhead _ _ heq).2
  · rw [hcut]
    rfl

theorem readMarkup_takes {event : Option Event} (h : readMarkup cs = .ok (event, rest)) :
    Takes readMarkup (fun rest => .ok (event, rest)) cs rest := by
  unfold readMarkup at h
  split at h
  · exact (readDeclaration_takes h).behind ['!'] fun more => rfl
  · exact (readInstruction_takes h).behind ['?'] fun more => rfl
  · next hdeclaration hinstruction =>
    obtain ⟨⟨content, _⟩, hcut, heq⟩ := map_eq_ok h
    obtain ⟨rfl, rfl⟩ := Prod.mk.inj heq
    obtain rfl := cutTag_eq_ok hcut
    have hmark : ∀ c ∈ content.head?, c ≠ '!' ∧ c ≠ '?' := by
      intro c hc
      obtain ⟨tail, rfl⟩ := List.head?_eq_some_iff.1 hc
      constructor
      · rintro rfl
        exact hdeclaration _ rfl
      · rintro rfl
        exact hinstruction _ rfl
    refine ⟨content ++ ['>'], by simp, fun more => ?_⟩
    rw [List.append_assoc, List.singleton_append]
    exact readMarkup_of_cutTag (cutTag_append hcut more) hmark

theorem exists_of_dropWhile {p : Char → Bool} {last : Char}
    (h : cs.dropWhile p = last :: rest) :
    ∃ body, cs = body ++ last :: rest ∧ ∀ d ∈ body, p d = true :=
  ⟨cs.takeWhile p, by rw [← h, List.takeWhile_append_dropWhile],
    fun _ hd => List.mem_takeWhile_imp hd⟩

theorem readReference_eq_ok {event : Option Event} (h : readReference cs = .ok (event, rest)) :
    ∃ body content, cs = body ++ ';' :: rest ∧ (∀ c ∈ body, (!endsReference c) = true) ∧
      textReference body = .ok content ∧ event = some (.text content) := by
  have hend : ∃ after, cs.dropWhile (fun c => !endsReference c) = ';' :: after := by
    unfold readReference at h
    split at h
    · next after hdrop => exact ⟨after, hdrop⟩
    · cases h
  obtain ⟨after, hdrop⟩ := hend
  obtain ⟨body, rfl, hbody⟩ := exists_of_dropWhile hdrop
  rw [readReference_append hbody] at h
  obtain ⟨content, htext, heq⟩ := map_eq_ok h
  obtain ⟨rfl, rfl⟩ := Prod.mk.inj heq
  exact ⟨body, content, rfl, hbody, htext, rfl⟩

theorem readReference_takes {event : Option Event} (h : readReference cs = .ok (event, rest)) :
    Takes readReference (fun rest => .ok (event, rest)) cs rest := by
  obtain ⟨body, content, rfl, hbody, htext, rfl⟩ := readReference_eq_ok h
  refine ⟨body ++ [';'], by simp, fun more => ?_⟩
  rw [List.append_assoc, List.singleton_append, readReference_append hbody, htext]
  rfl

theorem readPiece_takes {c : Char} {event : Option Event} (h : readPiece c cs = .ok (event, rest)) :
    Takes (readPiece c) (fun rest => .ok (event, rest)) cs rest := by
  unfold readPiece at h ⊢
  split at h
  · next hc => simpa only [if_pos hc] using readMarkup_takes h
  · next hopen =>
    split at h
    · next hc => simpa only [if_neg hopen, if_pos hc] using readReference_takes h
    · next hand =>
      obtain ⟨rfl, rfl⟩ := Prod.mk.inj (Except.ok.inj h)
      exact ⟨[], rfl, fun more => by simp only [if_neg hopen, if_neg hand, List.nil_append]⟩

namespace Reading

theorem run_piece {r next : Reading} {c : Char} {event : Option Event}
    (hread : readPiece c cs = .ok (event, rest)) (hstep : r.stepOver event = .ok next) :
    r.run (c :: cs) = next.run rest := by
  rw [run_cons, hread]
  change (r.stepOver event >>= fun next => next.run rest) = _
  rw [hstep]
  rfl

theorem run_cons_eq_ok {r r' : Reading} {c : Char} (h : r.run (c :: cs) = .ok r') :
    ∃ event rest next, readPiece c cs = .ok (event, rest) ∧ r.stepOver event = .ok next ∧
      next.run rest = .ok r' := by
  rw [run_cons] at h
  split at h
  · cases h
  · next event rest hread =>
    cases hstep : r.stepOver event with
    | error => rw [hstep] at h; cases h
    | ok next =>
      rw [hstep] at h
      exact ⟨event, rest, next, hread, hstep, h⟩

/-- What holds at the end of a text that is read without a fault, and in front of each piece if it
holds behind, holds at the start. -/
theorem run_induction {r' : Reading} {motive : Reading → List Char → Prop} (nil : motive r' [])
    (piece : ∀ r c cs event rest next, readPiece c cs = .ok (event, rest) →
      r.stepOver event = .ok next → next.run rest = .ok r' → motive next rest → motive r (c :: cs))
    {r : Reading} (h : r.run cs = .ok r') : motive r cs := by
  induction hlength : cs.length using Nat.strong_induction_on generalizing r cs with
  | _ length ih =>
    cases cs with
    | nil =>
      rw [run_nil] at h
      exact Except.ok.inj h ▸ nil
    | cons c cs =>
      obtain ⟨event, rest, next, hread, hstep, hrun⟩ := run_cons_eq_ok h
      have hlt : rest.length < length := by
        rw [← hlength, List.length_cons]
        exact Nat.lt_succ_of_le (readPiece_takes hread).length_le
      exact piece r c cs event rest next hread hstep hrun (ih _ hlt hrun rfl)

theorem run_keeps {P : Reading → Prop}
    (hstep : ∀ r event next, P r → r.step event = .ok next → P next) {r r' : Reading} (hr : P r)
    (h : r.run cs = .ok r') : P r' := by
  rw [run] at h
  generalize events cs = pieces at h
  induction pieces generalizing r with
  | nil =>
    obtain rfl := Except.ok.inj h
    exact hr
  | cons event pieces ih =>
    rw [List.foldlM_cons] at h
    cases hnext : r.step event with
    | error => rw [hnext] at h; cases h
    | ok next =>
      rw [hnext] at h
      exact ih (hstep r event next hr hnext) h

theorem run_append {r r' : Reading} (h : r.run cs = .ok r') (more : List Char) :
    r.run (cs ++ more) = r'.run more := by
  refine run_induction (motive := fun r cs => r.run (cs ++ more) = r'.run more) ?_ ?_ h
  · rw [List.nil_append]
  · intro r c cs event rest next hread hstep _ ih
    rw [List.cons_append, run_piece ((readPiece_takes hread).append more) hstep, ih]

end Reading

end Markup

end MarkupSnippets

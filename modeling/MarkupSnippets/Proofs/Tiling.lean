import Mathlib.Data.List.Forall2
import Mathlib.Data.String.Basic
import MarkupSnippets.Proofs.Lexemes
import MarkupSnippets.Proofs.Scanning

namespace MarkupSnippets

def Span.slice (span : Span) (text : String) : String :=
  String.Pos.Raw.extract text ⟨span.start⟩ ⟨span.stop⟩

/-- The ranges between given ones, in front of the first of them and behind the last. -/
def gaps (bound size : Nat) : List Span → List Span
  | [] => [⟨bound, size⟩]
  | span :: rest => ⟨bound, span.start⟩ :: gaps span.stop size rest

namespace Text

theorem utf8Len_eq (cs : List Char) : String.utf8Len cs = byteSize cs := by
  induction cs with
  | nil => rfl
  | cons c cs ih => rw [String.utf8Len_cons, ih, byteSize_cons, Nat.add_comm]

theorem OccursAt.slice {pattern : List Char} {text : String} {span : Span}
    (h : OccursAt pattern text.toList span.start)
    (hstop : span.stop = span.start + byteSize pattern) :
    span.slice text = String.ofList pattern := by
  obtain ⟨before, after, hsplit, hstart⟩ := h
  have hextract := String.extract_of_valid before pattern after
  rw [List.append_assoc, ← hsplit, String.ofList_toList, utf8Len_eq, utf8Len_eq, hstart,
    ← hstop] at hextract
  exact hextract

end Text

/-- The tokens of the rest of a text that starts at an offset. -/
inductive Tiled : Nat → List Char → List (Token × Span) → Prop where
  | nil {offset : Nat} : Tiled offset [] []
  | separator {offset : Nat} {c : Char} {cs : List Char} {ts : List (Token × Span)}
      (hc : isSeparator c = true) (h : Tiled (offset + c.utf8Size) cs ts) :
      Tiled offset (c :: cs) ts
  | token {offset : Nat} {lexeme cs : List Char} {t : Token} {ts : List (Token × Span)}
      (hlexeme : Lexeme lexeme t) (h : Tiled (offset + Text.byteSize lexeme) cs ts) :
      Tiled offset (lexeme ++ cs) ((t, ⟨offset, offset + Text.byteSize lexeme⟩) :: ts)

theorem utf8Size_of_isSeparator {c : Char} (hc : isSeparator c = true) : c.utf8Size = 1 := by
  obtain rfl | rfl | rfl | rfl := eq_of_isSeparator hc <;> rfl

theorem tiled_of_tokenize {offset : Nat} {cs : List Char} {ts : List (Token × Span)}
    (h : tokenize offset cs = .ok ts) : Tiled offset cs ts := by
  fun_induction tokenize offset cs generalizing ts with
  | case1 =>
    cases h
    exact .nil
  | case2 offset c cs hc ih =>
    refine .separator hc ?_
    rw [utf8Size_of_isSeparator hc]
    exact ih h
  | case3 => cases h
  | case4 offset c cs hc t rest hread hlt stop later htokenize =>
    rename_i ih
    cases h
    obtain ⟨lexeme, hlexeme, hsplit⟩ := Token.exists_lexeme hread
    have hstop : stop = offset + Text.byteSize lexeme := by
      simp only [stop, hsplit, Text.byteSize_append]
      omega
    rw [hstop] at ih htokenize ⊢
    rw [hsplit]
    exact .token hlexeme (ih htokenize)
  | case5 => cases h

namespace Tiled

variable {offset : Nat} {text cs : List Char} {ts : List (Token × Span)}

theorem le_start (h : Tiled offset cs ts) : ∀ entry ∈ ts, offset ≤ entry.2.start := by
  induction h with
  | nil => exact List.forall_mem_nil _
  | separator hc _ ih => exact fun entry hentry => (Nat.le_add_right _ _).trans (ih entry hentry)
  | token _ _ ih =>
    refine List.forall_mem_cons.2 ⟨Nat.le_refl _, fun entry hentry => ?_⟩
    exact (Nat.le_add_right _ _).trans (ih entry hentry)

theorem pairwise (h : Tiled offset cs ts) :
    (ts.map Prod.snd).Pairwise fun span later => span.stop ≤ later.start := by
  induction h with
  | nil => exact .nil
  | separator _ _ ih => exact ih
  | token _ h ih => exact .cons (List.forall_mem_map.2 h.le_start) ih

theorem exists_lexeme (h : Tiled offset cs ts) (start : List Char) (htext : text = start ++ cs)
    (hoffset : Text.byteSize start = offset) :
    ∀ entry ∈ ts, ∃ lexeme, Lexeme lexeme entry.1 ∧ Text.OccursAt lexeme text entry.2.start ∧
      entry.2.stop = entry.2.start + Text.byteSize lexeme := by
  induction h generalizing start with
  | nil => exact List.forall_mem_nil _
  | @separator offset c cs ts hc _ ih =>
    exact ih (start ++ [c]) (by simp [htext]) (by simp [hoffset])
  | @token offset lexeme cs t ts hlexeme _ ih =>
    refine List.forall_mem_cons.2 ⟨⟨lexeme, hlexeme, ⟨start, cs, htext, hoffset⟩, rfl⟩, ?_⟩
    exact ih (start ++ lexeme) (by simp [htext]) (by simp [hoffset])

theorem exists_blank (h : Tiled offset cs ts) {bound : Nat} (start blank : List Char)
    (htext : text = start ++ (blank ++ cs)) (hbound : Text.byteSize start = bound)
    (hoffset : bound + Text.byteSize blank = offset)
    (hblank : ∀ c ∈ blank, isSeparator c = true) :
    ∀ gap ∈ gaps bound (Text.byteSize text) (ts.map Prod.snd),
      ∃ blank, (∀ c ∈ blank, isSeparator c = true) ∧ Text.OccursAt blank text gap.start ∧
        gap.stop = gap.start + Text.byteSize blank := by
  -- The white space that has been passed since the last token is kept apart from what is before it.
  induction h generalizing start bound blank with
  | nil =>
    refine List.forall_mem_singleton.2 ⟨blank, hblank, ⟨start, [], htext, hbound⟩, ?_⟩
    simp [htext, hbound]
  | @separator offset c cs ts hc _ ih =>
    refine ih start (blank ++ [c]) (by simp [htext]) hbound ?_
      (List.forall_mem_append.2 ⟨hblank, List.forall_mem_singleton.2 hc⟩)
    simp [← hoffset, Nat.add_assoc]
  | @token offset lexeme cs t ts hlexeme _ ih =>
    refine List.forall_mem_cons.2
      ⟨⟨blank, hblank, ⟨start, lexeme ++ cs, htext, hbound⟩, hoffset.symm⟩, ?_⟩
    refine ih (start ++ (blank ++ lexeme)) [] (by simp [htext]) ?_ rfl (List.forall_mem_nil _)
    simp [← hoffset, hbound, Nat.add_assoc]

theorem forall₂_slice {text : String} (h : Tiled 0 text.toList ts) :
    List.Forall₂ (fun word t => Lexeme word.toList t) (ts.map fun entry => entry.2.slice text)
      (ts.map Prod.fst) := by
  rw [List.forall₂_map_left_iff, List.forall₂_map_right_iff, List.forall₂_same]
  intro entry hentry
  obtain ⟨lexeme, hlexeme, hoccurs, hstop⟩ := h.exists_lexeme [] rfl rfl entry hentry
  rwa [hoccurs.slice hstop, String.toList_ofList]

end Tiled

theorem Tokenizes.blank {cs between : List Char} {ts : List Token}
    (hbetween : ∀ c ∈ between, isSeparator c = true) (h : Tokenizes cs ts) :
    Tokenizes (between ++ cs) ts := by
  induction between with
  | nil => exact h
  | cons c between ih =>
    obtain ⟨hc, hbetween⟩ := List.forall_mem_cons.1 hbetween
    exact (ih hbetween).separator hc

/-- White space to put in front of words and behind each of them. Only the last of it may be
empty. -/
structure Spacing where
  lead : String
  behind : List String
  isSeparator_of_mem : ∀ s ∈ lead :: behind, ∀ c ∈ s.toList, isSeparator c = true
  ne_empty_of_mem : ∀ s ∈ behind.dropLast, s ≠ ""

def Spacing.spread (spacing : Spacing) (words : List String) : String :=
  spacing.lead ++ String.join (List.zipWith (· ++ ·) words spacing.behind)

/-- The tokens of a text, each by its own characters, with other white space around them. -/
def Spacing.respace (spacing : Spacing) (text : String) (ts : List (Token × Span)) : String :=
  spacing.spread (ts.map fun entry => entry.2.slice text)

theorem endsToken_join {s : String} {words behind : List String}
    (hlength : behind.length = words.length) (hs : ∀ c ∈ s.toList, isSeparator c = true)
    (hne : ∀ s' ∈ (s :: behind).dropLast, s' ≠ "") :
    EndsToken (s.toList ++ (String.join (List.zipWith (· ++ ·) words behind)).toList) := by
  intro c hc
  cases hchars : s.toList with
  | cons d chars =>
    rw [hchars] at hc hs
    obtain rfl := Option.some.inj hc
    exact hs _ List.mem_cons_self
  | nil =>
    obtain rfl : s = "" := String.toList_eq_nil_iff.1 hchars
    cases behind with
    | nil =>
      obtain rfl := List.length_eq_zero_iff.1 hlength.symm
      cases hc
    | cons next behind => exact absurd rfl (hne "" List.mem_cons_self)

theorem tokenizes_join {words : List String} {ts : List Token}
    (hwords : List.Forall₂ (fun word t => Lexeme word.toList t) words ts) {behind : List String}
    (hlength : behind.length = words.length)
    (hblank : ∀ s ∈ behind, ∀ c ∈ s.toList, isSeparator c = true)
    (hne : ∀ s ∈ behind.dropLast, s ≠ "") :
    Tokenizes (String.join (List.zipWith (· ++ ·) words behind)).toList ts := by
  induction hwords generalizing behind with
  | nil => exact .nil
  | @cons word t words ts hword _ ih =>
    obtain ⟨s, behind, rfl⟩ := List.exists_cons_of_length_eq_add_one hlength
    obtain ⟨hs, hblank⟩ := List.forall_mem_cons.1 hblank
    have hrest : behind.length = words.length := Nat.succ.inj hlength
    have hnext : ∀ s ∈ behind.dropLast, s ≠ "" := by
      cases behind with
      | nil => exact List.forall_mem_nil _
      | cons next behind => exact fun s hmem => hne s (List.mem_cons_of_mem _ hmem)
    have hread := hword.read?_append (endsToken_join hrest hs hne)
    have htoken := Tokenizes.token hread ((ih hrest hblank hnext).blank hs)
    simpa using htoken

theorem Spacing.tokenize_respace (spacing : Spacing) {text : String} {ts : List (Token × Span)}
    (h : tokenize 0 text.toList = .ok ts) (hlength : spacing.behind.length = ts.length) :
    ∃ others, tokenize 0 (spacing.respace text ts).toList = .ok others ∧
      others.map Prod.fst = ts.map Prod.fst := by
  obtain ⟨hlead, hbehind⟩ := List.forall_mem_cons.1 spacing.isSeparator_of_mem
  have hjoin := tokenizes_join (tiled_of_tokenize h).forall₂_slice (by simp [hlength]) hbehind
    spacing.ne_empty_of_mem
  obtain ⟨others, hothers, htokens⟩ := hjoin.blank hlead 0
  refine ⟨others, ?_, htokens⟩
  rw [← hothers, Spacing.respace, Spacing.spread, String.toList_append]

/-- The tokens of a test lie one behind the other on whole characters, with nothing but white space
around them. With other white space between them, in front and behind, the test is cut into the same
tokens and read as the same tree, or neither is read. -/
theorem tokens_tile (text : String) (ts : List (Token × Span))
    (h : tokenize 0 text.toList = .ok ts) :
    (∀ span ∈ ts.map Prod.snd, span.start < span.stop ∧ span.stop ≤ text.utf8ByteSize ∧
      (⟨span.start⟩ : String.Pos.Raw).IsValid text ∧ (⟨span.stop⟩ : String.Pos.Raw).IsValid text) ∧
    ((ts.map Prod.snd).Pairwise fun span later => span.stop ≤ later.start) ∧
    (∀ gap ∈ gaps 0 text.utf8ByteSize (ts.map Prod.snd), ∀ c ∈ (gap.slice text).toList,
      isSeparator c = true) ∧
    ∀ spacing : Spacing, spacing.behind.length = ts.length →
      (∃ others, tokenize 0 (spacing.respace text ts).toList = .ok others ∧
        others.map Prod.fst = ts.map Prod.fst) ∧
      ∀ origin e, Expr.parse origin text = .ok e ↔
        Expr.parse origin (spacing.respace text ts) = .ok e := by
  have htiled := tiled_of_tokenize h
  refine ⟨List.forall_mem_map.2 fun entry hentry => ?_, htiled.pairwise, fun gap hgap => ?_,
    fun spacing hlength => ?_⟩
  · obtain ⟨lexeme, hlexeme, hoccurs, hstop⟩ := htiled.exists_lexeme [] rfl rfl entry hentry
    have hsize := Nat.pos_of_ne_zero (mt Text.byteSize_eq_zero_iff.1 hlexeme.ne_nil)
    refine ⟨by omega, ?_, hoccurs.isValid, hstop ▸ hoccurs.end.isValid⟩
    rw [hstop, Text.utf8ByteSize_eq]
    exact hoccurs.add_le
  · rw [Text.utf8ByteSize_eq] at hgap
    obtain ⟨blank, hblank, hoccurs, hstop⟩ :=
      htiled.exists_blank [] [] rfl rfl rfl (List.forall_mem_nil _) gap hgap
    rw [hoccurs.slice hstop, String.toList_ofList]
    exact hblank
  · obtain ⟨others, hrespaced, htokens⟩ := spacing.tokenize_respace h hlength
    refine ⟨⟨others, hrespaced, htokens⟩, fun origin e => ?_⟩
    rw [Expr.parse_eq_ok_iff h, Expr.parse_eq_ok_iff hrespaced, htokens]

def tightTest : String := "!\x7b\x7ba b\x7d\x7d<='\\'=' "

def tightTokens : List (Token × Span) :=
  [(.not, ⟨0, 1⟩), (.reference "a b", ⟨1, 8⟩), (.comparison .lessOrEqual, ⟨8, 10⟩),
    (.text "'=", ⟨10, 15⟩)]

def looseSpacing : Spacing where
  lead := "\t"
  behind := ["\n\r", " ", "  ", ""]
  isSeparator_of_mem := by simp [isSeparator]
  ne_empty_of_mem := by decide

theorem tokenize_tightTest : tokenize 0 tightTest.toList = .ok tightTokens := by
  have hend : tokenize 15 [' '] = .ok [] := by simp [tokenize, isSeparator]
  have htext : Token.read? "'\\'=' ".toList = some (.text "'=", [' ']) := by decide +kernel
  have hless : Token.read? "<='\\'=' ".toList =
      some (.comparison .lessOrEqual, "'\\'=' ".toList) := by decide +kernel
  have hreference : Token.read? "\x7b\x7ba b\x7d\x7d<='\\'=' ".toList =
      some (.reference "a b", "<='\\'=' ".toList) := by decide +kernel
  have hnot : Token.read? tightTest.toList =
      some (.not, "\x7b\x7ba b\x7d\x7d<='\\'=' ".toList) := by decide +kernel
  exact tokenize_of_read? hnot (tokenize_of_read? hreference
    (tokenize_of_read? hless (tokenize_of_read? htext hend)))

theorem tokens_tile_tight :
    tokenize 0 tightTest.toList = .ok tightTokens ∧
      looseSpacing.behind.length = tightTokens.length ∧
      looseSpacing.respace tightTest tightTokens =
        "\t!\n\r\x7b\x7ba b\x7d\x7d <=  '\\'='" ∧
      ∃ others, tokenize 0 "\t!\n\r\x7b\x7ba b\x7d\x7d <=  '\\'='".toList = .ok others ∧
        others.map Prod.fst = tightTokens.map Prod.fst := by
  have hloose : looseSpacing.respace tightTest tightTokens =
      "\t!\n\r\x7b\x7ba b\x7d\x7d <=  '\\'='" := by decide +kernel
  obtain ⟨-, -, -, hspacing⟩ := tokens_tile tightTest tightTokens tokenize_tightTest
  obtain ⟨hothers, -⟩ := hspacing looseSpacing rfl
  exact ⟨tokenize_tightTest, rfl, hloose, hloose ▸ hothers⟩

end MarkupSnippets

import MarkupSnippets.Expr.Eval
import MarkupSnippets.Proofs.Assembly
import MarkupSnippets.Proofs.Lexemes

namespace MarkupSnippets

namespace Text

theorem Undoubled.of_splitAt? {c : Char} {cs rest : List Char}
    (h : splitAt? [c, c] (cs ++ [c, c]) = some (cs, rest)) : Undoubled c cs := by
  constructor
  · rintro ⟨before, after, rfl⟩
    rw [List.append_assoc, List.append_assoc, List.append_assoc] at h
    have hlength := (prefix_of_splitAt? h).length_le
    simp only [List.length_append, List.length_cons, List.length_nil] at hlength
    omega
  · intro hlast
    obtain ⟨before, rfl⟩ := List.getLast?_eq_some_iff.1 hlast
    have h : splitAt? [c, c] (before ++ ([c, c] ++ [c])) = some (before ++ [c], rest) := by
      simpa using h
    have hlength := (prefix_of_splitAt? h).length_le
    simp only [List.length_append, List.length_cons, List.length_nil] at hlength
    omega

theorem trim_inBraces (path : String) : trim (inBraces path) = inBraces path := by
  have hchars : (inBraces path).toList = '{' :: '{' :: (path.toList ++ ['}']) ++ ['}'] := by
    simp [toList_inBraces]
  have hopening : isBlank '{' = false := by decide
  rw [trim, trimChars, hchars, List.cons_append, List.dropWhile_cons_of_neg (by simp [hopening]),
    ← List.cons_append, trimRight_concat (by decide), ← hchars, String.ofList_toList]

end Text

theorem Piece.pieces_toList_inBraces {path : String} (h : Text.Undoubled '}' path.toList) :
    pieces (inBraces path).toList = [.plain [], .reference path.toList, .plain []] := by
  have hpieces := pieces_inBraces h []
  rwa [List.append_nil, pieces_nil] at hpieces

namespace Placeholder

/-- Whether a text is a single placeholder from its beginning to its end. -/
def Fills (text : String) : Prop := ∃ path, all text = [⟨0, text.utf8ByteSize, path⟩]

theorem utf8ByteSize_inBraces (path : String) : (inBraces path).utf8ByteSize =
    Text.byteSize (Piece.reference path.toList).source := by
  simp [Text.utf8ByteSize_eq, toList_inBraces, Piece.source, Piece.opening, Piece.closing]

theorem all_inBraces {path : String} (h : Text.Undoubled '}' path.toList) :
    all (inBraces path) = [⟨0, (inBraces path).utf8ByteSize, Text.trim path⟩] := by
  rw [all, Piece.pieces_toList_inBraces h, utf8ByteSize_inBraces]
  simp [locate]

theorem sole?_inBraces {path : String} (h : Text.Undoubled '}' path.toList) :
    sole? (inBraces path) = some (Text.trim path) := by
  rw [sole?, Text.trim_inBraces, Piece.pieces_toList_inBraces h]
  simp

theorem fills_inBraces_iff (path : String) :
    Fills (inBraces path) ↔ Text.Undoubled '}' path.toList := by
  constructor
  · rintro ⟨trimmed, hall⟩
    have hopen : Text.splitAt? Piece.opening (inBraces path).toList =
        some ([], path.toList ++ Piece.closing) := by
      simp [toList_inBraces, Piece.opening, Piece.closing, Text.splitAt?, Text.dropStart?]
    rw [all] at hall
    cases hclose : Text.splitAt? Piece.closing (path.toList ++ Piece.closing) with
    | none =>
      rw [Piece.pieces_of_unclosed hopen hclose] at hall
      cases hall
    | some found =>
      obtain ⟨inner, rest⟩ := found
      rw [Piece.pieces_of_closed hopen hclose] at hall
      have hsize := congrArg Placeholder.stop (List.cons.inj hall).1
      simp only [utf8ByteSize_inBraces, byteSize_source, Text.byteSize_nil] at hsize
      obtain ⟨rfl, -⟩ := Text.append_inj_of_byteSize (Text.eq_of_splitAt? hclose) (by omega)
      exact .of_splitAt? hclose
  · exact fun h => ⟨_, all_inBraces h⟩

end Placeholder

theorem toText_lookup (data : Data) (path : String) :
    (lookup data path).toText = textAt data path := by
  rw [lookup, textAt]
  cases resolve? data path <;> rfl

theorem lookup_trim (data : Data) (path : String) :
    lookup data (Text.trim path) = lookup data path := by
  rw [lookup, resolve?_trim, lookup]

theorem substitute_sole {path : String} (h : Text.Undoubled '}' path.toList) (data : Data) :
    substitute data (inBraces path) = (lookup data path).toText := by
  have hsubstitute := substitute_inBraces h data ""
  rwa [substitute_empty, String.append_empty, String.append_empty, ← toText_lookup] at hsubstitute

def quoted (quote : Char) (text : String) : String :=
  String.ofList (quote :: (text.toList ++ [quote]))

namespace Expr

variable {path : String}

theorem parse_quoted_inBraces (hplain : ∀ c ∈ path.toList, Token.isQuote c = false ∧ c ≠ '\\')
    {quote : Char} (hquote : Token.isQuote quote = true) (origin : Origin) :
    parse origin (quoted quote (inBraces path)) = .ok (.text (inBraces path)) := by
  have hchars : ∀ c ∈ (inBraces path).toList, Token.isQuote c = false ∧ c ≠ '\\' := by
    rw [toList_inBraces]
    simp only [List.forall_mem_cons, List.forall_mem_append]
    exact ⟨by decide, by decide, hplain, by decide, by decide, List.forall_mem_nil _⟩
  have hrun : Token.Quotable quote (inBraces path).toList := by
    refine Token.quotable_of_forall fun c hc => ⟨?_, (hchars c hc).2⟩
    rintro rfl
    cases hquote.symm.trans (hchars c hc).1
  have hlexeme := Lexeme.text hquote hrun
  rw [Token.unquote_of_not_mem fun hmem => (hchars _ hmem).2 rfl, String.ofList_toList] at hlexeme
  exact hlexeme.parse rfl origin

theorem eval_text_inBraces (h : Text.Undoubled '}' path.toList) (data : Data) :
    (text (inBraces path)).eval data = lookup data path := by
  simp only [eval, Placeholder.sole?_inBraces h, lookup_trim]

theorem parse_inBraces (h : '}' ∉ path.toList) (origin : Origin) :
    parse origin (inBraces path) = .ok (.reference (Text.trim path)) := by
  have hparse := (Lexeme.reference h).parse rfl origin
  rwa [← toList_inBraces, String.ofList_toList, String.ofList_toList] at hparse

theorem not_mem_of_parse_inBraces (h : Text.Undoubled '}' path.toList) {origin : Origin} {e : Expr}
    (hparse : parse origin (inBraces path) = .ok e) : '}' ∉ path.toList := by
  cases hread : Token.read? (inBraces path).toList with
  | none =>
    rw [toList_inBraces] at hread
    simp [parse, toList_inBraces, tokenize_of_read?_eq_none (by decide) hread] at hparse
  | some found =>
    obtain ⟨t, rest⟩ := found
    rw [toList_inBraces, Token.read?_brace] at hread
    obtain ⟨read, hbrace, hsplit, -⟩ := Token.readReference?_eq_some hread
    have hinner : path.toList ++ '}' :: '}' :: [] = read ++ '}' :: '}' :: rest := by
      simpa using hsplit
    have hpath := h.splitAt?_append_doubled []
    rw [hinner, (Text.Undoubled.of_not_mem hbrace).splitAt?_append_doubled] at hpath
    exact (Prod.mk.inj (Option.some.inj hpath)).1 ▸ hbrace

end Expr

/-- A placeholder that a text consists of has the value of its path in a test, too, between quotes
of both kinds, and in the text the value's text is put into its place. Bare in a test it has this
value if there is no closing brace in its path, and cannot be read if there is one. -/
theorem reference_coincides (path : String) (hfills : Placeholder.Fills (inBraces path))
    (hplain : ∀ c ∈ path.toList, Token.isQuote c = false ∧ c ≠ '\\') (data : Data) :
    (∀ origin quote, Token.isQuote quote = true → ∃ e,
      Expr.parse origin (quoted quote (inBraces path)) = .ok e ∧
        e.eval data = (resolve? data path).getD .null) ∧
    (∀ origin, '}' ∉ path.toList → ∃ e, Expr.parse origin (inBraces path) = .ok e ∧
      e.eval data = (resolve? data path).getD .null) ∧
    (∀ origin, '}' ∈ path.toList → ∀ e, Expr.parse origin (inBraces path) ≠ .ok e) ∧
    ((resolve? data path).getD .null).toText = substitute data (inBraces path) := by
  have hundoubled := (Placeholder.fills_inBraces_iff path).1 hfills
  refine ⟨fun origin quote hquote => ?_, fun origin hbrace => ?_, fun origin hbrace e hparse => ?_,
    (substitute_sole hundoubled data).symm⟩
  · exact ⟨_, Expr.parse_quoted_inBraces hplain hquote origin,
      Expr.eval_text_inBraces hundoubled data⟩
  · exact ⟨_, Expr.parse_inBraces hbrace origin, lookup_trim data path⟩
  · exact Expr.not_mem_of_parse_inBraces hundoubled hparse hbrace

def openBracePath : String := " \x7b.b\n"

def openBraceData : Data :=
  Record.empty.insert "\x7b" (.record (Record.empty.insert "b" (.number (.ofNat 7))).fields)

theorem reference_coincides_open_brace :
    Placeholder.Fills (inBraces openBracePath) ∧
      (∀ c ∈ openBracePath.toList, Token.isQuote c = false ∧ c ≠ '\\') ∧
      (resolve? openBraceData openBracePath).getD .null = .number (.ofNat 7) ∧
      (∃ e, Expr.parse [] (quoted '"' (inBraces openBracePath)) = .ok e ∧
        e.eval openBraceData = .number (.ofNat 7)) ∧
      (∃ e, Expr.parse [] (inBraces openBracePath) = .ok e ∧
        e.eval openBraceData = .number (.ofNat 7)) ∧
      substitute openBraceData (inBraces openBracePath) = "7" := by
  have hfills : Placeholder.Fills (inBraces openBracePath) :=
    (Placeholder.fills_inBraces_iff openBracePath).2 (by decide)
  have hplain : ∀ c ∈ openBracePath.toList, Token.isQuote c = false ∧ c ≠ '\\' := by
    simp [openBracePath, Token.isQuote]
  have hvalue : (resolve? openBraceData openBracePath).getD .null = .number (.ofNat 7) := rfl
  obtain ⟨hquoted, hbare, -, htext⟩ := reference_coincides openBracePath hfills hplain openBraceData
  rw [hvalue] at hquoted hbare htext
  have hseven : (Value.number (.ofNat 7)).toText = "7" := by decide +kernel
  exact ⟨hfills, hplain, hvalue, hquoted [] '"' rfl, hbare [] (by decide), htext.symm.trans hseven⟩

def closeBracePath : String := "a\x7db"

def closeBraceData : Data := Record.empty.insert closeBracePath (.text "v")

/-- A path with a closing brace leads to its value in a text, and between quotes in a test, where it
cannot be read bare. -/
theorem bare_reference_refused :
    Placeholder.Fills (inBraces closeBracePath) ∧
      (∀ c ∈ closeBracePath.toList, Token.isQuote c = false ∧ c ≠ '\\') ∧
      substitute closeBraceData (inBraces closeBracePath) = "v" ∧
      (∃ e, Expr.parse [] (quoted '"' (inBraces closeBracePath)) = .ok e ∧
        e.eval closeBraceData = .text "v") ∧
      ∀ e, Expr.parse [] (inBraces closeBracePath) ≠ .ok e := by
  have hundoubled : Text.Undoubled '}' closeBracePath.toList := by decide
  have hplain : ∀ c ∈ closeBracePath.toList, Token.isQuote c = false ∧ c ≠ '\\' := by
    simp [closeBracePath, Token.isQuote]
  have hvalue : lookup closeBraceData closeBracePath = .text "v" := rfl
  refine ⟨(Placeholder.fills_inBraces_iff _).2 hundoubled, hplain, ?_, ?_, fun e hparse => ?_⟩
  · rw [substitute_sole hundoubled, hvalue]
    rfl
  · exact ⟨_, Expr.parse_quoted_inBraces hplain rfl [],
      (Expr.eval_text_inBraces hundoubled closeBraceData).trans hvalue⟩
  · exact Expr.not_mem_of_parse_inBraces hundoubled hparse (by decide)

end MarkupSnippets

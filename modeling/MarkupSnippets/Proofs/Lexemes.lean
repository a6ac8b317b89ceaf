import MarkupSnippets.Proofs.Grammar
import MarkupSnippets.Proofs.Spelling

namespace MarkupSnippets

/-- The texts of a token, with a rule for each form. -/
inductive Lexeme : List Char → Token → Prop where
  | fixed {spelling : String} {t : Token} (h : (spelling, t) ∈ Token.spellings) :
      Lexeme spelling.toList t
  | reference {path : List Char} (h : '}' ∉ path) :
      Lexeme ('{' :: '{' :: (path ++ ['}', '}']))
        (.reference (Text.trim (String.ofList path)))
  | text {quote : Char} {run : List Char} (hquote : Token.isQuote quote = true)
      (hrun : Token.Quotable quote run) :
      Lexeme (quote :: (run ++ [quote])) (.text (String.ofList (Token.unquote run)))
  | number (n : NumberLiteral) : Lexeme n.chars (.number n.toDecimal.toNumber)

/-- What may follow any token: nothing or white space. -/
def EndsToken (rest : List Char) : Prop := ∀ c ∈ rest.head?, isSeparator c = true

theorem EndsToken.endsNumber {rest : List Char} (h : EndsToken rest) : EndsNumber rest := by
  intro c hc
  obtain rfl | rfl | rfl | rfl := eq_of_isSeparator (h c hc) <;> decide

namespace Token

variable {cs rest lexeme : List Char} {t : Token}

theorem exists_lexeme_of_readNumber? (h : readNumber? cs = some (t, rest)) :
    ∃ lexeme, Lexeme lexeme t ∧ cs = lexeme ++ rest := by
  obtain ⟨negative, digits, rfl, hdigits⟩ := readNumber?_eq_some h
  obtain ⟨whole, fraction, hne, hwhole, hfraction, rfl, rfl⟩ := readDigits?_eq_some hdigits
  let n : NumberLiteral := ⟨negative, whole, fraction, hne, hwhole, hfraction⟩
  refine ⟨n.chars, .number n, ?_⟩
  rw [NumberLiteral.chars, List.append_assoc, List.append_assoc]
  rfl

theorem exists_lexeme (h : read? cs = some (t, rest)) :
    ∃ lexeme, Lexeme lexeme t ∧ cs = lexeme ++ rest := by
  simp only [read?, Option.or_eq_some_iff] at h
  obtain h | ⟨-, h | ⟨-, h | ⟨-, h⟩⟩⟩ := h
  · obtain ⟨spelling, hmem, rfl⟩ := readFixed?_eq_some h
    exact ⟨_, .fixed hmem, rfl⟩
  · obtain ⟨path, hbrace, rfl, rfl⟩ := readReference?_eq_some h
    exact ⟨_, .reference hbrace, by simp⟩
  · obtain ⟨quote, run, hquote, hrun, rfl, rfl⟩ := readText?_eq_some h
    exact ⟨_, .text hquote hrun, by simp⟩
  · exact exists_lexeme_of_readNumber? h

theorem spellings_pairwise :
    spellings.Pairwise fun entry later => ¬entry.1.toList <+: later.1.toList := by
  decide

theorem not_isSeparator_of_mem_spellings :
    ∀ entry ∈ spellings, ∀ c ∈ entry.1.toList, isSeparator c = false := by
  simp [spellings, isSeparator]

theorem isPrefix_of_endsToken {spelling : List Char}
    (hspelling : ∀ c ∈ spelling, isSeparator c = false) (hrest : EndsToken rest)
    (h : spelling <+: lexeme ++ rest) : spelling <+: lexeme := by
  obtain hprefix | ⟨more, rfl⟩ :=
    List.prefix_or_prefix_of_prefix h (List.prefix_append lexeme rest)
  · exact hprefix
  · rw [List.prefix_append_right_inj] at h
    cases more with
    | nil => simp
    | cons c more =>
      obtain ⟨after, rfl⟩ := h
      have hseparator := hrest c rfl
      rw [hspelling c (by simp)] at hseparator
      cases hseparator

theorem readFixed?_append {spelling : String} (h : (spelling, t) ∈ spellings)
    (hrest : EndsToken rest) : readFixed? (spelling.toList ++ rest) = some (t, rest) := by
  obtain ⟨before, after, hsplit⟩ := List.append_of_mem h
  refine List.findSome?_eq_some_iff.2 ⟨before, (spelling, t), after, hsplit, ?_, ?_⟩
  · have hdrop : Text.dropStart? spelling.toList (spelling.toList ++ rest) = some rest :=
      Text.dropStart?_eq_some.2 rfl
    simp [hdrop]
  · intro entry hentry
    have hmem : entry ∈ spellings := by simp [hsplit, hentry]
    have hpairwise := spellings_pairwise
    rw [hsplit, List.pairwise_append] at hpairwise
    have hnot := hpairwise.2.2 entry hentry (spelling, t) List.mem_cons_self
    cases hdrop : Text.dropStart? entry.1.toList (spelling.toList ++ rest) with
    | none => simp [hdrop]
    | some found =>
      have hprefix : entry.1.toList <+: spelling.toList ++ rest :=
        ⟨found, (Text.dropStart?_eq_some.1 hdrop).symm⟩
      exact absurd
        (isPrefix_of_endsToken (not_isSeparator_of_mem_spellings entry hmem) hrest hprefix) hnot

end Token

namespace Lexeme

variable {lexeme rest : List Char} {t : Token}

/-- A text of one of the forms is read as its token where nothing or white space follows. -/
theorem read?_append (h : Lexeme lexeme t) (hrest : EndsToken rest) :
    Token.read? (lexeme ++ rest) = some (t, rest) := by
  cases h with
  | fixed h => rw [Token.read?, Token.readFixed?_append h hrest, Option.some_or]
  | reference h => simpa using Token.read?_braced h rest
  | text hquote hrun => simpa using Token.read?_quotable hquote hrun rest
  | number n => exact n.read?_chars hrest.endsNumber

theorem ne_nil (h : Lexeme lexeme t) : lexeme ≠ [] := by
  rintro rfl
  have hread : Token.read? ([] ++ []) = some (t, []) := h.read?_append nofun
  cases hread

end Lexeme

theorem Expr.parse_eq_ok_iff {text : String} {ts : List (Token × Span)}
    (h : tokenize 0 text.toList = .ok ts) (origin : Origin) (e : Expr) :
    parse origin text = .ok e ↔ Derives .disjunction (ts.map Prod.fst) e := by
  constructor
  · intro hparse
    have htokens : ofTokens ts = .ok e := by
      simp only [parse, h] at hparse
      split at hparse
      · next hok =>
        cases hparse
        exact hok
      · cases hparse
      · cases hparse
    exact (derives_of_reading ts).1 .nil Pending.behind_start htokens
  · intro hderives
    simp only [parse, h, ofTokens_of_derives hderives]

theorem Lexeme.parse {lexeme : List Char} {t : Token} {e : Expr} (h : Lexeme lexeme t)
    (he : Expr.ofToken? t = some e) (origin : Origin) :
    Expr.parse origin (String.ofList lexeme) = .ok e := by
  have hread := h.read?_append (show EndsToken [] from nofun)
  obtain ⟨ts, htokenize, htokens⟩ := Tokenizes.token hread .nil 0
  rw [List.append_nil, ← String.toList_ofList (l := lexeme)] at htokenize
  rw [Expr.parse_eq_ok_iff htokenize, htokens]
  have hunary := Derives.unary 0 (.ofToken? he)
  exact hunary.toComparison.toConjunction.toDisjunction

end MarkupSnippets

import MarkupSnippets.Proofs.Tiling

namespace MarkupSnippets

namespace Token

theorem strayText_isPrefix (cs : List Char) : strayText cs <+: cs := by
  unfold strayText
  split
  · next inner =>
    obtain ⟨rest, hrest⟩ := List.takeWhile_prefix (· != '}') (l := inner)
    exact ⟨rest, by rw [List.cons_append, List.cons_append, hrest]⟩
  · next c cs _ =>
    split
    · exact ⟨(quotedRun c cs).2, by rw [List.cons_append, quotedRun_append]⟩
    · exact ⟨cs, rfl⟩
  · exact List.prefix_rfl

theorem strayText_ne_nil (c : Char) (cs : List Char) : strayText (c :: cs) ≠ [] := by
  unfold strayText
  split
  · exact List.cons_ne_nil _ _
  · next heq =>
    obtain ⟨rfl, rfl⟩ := List.cons.inj heq
    split <;> exact List.cons_ne_nil _ _
  · next heq => cases heq

end Token

theorem occursAt_of_tokenize_eq_error {offset : Nat} {cs : List Char} {stray : Stray}
    (h : tokenize offset cs = .error stray) (start : List Char)
    (hoffset : Text.byteSize start = offset) :
    stray.text ≠ [] ∧ Text.OccursAt stray.text (start ++ cs) stray.start := by
  fun_induction tokenize offset cs generalizing start with
  | case1 => cases h
  | case2 offset c cs hc ih =>
    have hnext := ih h (start ++ [c]) (by simp [hoffset, utf8Size_of_isSeparator hc])
    rwa [List.append_assoc] at hnext
  | case3 offset c cs hc hread =>
    cases h
    obtain ⟨rest, hrest⟩ := Token.strayText_isPrefix (c :: cs)
    exact ⟨Token.strayText_ne_nil c cs, start, rest, by rw [hrest], hoffset⟩
  | case4 => cases h
  | case5 offset c cs hc t rest hread hlt stop other htokenize =>
    rename_i ih
    cases h
    obtain ⟨lexeme, -, hsplit⟩ := Token.read?_eq_some hread
    have hstop : Text.byteSize (start ++ lexeme) = stop := by
      simp only [stop, hsplit, Text.byteSize_append, hoffset]
      omega
    have hnext := ih htokenize (start ++ lexeme) hstop
    rwa [List.append_assoc, ← hsplit] at hnext

theorem mem_of_reading_eq_error (ts : List (Token × Span)) :
    (∀ {outer p found expected}, operandDue outer p ts = .error ⟨some found, expected⟩ →
      found ∈ ts) ∧
    ∀ {outer p e found expected}, operatorDue outer p e ts = .error ⟨some found, expected⟩ →
      found ∈ ts := by
  induction ts with
  | nil =>
    refine ⟨nofun, fun {outer p e found expected} h => ?_⟩
    cases outer <;> cases h
  | cons head ts ih =>
    obtain ⟨t, span⟩ := head
    obtain ⟨ihOperand, ihOperator⟩ := ih
    constructor
    · intro outer p found expected h
      cases t with
      | not | parenOpen => exact List.mem_cons_of_mem _ (ihOperand h)
      | null | undefined | bool | number | text | reference =>
        exact List.mem_cons_of_mem _ (ihOperator h)
      | _ =>
        cases h
        exact List.mem_cons_self
    · intro outer p e found expected h
      cases t with
      | comparison | and | or => exact List.mem_cons_of_mem _ (ihOperand h)
      | parenClose =>
        cases outer with
        | nil =>
          cases h
          exact List.mem_cons_self
        | cons => exact List.mem_cons_of_mem _ (ihOperator h)
      | _ =>
        cases h
        exact List.mem_cons_self

theorem lastStop?_cons (entry : Token × Span) (ts : List (Token × Span)) :
    lastStop? (entry :: ts) = some ((lastStop? ts).getD entry.2.stop) := by
  rw [lastStop?, lastStop?, List.getLast?_cons]
  cases ts.getLast? <;> rfl

theorem mem_gaps_lastStop? (bound size : Nat) (ts : List (Token × Span)) :
    ⟨(lastStop? ts).getD bound, size⟩ ∈ gaps bound size (ts.map Prod.snd) := by
  induction ts generalizing bound with
  | nil => exact List.mem_singleton_self _
  | cons entry ts ih =>
    rw [lastStop?_cons]
    exact List.mem_cons_of_mem _ (ih entry.2.stop)

/-- Whether a part of a test is what a fault is about. The end of a test takes in the white space in
front of it. -/
def ExpressionFault.IsAbout (part : List Char) : ExpressionFault → Prop
  | .stray text => part = text.toList ∧ part ≠ []
  | .token t => Lexeme part t
  | .endOfExpression => ∀ c ∈ part, isSeparator c = true
  | .missingTest => False

theorem exists_part_of_parse_eq_error {origin : Origin} {text : String} {e : ExpressionError}
    (h : Expr.parse origin text = .error e) :
    ∃ part, Text.OccursAt part text.toList e.span.start ∧
      e.span.stop = e.span.start + Text.byteSize part ∧ e.fault.IsAbout part := by
  simp only [Expr.parse] at h
  split at h
  · next stray htokenize =>
    cases h
    obtain ⟨hne, hoccurs⟩ := occursAt_of_tokenize_eq_error htokenize [] rfl
    exact ⟨stray.text, hoccurs, rfl, String.toList_ofList.symm, hne⟩
  · next ts htokenize =>
    have htiled := tiled_of_tokenize htokenize
    split at h
    · cases h
    · next t span expected hreading =>
      cases h
      have hmem := (mem_of_reading_eq_error ts).1 hreading
      obtain ⟨lexeme, hlexeme, hoccurs, hstop⟩ := htiled.exists_lexeme [] rfl rfl _ hmem
      exact ⟨lexeme, hoccurs, hstop, hlexeme⟩
    · cases h
      cases ts with
      | nil => exact ⟨[], ⟨text.toList, [], by simp, rfl⟩, rfl, List.forall_mem_nil _⟩
      | cons entry ts =>
        obtain ⟨blank, hblank, hoccurs, hstop⟩ :=
          htiled.exists_blank [] [] rfl rfl rfl (List.forall_mem_nil _) _
            (mem_gaps_lastStop? 0 (Text.byteSize text.toList) (entry :: ts))
        rw [lastStop?_cons, Option.getD_some] at hoccurs hstop
        refine ⟨blank, ?_, ?_, hblank⟩ <;> rw [lastStop?_cons, Option.getD_some]
        · exact hoccurs
        · exact hstop

theorem expression_of_parse_eq_error {origin : Origin} {text : String} {e : ExpressionError}
    (h : Expr.parse origin text = .error e) : e.expression = text := by
  rw [Expr.parse] at h
  split at h
  · cases h
    rfl
  · split at h <;> cases h <;> rfl

/-- A test that cannot be read is kept in the error as it is. The bytes at fault lie inside of it,
begin and end where characters do, and cut out of it what the fault is about. -/
theorem fault_lies_in_text (origin : Origin) (text : String) (e : ExpressionError)
    (h : Expr.parse origin text = .error e) :
    e.expression = text ∧ e.span.start ≤ e.span.stop ∧ e.span.stop ≤ text.utf8ByteSize ∧
      (⟨e.span.start⟩ : String.Pos.Raw).IsValid text ∧
      (⟨e.span.stop⟩ : String.Pos.Raw).IsValid text ∧
      (∃ before after, text = before ++ e.span.slice text ++ after ∧
        before.utf8ByteSize = e.span.start) ∧
      e.fault.IsAbout (e.span.slice text).toList := by
  obtain ⟨part, hoccurs, hstop, habout⟩ := exists_part_of_parse_eq_error h
  have hslice : e.span.slice text = String.ofList part := hoccurs.slice hstop
  refine ⟨expression_of_parse_eq_error h, by omega, ?_, hoccurs.isValid, ?_, ?_, ?_⟩
  · rw [hstop, Text.utf8ByteSize_eq]
    exact hoccurs.add_le
  · rw [hstop]
    exact hoccurs.end.isValid
  · obtain ⟨before, after, hsplit, hstart⟩ := hoccurs
    refine ⟨String.ofList before, String.ofList after, ?_, ?_⟩
    · rw [hslice, ← String.ofList_append, ← String.ofList_append, List.append_assoc, ← hsplit,
        String.ofList_toList]
    · rw [Text.utf8ByteSize_eq, String.toList_ofList, hstart]
  · rwa [hslice, String.toList_ofList]

/-- A comparison without its second operand: white space of two bytes behind the last token, and
a letter of two bytes in front of it. -/
def cutTest : String := "'ä' > \n"

theorem tokenize_cutTest :
    tokenize 0 cutTest.toList =
      .ok [(.text "ä", ⟨0, 4⟩), (.comparison .greater, ⟨5, 6⟩)] := by
  have hblank : tokenize 6 " \n".toList = .ok [] := by simp [tokenize, isSeparator]
  have hgreater : Token.read? "> \n".toList = some (.comparison .greater, " \n".toList) := by
    decide +kernel
  have htext : Token.read? cutTest.toList = some (.text "ä", " > \n".toList) := by
    decide +kernel
  have hrest : tokenize 4 " > \n".toList = .ok [(.comparison .greater, ⟨5, 6⟩)] := by
    rw [show " > \n".toList = ' ' :: "> \n".toList from rfl, tokenize, if_pos (by decide)]
    exact tokenize_of_read? hgreater hblank
  exact tokenize_of_read? htext hrest

theorem fault_lies_in_text_cut :
    Expr.parse [] cutTest =
        .error ⟨cutTest, .endOfExpression, ⟨6, 8⟩, Expectation.operand, []⟩ ∧
      (6 : Nat) ≤ 8 ∧ 8 ≤ cutTest.utf8ByteSize ∧
      (⟨6⟩ : String.Pos.Raw).IsValid cutTest ∧ (⟨8⟩ : String.Pos.Raw).IsValid cutTest ∧
      (⟨6, 8⟩ : Span).slice cutTest = " \n" := by
  have hparse : Expr.parse [] cutTest =
      .error ⟨cutTest, .endOfExpression, ⟨6, 8⟩, Expectation.operand, []⟩ := by
    simp only [Expr.parse, tokenize_cutTest]
    rfl
  obtain ⟨-, hle, hstop, hstart, hend, -, -⟩ := fault_lies_in_text [] cutTest _ hparse
  exact ⟨hparse, hle, hstop, hstart, hend, by decide +kernel⟩

end MarkupSnippets

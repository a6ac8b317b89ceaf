import MarkupSnippets.Proofs.Grammar
import MarkupSnippets.Proofs.Spelling

namespace MarkupSnippets

namespace Level

def tightness : Level → Nat
  | disjunction => 0
  | conjunction => 1
  | comparison => 2
  | unary => 3
  | atom => 4

theorem tightness_injective : Function.Injective tightness := by
  intro l m
  cases l <;> cases m <;> decide

end Level

namespace Expr

def level : Expr → Level
  | or _ _ => .disjunction
  | and _ _ => .conjunction
  | compare _ _ _ => .comparison
  | not _ => .unary
  | _ => .atom

/-- What stands for a tree where an operand of a level is due: it is enclosed if the tree binds more
loosely. -/
def enclosed {α : Type} (opening closing : α) (level : Level) (e : Expr) (xs : List α) : List α :=
  if level.tightness ≤ e.level.tightness then xs else opening :: (xs ++ [closing])

/-- The tokens of a tree. The left operand of a binary operator may have the operator's own level,
the right one has to bind more tightly. -/
def tokens : Expr → List Token
  | null => [.null]
  | bool b => [.bool b]
  | number x => [.number x]
  | text s => [.text s]
  | reference path => [.reference path]
  | not e => .not :: enclosed .parenOpen .parenClose .unary e e.tokens
  | compare c l r =>
    enclosed .parenOpen .parenClose .comparison l l.tokens ++
      .comparison c :: enclosed .parenOpen .parenClose .unary r r.tokens
  | and l r =>
    enclosed .parenOpen .parenClose .conjunction l l.tokens ++
      .and :: enclosed .parenOpen .parenClose .comparison r r.tokens
  | or l r =>
    enclosed .parenOpen .parenClose .disjunction l l.tokens ++
      .or :: enclosed .parenOpen .parenClose .conjunction r r.tokens

def spaced (left : List Char) (symbol : String) (right : List Char) : List Char :=
  left ++ ' ' :: (symbol.toList ++ ' ' :: right)

def print (literal : Number → NumberLiteral) : Expr → List Char
  | null => "null".toList
  | bool b => (if b then "true" else "false").toList
  | number x => (literal x).chars
  | text s => '"' :: (escapeQuoted s.toList ++ ['"'])
  | reference path => '{' :: '{' :: (path.toList ++ ['}', '}'])
  | not e => '!' :: enclosed '(' ')' .unary e (e.print literal)
  | compare c l r =>
    spaced (enclosed '(' ')' .comparison l (l.print literal)) c.symbol
      (enclosed '(' ')' .unary r (r.print literal))
  | and l r =>
    spaced (enclosed '(' ')' .conjunction l (l.print literal)) "&&"
      (enclosed '(' ')' .comparison r (r.print literal))
  | or l r =>
    spaced (enclosed '(' ')' .disjunction l (l.print literal)) "||"
      (enclosed '(' ')' .conjunction r (r.print literal))

/-- The trees that can be written: no reference has a closing brace or white space around it, and
the literals of the numbers read back. -/
def Printable (literal : Number → NumberLiteral) : Expr → Prop
  | null | bool _ | text _ => True
  | number x => Number.read? (literal x).chars = some x
  | reference path => '}' ∉ path.toList ∧ Text.trim path = path
  | not e => e.Printable literal
  | compare _ l r | and l r | or l r => l.Printable literal ∧ r.Printable literal

end Expr

namespace Derives

theorem toUnary {ts : List Token} {e : Expr} (h : Derives .atom ts e) : Derives .unary ts e := by
  simpa using unary 0 h

theorem not {ts : List Token} {e : Expr} (h : Derives .unary ts e) :
    Derives .unary (.not :: ts) (.not e) := by
  cases h with
  | unary count h =>
    have hunary := h.unary (count + 1)
    rwa [Function.iterate_succ_apply'] at hunary

theorem loosen {level looser : Level} {ts : List Token} {e : Expr} (h : Derives level ts e)
    (hle : looser.tightness ≤ level.tightness) : Derives looser ts e := by
  by_cases heq : looser = level
  · exact heq ▸ h
  · have hlt : looser.tightness < level.tightness :=
      Nat.lt_of_le_of_ne hle fun h => heq (Level.tightness_injective h)
    cases level with
    | atom => exact loosen h.toUnary (Nat.le_of_lt_succ hlt)
    | unary => exact loosen h.toComparison (Nat.le_of_lt_succ hlt)
    | comparison => exact loosen h.toConjunction (Nat.le_of_lt_succ hlt)
    | conjunction => exact loosen h.toDisjunction (Nat.le_of_lt_succ hlt)
    | disjunction => exact absurd hlt (Nat.not_lt_zero _)
termination_by level.tightness
decreasing_by all_goals subst_vars; decide

end Derives

namespace Expr

theorem derives_enclosed (level : Level) (hlevel : level ≠ .atom) {e : Expr}
    (h : Derives e.level e.tokens e) :
    Derives level (enclosed .parenOpen .parenClose level e e.tokens) e := by
  rw [enclosed]
  split
  · next hle => exact h.loosen hle
  · have hatom := Derives.enclosed (h.loosen (Nat.zero_le _))
    apply hatom.loosen
    cases level <;> decide

theorem derives_tokens (e : Expr) : Derives e.level e.tokens e := by
  induction e with
  | null => exact .null
  | bool b => exact .bool b
  | number x => exact .number x
  | text s => exact .text s
  | reference path => exact .reference path
  | not e ih => exact (derives_enclosed .unary nofun ih).not
  | compare c l r ihl ihr =>
    exact (derives_enclosed .comparison nofun ihl).compare c (derives_enclosed .unary nofun ihr)
  | and l r ihl ihr =>
    exact (derives_enclosed .conjunction nofun ihl).and (derives_enclosed .comparison nofun ihr)
  | or l r ihl ihr =>
    exact (derives_enclosed .disjunction nofun ihl).or (derives_enclosed .conjunction nofun ihr)

variable {literal : Number → NumberLiteral}

theorem exists_head_enclosed (level : Level) (e : Expr) {cs : List Char}
    (h : ∃ c rest, cs = c :: rest ∧ c ≠ '=') :
    ∃ c rest, enclosed '(' ')' level e cs = c :: rest ∧ c ≠ '=' := by
  rw [enclosed]
  split
  · exact h
  · exact ⟨'(', cs ++ [')'], rfl, by decide⟩

theorem exists_head_spaced {left : List Char} (h : ∃ c rest, left = c :: rest ∧ c ≠ '=')
    (symbol : String) (right : List Char) :
    ∃ c rest, spaced left symbol right = c :: rest ∧ c ≠ '=' := by
  obtain ⟨c, rest, rfl, hc⟩ := h
  exact ⟨c, _, rfl, hc⟩

/-- No tree starts like the rest of an operator that a negation could run into. -/
theorem exists_head_print (e : Expr) : ∃ c rest, e.print literal = c :: rest ∧ c ≠ '=' := by
  induction e with
  | null => exact ⟨'n', _, rfl, by decide⟩
  | bool b => cases b <;> exact ⟨_, _, rfl, by decide⟩
  | number x =>
    obtain ⟨c, rest, hchars, hc⟩ := (literal x).exists_head_chars
    refine ⟨c, rest, hchars, ?_⟩
    rintro rfl
    revert hc
    decide
  | text s => exact ⟨'"', _, rfl, by decide⟩
  | reference path => exact ⟨'{', _, rfl, by decide⟩
  | not e ih => exact ⟨'!', _, rfl, by decide⟩
  | compare c l r ihl ihr => exact exists_head_spaced (exists_head_enclosed _ l ihl) _ _
  | and l r ihl ihr => exact exists_head_spaced (exists_head_enclosed _ l ihl) _ _
  | or l r ihl ihr => exact exists_head_spaced (exists_head_enclosed _ l ihl) _ _

/-- In front of what may follow an operand, the text of a tree is cut into the tree's tokens. -/
def Lexes (cs : List Char) (us : List Token) : Prop :=
  ∀ rest ts, EndsOperand rest → Tokenizes rest ts → Tokenizes (cs ++ rest) (us ++ ts)

theorem lexes_enclosed (level : Level) (e : Expr) {cs : List Char} {us : List Token}
    (h : Lexes cs us) :
    Lexes (enclosed '(' ')' level e cs) (enclosed .parenOpen .parenClose level e us) := by
  rw [enclosed, enclosed]
  split
  · exact h
  · intro rest ts hrest htokenizes
    have hclosing : Tokenizes (')' :: rest) (.parenClose :: ts) := .token rfl htokenizes
    have hinner := h _ _ (endsOperand_parenClose rest) hclosing
    have hopening : Tokenizes ('(' :: (cs ++ ')' :: rest))
        (.parenOpen :: (us ++ .parenClose :: ts)) := .token rfl hinner
    simpa using hopening

theorem lexes_spaced {left right : List Char} {us vs : List Token} {symbol : String} {t : Token}
    (hleft : Lexes left us) (hright : Lexes right vs)
    (hread : ∀ rest, Token.read? (symbol.toList ++ ' ' :: rest) = some (t, ' ' :: rest)) :
    Lexes (spaced left symbol right) (us ++ t :: vs) := by
  intro rest ts hrest htokenizes
  have hoperator := Tokenizes.token (hread _) (hright rest ts hrest htokenizes).space
  have hall := hleft _ _ (endsOperand_space _) hoperator.space
  simpa [spaced] using hall

theorem lexes_print (e : Expr) (h : e.Printable literal) : Lexes (e.print literal) e.tokens := by
  induction e with
  | null => exact fun rest ts _ htokenizes => .token rfl htokenizes
  | bool b => exact fun rest ts _ htokenizes => .token (Token.read?_bool b rest) htokenizes
  | number x =>
    exact fun rest ts hrest htokenizes =>
      .token ((literal x).read?_chars_of_reads h hrest) htokenizes
  | text s =>
    intro rest ts _ htokenizes
    simpa [print, tokens] using Tokenizes.token (Token.read?_quoted s rest) htokenizes
  | reference path =>
    intro rest ts _ htokenizes
    simpa [print, tokens] using Tokenizes.token (Token.read?_reference h.1 h.2 rest) htokenizes
  | not e ih =>
    intro rest ts hrest htokenizes
    have hoperand := lexes_enclosed .unary e (ih h) rest ts hrest htokenizes
    obtain ⟨c, cs, hhead, hc⟩ := exists_head_enclosed .unary e e.exists_head_print
    rw [hhead] at hoperand
    simpa [print, tokens, hhead] using Tokenizes.token (Token.read?_not hc _) hoperand
  | compare c l r ihl ihr =>
    exact lexes_spaced (lexes_enclosed _ l (ihl h.1)) (lexes_enclosed _ r (ihr h.2))
      (Token.read?_comparison c)
  | and l r ihl ihr =>
    exact lexes_spaced (lexes_enclosed _ l (ihl h.1)) (lexes_enclosed _ r (ihr h.2)) fun _ => rfl
  | or l r ihl ihr =>
    exact lexes_spaced (lexes_enclosed _ l (ihl h.1)) (lexes_enclosed _ r (ihr h.2)) fun _ => rfl

/-- A written tree is read as the tree. -/
theorem parse_print (literal : Number → NumberLiteral) (e : Expr) (h : e.Printable literal)
    (origin : Origin) : parse origin (String.ofList (e.print literal)) = .ok e := by
  have hlexes := lexes_print e h [] [] nofun .nil
  rw [List.append_nil, List.append_nil] at hlexes
  obtain ⟨spanned, htokenize, hspanned⟩ := hlexes 0
  have hderives : Derives .disjunction (spanned.map Prod.fst) e :=
    hspanned ▸ e.derives_tokens.loosen (Nat.zero_le _)
  rw [parse, String.toList_ofList, htokenize]
  simp only [ofTokens_of_derives hderives]

def looseOperands : Expr :=
  .and (.or (.reference "a b") (.not (.text "say \"\\n")))
    (.compare .less (.number (.ofInt (-2))) (.compare .equal .null (.bool true)))

def minusTwo : NumberLiteral := ⟨true, ['2'], ['0'], nofun, by simp, by simp⟩

def looseOperandsText : String :=
  "(\x7b\x7ba b\x7d\x7d || !\"say \\\"\\\\n\") && -2.0 < (null == true)"

theorem parse_print_loose_operands :
    looseOperands.Printable (fun _ => minusTwo) ∧
      String.ofList (looseOperands.print fun _ => minusTwo) = looseOperandsText ∧
      parse [] looseOperandsText = .ok looseOperands := by
  have hread : Number.read? minusTwo.chars = some (.ofInt (-2)) := by decide +kernel
  have hprintable : looseOperands.Printable (fun _ => minusTwo) :=
    ⟨⟨⟨by decide, by decide⟩, trivial⟩, hread, trivial, trivial⟩
  have hprint : String.ofList (looseOperands.print fun _ => minusTwo) = looseOperandsText := by
    decide
  exact ⟨hprintable, hprint, hprint ▸ parse_print _ looseOperands hprintable []⟩

end Expr

end MarkupSnippets

import Mathlib.Logic.Function.Iterate
import MarkupSnippets.Expr.Parser

namespace MarkupSnippets

/-- The levels of the grammar, from the loosest to the tightest. -/
inductive Level where
  | disjunction
  | conjunction
  | comparison
  | unary
  | atom
deriving DecidableEq

/-- Tokens and the tree that they stand for. -/
structure Phrase where
  tokens : List Token
  tree : Expr

/-- The rules of the grammar. On each level of binary operators a first operand is followed by any
number of operators with an operand each, and the tree is folded to the left. -/
inductive Derives : Level → List Token → Expr → Prop where
  | null : Derives .atom [.null] .null
  | undefined : Derives .atom [.undefined] .null
  | bool (b : Bool) : Derives .atom [.bool b] (.bool b)
  | number (x : Number) : Derives .atom [.number x] (.number x)
  | text (s : String) : Derives .atom [.text s] (.text s)
  | reference (path : String) : Derives .atom [.reference path] (.reference path)
  | enclosed {ts : List Token} {e : Expr} (h : Derives .disjunction ts e) :
      Derives .atom (.parenOpen :: ts ++ [.parenClose]) e
  | unary {ts : List Token} {e : Expr} (count : Nat) (h : Derives .atom ts e) :
      Derives .unary (List.replicate count .not ++ ts) (Expr.not^[count] e)
  | comparison {first : Phrase} {more : List (Comparison × Phrase)}
      (hfirst : Derives .unary first.tokens first.tree)
      (hmore : ∀ part ∈ more, Derives .unary part.2.tokens part.2.tree) :
      Derives .comparison
        (first.tokens ++ more.flatMap fun part => .comparison part.1 :: part.2.tokens)
        (more.foldl (fun left part => .compare part.1 left part.2.tree) first.tree)
  | conjunction {first : Phrase} {more : List Phrase}
      (hfirst : Derives .comparison first.tokens first.tree)
      (hmore : ∀ part ∈ more, Derives .comparison part.tokens part.tree) :
      Derives .conjunction (first.tokens ++ more.flatMap fun part => .and :: part.tokens)
        (more.foldl (fun left part => .and left part.tree) first.tree)
  | disjunction {first : Phrase} {more : List Phrase}
      (hfirst : Derives .conjunction first.tokens first.tree)
      (hmore : ∀ part ∈ more, Derives .conjunction part.tokens part.tree) :
      Derives .disjunction (first.tokens ++ more.flatMap fun part => .or :: part.tokens)
        (more.foldl (fun left part => .or left part.tree) first.tree)

namespace Derives

variable {ts us : List Token} {e l r : Expr}

theorem toComparison (h : Derives .unary ts e) : Derives .comparison ts e := by
  simpa using @comparison ⟨ts, e⟩ [] h nofun

theorem toConjunction (h : Derives .comparison ts e) : Derives .conjunction ts e := by
  simpa using @conjunction ⟨ts, e⟩ [] h nofun

theorem toDisjunction (h : Derives .conjunction ts e) : Derives .disjunction ts e := by
  simpa using @disjunction ⟨ts, e⟩ [] h nofun

theorem compare (c : Comparison) (hl : Derives .comparison ts l) (hr : Derives .unary us r) :
    Derives .comparison (ts ++ .comparison c :: us) (.compare c l r) := by
  cases hl with
  | @comparison first more hfirst hmore =>
    have hparts : ∀ part ∈ more ++ [(c, ⟨us, r⟩)], Derives .unary part.2.tokens part.2.tree :=
      List.forall_mem_append.2 ⟨hmore, List.forall_mem_singleton.2 hr⟩
    simpa using comparison hfirst hparts

theorem and (hl : Derives .conjunction ts l) (hr : Derives .comparison us r) :
    Derives .conjunction (ts ++ .and :: us) (.and l r) := by
  cases hl with
  | @conjunction first more hfirst hmore =>
    have hparts : ∀ part ∈ more ++ [⟨us, r⟩], Derives .comparison part.tokens part.tree :=
      List.forall_mem_append.2 ⟨hmore, List.forall_mem_singleton.2 hr⟩
    simpa using conjunction hfirst hparts

theorem or (hl : Derives .disjunction ts l) (hr : Derives .conjunction us r) :
    Derives .disjunction (ts ++ .or :: us) (.or l r) := by
  cases hl with
  | @disjunction first more hfirst hmore =>
    have hparts : ∀ part ∈ more ++ [⟨us, r⟩], Derives .conjunction part.tokens part.tree :=
      List.forall_mem_append.2 ⟨hmore, List.forall_mem_singleton.2 hr⟩
    simpa using disjunction hfirst hparts

theorem ofToken? {t : Token} (h : Expr.ofToken? t = some e) : Derives .atom [t] e := by
  cases t with
  | null => cases h; exact null
  | undefined => cases h; exact undefined
  | bool b => cases h; exact bool b
  | number x => cases h; exact number x
  | text s => cases h; exact text s
  | reference path => cases h; exact reference path
  | _ => cases h

end Derives

theorem Expr.negate_eq_iterate (count : Nat) (e : Expr) : e.negate count = Expr.not^[count] e := by
  induction count with
  | zero => rfl
  | succ count ih => rw [negate, ih, Function.iterate_succ_apply']

namespace Pending

def joinAnd (p : Pending) (e : Expr) : Expr :=
  match p.conjunct with
  | some left => .and left e
  | none => e

def joinOr (p : Pending) (e : Expr) : Expr :=
  match p.disjunct with
  | some left => .or left e
  | none => e

theorem closeAnd_eq (p : Pending) (e : Expr) : p.closeAnd e = p.joinAnd (p.closeComparison e) := rfl

theorem close_eq (p : Pending) (e : Expr) : p.close e = p.joinOr (p.closeAnd e) := rfl

/-- The tokens before an operand that belong to pending operators, level by level: they make what
the operand stands for what it is closed to. -/
structure Behind (p : Pending) (disjunct conjunct compared : List Token) : Prop where
  comparison : ∀ {ts e}, Derives .unary ts e →
    Derives .comparison (compared ++ ts) (p.closeComparison e)
  conjunction : ∀ {ts e}, Derives .comparison ts e →
    Derives .conjunction (conjunct ++ ts) (p.joinAnd e)
  disjunction : ∀ {ts e}, Derives .conjunction ts e →
    Derives .disjunction (disjunct ++ ts) (p.joinOr e)

theorem behind_start : start.Behind [] [] [] :=
  ⟨Derives.toComparison, Derives.toConjunction, Derives.toDisjunction⟩

namespace Behind

variable {p : Pending} {ds cs ms ts : List Token} {e : Expr}

theorem closeAnd (h : p.Behind ds cs ms) (he : Derives .unary ts e) :
    Derives .conjunction (cs ++ (ms ++ ts)) (p.closeAnd e) := by
  rw [closeAnd_eq]
  exact h.conjunction (h.comparison he)

theorem close (h : p.Behind ds cs ms) (he : Derives .unary ts e) :
    Derives .disjunction (ds ++ (cs ++ (ms ++ ts))) (p.close e) := by
  rw [close_eq]
  exact h.disjunction (h.closeAnd he)

theorem pushComparison (h : p.Behind ds cs ms) (he : Derives .unary ts e) (c : Comparison) :
    Behind ⟨p.disjunct, p.conjunct, some (c, p.closeComparison e), 0⟩ ds cs
      (ms ++ (ts ++ [.comparison c])) where
  comparison hr := by simpa [closeComparison] using (h.comparison he).compare c hr
  conjunction := h.conjunction
  disjunction := h.disjunction

theorem pushAnd (h : p.Behind ds cs ms) (he : Derives .unary ts e) :
    Behind ⟨p.disjunct, some (p.closeAnd e), none, 0⟩ ds (cs ++ (ms ++ (ts ++ [.and]))) [] where
  comparison := Derives.toComparison
  conjunction hr := by simpa [joinAnd] using (h.closeAnd he).and hr
  disjunction := h.disjunction

theorem pushOr (h : p.Behind ds cs ms) (he : Derives .unary ts e) :
    Behind ⟨some (p.close e), none, none, 0⟩ (ds ++ (cs ++ (ms ++ (ts ++ [.or])))) [] [] where
  comparison := Derives.toComparison
  conjunction := Derives.toConjunction
  disjunction hr := by simpa [joinOr] using (h.close he).or hr

end Behind

end Pending

inductive Opened : List Pending → List Token → Prop where
  | nil : Opened [] []
  | cons {outer : List Pending} {p : Pending} {before ds cs ms : List Token}
      (h : Opened outer before) (hp : p.Behind ds cs ms) :
      Opened (p :: outer)
        (before ++ (ds ++ (cs ++ (ms ++ (List.replicate p.negations .not ++ [.parenOpen])))))

/-- What is accepted is derived, with the tokens that were read before. -/
theorem derives_of_reading (ts : List (Token × Span)) :
    (∀ {outer p before ds cs ms e}, Opened outer before → p.Behind ds cs ms →
      operandDue outer p ts = .ok e →
      Derives .disjunction (before ++ (ds ++ (cs ++ (ms ++
        (List.replicate p.negations .not ++ ts.map Prod.fst))))) e) ∧
    ∀ {outer p before ds cs ms us x e}, Opened outer before → p.Behind ds cs ms →
      Derives .unary us x → operatorDue outer p x ts = .ok e →
      Derives .disjunction (before ++ (ds ++ (cs ++ (ms ++ (us ++ ts.map Prod.fst))))) e := by
  induction ts with
  | nil =>
    refine ⟨nofun, fun {outer p before ds cs ms us x e} hopened hp hx h => ?_⟩
    cases hopened with
    | nil =>
      cases h
      simpa using hp.close hx
    | cons => cases h
  | cons head ts ih =>
    obtain ⟨t, span⟩ := head
    obtain ⟨ihOperand, ihOperator⟩ := ih
    constructor
    · intro outer p before ds cs ms e hopened hp h
      -- A token that is an operand on its own.
      have hatom : ∀ x, Expr.ofToken? t = some x →
          operatorDue outer p (x.negate p.negations) ts = .ok e →
          Derives .disjunction (before ++ (ds ++ (cs ++ (ms ++
            (List.replicate p.negations .not ++ t :: ts.map Prod.fst))))) e := by
        intro x hx h
        have hunary := Derives.unary p.negations (.ofToken? hx)
        rw [← Expr.negate_eq_iterate] at hunary
        simpa using ihOperator hopened hp hunary h
      cases t with
      | not =>
        have hp : Pending.Behind { p with negations := p.negations + 1 } ds cs ms :=
          ⟨hp.comparison, hp.conjunction, hp.disjunction⟩
        simpa [List.replicate_succ'] using ihOperand hopened hp h
      | parenOpen => simpa [Pending.start] using ihOperand (hopened.cons hp) Pending.behind_start h
      | null | undefined | bool | number | text | reference => exact hatom _ rfl h
      | _ => cases h
    · intro outer p before ds cs ms us x e hopened hp hx h
      cases t with
      | comparison c => simpa using ihOperand hopened (hp.pushComparison hx c) h
      | and => simpa using ihOperand hopened (hp.pushAnd hx) h
      | or => simpa using ihOperand hopened (hp.pushOr hx) h
      | parenClose =>
        cases hopened with
        | nil => cases h
        | @cons outer q before ds' cs' ms' hopened hq =>
          have hunary := Derives.unary q.negations (.enclosed (hp.close hx))
          rw [← Expr.negate_eq_iterate] at hunary
          simpa using ihOperator hopened hq hunary h
      | _ => cases h

theorem Expr.negate_not (count : Nat) (e : Expr) :
    (Expr.not e).negate count = e.negate (count + 1) := by
  rw [negate_eq_iterate, negate_eq_iterate, Function.iterate_succ_apply]

theorem operatorDue_negations (outer : List Pending) (p : Pending) (count : Nat) (e : Expr)
    (ts : List (Token × Span)) :
    operatorDue outer { p with negations := count } e ts = operatorDue outer p e ts := by
  cases ts with
  | nil => cases outer <;> rfl
  | cons head ts =>
    obtain ⟨t, span⟩ := head
    cases t with
    | parenClose => cases outer <;> rfl
    | _ => rfl

/-- Reading on through tokens of a level comes to where an operator is due, with nothing pending on
the level and below but what is closed to the tree. -/
def Reads : Level → List Token → Expr → Prop
  | .disjunction, ts, e => ∀ outer spanned rest, spanned.map Prod.fst = ts →
    ∃ q x, operandDue outer .start (spanned ++ rest) = operatorDue outer q x rest ∧ q.close x = e
  | .conjunction, ts, e => ∀ outer disjunct spanned rest, spanned.map Prod.fst = ts →
    ∃ q x, operandDue outer ⟨disjunct, none, none, 0⟩ (spanned ++ rest) =
      operatorDue outer q x rest ∧ q.disjunct = disjunct ∧ q.closeAnd x = e
  | .comparison, ts, e => ∀ outer disjunct conjunct spanned rest, spanned.map Prod.fst = ts →
    ∃ q x, operandDue outer ⟨disjunct, conjunct, none, 0⟩ (spanned ++ rest) =
      operatorDue outer q x rest ∧ q.disjunct = disjunct ∧ q.conjunct = conjunct ∧
        q.closeComparison x = e
  | .unary, ts, e | .atom, ts, e => ∀ outer p spanned rest, spanned.map Prod.fst = ts →
    operandDue outer p (spanned ++ rest) = operatorDue outer p (e.negate p.negations) rest

theorem foldl_of_parts {α : Type} (State : Expr → List (Token × Span) → Prop)
    {tokens : α → List Token} {join : Expr → α → Expr} {more : List α}
    (step : ∀ part ∈ more, ∀ left spanned rest, spanned.map Prod.fst = tokens part →
      State left (spanned ++ rest) → State (join left part) rest)
    {left : Expr} {spanned rest : List (Token × Span)}
    (h : spanned.map Prod.fst = more.flatMap tokens) (hstart : State left (spanned ++ rest)) :
    State (more.foldl join left) rest := by
  induction more generalizing left spanned with
  | nil =>
    obtain rfl := List.map_eq_nil_iff.1 h
    exact hstart
  | cons part more ih =>
    rw [List.flatMap_cons] at h
    obtain ⟨here, later, rfl, hhere, hlater⟩ := List.map_eq_append_iff.1 h
    rw [List.append_assoc] at hstart
    have hnext := step part List.mem_cons_self left here (later ++ rest) hhere hstart
    exact ih (fun other hother => step other (List.mem_cons_of_mem _ hother)) hlater hnext

theorem reads_ofToken? {t : Token} {e : Expr} (h : Expr.ofToken? t = some e) :
    Reads .atom [t] e := by
  intro outer p spanned rest hspanned
  obtain ⟨⟨t, span⟩, rest, rfl, rfl, hrest⟩ := List.map_eq_cons_iff.1 hspanned
  obtain rfl := List.map_eq_nil_iff.1 hrest
  cases t <;> cases h <;> rfl

theorem reads_enclosed {ts : List Token} {e : Expr} (h : Reads .disjunction ts e) :
    Reads .atom (.parenOpen :: ts ++ [.parenClose]) e := by
  intro outer p spanned rest hspanned
  obtain ⟨opening, closing, rfl, hopening, hclosing⟩ := List.map_eq_append_iff.1 hspanned
  obtain ⟨⟨_, _⟩, inner, rfl, rfl, hinner⟩ := List.map_eq_cons_iff.1 hopening
  obtain ⟨⟨_, span⟩, _, rfl, rfl, hnil⟩ := List.map_eq_cons_iff.1 hclosing
  obtain rfl := List.map_eq_nil_iff.1 hnil
  obtain ⟨q, x, hreads, hclose⟩ := h (p :: outer) inner ((.parenClose, span) :: rest) hinner
  calc operandDue outer p ((.parenOpen, _) :: inner ++ [(.parenClose, span)] ++ rest)
      = operandDue (p :: outer) .start (inner ++ (.parenClose, span) :: rest) := by
        rw [List.append_assoc]
        rfl
    _ = operatorDue (p :: outer) q x ((.parenClose, span) :: rest) := hreads
    _ = operatorDue outer p ((q.close x).negate p.negations) rest := rfl
    _ = operatorDue outer p (e.negate p.negations) rest := by rw [hclose]

theorem reads_unary {ts : List Token} {e : Expr} (count : Nat) (h : Reads .atom ts e) :
    Reads .unary (List.replicate count .not ++ ts) (Expr.not^[count] e) := by
  induction count with
  | zero => exact h
  | succ count ih =>
    intro outer p spanned rest hspanned
    rw [List.replicate_succ, List.cons_append] at hspanned
    obtain ⟨⟨_, span⟩, later, rfl, rfl, hlater⟩ := List.map_eq_cons_iff.1 hspanned
    calc operandDue outer p ((.not, span) :: later ++ rest)
        = operandDue outer { p with negations := p.negations + 1 } (later ++ rest) := rfl
      _ = operatorDue outer { p with negations := p.negations + 1 }
            ((Expr.not^[count] e).negate (p.negations + 1)) rest := ih outer _ later rest hlater
      _ = operatorDue outer p ((Expr.not^[count + 1] e).negate p.negations) rest := by
        rw [operatorDue_negations, ← Expr.negate_not, Function.iterate_succ_apply']

theorem reads_comparison {first : Phrase} {more : List (Comparison × Phrase)}
    (hfirst : Reads .unary first.tokens first.tree)
    (hmore : ∀ part ∈ more, Reads .unary part.2.tokens part.2.tree) :
    Reads .comparison
      (first.tokens ++ more.flatMap fun part => .comparison part.1 :: part.2.tokens)
      (more.foldl (fun left part => .compare part.1 left part.2.tree) first.tree) := by
  intro outer disjunct conjunct spanned rest hspanned
  obtain ⟨here, later, rfl, hhere, hlater⟩ := List.map_eq_append_iff.1 hspanned
  rw [List.append_assoc]
  let State (left : Expr) (ts : List (Token × Span)) : Prop :=
    ∃ q x, operandDue outer ⟨disjunct, conjunct, none, 0⟩ (here ++ (later ++ rest)) =
      operatorDue outer q x ts ∧ q.disjunct = disjunct ∧ q.conjunct = conjunct ∧
        q.closeComparison x = left
  have hstart : State first.tree (later ++ rest) :=
    ⟨_, first.tree, hfirst outer _ here (later ++ rest) hhere, rfl, rfl, rfl⟩
  refine foldl_of_parts State (fun part hpart left spanned rest h hstate => ?_) hlater hstart
  obtain ⟨⟨_, span⟩, operand, rfl, rfl, hoperand⟩ := List.map_eq_cons_iff.1 h
  obtain ⟨q, x, hreads, rfl, rfl, rfl⟩ := hstate
  let next : Pending := ⟨q.disjunct, q.conjunct, some (part.1, q.closeComparison x), 0⟩
  have hnext : operandDue outer next (operand ++ rest) = operatorDue outer next part.2.tree rest :=
    hmore part hpart outer next operand rest hoperand
  exact ⟨next, part.2.tree, hreads.trans hnext, rfl, rfl, rfl⟩

theorem reads_conjunction {first : Phrase} {more : List Phrase}
    (hfirst : Reads .comparison first.tokens first.tree)
    (hmore : ∀ part ∈ more, Reads .comparison part.tokens part.tree) :
    Reads .conjunction (first.tokens ++ more.flatMap fun part => .and :: part.tokens)
      (more.foldl (fun left part => .and left part.tree) first.tree) := by
  intro outer disjunct spanned rest hspanned
  obtain ⟨here, later, rfl, hhere, hlater⟩ := List.map_eq_append_iff.1 hspanned
  obtain ⟨q, x, hreads, hdisjunct, hconjunct, hclose⟩ :=
    hfirst outer disjunct none here (later ++ rest) hhere
  rw [List.append_assoc]
  let State (left : Expr) (ts : List (Token × Span)) : Prop :=
    ∃ q x, operandDue outer ⟨disjunct, none, none, 0⟩ (here ++ (later ++ rest)) =
      operatorDue outer q x ts ∧ q.disjunct = disjunct ∧ q.closeAnd x = left
  have hstart : State first.tree (later ++ rest) :=
    ⟨q, x, hreads, hdisjunct, by rw [Pending.closeAnd, hconjunct, hclose]⟩
  refine foldl_of_parts State (fun part hpart left spanned rest h hstate => ?_) hlater hstart
  obtain ⟨⟨_, span⟩, operand, rfl, rfl, hoperand⟩ := List.map_eq_cons_iff.1 h
  obtain ⟨q, x, hreads, rfl, rfl⟩ := hstate
  obtain ⟨q', x', hreads', hdisjunct, hconjunct, hclose⟩ :=
    hmore part hpart outer q.disjunct (some (q.closeAnd x)) operand rest hoperand
  exact ⟨q', x', hreads.trans hreads', hdisjunct, by rw [Pending.closeAnd, hconjunct, hclose]⟩

theorem reads_disjunction {first : Phrase} {more : List Phrase}
    (hfirst : Reads .conjunction first.tokens first.tree)
    (hmore : ∀ part ∈ more, Reads .conjunction part.tokens part.tree) :
    Reads .disjunction (first.tokens ++ more.flatMap fun part => .or :: part.tokens)
      (more.foldl (fun left part => .or left part.tree) first.tree) := by
  intro outer spanned rest hspanned
  obtain ⟨here, later, rfl, hhere, hlater⟩ := List.map_eq_append_iff.1 hspanned
  obtain ⟨q, x, hreads, hdisjunct, hclose⟩ := hfirst outer none here (later ++ rest) hhere
  rw [List.append_assoc]
  let State (left : Expr) (ts : List (Token × Span)) : Prop :=
    ∃ q x, operandDue outer .start (here ++ (later ++ rest)) = operatorDue outer q x ts ∧
      q.close x = left
  have hstart : State first.tree (later ++ rest) :=
    ⟨q, x, hreads, by rw [Pending.close, hdisjunct, hclose]⟩
  refine foldl_of_parts State (fun part hpart left spanned rest h hstate => ?_) hlater hstart
  obtain ⟨⟨_, span⟩, operand, rfl, rfl, hoperand⟩ := List.map_eq_cons_iff.1 h
  obtain ⟨q, x, hreads, rfl⟩ := hstate
  obtain ⟨q', x', hreads', hdisjunct, hclose⟩ :=
    hmore part hpart outer (some (q.close x)) operand rest hoperand
  exact ⟨q', x', hreads.trans hreads', by rw [Pending.close, hdisjunct, hclose]⟩

theorem reads_of_derives {level : Level} {ts : List Token} {e : Expr} (h : Derives level ts e) :
    Reads level ts e := by
  induction h with
  | null | undefined | bool | number | text | reference => exact reads_ofToken? rfl
  | enclosed _ ih => exact reads_enclosed ih
  | unary count _ ih => exact reads_unary count ih
  | comparison _ _ ihfirst ihmore => exact reads_comparison ihfirst ihmore
  | conjunction _ _ ihfirst ihmore => exact reads_conjunction ihfirst ihmore
  | disjunction _ _ ihfirst ihmore => exact reads_disjunction ihfirst ihmore

theorem Expr.ofTokens_of_derives {ts : List (Token × Span)} {e : Expr}
    (h : Derives .disjunction (ts.map Prod.fst) e) : ofTokens ts = .ok e := by
  obtain ⟨q, x, hreads, rfl⟩ := reads_of_derives h [] ts [] rfl
  rw [List.append_nil] at hreads
  exact hreads

/-- Tokens are read as a tree exactly if all of them together derive it in the grammar. -/
theorem Expr.ofTokens_eq_ok_iff (ts : List (Token × Span)) (e : Expr) :
    ofTokens ts = .ok e ↔ Derives .disjunction (ts.map Prod.fst) e := by
  constructor
  · intro h
    exact (derives_of_reading ts).1 .nil Pending.behind_start h
  · exact ofTokens_of_derives

end MarkupSnippets

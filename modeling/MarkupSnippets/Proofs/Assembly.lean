import MarkupSnippets.Proofs.Scanning

namespace MarkupSnippets

namespace Text

/-- Whether a character neither stands twice in a row in a text nor can come to do so behind its
end. -/
def Undoubled (c : Char) (cs : List Char) : Prop :=
  ¬[c, c] <:+: cs ∧ cs.getLast? ≠ some c

instance (c : Char) (cs : List Char) : Decidable (Undoubled c cs) :=
  decidable_of_iff (splitAt? [c, c] cs = none ∧ cs.getLast? ≠ some c)
    (and_congr_left' splitAt?_eq_none_iff)

namespace Undoubled

variable {c d : Char} {cs : List Char}

theorem tail (h : Undoubled c (d :: cs)) : Undoubled c cs := by
  refine ⟨fun hdouble => h.1 (List.infix_cons hdouble), fun hlast => h.2 ?_⟩
  rw [List.getLast?_cons, hlast]
  rfl

theorem dropStart?_eq_none (h : Undoubled c (d :: cs)) (rest : List Char) :
    dropStart? [c, c] (d :: (cs ++ rest)) = none := by
  by_cases hd : c = d
  · subst hd
    cases cs with
    | nil => exact absurd rfl h.2
    | cons e cs =>
      have he : c ≠ e := by
        rintro rfl
        exact h.1 ⟨[], cs, rfl⟩
      simp [dropStart?, he]
  · simp [dropStart?, hd]

theorem splitAt?_append (h : Undoubled c cs) (rest : List Char) :
    splitAt? [c, c] (cs ++ rest) =
      (splitAt? [c, c] rest).map fun found => (cs ++ found.1, found.2) := by
  induction cs with
  | nil => simp
  | cons d cs ih =>
    rw [List.cons_append, splitAt?, h.dropStart?_eq_none rest, ih h.tail, Option.map_map]
    rfl

theorem splitAt?_append_doubled (h : Undoubled c cs) (rest : List Char) :
    splitAt? [c, c] (cs ++ c :: c :: rest) = some (cs, rest) := by
  rw [h.splitAt?_append]
  simp [splitAt?, dropStart?]

theorem of_not_mem (h : c ∉ cs) : Undoubled c cs :=
  ⟨fun hdouble => h (hdouble.subset List.mem_cons_self),
    fun hlast => h (List.mem_of_getLast? hlast)⟩

end Undoubled

end Text

namespace Piece

variable {cs before inner path rest : List Char}

theorem pieces_of_unopened (hopen : Text.splitAt? opening cs = none) : pieces cs = [.plain cs] := by
  rw [pieces]
  split
  · rfl
  · next hsome => cases hopen.symm.trans hsome

theorem pieces_nil : pieces [] = [.plain []] := pieces_of_unopened rfl

theorem pieces_of_unclosed (hopen : Text.splitAt? opening cs = some (before, inner))
    (hclose : Text.splitAt? closing inner = none) : pieces cs = [.plain cs] := by
  rw [pieces]
  split
  · rfl
  · next hsome =>
    obtain ⟨-, rfl⟩ := Prod.mk.inj (Option.some.inj (hopen.symm.trans hsome))
    split
    · rfl
    · next hsome => cases hclose.symm.trans hsome

theorem pieces_of_closed (hopen : Text.splitAt? opening cs = some (before, inner))
    (hclose : Text.splitAt? closing inner = some (path, rest)) :
    pieces cs = .plain before :: .reference path :: pieces rest := by
  rw [pieces]
  split
  · next hnone => cases hopen.symm.trans hnone
  · next hsome =>
    obtain ⟨rfl, rfl⟩ := Prod.mk.inj (Option.some.inj (hopen.symm.trans hsome))
    split
    · next hnone => cases hclose.symm.trans hnone
    · next hsome =>
      obtain ⟨rfl, rfl⟩ := Prod.mk.inj (Option.some.inj (hclose.symm.trans hsome))
      rfl

theorem fill_pieces_append {literal : List Char} (h : Text.Undoubled '{' literal) (data : Data)
    (rest : List Char) :
    (pieces (literal ++ rest)).flatMap (fill data) =
      literal ++ (pieces rest).flatMap (fill data) := by
  have hsplit : Text.splitAt? opening (literal ++ rest) =
      (Text.splitAt? opening rest).map fun found => (literal ++ found.1, found.2) :=
    h.splitAt?_append rest
  cases hopen : Text.splitAt? opening rest with
  | none =>
    rw [hopen] at hsplit
    simp [pieces_of_unopened hopen, pieces_of_unopened hsplit, fill]
  | some found =>
    obtain ⟨before, inner⟩ := found
    rw [hopen] at hsplit
    cases hclose : Text.splitAt? closing inner with
    | none => simp [pieces_of_unclosed hopen hclose, pieces_of_unclosed hsplit hclose, fill]
    | some found => simp [pieces_of_closed hopen hclose, pieces_of_closed hsplit hclose, fill]

end Piece

def inBraces (path : String) : String := "\x7b\x7b" ++ path ++ "\x7d\x7d"

theorem toList_inBraces (path : String) :
    (inBraces path).toList = '{' :: '{' :: (path.toList ++ ['}', '}']) := by
  simp [inBraces]

theorem Piece.pieces_inBraces {path : String} (h : Text.Undoubled '}' path.toList)
    (rest : List Char) : pieces ((inBraces path).toList ++ rest) =
      .plain [] :: .reference path.toList :: pieces rest := by
  have hopen : Text.splitAt? opening ((inBraces path).toList ++ rest) =
      some ([], path.toList ++ '}' :: '}' :: rest) := by
    simp [toList_inBraces, opening, Text.splitAt?, Text.dropStart?]
  exact pieces_of_closed hopen (h.splitAt?_append_doubled rest)

theorem substitute_empty (data : Data) : substitute data "" = "" := by
  rw [substitute, String.toList_empty, Piece.pieces_nil]
  rfl

theorem substitute_literal {literal : String} (h : Text.Undoubled '{' literal.toList) (data : Data)
    (rest : String) : substitute data (literal ++ rest) = literal ++ substitute data rest := by
  rw [substitute, String.toList_append, Piece.fill_pieces_append h, String.ofList_append,
    String.ofList_toList, substitute]

theorem substitute_inBraces {path : String} (h : Text.Undoubled '}' path.toList) (data : Data)
    (rest : String) :
    substitute data (inBraces path ++ rest) = textAt data path ++ substitute data rest := by
  have hfill : Piece.fill data (.reference path.toList) = (textAt data path).toList := by
    rw [Piece.fill_reference, textAt, resolve?_trim, String.ofList_toList, textAt]
  rw [substitute, String.toList_append, Piece.pieces_inBraces h, List.flatMap_cons,
    List.flatMap_cons, hfill]
  simp [Piece.fill, substitute]

/-- A literal, and paths with a literal behind each of them. -/
structure Assembly where
  first : String
  parts : List (String × String)

namespace Assembly

def render (put : String → String) (a : Assembly) : String :=
  a.first ++ String.join (a.parts.map fun part => put part.1 ++ part.2)

/-- Whether literals and paths can be told apart when the paths stand in double braces. -/
structure Separable (a : Assembly) : Prop where
  first : Text.Undoubled '{' a.first.toList
  paths : ∀ part ∈ a.parts, Text.Undoubled '}' part.1.toList
  literals : ∀ part ∈ a.parts, Text.Undoubled '{' part.2.toList

theorem substitute_render_append {a : Assembly} (h : a.Separable) (data : Data) (rest : String) :
    substitute data (a.render inBraces ++ rest) =
      a.render (textAt data) ++ substitute data rest := by
  obtain ⟨first, parts⟩ := a
  obtain ⟨hfirst, hpaths, hliterals⟩ := h
  have hparts : substitute data
      (String.join (parts.map fun part => inBraces part.1 ++ part.2) ++ rest) =
        String.join (parts.map fun part => textAt data part.1 ++ part.2) ++
          substitute data rest := by
    clear hfirst
    induction parts with
    | nil => simp
    | cons part parts ih =>
      obtain ⟨hpath, hpaths⟩ := List.forall_mem_cons.1 hpaths
      obtain ⟨hliteral, hliterals⟩ := List.forall_mem_cons.1 hliterals
      simp only [List.map_cons, String.join_cons, String.append_assoc]
      rw [substitute_inBraces hpath, substitute_literal hliteral, ih hpaths hliterals]
  rw [render, render, String.append_assoc, substitute_literal hfirst, hparts, String.append_assoc]

end Assembly

/-- Literals without a double opening brace and paths without a double closing brace, none of which
ends with such a brace, make a text in which substitution puts the text of its value, or nothing, in
the place of each path and keeps the literals. So what is joined to the text is substituted apart
from it. -/
theorem substitute_assembled (a : Assembly) (h : a.Separable) (data : Data) :
    substitute data (a.render inBraces) = a.render (textAt data) ∧
      ∀ rest, substitute data (a.render inBraces ++ rest) =
        substitute data (a.render inBraces) ++ substitute data rest := by
  have hwhole : substitute data (a.render inBraces) = a.render (textAt data) := by
    have happend := Assembly.substitute_render_append h data ""
    rwa [substitute_empty, String.append_empty, String.append_empty] at happend
  refine ⟨hwhole, fun rest => ?_⟩
  rw [Assembly.substitute_render_append h, hwhole]

def seams : Assembly := ⟨"\x7d\x7d \x7b ", [("\x7bk ", "\x7d\x7b "), ("n\x7d.", "\x7d")]⟩

def seamsData : Data :=
  (Record.empty.insert "k" (.text "no")).insert "\x7bk" (.text "\x7b\x7bk\x7d\x7d\x7b")

theorem substitute_assembled_seams :
    seams.Separable ∧
      seams.render inBraces =
        "\x7d\x7d \x7b \x7b\x7b\x7bk \x7d\x7d\x7d\x7b \x7b\x7bn\x7d.\x7d\x7d\x7d" ∧
      substitute seamsData (seams.render inBraces) =
        "\x7d\x7d \x7b \x7b\x7bk\x7d\x7d\x7b\x7d\x7b \x7d" ∧
      substitute seamsData (seams.render inBraces ++ inBraces "k") =
        substitute seamsData (seams.render inBraces) ++ substitute seamsData (inBraces "k") := by
  have hseparable : seams.Separable := ⟨by decide, by decide, by decide⟩
  have hvalues : seams.render (textAt seamsData) =
      "\x7d\x7d \x7b \x7b\x7bk\x7d\x7d\x7b\x7d\x7b \x7d" := by decide
  obtain ⟨hwhole, happend⟩ := substitute_assembled seams hseparable seamsData
  exact ⟨hseparable, by decide, hwhole.trans hvalues, happend _⟩

end MarkupSnippets

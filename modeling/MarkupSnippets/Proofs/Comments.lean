import Mathlib.Data.List.Chain
import MarkupSnippets.Proofs.WholeDocuments

namespace MarkupSnippets

namespace Text

theorem splitAt?_of_not_infix {start cs : List Char} {last : Char} (hlast : last ∉ start)
    (h : ¬start ++ [last] <:+: cs) (rest : List Char) :
    splitAt? (start ++ [last]) (cs ++ (start ++ [last] ++ rest)) = some (cs, rest) := by
  obtain ⟨skipped, behind, hsplit, -⟩ := exists_splitAt?_append (start ++ [last]) cs rest
  obtain ⟨between, rfl⟩ := prefix_of_splitAt? hsplit
  have hcut : between ++ (start ++ last :: rest) = start ++ last :: behind := by
    have heq := eq_of_splitAt? hsplit
    simp only [List.append_assoc, List.singleton_append, List.append_cancel_left_eq] at heq
    exact heq
  by_cases hmem : last ∈ between
  · obtain ⟨first, others, rfl, hfirst⟩ := List.eq_append_cons_of_mem hmem
    rw [List.append_assoc, List.cons_append] at hcut
    obtain ⟨rfl, -⟩ := (append_cons_inj hfirst hlast).1 hcut
    exact absurd ⟨skipped, others, by simp⟩ h
  · rw [← List.append_assoc] at hcut
    have hnot : last ∉ between ++ start := by simp [hmem, hlast]
    obtain ⟨hstart, rfl⟩ := (append_cons_inj hnot hlast).1 hcut
    obtain rfl : between = [] := List.append_left_eq_self.1 hstart
    rw [hsplit, List.append_nil]

end Text

namespace Markup

/-- Whether a text is a comment: it ends where it first can. Well-formed ones do, as they have no
`--` inside. -/
def IsComment (cs : List Char) : Prop :=
  ∃ body, cs = "<!--".toList ++ (body ++ "-->".toList) ∧ ¬"-->".toList <:+: body

/-- Whether a text is an instruction: it ends where it first can, and not right away. Well-formed
ones start with a name and have no `?>` inside. -/
def IsInstruction (cs : List Char) : Prop :=
  ∃ c body, cs = "<?".toList ++ (c :: body ++ "?>".toList) ∧ c ≠ '>' ∧ ¬"?>".toList <:+: c :: body

theorem IsComment.readPiece {mark : List Char} (h : IsComment mark) (rest : List Char) :
    ∃ cs, mark ++ rest = '<' :: cs ∧ readPiece '<' cs = .ok (none, rest) := by
  obtain ⟨body, rfl, hbody⟩ := h
  have hsplit : Text.splitAt? "-->".toList (body ++ ("-->".toList ++ rest)) = some (body, rest) :=
    @Text.splitAt?_of_not_infix ['-', '-'] body '>' (by decide) hbody rest
  refine ⟨'!' :: '-' :: '-' :: (body ++ ("-->".toList ++ rest)), by simp, ?_⟩
  have hskip : skipComment (body ++ ("-->".toList ++ rest)) = .ok rest := by
    rw [skipComment, Text.behind?, hsplit]
    rfl
  rw [Markup.readPiece, if_pos rfl, readMarkup, readDeclaration, hskip]
  rfl

theorem IsInstruction.readPiece {mark : List Char} (h : IsInstruction mark) (rest : List Char) :
    ∃ cs, mark ++ rest = '<' :: cs ∧ readPiece '<' cs = .ok (none, rest) := by
  obtain ⟨c, body, rfl, hc, hbody⟩ := h
  have hsplit : Text.splitAt? "?>".toList (c :: body ++ ("?>".toList ++ rest)) =
      some (c :: body, rest) :=
    @Text.splitAt?_of_not_infix ['?'] (c :: body) '>' (by decide) hbody rest
  refine ⟨'?' :: (c :: body ++ ("?>".toList ++ rest)), by simp, ?_⟩
  have hhead : (c :: body ++ ("?>".toList ++ rest)).head? ≠ some '>' :=
    fun heq => hc (Option.some.inj heq)
  rw [Markup.readPiece, if_pos rfl, readMarkup, readInstruction, if_neg hhead, Text.behind?, hsplit]
  rfl

/-- Whether two parts of a text meet between two of its pieces. -/
inductive Seam : List Char → List Char → Prop where
  | start (after : List Char) : Seam [] after
  | behind {c : Char} {piece before after : List Char} {event : Option Event}
      (hread : readPiece c (piece ++ (before ++ after)) = .ok (event, before ++ after))
      (h : Seam before after) : Seam (c :: (piece ++ before)) after

namespace Seam

variable {before after : List Char} {r r' : Reading}

theorem plain {c : Char} (hc : isPlain c = true) (h : Seam before after) :
    Seam (c :: before) after := by
  obtain ⟨hopen, hand⟩ : c ≠ '<' ∧ c ≠ '&' := by simpa [isPlain] using hc
  have hread : readPiece c ([] ++ (before ++ after)) = .ok (some (.text [c]), before ++ after) := by
    rw [readPiece, if_neg hopen, if_neg hand]
    rfl
  exact .behind hread h

theorem exists_run (h : Seam before after) (hrun : r.run (before ++ after) = .ok r') :
    ∃ mid, r.run before = .ok mid ∧ mid.run after = .ok r' := by
  induction h generalizing r with
  | start after => exact ⟨r, Reading.run_nil r, hrun⟩
  | @behind c piece before after event hread _ ih =>
    rw [List.cons_append, List.append_assoc] at hrun
    obtain ⟨event', rest, next, hread', hstep, hnext⟩ := Reading.run_cons_eq_ok hrun
    obtain ⟨rfl, rfl⟩ := Prod.mk.inj (Except.ok.inj (hread.symm.trans hread'))
    obtain ⟨mid, hbefore, hafter⟩ := ih hnext
    obtain ⟨piece', hpiece', htake⟩ := readPiece_takes hread
    obtain rfl := List.append_cancel_right hpiece'
    exact ⟨mid, (Reading.run_piece (htake before) hstep).trans hbefore, hafter⟩

theorem run_insert {mark : List Char} (h : Seam before after)
    (hmark : IsComment mark ∨ IsInstruction mark) (hrun : r.run (before ++ after) = .ok r') :
    r.run (before ++ (mark ++ after)) = .ok r' := by
  obtain ⟨mid, hbefore, hafter⟩ := h.exists_run hrun
  obtain ⟨cs, hcs, hread⟩ : ∃ cs, mark ++ after = '<' :: cs ∧
      readPiece '<' cs = .ok (none, after) := by
    obtain hcomment | hinstruction := hmark
    · exact hcomment.readPiece after
    · exact hinstruction.readPiece after
  rw [Reading.run_append hbefore, hcs, Reading.run_piece hread (Reading.stepOver_none mid), hafter]

end Seam

def Node.isText : Node → Bool
  | .text _ => true
  | .element _ _ => false

def Apart (nodes : List Node) : Prop :=
  nodes.IsChain fun a b => ¬(a.isText = true ∧ b.isText = true)

/-- Whether no two texts stand next to each other anywhere in a node. -/
inductive Node.TextsApart : Node → Prop where
  | text (content : String) : TextsApart (.text content)
  | element {tag : Tag} {children : List Node} (hapart : Apart children)
      (hchildren : ∀ child ∈ children, TextsApart child) : TextsApart (.element tag children)

def Joined (nodes : List Node) : Prop := Apart nodes ∧ ∀ node ∈ nodes, node.TextsApart

namespace Joined

variable {nodes : List Node}

theorem nil : Joined [] := ⟨.nil, nofun⟩

theorem textsApart_reverse (h : Joined nodes) (tag : Tag) :
    (Element.mk tag nodes.reverse).toNode.TextsApart := by
  refine .element (List.isChain_reverse.2 (h.1.imp fun a b hab hba => hab hba.symm)) ?_
  exact fun node hmem => h.2 node (List.mem_reverse.1 hmem)

theorem cons_element {element : Element} (h : Joined nodes) (helement : element.toNode.TextsApart) :
    Joined (element.toNode :: nodes) := by
  refine ⟨List.isChain_cons.2 ⟨fun node _ htexts => ?_, h.1⟩, ?_⟩
  · exact Bool.false_ne_true htexts.1
  · exact List.forall_mem_cons.2 ⟨helement, h.2⟩

theorem pushText (h : Joined nodes) (content : String) : Joined (pushText content nodes) := by
  obtain ⟨hapart, hnodes⟩ := h
  cases nodes with
  | nil => exact ⟨.singleton _, List.forall_mem_cons.2 ⟨.text content, nofun⟩⟩
  | cons node rest =>
    obtain ⟨-, hrest⟩ := List.forall_mem_cons.1 hnodes
    cases node with
    | text previous =>
      -- The joined text has the neighbour that the text in front of it had.
      obtain ⟨hnext, hapart⟩ := List.isChain_cons.1 hapart
      exact ⟨List.isChain_cons.2 ⟨hnext, hapart⟩, List.forall_mem_cons.2 ⟨.text _, hrest⟩⟩
    | element tag children =>
      refine ⟨List.isChain_cons.2 ⟨?_, hapart⟩, List.forall_mem_cons.2 ⟨.text content, hnodes⟩⟩
      rintro _ ⟨⟩ htexts
      exact Bool.false_ne_true htexts.2

end Joined

namespace Reading

variable {r r' : Reading}

/-- Whether texts are joined in all elements that are open, and in the root. -/
structure Merged (r : Reading) : Prop where
  elements : ∀ e ∈ r.elements, Joined e.children
  root : ∀ root, r.root = some root → root.toNode.TextsApart

theorem merged_start : start.Merged := ⟨nofun, nofun⟩

namespace Merged

theorem text (h : r.Merged) (content : String) : (r.text content).Merged := by
  obtain ⟨elements, root⟩ := r
  cases elements with
  | nil => exact h
  | cons e outer =>
    obtain ⟨he, houter⟩ := List.forall_mem_cons.1 h.elements
    exact ⟨List.forall_mem_cons.2 ⟨he.pushText content, houter⟩, h.root⟩

theorem add {element : Element} (h : r.Merged) (helement : element.toNode.TextsApart)
    (hadd : r.add element = .ok r') : r'.Merged := by
  obtain ⟨elements, root⟩ := r
  cases elements with
  | cons e outer =>
    obtain rfl := Except.ok.inj hadd
    obtain ⟨he, houter⟩ := List.forall_mem_cons.1 h.elements
    exact ⟨List.forall_mem_cons.2 ⟨he.cons_element helement, houter⟩, h.root⟩
  | nil =>
    cases root with
    | some root => cases hadd
    | none =>
      obtain rfl := Except.ok.inj hadd
      refine ⟨nofun, ?_⟩
      rintro _ ⟨⟩
      exact helement

theorem step {event : Event} (h : r.Merged) (hstep : r.step event = .ok r') : r'.Merged := by
  obtain ⟨elements, root⟩ := r
  cases event with
  | opening content =>
    simp only [Reading.step, open?] at hstep
    split at hstep
    · cases hstep
    · split at hstep
      · cases hstep
      · obtain rfl := Except.ok.inj hstep
        exact ⟨List.forall_mem_cons.2 ⟨.nil, h.elements⟩, h.root⟩
  | empty content =>
    simp only [Reading.step, empty?] at hstep
    split at hstep
    · cases hstep
    · exact h.add (Joined.nil.textsApart_reverse _) hstep
  | closing name =>
    simp only [Reading.step, close?] at hstep
    split at hstep
    · cases hstep
    · next e outer =>
      obtain ⟨he, houter⟩ := List.forall_mem_cons.1 h.elements
      split at hstep
      · exact add (r := ⟨outer, root⟩) ⟨houter, h.root⟩ (he.textsApart_reverse e.tag) hstep
      · cases hstep
  | text content =>
    obtain rfl := Except.ok.inj hstep
    exact h.text _
  | fault fault => cases hstep

end Merged

theorem merged_of_run {cs : List Char} (h : start.run cs = .ok r) : r.Merged :=
  run_keeps (fun _ _ _ hr => hr.step) merged_start h

end Reading

/-- At a seam of a document, which is not in front of its byte order mark, a comment or an
instruction makes no difference to the tree; and in the tree no two texts stand next to each other,
whatever has interrupted them. -/
theorem comments_invisible {text : String} {root : Element} (h : parse text = .ok root) :
    (∀ first rest mark : String, text = first ++ rest →
      (first = "" → rest.toList.head? ≠ some '\uFEFF') → Seam (body first) rest.toList →
      IsComment mark.toList ∨ IsInstruction mark.toList →
      parse (first ++ mark ++ rest) = .ok root) ∧
    root.toNode.TextsApart := by
  rw [parse_eq_ok_iff] at h
  refine ⟨?_, (Reading.merged_of_run h).root root rfl⟩
  rintro first rest mark rfl hmark hseam hinsert
  have hbody (more : String) (hmore : first = "" → more.toList.head? ≠ some '\uFEFF') :
      body (first ++ more) = body first ++ more.toList := by
    by_cases hfirst : first = ""
    · rw [hfirst, String.empty_append, body, if_neg (hmore hfirst)]
      rfl
    · exact body_append hfirst more
  have hopen : (mark ++ rest).toList.head? ≠ some '\uFEFF' := by
    obtain ⟨cs, hcs⟩ : ∃ cs, mark.toList ++ rest.toList = '<' :: cs := by
      obtain hcomment | hinstruction := hinsert
      · exact ⟨_, (hcomment.readPiece rest.toList).choose_spec.1⟩
      · exact ⟨_, (hinstruction.readPiece rest.toList).choose_spec.1⟩
    rw [String.toList_append, hcs]
    exact fun heq => absurd (Option.some.inj heq) (by decide)
  rw [hbody rest hmark] at h
  rw [parse_eq_ok_iff, String.append_assoc, hbody (mark ++ rest) fun _ => hopen,
    String.toList_append]
  exact hseam.run_insert hinsert h

open Reading (start)

def parted : String := "<p>1&lt;<![CDATA[<2>]]></p>"

def partedRoot : Element := ⟨⟨none, none, "p", []⟩, [.text "1<<2>"]⟩

theorem parse_parted : parse parted = .ok partedRoot := by
  have hread : readPiece '<' "p>1&lt;<![CDATA[<2>]]></p>".toList =
      .ok (some (.opening ['p']), "1&lt;<![CDATA[<2>]]></p>".toList) := rfl
  have hreference : readPiece '&' "lt;<![CDATA[<2>]]></p>".toList =
      .ok (some (.text ['<']), "<![CDATA[<2>]]></p>".toList) := rfl
  have hraw : readPiece '<' "![CDATA[<2>]]></p>".toList =
      .ok (some (.text "<2>".toList), "</p>".toList) := rfl
  have hclose : readPiece '<' "/p>".toList = .ok (some (.closing ['p']), []) := rfl
  rw [parse_eq_ok_iff]
  refine (Reading.run_piece hread stepOver_opening).trans ?_
  refine (Reading.run_plain (by decide) _ _).trans ?_
  refine (Reading.run_piece hreference (Reading.stepOver_some _ _)).trans ?_
  refine (Reading.run_piece hraw (Reading.stepOver_some _ _)).trans ?_
  refine (Reading.run_piece hclose (Reading.stepOver_some _ _)).trans ?_
  exact Reading.run_nil _

theorem comments_invisible_parted :
    parse parted = .ok partedRoot ∧
      parse "<p>1&lt;<!-- <b> --><![CDATA[<2>]]></p>" = .ok partedRoot ∧
      parse "<p>1&lt;<?b a>?><![CDATA[<2>]]></p>" = .ok partedRoot ∧
      partedRoot.toNode.TextsApart := by
  obtain ⟨hinsert, hapart⟩ := comments_invisible parse_parted
  have hread : readPiece '<' ("p>".toList ++ ("1&lt;".toList ++ "<![CDATA[<2>]]></p>".toList)) =
      .ok (some (.opening ['p']), "1&lt;".toList ++ "<![CDATA[<2>]]></p>".toList) := rfl
  have hreference : readPiece '&' ("lt;".toList ++ ([] ++ "<![CDATA[<2>]]></p>".toList)) =
      .ok (some (.text ['<']), [] ++ "<![CDATA[<2>]]></p>".toList) := rfl
  have hseam : Seam (body "<p>1&lt;") "<![CDATA[<2>]]></p>".toList :=
    .behind hread (.plain (by decide) (.behind hreference (.start _)))
  refine ⟨parse_parted, ?_, ?_, hapart⟩
  · refine hinsert "<p>1&lt;" "<![CDATA[<2>]]></p>" "<!-- <b> -->" rfl nofun hseam (.inl ?_)
    exact ⟨" <b> ".toList, rfl, by decide⟩
  · refine hinsert "<p>1&lt;" "<![CDATA[<2>]]></p>" "<?b a>?>" rfl nofun hseam (.inr ?_)
    exact ⟨'b', " a>".toList, rfl, by decide, by decide⟩

end Markup

end MarkupSnippets

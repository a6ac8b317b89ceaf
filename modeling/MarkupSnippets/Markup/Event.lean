import MarkupSnippets.Markup.Doctype
import MarkupSnippets.Markup.Reference

namespace MarkupSnippets.Markup

inductive Event where
  | opening (content : List Char)
  | empty (content : List Char)
  | closing (name : List Char)
  | text (content : List Char)
  | fault (fault : Fault)

def skipComment (cs : List Char) : Except Fault (List Char) :=
  match Text.behind? "-->".toList cs with
  | some rest => .ok rest
  | none => .error .commentNotClosed

def readDeclaration (cs : List Char) : Except Fault (Option Event × List Char) :=
  match cs with
  | '-' :: after =>
    match after with
    | '-' :: body => (skipComment body).map (none, ·)
    | _ => .error .commentNotClosed
  | '[' :: after =>
    match Text.dropStart? "CDATA[".toList after with
    | some body =>
      match Text.splitAt? "]]>".toList body with
      | some (content, rest) => .ok (some (.text content), rest)
      | none => .error .cdataNotClosed
    | none => .error .cdataNotClosed
  | c :: _ =>
    if c = 'D' ∨ c = 'd' then (skipDoctype cs).map (none, ·) else .error .unknownMarkup
  | [] => .error .unknownMarkup

/-- Whether an instruction without an end was to be the declaration of the XML version: its name is
`xml`, which a space, a question mark or the end of the text follows. -/
def isXmlDeclaration (cs : List Char) : Bool :=
  match Text.dropStart? "xml".toList cs with
  | some [] => true
  | some (c :: _) => isSpace c || c == '?'
  | none => false

/-- The text behind `<?`, up to the first `?>`. The question mark of the start cannot be that of
the end. -/
def readInstruction (cs : List Char) : Except Fault (Option Event × List Char) :=
  if cs.head? = some '>' then .error .instructionNotClosed
  else
    match Text.behind? "?>".toList cs with
    | some rest => .ok (none, rest)
    | none =>
      .error (if isXmlDeclaration cs then .declarationNotClosed else .instructionNotClosed)

def trimSpaces (cs : List Char) : List Char :=
  if cs.all isSpace then cs else (cs.reverse.dropWhile isSpace).reverse

def tagEvent (content : List Char) : Event :=
  match content with
  | '/' :: name => .closing (trimSpaces name)
  | _ =>
    if content.getLast? = some '/' then .empty content.dropLast else .opening content

def readMarkup (cs : List Char) : Except Fault (Option Event × List Char) :=
  match cs with
  | '!' :: rest => readDeclaration rest
  | '?' :: rest => readInstruction rest
  | _ => (cutTag none cs).map fun (content, rest) => (some (tagEvent content), rest)

theorem map_eq_ok {α β ε : Type} {f : α → β} {x : Except ε α} {b : β} (h : x.map f = .ok b) :
    ∃ a, x = .ok a ∧ f a = b := by
  cases x with
  | error => cases h
  | ok a => exact ⟨a, rfl, Except.ok.inj h⟩

theorem skipComment_length_le {cs rest : List Char} (h : skipComment cs = .ok rest) :
    rest.length ≤ cs.length := by
  unfold skipComment at h
  split at h
  · next heq =>
    obtain rfl := Except.ok.inj h
    exact Text.behind?_length_le heq
  · cases h

theorem readDeclaration_length_le {cs rest : List Char} {event : Option Event}
    (h : readDeclaration cs = .ok (event, rest)) : rest.length ≤ cs.length := by
  unfold readDeclaration at h
  split at h
  · next after =>
    split at h
    · next body =>
      obtain ⟨r, hr, he⟩ := map_eq_ok h
      obtain ⟨_, rfl⟩ := Prod.mk.inj he
      have := skipComment_length_le hr
      simp only [List.length_cons]
      omega
    · cases h
  · next after =>
    split at h
    · next body hbody =>
      split at h
      · next content r heq =>
        obtain ⟨_, rfl⟩ := Prod.mk.inj (Except.ok.inj h)
        have := Text.splitAt?_length_le heq
        rw [Text.dropStart?_eq_some.1 hbody]
        simp only [List.length_cons, List.length_append]
        omega
      · cases h
    · cases h
  · split at h
    · obtain ⟨r, hr, he⟩ := map_eq_ok h
      obtain ⟨_, rfl⟩ := Prod.mk.inj he
      exact skipDoctype_length_le hr
    · cases h
  · cases h

theorem readMarkup_length_le {cs rest : List Char} {event : Option Event}
    (h : readMarkup cs = .ok (event, rest)) : rest.length ≤ cs.length := by
  unfold readMarkup at h
  split at h
  · next text =>
    have := readDeclaration_length_le h
    simp only [List.length_cons]
    omega
  · next text =>
    unfold readInstruction at h
    split at h
    · cases h
    · split at h
      · next heq =>
        obtain ⟨_, rfl⟩ := Prod.mk.inj (Except.ok.inj h)
        have := Text.behind?_length_le heq
        simp only [List.length_cons]
        omega
      · cases h
  · obtain ⟨⟨content, r⟩, hr, he⟩ := map_eq_ok h
    obtain ⟨_, rfl⟩ := Prod.mk.inj he
    exact Nat.le_of_lt (cutTag_length_lt hr)

def isPlain (c : Char) : Bool := c != '<' && c != '&'

def endsReference (c : Char) : Bool := c == ';' || c == '&' || c == '<'

/-- The pieces of a text. Comments, instructions and declarations leave none, and the first fault
ends the list. -/
def events (cs : List Char) : List Event :=
  match cs with
  | [] => []
  | c :: rest =>
    if c = '<' then
      match h : readMarkup rest with
      | .error fault => [.fault fault]
      | .ok (event, rest') =>
        have := readMarkup_length_le h
        event.toList ++ events rest'
    else if c = '&' then
      match h : rest.dropWhile fun c => !endsReference c with
      | ';' :: rest' =>
        have : rest'.length < rest.length + 1 := by
          have hle := Text.length_dropWhile_le (fun c => !endsReference c) rest
          simp only [h, List.length_cons] at hle
          omega
        match textReference (rest.takeWhile fun c => !endsReference c) with
        | .error fault => [.fault fault]
        | .ok content => .text content :: events rest'
      | _ => [.fault .referenceNotClosed]
    else
      have : (rest.dropWhile isPlain).length < rest.length + 1 :=
        Nat.lt_succ_of_le (Text.length_dropWhile_le isPlain rest)
      .text (c :: rest.takeWhile isPlain) :: events (rest.dropWhile isPlain)
termination_by cs.length

end MarkupSnippets.Markup

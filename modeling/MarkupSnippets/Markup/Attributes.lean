import MarkupSnippets.Markup.Fault

namespace MarkupSnippets.Markup

def isSpace (c : Char) : Bool :=
  c == ' ' || c == '\t' || c == '\n' || c == '\r'

structure RawAttribute where
  position : Nat
  key : List Char
  value : List Char

/-- What ends the attributes of a tag early: a key without a value, or a value at fault. -/
inductive Flaw where
  | key (fault : Fault)
  | value (position : Nat) (key : List Char) (fault : Fault)

def readValue (total : Nat) (position : Nat) (cs : List Char) :
    Except Fault (List Char × List Char) :=
  let gap := cs.takeWhile isSpace
  match cs.dropWhile isSpace with
  | [] => .error (.missingValue total)
  | quote :: inner =>
    if quote = '"' ∨ quote = '\'' then
      match inner.dropWhile (· != quote) with
      | [] => .error (.missingQuote total quote)
      | _ :: rest => .ok (inner.takeWhile (· != quote), rest)
    else .error (.unquotedValue (position + gap.length))

def readEquals (total : Nat) (position : Nat) (cs : List Char) : Except Fault (List Char) :=
  let gap := cs.takeWhile isSpace
  match cs.dropWhile isSpace with
  | '=' :: rest => .ok rest
  | [] => .error (.keyWithoutEquals total)
  | _ :: _ => .error (.keyWithoutEquals (position + gap.length))

theorem readEquals_length_lt {total position : Nat} {cs rest : List Char}
    (h : readEquals total position cs = .ok rest) : rest.length < cs.length := by
  have hle := Text.length_dropWhile_le isSpace cs
  unfold readEquals at h
  split at h
  · next rest' heq =>
    obtain rfl := Except.ok.inj h
    rw [heq, List.length_cons] at hle
    omega
  · cases h
  · cases h

theorem readValue_length_lt {total position : Nat} {cs value rest : List Char}
    (h : readValue total position cs = .ok (value, rest)) : rest.length < cs.length := by
  have hle := Text.length_dropWhile_le isSpace cs
  unfold readValue at h
  split at h
  · cases h
  · next quote inner heq =>
    rw [heq, List.length_cons] at hle
    have hin := Text.length_dropWhile_le (· != quote) inner
    split at h
    · split at h
      · cases h
      · next q rest' hq =>
        obtain ⟨_, rfl⟩ := Prod.mk.inj (Except.ok.inj h)
        rw [hq, List.length_cons] at hin
        omega
    · cases h

/-- The attributes in a text of which the last bytes up to `total` are still to be read. -/
def rawAttributes (total : Nat) (cs : List Char) : List RawAttribute × Option Flaw :=
  let rest := cs.dropWhile isSpace
  match hrest : rest with
  | [] => ([], none)
  | c :: more =>
    let ends (c : Char) : Bool := c == '=' || isSpace c
    let key := c :: more.takeWhile fun c => !ends c
    let after := more.dropWhile fun c => !ends c
    let position := total - Text.byteSize rest
    let stop := total - Text.byteSize after
    match hequals : readEquals total stop after with
    | .error fault => ([], some (.key fault))
    | .ok text =>
      match hvalue : readValue total (total - Text.byteSize text) text with
      | .error fault => ([], some (.value position key fault))
      | .ok (value, text') =>
        have : text'.length < cs.length := by
          have h₁ := readEquals_length_lt hequals
          have h₂ := readValue_length_lt hvalue
          have h₃ : after.length ≤ more.length := Text.length_dropWhile_le _ more
          have h₄ := Text.length_dropWhile_le isSpace cs
          have h₅ : (cs.dropWhile isSpace).length = more.length + 1 := by
            rw [show cs.dropWhile isSpace = c :: more from hrest]
            rfl
          omega
        let (attributes, flaw) := rawAttributes total text'
        (⟨position, key, value⟩ :: attributes, flaw)
termination_by cs.length

def readTag (content : List Char) : List Char × List RawAttribute × Option Flaw :=
  (content.takeWhile fun c => !isSpace c,
    rawAttributes (Text.byteSize content) (content.dropWhile fun c => !isSpace c))

end MarkupSnippets.Markup

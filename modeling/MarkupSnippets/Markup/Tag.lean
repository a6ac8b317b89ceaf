import MarkupSnippets.Markup.Fault

namespace MarkupSnippets.Markup

/-- Cut behind the first `>` that is not inside quotes. -/
def cutTag (quote : Option Char) : List Char → Except Fault (List Char × List Char)
  | [] =>
    match quote with
    | some q => .error (.valueNotClosed q)
    | none => .error .tagNotClosed
  | c :: cs =>
    match quote with
    | some q => (cutTag (if c = q then none else some q) cs).map fun (a, b) => (c :: a, b)
    | none =>
      if c = '>' then .ok ([], cs)
      else
        (cutTag (if c = '"' ∨ c = '\'' then some c else none) cs).map fun (a, b) => (c :: a, b)

theorem cutTag_eq_ok {quote : Option Char} {cs content rest : List Char}
    (h : cutTag quote cs = .ok (content, rest)) : cs = content ++ '>' :: rest := by
  induction cs generalizing quote content with
  | nil => cases quote <;> cases h
  | cons c cs ih =>
    have step {q : Option Char}
        (h : (cutTag q cs).map (fun (a, b) => (c :: a, b)) = .ok (content, rest)) :
        c :: cs = content ++ '>' :: rest := by
      match hcut : cutTag q cs with
      | .error _ => rw [hcut] at h; cases h
      | .ok (a, b) =>
        rw [hcut] at h
        obtain ⟨rfl, rfl⟩ := Prod.mk.inj (Except.ok.inj h)
        rw [ih hcut, List.cons_append]
    cases quote with
    | some q => exact step h
    | none =>
      simp only [cutTag] at h
      split at h
      · next hc =>
        obtain ⟨rfl, rfl⟩ := Prod.mk.inj (Except.ok.inj h)
        rw [hc, List.nil_append]
      · exact step h

theorem cutTag_length_lt {quote : Option Char} {cs content rest : List Char}
    (h : cutTag quote cs = .ok (content, rest)) : rest.length < cs.length := by
  rw [cutTag_eq_ok h]
  simp only [List.length_append, List.length_cons]
  omega

end MarkupSnippets.Markup

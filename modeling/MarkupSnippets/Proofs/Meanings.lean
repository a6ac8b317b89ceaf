import MarkupSnippets.Markup.Reference

namespace MarkupSnippets.Markup

variable {body cs digits number : List Char}

def valueMeaning (body : List Char) : Option (List Char) :=
  (valueReference 0 0 body).toOption.map ([·])

def textMeaning (body : List Char) : Option (List Char) := (textReference body).toOption

theorem valueMeaning_eq_some_iff {found : List Char} (start stop : Nat) :
    valueMeaning body = some found ↔
      ∃ c, valueReference start stop body = .ok c ∧ found = [c] := by
  have hplace (c : Char) :
      valueReference 0 0 body = .ok c ↔ valueReference start stop body = .ok c := by
    unfold valueReference
    split
    · exact Iff.rfl
    · split <;> simp
  rw [valueMeaning, Option.map_eq_some_iff]
  refine exists_congr fun c => and_congr ?_ eq_comm
  rw [← hplace]
  cases valueReference 0 0 body <;> simp [Except.toOption]

theorem textMeaning_eq_some_iff {found : List Char} :
    textMeaning body = some found ↔ textReference body = .ok found := by
  rw [textMeaning]
  cases textReference body <;> simp [Except.toOption]

def textDigits (number : List Char) : Bool × List Char :=
  match number with
  | 'x' :: digits => (true, digits)
  | 'X' :: digits => (true, digits)
  | digits => (false, digits)

def character? (hex : Bool) (digits : List Char) : Option Char :=
  (code hex digits).toOption.bind Text.scalar?

theorem entity?_number (number : List Char) : entity? ('#' :: number) = none := by
  simp [entity?]

def unsigned (digits : List Char) : List Char :=
  if digits.head? = some '+' then digits.tail else digits

theorem textReference_number (number : List Char) :
    textReference ('#' :: number) =
      match code (textDigits number).1 (unsigned (textDigits number).2) with
      | .error _ =>
        .error (if (textDigits number).1 then .hexCharacter (String.ofList number)
          else .decimalCharacter (String.ofList number))
      | .ok n =>
        match Text.scalar? n with
        | some c => .ok [c]
        | none => .error (.textScalar n) := by
  unfold textReference
  rw [entity?_number]
  rfl

theorem textMeaning_number (number : List Char) :
    textMeaning ('#' :: number) =
      (character? (textDigits number).1 (unsigned (textDigits number).2)).map ([·]) := by
  rw [textMeaning, textReference_number, character?]
  cases code (textDigits number).1 (unsigned (textDigits number).2) with
  | error => rfl
  | ok n =>
    cases hscalar : Text.scalar? n with
    | none => simp [Except.toOption, hscalar]
    | some c => simp [Except.toOption, hscalar]

section Digits

variable {radix n : Nat} {digit? : Char → Option Nat} {c : Char}

theorem readCode_cons_eq_ok {found : Nat} (h : readCode radix digit? n (c :: cs) = .ok found) :
    ∃ d, digit? c = some d ∧ readCode radix digit? (n * radix + d) cs = .ok found := by
  conv at h => lhs; whnf
  split at h
  · cases h
  · next d hd =>
    split at h
    · exact ⟨d, hd, h⟩
    · cases h

theorem readCode_eq_zero (hradix : 0 < radix) (hdigit : ∀ c, digit? c = some 0 → c = '0')
    (h : readCode radix digit? n cs = .ok 0) : n = 0 ∧ ∀ c ∈ cs, c = '0' := by
  induction cs generalizing n with
  | nil => exact ⟨Except.ok.inj h, nofun⟩
  | cons c cs ih =>
    obtain ⟨d, hd, hrest⟩ := readCode_cons_eq_ok h
    obtain ⟨hsum, hcs⟩ := ih hrest
    obtain ⟨hn, rfl⟩ := Nat.add_eq_zero_iff.1 hsum
    have hn : n = 0 := (Nat.mul_eq_zero.1 hn).resolve_right (by omega)
    exact ⟨hn, List.forall_mem_cons.2 ⟨hdigit c hd, hcs⟩⟩

end Digits

theorem hexDigit?_eq_zero {c : Char} (h : Text.hexDigit? c = some 0) : c = '0' := by
  have hlow {first last : Char} (hc : (decide (first ≤ c) && decide (c ≤ last)) = true) :
      first.toNat ≤ c.toNat := of_decide_eq_true (Bool.and_eq_true_iff.1 hc).1
  unfold Text.hexDigit? at h
  split at h
  · next hc =>
    have hzero : c.toNat - 48 = 0 := Option.some.inj h
    have hdigit : 48 ≤ c.toNat := hlow hc
    exact Char.toNat_inj.1 (Nat.le_antisymm (by omega : c.toNat ≤ 48) hdigit)
  · split at h
    · next hc =>
      have hzero : c.toNat - 87 = 0 := Option.some.inj h
      have hletter : 97 ≤ c.toNat := hlow hc
      omega
    · split at h
      · next hc =>
        have hzero : c.toNat - 55 = 0 := Option.some.inj h
        have hletter : 65 ≤ c.toNat := hlow hc
        omega
      · cases h

theorem decimalDigit?_eq_zero {c : Char} (h : decimalDigit? c = some 0) : c = '0' := by
  unfold decimalDigit? at h
  split at h
  · next hdigit =>
    have hzero : c.toNat - 48 = 0 := Option.some.inj h
    have hlow : 48 ≤ c.toNat := by
      simp only [Char.isDigit, Bool.and_eq_true, decide_eq_true_eq] at hdigit
      exact hdigit.1
    exact Char.toNat_inj.1 (Nat.le_antisymm (by omega : c.toNat ≤ 48) hlow)
  · cases h

theorem code_eq_zero {hex : Bool} (h : code hex digits = .ok 0) :
    digits ≠ [] ∧ ∀ c ∈ digits, c = '0' := by
  unfold code at h
  split at h
  · cases h
  · next hne =>
    refine ⟨by simpa using hne, ?_⟩
    split at h
    · exact (readCode_eq_zero (by decide) (fun _ => hexDigit?_eq_zero) h).2
    · exact (readCode_eq_zero (by decide) (fun _ => decimalDigit?_eq_zero) h).2

def valueDigits (number : List Char) : Bool × List Char :=
  match number with
  | 'x' :: digits => (true, digits)
  | digits => (false, digits)

theorem valueDigits_eq (h : number.head? ≠ some 'X') : valueDigits number = textDigits number := by
  unfold valueDigits textDigits
  split
  · rfl
  · split
    · next hnot => exact absurd rfl (hnot _)
    · exact absurd rfl h
    · rfl

theorem character?_of_not_digit {hex : Bool} {c : Char} (hc : Text.hexDigit? c = none)
    (hc' : decimalDigit? c = none) : character? hex (c :: digits) = none := by
  rw [character?]
  cases hcode : code hex (c :: digits) with
  | error => rfl
  | ok n =>
    cases hex with
    | false =>
      obtain ⟨d, hd, -⟩ := @readCode_cons_eq_ok _ 10 0 decimalDigit? _ _ hcode
      cases hc'.symm.trans hd
    | true =>
      obtain ⟨d, hd, -⟩ := @readCode_cons_eq_ok _ 16 0 Text.hexDigit? _ _ hcode
      cases hc.symm.trans hd

theorem valueCharacter_eq (number : List Char) :
    valueCharacter number =
      if (valueDigits number).2.head? = some '+' || (valueDigits number).2.head? = some '-' then
        .error .sign
      else code (valueDigits number).1 (valueDigits number).2 >>= fun n =>
        if n = 0 then .error .nul
        else
          match Text.scalar? n with
          | some c => .ok c
          | none => .error (.scalar n) := rfl

theorem valueMeaning_number (hplus : (valueDigits number).2.head? ≠ some '+')
    (hzero : (valueDigits number).2 ≠ [] → ∃ c ∈ (valueDigits number).2, c ≠ '0') :
    valueMeaning ('#' :: number) =
      (character? (valueDigits number).1 (valueDigits number).2).map ([·]) := by
  have hread := valueCharacter_eq number
  generalize valueDigits number = split at hplus hzero hread
  obtain ⟨hex, digits⟩ := split
  have hmeaning : valueMeaning ('#' :: number) = (valueCharacter number).toOption.map ([·]) := by
    rw [valueMeaning, valueReference]
    cases valueCharacter number <;> rfl
  rw [hmeaning, hread]
  by_cases hminus : digits.head? = some '-'
  · obtain ⟨rest, rfl⟩ := List.head?_eq_some_iff.1 hminus
    rw [character?_of_not_digit (by decide) (by decide)]
    rfl
  · rw [if_neg (by simp [hplus, hminus]), character?]
    cases hcode : code hex digits with
    | error => rfl
    | ok n =>
      have hn : n ≠ 0 := by
        rintro rfl
        obtain ⟨hne, hall⟩ := code_eq_zero hcode
        obtain ⟨c, hc, hother⟩ := hzero hne
        exact hother (hall c hc)
      change Option.map _ (Except.toOption (if n = 0 then _ else _)) = _
      rw [if_neg hn]
      cases hscalar : Text.scalar? n with
      | none => simp [Except.toOption, hscalar]
      | some c => simp [Except.toOption, hscalar]

/-- Whether a reference has a number with a plus sign, or the number zero. -/
def isUnchecked : List Char → Bool
  | '#' :: number =>
    let digits := (textDigits number).2
    digits.head? == some '+' || (!digits.isEmpty && digits.all (· == '0'))
  | _ => false

/-- Whether only texts know what a reference stands for: its name is unknown, or it has an
upper-case `X` in front of its number. -/
def isTextual : List Char → Bool
  | '#' :: 'X' :: _ => true
  | '#' :: _ => false
  | name => (entity? name).isNone

/-- What a reference stands for in a text: for its own spelling if its name is unknown, and for the
same as in a value otherwise, an upper-case `X` being read as a lower-case one. -/
def forgiving : List Char → Option (List Char)
  | '#' :: 'X' :: digits => valueMeaning ('#' :: 'x' :: digits)
  | '#' :: number => valueMeaning ('#' :: number)
  | name => if (entity? name).isNone then some ('&' :: (name ++ [';'])) else valueMeaning name

theorem checked_of_number (h : isUnchecked ('#' :: number) = false) :
    (textDigits number).2.head? ≠ some '+' ∧
      ((textDigits number).2 ≠ [] → ∃ c ∈ (textDigits number).2, c ≠ '0') := by
  simpa [isUnchecked] using h

theorem valueReference_name (hname : ∀ number, body ≠ '#' :: number) :
    valueReference 0 0 body =
      match entity? body with
      | some c => .ok c
      | none => .error (.unknownEntity 0 0 (String.ofList body)) := by
  unfold valueReference
  split
  · next number => exact absurd rfl (hname number)
  · rfl

theorem textReference_name (hname : ∀ number, body ≠ '#' :: number) :
    textReference body =
      match entity? body with
      | some c => .ok [c]
      | none => .ok ('&' :: (body ++ [';'])) := by
  unfold textReference
  cases entity? body with
  | some c => rfl
  | none =>
    dsimp only
    split
    · next number => exact absurd rfl (hname number)
    · rfl

theorem ne_nil_of_textMeaning {found : List Char} (h : textMeaning body = some found) :
    found ≠ [] := by
  by_cases hnumber : ∃ number, body = '#' :: number
  · obtain ⟨number, rfl⟩ := hnumber
    rw [textMeaning_number, Option.map_eq_some_iff] at h
    obtain ⟨c, -, rfl⟩ := h
    exact List.cons_ne_nil _ _
  · rw [textMeaning_eq_some_iff, textReference_name (not_exists.1 hnumber)] at h
    split at h
    · obtain rfl := Except.ok.inj h
      exact List.cons_ne_nil _ _
    · obtain rfl := Except.ok.inj h
      exact List.cons_ne_nil _ _

theorem isTextual_name (hname : ∀ number, body ≠ '#' :: number) :
    isTextual body = (entity? body).isNone := by
  unfold isTextual
  split
  · next digits => exact absurd rfl (hname _)
  · next number _ => exact absurd rfl (hname _)
  · rfl

theorem textMeaning_eq_forgiving (h : isUnchecked body = false) :
    textMeaning body = forgiving body := by
  unfold forgiving
  split
  · next digits =>
    obtain ⟨hplus, hzero⟩ := checked_of_number h
    rw [textMeaning_number, unsigned, if_neg hplus]
    exact (@valueMeaning_number ('x' :: digits) hplus hzero).symm
  · next number hcapital =>
    obtain ⟨hplus, hzero⟩ := checked_of_number h
    have hdigits : valueDigits number = textDigits number := by
      refine valueDigits_eq fun hhead => ?_
      obtain ⟨digits, rfl⟩ := List.head?_eq_some_iff.1 hhead
      exact hcapital digits rfl
    rw [textMeaning_number, unsigned, if_neg hplus]
    rw [← hdigits] at hplus hzero ⊢
    exact (valueMeaning_number hplus hzero).symm
  · next hname =>
    rw [textMeaning, textReference_name hname, valueMeaning, valueReference_name hname]
    cases entity? body <;> rfl

theorem valueMeaning_of_isTextual (h : isTextual body = true) : valueMeaning body = none := by
  unfold isTextual at h
  split at h
  · next digits =>
    have hplus : (valueDigits ('X' :: digits)).2.head? ≠ some '+' :=
      fun heq => absurd (Option.some.inj heq) (by decide)
    have hzero : ∃ c ∈ (valueDigits ('X' :: digits)).2, c ≠ '0' :=
      ⟨'X', List.mem_cons_self, by decide⟩
    rw [valueMeaning_number hplus fun _ => hzero]
    exact congrArg _ (character?_of_not_digit (by decide) (by decide))
  · cases h
  · next hname =>
    rw [valueMeaning, valueReference_name hname, Option.isNone_iff_eq_none.1 h]
    rfl

theorem forgiving_of_not_isTextual (h : isTextual body = false) :
    forgiving body = valueMeaning body := by
  unfold forgiving
  split
  · cases h
  · rfl
  · next hname =>
    rw [isTextual_name hname] at h
    rw [h]
    rfl

end MarkupSnippets.Markup

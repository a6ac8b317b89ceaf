import Mathlib.Data.List.Forall2
import Mathlib.Data.List.Sort
import MarkupSnippets.Value

namespace MarkupSnippets.Value

/-- Whether another value stands anywhere in a value: as the value itself, or in one of its items or
entries. -/
inductive Contains : Value → Value → Prop where
  | self (v : Value) : Contains v v
  | item {items : List Value} {item v : Value} (hmem : item ∈ items) (h : Contains item v) :
      Contains (list items) v
  | entry {fields : Fields Value} {entry : String × Value} {v : Value}
      (hmem : entry ∈ fields.toList) (h : Contains entry.2 v) : Contains (record fields) v

theorem contains_list_iff {items : List Value} {v : Value} :
    (list items).Contains v ↔ v = list items ∨ ∃ item ∈ items, item.Contains v := by
  constructor
  · intro h
    cases h with
    | self => exact .inl rfl
    | item hmem h => exact .inr ⟨_, hmem, h⟩
  · rintro (rfl | ⟨item, hmem, h⟩)
    · exact .self _
    · exact .item hmem h

theorem contains_record_iff {fields : Fields Value} {v : Value} :
    (record fields).Contains v ↔
      v = record fields ∨ ∃ entry ∈ fields.toList, entry.2.Contains v := by
  constructor
  · intro h
    cases h with
    | self => exact .inl rfl
    | entry hmem h => exact .inr ⟨_, hmem, h⟩
  · rintro (rfl | ⟨entry, hmem, h⟩)
    · exact .self _
    · exact .entry hmem h

mutual

theorem identical_trans {u v w : Value} (huv : u.identical v = true)
    (hvw : v.identical w = true) : u.identical w = true := by
  cases u with
  | null =>
    cases v with
    | null => exact hvw
    | _ => cases huv
  | bool | text | callable =>
    -- a value of these kinds is identical to nothing but itself
    cases v <;> simp only [identical, beq_iff_eq, Bool.false_eq_true] at huv
    exact huv ▸ hvw
  | number x =>
    cases v with
    | number y =>
      cases w with
      | number z => exact Number.eq_trans huv hvw
      | _ => cases hvw
    | _ => cases huv
  | list xs =>
    cases v with
    | list ys =>
      cases w with
      | list zs => exact identicalLists_trans huv hvw
      | _ => cases hvw
    | _ => cases huv
  | record f =>
    cases v with
    | record g =>
      cases w with
      | record h => exact identicalFields_trans huv hvw
      | _ => cases hvw
    | _ => cases huv

theorem identicalLists_trans {xs ys zs : List Value} (hxy : identicalLists xs ys = true)
    (hyz : identicalLists ys zs = true) : identicalLists xs zs = true := by
  cases xs with
  | nil =>
    cases ys with
    | nil => exact hyz
    | cons y ys => cases hxy
  | cons x xs =>
    cases ys with
    | nil => cases hxy
    | cons y ys =>
      cases zs with
      | nil => cases hyz
      | cons z zs =>
        simp only [identicalLists, Bool.and_eq_true] at hxy hyz ⊢
        exact ⟨identical_trans hxy.1 hyz.1, identicalLists_trans hxy.2 hyz.2⟩

theorem identicalFields_trans {f g h : Fields Value} (hfg : identicalFields f g = true)
    (hgh : identicalFields g h = true) : identicalFields f h = true := by
  cases f with
  | nil =>
    cases g with
    | nil => exact hgh
    | cons l w g => cases hfg
  | cons k v f =>
    cases g with
    | nil => cases hfg
    | cons l w g =>
      cases h with
      | nil => cases hgh
      | cons m u h =>
        simp only [identicalFields, Bool.and_eq_true, beq_iff_eq] at hfg hgh ⊢
        obtain ⟨⟨hkl, hvw⟩, hfg⟩ := hfg
        obtain ⟨⟨hlm, hwu⟩, hgh⟩ := hgh
        exact ⟨⟨hkl.trans hlm, identical_trans hvw hwu⟩, identicalFields_trans hfg hgh⟩

end

mutual

theorem identical_self_iff (v : Value) : v.identical v = true ↔ ¬v.Contains (number .nan) := by
  cases v with
  | number x =>
    rw [identical, Number.eq_self_iff, not_iff_not]
    constructor
    · rintro rfl
      exact .self _
    · rintro ⟨⟩
      rfl
  | list items =>
    rw [identical, identicalLists_self_iff, contains_list_iff]
    simp
  | record fields =>
    rw [identical, identicalFields_self_iff, contains_record_iff]
    simp
  | null | bool | text | callable =>
    simp only [identical, beq_self_eq_true, true_iff]
    rintro ⟨⟩

theorem identicalLists_self_iff (items : List Value) :
    identicalLists items items = true ↔ ∀ item ∈ items, ¬item.Contains (number .nan) := by
  cases items with
  | nil => simp [identicalLists]
  | cons item items =>
    rw [identicalLists, Bool.and_eq_true, identical_self_iff item, identicalLists_self_iff items,
      List.forall_mem_cons]

theorem identicalFields_self_iff (fields : Fields Value) :
    identicalFields fields fields = true ↔
      ∀ entry ∈ fields.toList, ¬entry.2.Contains (number .nan) := by
  cases fields with
  | nil => simp [identicalFields, Fields.toList]
  | cons key v fields =>
    rw [identicalFields, beq_self_eq_true, Bool.true_and, Bool.and_eq_true, identical_self_iff v,
      identicalFields_self_iff fields, Fields.toList, List.forall_mem_cons]

end

theorem identicalLists_iff {xs ys : List Value} : identicalLists xs ys = true ↔
    xs.length = ys.length ∧
      ∀ i (hx : i < xs.length) (hy : i < ys.length), xs[i].identical ys[i] = true := by
  have hpairs : identicalLists xs ys = true ↔
      List.Forall₂ (fun x y => x.identical y = true) xs ys := by
    induction xs generalizing ys with
    | nil => cases ys <;> simp [identicalLists]
    | cons x xs ih => cases ys <;> simp [identicalLists, ih]
  rw [hpairs, List.forall₂_iff_get]
  rfl

/-- Entries are compared one after another. If no key comes twice, this compares the values that
stand for each key. -/
theorem identicalFields_iff {f g : Fields Value} (hf : f.Ordered) :
    identicalFields f g = true ↔ f.keys = g.keys ∧
      ∀ key v w, f.get? key = some v → g.get? key = some w → v.identical w = true := by
  induction f generalizing g with
  | nil => cases g <;> simp [identicalFields, Fields.get?]
  | cons k v f ih =>
    cases g with
    | nil => simp [identicalFields]
    | cons l w g =>
      rw [identicalFields, Bool.and_eq_true, Bool.and_eq_true, beq_iff_eq, ih hf.rest,
        Fields.keys_cons, Fields.keys_cons, List.cons.injEq, and_assoc, and_assoc]
      refine and_congr_right fun hkl => ?_
      subst hkl
      constructor
      · rintro ⟨hvw, hkeys, hrest⟩
        refine ⟨hkeys, fun key a b ha hb => ?_⟩
        by_cases hkey : key = k
        · simp only [Fields.get?, if_pos hkey, Option.some.injEq] at ha hb
          exact ha ▸ hb ▸ hvw
        · simp only [Fields.get?, if_neg hkey] at ha hb
          exact hrest key a b ha hb
      · rintro ⟨hkeys, hall⟩
        refine ⟨hall k v w (if_pos rfl) (if_pos rfl), hkeys, fun key a b ha hb => ?_⟩
        have hkey : key ≠ k := by
          rintro rfl
          rw [hf.get?_eq_none (String.lt_irrefl _)] at ha
          cases ha
        exact hall key a b ((if_neg hkey).trans ha) ((if_neg hkey).trans hb)

theorem identical_record_iff (r s : Data) :
    (record r.fields).identical (record s.fields) = true ↔
      (∀ key, key ∈ r.keys ↔ key ∈ s.keys) ∧
        ∀ key v w, r.get? key = some v → s.get? key = some w → v.identical w = true := by
  rw [identical, identicalFields_iff r.ordered]
  refine and_congr_left fun _ => ⟨fun h key => ?_, fun h => ?_⟩
  · rw [Record.keys, h, Record.keys]
  · exact List.Pairwise.eq_of_mem_iff r.ordered s.ordered h

/-- Strict equality is symmetric and transitive, and the values that are equal to themselves are
those without a NaN in them. Callables are equal if they are the same, lists if they have the same
length and equal items at each position, and records if they have the same keys and equal values for
each key. -/
theorem identical_partial_equivalence :
    (∀ v w : Value, v.identical w = w.identical v) ∧
    (∀ u v w : Value, u.identical v = true → v.identical w = true → u.identical w = true) ∧
    (∀ v : Value, v.identical v = true ↔ ¬v.Contains (number .nan)) ∧
    (∀ m n, (callable m).identical (callable n) = true ↔ m = n) ∧
    (∀ xs ys, (list xs).identical (list ys) = true ↔ xs.length = ys.length ∧
      ∀ i (hx : i < xs.length) (hy : i < ys.length), xs[i].identical ys[i] = true) ∧
    ∀ r s : Data, (record r.fields).identical (record s.fields) = true ↔
      (∀ key, key ∈ r.keys ↔ key ∈ s.keys) ∧
        ∀ key v w, r.get? key = some v → s.get? key = some w → v.identical w = true := by
  refine ⟨identical_comm, fun u v w => identical_trans, identical_self_iff, fun m n => ?_,
    fun xs ys => ?_, identical_record_iff⟩
  · rw [identical, beq_iff_eq]
  · rw [identical, identicalLists_iff]

def nestedNumber (balance : Number) : Value :=
  record (.cons "lines" (list [number balance, callable "print"]) (.cons "name" (text "May") .nil))

theorem identical_partial_equivalence_nested_number :
    (nestedNumber (.ofRank false 0)).identical (nestedNumber (.ofRank true 0)) = true ∧
      (nestedNumber (.ofRank true 0)).identical (nestedNumber (.ofRank false 0)) = true ∧
      (nestedNumber (.ofRank false 0)).identical (nestedNumber (.ofRank false 0)) = true ∧
      (nestedNumber .nan).Contains (number .nan) ∧
      ¬(nestedNumber .nan).identical (nestedNumber .nan) = true := by
  obtain ⟨hcomm, htrans, hself, -⟩ := identical_partial_equivalence
  have hzeros :
      (nestedNumber (.ofRank false 0)).identical (nestedNumber (.ofRank true 0)) = true := by
    decide
  have hswapped :=
    (hcomm (nestedNumber (.ofRank true 0)) (nestedNumber (.ofRank false 0))).trans hzeros
  have hnan : (nestedNumber .nan).Contains (number .nan) :=
    .entry List.mem_cons_self (.item List.mem_cons_self (.self _))
  refine ⟨hzeros, hswapped, htrans _ _ _ hzeros hswapped, hnan, ?_⟩
  rw [hself]
  exact not_not_intro hnan

end MarkupSnippets.Value

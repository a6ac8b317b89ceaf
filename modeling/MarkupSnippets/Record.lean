namespace MarkupSnippets

inductive Fields (α : Type) where
  | nil
  | cons (key : String) (value : α) (rest : Fields α)
deriving Repr, DecidableEq

namespace Fields

variable {α β : Type}

def toList : Fields α → List (String × α)
  | nil => []
  | cons k v rest => (k, v) :: rest.toList

def keys (fields : Fields α) : List String :=
  fields.toList.map Prod.fst

def get? (query : String) : Fields α → Option α
  | nil => none
  | cons k v rest => if query = k then some v else rest.get? query

def insert (key : String) (value : α) : Fields α → Fields α
  | nil => cons key value nil
  | cons k v rest =>
    if key < k then cons key value (cons k v rest)
    else if key = k then cons key value rest
    else cons k v (rest.insert key value)

def merge (base : Fields α) : Fields α → Fields α
  | nil => base
  | cons k v rest => (base.insert k v).merge rest

def map (f : α → β) : Fields α → Fields β
  | nil => nil
  | cons k v rest => cons k (f v) (rest.map f)

def Ordered (fields : Fields α) : Prop :=
  fields.keys.Pairwise (· < ·)

@[simp] theorem keys_nil : (nil : Fields α).keys = [] := rfl

@[simp] theorem keys_cons (k : String) (v : α) (rest : Fields α) :
    (cons k v rest).keys = k :: rest.keys := rfl

theorem get?_insert (key : String) (value : α) (query : String) (fields : Fields α) :
    (fields.insert key value).get? query =
      if query = key then some value else fields.get? query := by
  induction fields with
  | nil => rfl
  | cons k v rest ih =>
    by_cases hlt : key < k
    · simp [insert, hlt, get?]
    · by_cases heq : key = k
      · subst heq
        by_cases hq : query = key <;> simp only [insert, get?, hlt, hq, if_true, if_false]
      · by_cases hq : query = k
        · subst hq
          simp [insert, hlt, heq, get?, Ne.symm heq]
        · simp [insert, hlt, heq, get?, hq, ih]

theorem mem_toList_of_get? {query : String} {value : α} {fields : Fields α}
    (h : fields.get? query = some value) : (query, value) ∈ fields.toList := by
  induction fields with
  | nil => cases h
  | cons k v rest ih =>
    by_cases hq : query = k
    · subst hq
      simp only [get?, if_true, Option.some.injEq] at h
      simp [toList, h]
    · simp only [get?, hq, if_false] at h
      exact List.mem_cons_of_mem _ (ih h)

theorem mem_toList_insert {key : String} {value : α} {entry : String × α} {fields : Fields α}
    (h : entry ∈ (fields.insert key value).toList) :
    entry = (key, value) ∨ entry ∈ fields.toList := by
  induction fields with
  | nil => exact .inl (List.mem_singleton.1 h)
  | cons k v rest ih =>
    by_cases hlt : key < k
    · simpa [insert, hlt, toList] using h
    · by_cases heq : key = k
      · simp only [insert, hlt, if_false, if_pos heq, toList, List.mem_cons] at h
        exact h.imp_right (List.mem_cons_of_mem (k, v))
      · simp only [insert, hlt, heq, if_false, toList, List.mem_cons] at h
        obtain rfl | h := h
        · exact .inr List.mem_cons_self
        · exact (ih h).imp_right (List.mem_cons_of_mem (k, v))

theorem mem_keys_insert (key : String) (value : α) (query : String) (fields : Fields α) :
    query ∈ (fields.insert key value).keys ↔ query = key ∨ query ∈ fields.keys := by
  induction fields with
  | nil => simp [insert]
  | cons k v rest ih =>
    by_cases hlt : key < k
    · simp [insert, hlt]
    · by_cases heq : key = k
      · subst heq
        simp only [insert, hlt, if_true, if_false, keys_cons, List.mem_cons, or_self_left]
      · simp [insert, hlt, heq, ih, or_left_comm]

namespace Ordered

theorem nil : (Fields.nil : Fields α).Ordered := List.Pairwise.nil

theorem rest {k : String} {v : α} {rest : Fields α} (h : (cons k v rest).Ordered) :
    rest.Ordered :=
  (List.pairwise_cons.1 h).2

theorem insert {fields : Fields α} (h : fields.Ordered) (key : String) (value : α) :
    (fields.insert key value).Ordered := by
  induction fields with
  | nil => simp [Fields.insert, Ordered]
  | cons k v rest ih =>
    obtain ⟨hk, hrest⟩ := List.pairwise_cons.1 h
    by_cases hlt : key < k
    · simp only [Fields.insert, hlt, if_true]
      refine List.pairwise_cons.2 ⟨fun x hx => ?_, h⟩
      rcases List.mem_cons.1 hx with rfl | hx
      · exact hlt
      · exact String.lt_trans hlt (hk x hx)
    · by_cases heq : key = k
      · subst heq
        simp only [Fields.insert, String.lt_irrefl, if_true, if_false]
        exact h
      · have hgt : k < key :=
          Decidable.byContradiction fun hn => heq (String.le_antisymm hn hlt)
        simp only [Fields.insert, hlt, heq, if_false]
        refine List.pairwise_cons.2 ⟨fun x hx => ?_, ih hrest⟩
        rcases (mem_keys_insert key value x rest).1 hx with rfl | hx
        · exact hgt
        · exact hk x hx

theorem merge {base : Fields α} (h : base.Ordered) (overlay : Fields α) :
    (base.merge overlay).Ordered := by
  induction overlay generalizing base with
  | nil => exact h
  | cons k v rest ih => exact ih (h.insert k v)

theorem get?_eq_none {k : String} {v : α} {rest : Fields α} (h : (cons k v rest).Ordered)
    {query : String} (hq : ¬k < query) : rest.get? query = none := by
  have hall : ∀ x ∈ rest.keys, x ≠ query := fun x hx he =>
    hq (he ▸ (List.pairwise_cons.1 h).1 x hx)
  clear h hq
  induction rest with
  | nil => rfl
  | cons k' v' rest ih =>
    simp only [keys_cons, List.mem_cons, forall_eq_or_imp] at hall
    simp only [get?, Ne.symm hall.1, if_false]
    exact ih hall.2

theorem ext {f g : Fields α} (hf : f.Ordered) (hg : g.Ordered)
    (h : ∀ query, f.get? query = g.get? query) : f = g := by
  induction f generalizing g with
  | nil =>
    cases g with
    | nil => rfl
    | cons k v rest => have := h k; simp [get?] at this
  | cons k v rest ih =>
    cases g with
    | nil => have := h k; simp [get?] at this
    | cons k' v' rest' =>
      have hkk : k = k' := by
        -- The smaller of two different first keys would be found in one list only.
        apply Decidable.byContradiction
        intro hne
        have h₁ := h k
        have h₂ := h k'
        simp only [get?, if_true, hne, Ne.symm hne, if_false] at h₁ h₂
        have hlt₁ : k' < k := Decidable.byContradiction fun hn => by
          rw [hg.get?_eq_none hn] at h₁; cases h₁
        have hlt₂ : k < k' := Decidable.byContradiction fun hn => by
          rw [hf.get?_eq_none hn] at h₂; cases h₂
        exact String.lt_asymm hlt₁ hlt₂
      subst hkk
      have hv : v = v' := by have := h k; simpa [get?] using this
      subst hv
      congr 1
      refine ih hf.rest hg.rest fun query => ?_
      by_cases hq : query = k
      · subst hq
        rw [hf.get?_eq_none (String.lt_irrefl _), hg.get?_eq_none (String.lt_irrefl _)]
      · simpa [get?, hq] using h query

end Ordered

end Fields

/-- A finite map whose entries are listed in the byte order of their keys. -/
structure Record (α : Type) where
  fields : Fields α
  ordered : fields.Ordered
deriving DecidableEq

namespace Record

variable {α : Type}

def empty : Record α := ⟨.nil, .nil⟩

instance : Inhabited (Record α) := ⟨empty⟩

def toList (r : Record α) : List (String × α) := r.fields.toList

def keys (r : Record α) : List String := r.fields.keys

def size (r : Record α) : Nat := r.keys.length

def isEmpty (r : Record α) : Bool := r.keys.isEmpty

def get? (r : Record α) (key : String) : Option α := r.fields.get? key

def contains (r : Record α) (key : String) : Bool := (r.get? key).isSome

def insert (r : Record α) (key : String) (value : α) : Record α :=
  ⟨r.fields.insert key value, r.ordered.insert key value⟩

def merge (r : Record α) (overlay : Fields α) : Record α :=
  ⟨r.fields.merge overlay, r.ordered.merge overlay⟩

/-- Of entries with the same key the last one counts. -/
def ofList (entries : List (String × α)) : Record α :=
  entries.foldl (fun r entry => r.insert entry.1 entry.2) empty

@[simp] theorem get?_insert (r : Record α) (key : String) (value : α) (query : String) :
    (r.insert key value).get? query = if query = key then some value else r.get? query :=
  Fields.get?_insert key value query r.fields

theorem mem_toList_of_get? {r : Record α} {query : String} {value : α}
    (h : r.get? query = some value) : (query, value) ∈ r.toList :=
  Fields.mem_toList_of_get? h

theorem mem_toList_insert {r : Record α} {key : String} {value : α} {entry : String × α}
    (h : entry ∈ (r.insert key value).toList) : entry = (key, value) ∨ entry ∈ r.toList :=
  Fields.mem_toList_insert h

theorem mem_keys_ofList (entries : List (String × α)) (query : String) :
    query ∈ (ofList entries).keys ↔ query ∈ entries.map Prod.fst := by
  suffices h : ∀ r : Record α,
      query ∈ (entries.foldl (fun r entry => r.insert entry.1 entry.2) r).keys ↔
        query ∈ r.keys ∨ query ∈ entries.map Prod.fst by
    simpa [ofList, empty, keys] using h empty
  induction entries with
  | nil => simp
  | cons entry entries ih =>
    intro r
    rw [List.foldl_cons, ih]
    simp only [keys, insert, Fields.mem_keys_insert, List.map_cons, List.mem_cons]
    rw [or_comm (a := query = entry.1), or_assoc]

@[ext] theorem ext {r s : Record α} (h : ∀ query, r.get? query = s.get? query) : r = s := by
  obtain ⟨f, hf⟩ := r
  obtain ⟨g, hg⟩ := s
  have := hf.ext hg h
  subst this
  rfl

end Record

end MarkupSnippets

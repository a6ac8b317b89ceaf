import MarkupSnippets.Number.Literal
import MarkupSnippets.Record

namespace MarkupSnippets

/-- The values that templates read. A callable is known by its name; two of them are the same
exactly when their names are. -/
inductive Value where
  | null
  | bool (b : Bool)
  | number (x : Number)
  | text (s : String)
  | list (items : List Value)
  | record (fields : Fields Value)
  | callable (name : String)

abbrev Data := Record Value

namespace Value

instance : Inhabited Value := ⟨null⟩

def kind : Value → String
  | null => "null"
  | bool _ => "boolean"
  | number _ => "number"
  | text _ => "string"
  | list _ => "list"
  | record _ => "record"
  | callable _ => "callable"

/-- The text put into markup. A zero loses its sign, and values without a text of their own
leave nothing. -/
def toText : Value → String
  | null => ""
  | bool b => if b then "true" else "false"
  | number x => if x.isZero then "0" else x.render
  | text s => s
  | list items => String.intercalate "," (texts items)
  | record _ => ""
  | callable _ => ""
where
  texts : List Value → List String
    | [] => []
    | v :: vs => v.toText :: texts vs

/-- What a test takes for true: everything but null, false, zero, NaN and the empty text. -/
def truthy : Value → Bool
  | null => false
  | bool b => b
  | number x => !x.isZero && !x.isNaN
  | text s => s != ""
  | list _ => true
  | record _ => true
  | callable _ => true

mutual

def identical : Value → Value → Bool
  | null, null => true
  | bool a, bool b => a == b
  | number x, number y => x.eq y
  | text s, text t => s == t
  | list xs, list ys => identicalLists xs ys
  | record f, record g => identicalFields f g
  | callable m, callable n => m == n
  | _, _ => false

def identicalLists : List Value → List Value → Bool
  | [], [] => true
  | x :: xs, y :: ys => x.identical y && identicalLists xs ys
  | _, _ => false

def identicalFields : Fields Value → Fields Value → Bool
  | .nil, .nil => true
  | .cons k v f, .cons l w g => k == l && v.identical w && identicalFields f g
  | _, _ => false

end

mutual

theorem identical_comm (v w : Value) : v.identical w = w.identical v := by
  cases v <;> cases w <;> simp only [identical, Bool.beq_comm, Number.eq_comm]
  · exact identicalLists_comm _ _
  · exact identicalFields_comm _ _

theorem identicalLists_comm (xs ys : List Value) :
    identicalLists xs ys = identicalLists ys xs := by
  cases xs with
  | nil => cases ys <;> simp only [identicalLists]
  | cons x xs =>
    cases ys with
    | nil => simp only [identicalLists]
    | cons y ys =>
      simp only [identicalLists]
      rw [identical_comm x y, identicalLists_comm xs ys]

theorem identicalFields_comm (f g : Fields Value) :
    identicalFields f g = identicalFields g f := by
  cases f with
  | nil => cases g <;> simp only [identicalFields]
  | cons k v f =>
    cases g with
    | nil => simp only [identicalFields]
    | cons l w g =>
      simp only [identicalFields]
      rw [Bool.beq_comm, identical_comm v w, identicalFields_comm f g]

end

def size? : Value → Option Nat
  | list items => some items.length
  | record fields => some fields.toList.length
  | _ => none

end Value

end MarkupSnippets

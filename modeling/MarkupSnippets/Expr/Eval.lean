import MarkupSnippets.Expr.Syntax
import MarkupSnippets.Placeholder

namespace MarkupSnippets

namespace Value

/-- How a loose comparison reads a scalar as a number; a blank text counts as zero. -/
def asNumber? : Value → Option Number
  | number x => some x
  | bool b => some (if b then .ofNat 1 else .ofNat 0)
  | text s => if Text.allBlank s then some (.ofNat 0) else Number.read? (Text.trimChars s.toList)
  | _ => none

def numericallyEqual (v w : Value) : Bool :=
  match v.asNumber?, w.asNumber? with
  | some x, some y => x.eq y
  | _, _ => false

def looselyEqual : Value → Value → Bool
  | null, null => true
  | null, _ => false
  | _, null => false
  | text s, text t => s == t
  | number x, w => (number x).numericallyEqual w
  | bool b, w => (bool b).numericallyEqual w
  | v, number y => v.numericallyEqual (number y)
  | v, bool b => v.numericallyEqual (bool b)
  | v, w => v.identical w

/-- Texts are ordered by their bytes, other scalars by their numbers. -/
def order? : Value → Value → Option Ordering
  | text s, text t => some (compare s t)
  | null, _ => none
  | _, null => none
  | v, w => v.asNumber?.bind fun x => w.asNumber?.bind fun y => x.compare? y

end Value

def Comparison.holds : Comparison → Value → Value → Bool
  | equal, v, w => v.looselyEqual w
  | notEqual, v, w => !v.looselyEqual w
  | strictEqual, v, w => v.identical w
  | strictNotEqual, v, w => !v.identical w
  | less, v, w => v.order? w == some .lt
  | lessOrEqual, v, w => v.order? w == some .lt || v.order? w == some .eq
  | greater, v, w => v.order? w == some .gt
  | greaterOrEqual, v, w => v.order? w == some .gt || v.order? w == some .eq

def lookup (data : Data) (path : String) : Value :=
  (resolve? data path).getD .null

def Expr.eval (data : Data) : Expr → Value
  | null => .null
  | bool b => .bool b
  | number x => .number x
  | text s =>
    match Placeholder.sole? s with
    | some path => lookup data path
    | none => .text (substitute data s)
  | reference path => lookup data path
  | not e => .bool (!(e.eval data).truthy)
  | or l r => .bool ((l.eval data).truthy || (r.eval data).truthy)
  | and l r => .bool ((l.eval data).truthy && (r.eval data).truthy)
  | compare c l r => .bool (c.holds (l.eval data) (r.eval data))

/-- Only the truth value true holds, not everything that is truthy. -/
def Value.holds : Value → Bool
  | bool b => b
  | _ => false

end MarkupSnippets

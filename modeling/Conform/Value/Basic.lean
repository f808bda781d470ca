/-
  Conform.Value.Basic

  The values of a dynamically typed host, and the views that the rest of the
  library takes of them: type tag, number, byte string, members, entries and
  length. The bounds of a range of integers are 64-bit words; all arithmetic on
  them is done in unbounded integers.
-/

import Conform.TypeTag

namespace Conform

/-! ## Ranges of integers -/

/-- A range of integers. A step of zero denotes the empty range. -/
structure IntRange where
  start : Int64
  stop : Int64
  step : Int64
deriving Repr, DecidableEq

namespace IntRange

/-- The largest length that is reported. -/
def sizeLimit : Nat := 0xffffffffffffffff

/-- The number of elements. -/
def count (r : IntRange) : Int :=
  let start := r.start.toInt
  let stop := r.stop.toInt
  let step := r.step.toInt
  if 0 < step ∧ start < stop then (stop - start - 1) / step + 1
  else if step < 0 ∧ stop < start then (start - stop - 1) / (-step) + 1
  else 0

/-- The reported length: the number of elements, capped at `sizeLimit`. -/
def size (r : IntRange) : Nat := min r.count.toNat sizeLimit

/-- Whether an integer is an element. -/
def contains (r : IntRange) (n : Int) : Bool :=
  let start := r.start.toInt
  let stop := r.stop.toInt
  let step := r.step.toInt
  let inBounds := if 0 < step then start ≤ n ∧ n < stop else stop < n ∧ n ≤ start
  decide inBounds && step != 0 && (n - start) % step == 0

/-- Equality of ranges as sequences: the start of an empty range and the step
    of a range with at most one element do not matter. -/
def sameElements (r s : IntRange) : Bool :=
  r.size == s.size && (r.size == 0 || r.start == s.start) && (r.size ≤ 1 || r.step == s.step)

end IntRange

/-! ## Values -/

/-- A host value. Sets hold their members and dictionaries their entries in
    insertion order. -/
inductive Value where
  | none
  | bool (b : Bool)
  | int (n : Int64)
  | float (x : Float)
  | str (s : String)
  | binary (kind : BinaryKind) (data : List UInt8)
  | range (r : IntRange)
  | collection (kind : CollectionKind) (items : List Value)
  | dict (entries : List (Value × Value))
  /-- An instance of the named class; it has no other content. -/
  | object (className : String)
  /-- The named class itself. -/
  | classRef (className : String)
  | callable (kind : CallableKind) (name : String)
deriving Inhabited

/-- The numeric reading of a value. -/
inductive Numeric where
  | int (n : Int64)
  | float (x : Float)

namespace Numeric

/-- The nearest double. -/
def toFloat : Numeric → Float
  | int n => n.toFloat
  | float x => x

/-- Order of two doubles; a NaN is not ordered against anything. -/
def compareFloats (x y : Float) : Option Ordering :=
  if x < y then some .lt
  else if x == y then some .eq
  else if y < x then some .gt
  else none

/-- Order of two numbers. Integers compare exactly; as soon as a double takes
    part, both sides are compared as doubles. -/
def compare? : Numeric → Numeric → Option Ordering
  | int m, int n => some (compare m.toInt n.toInt)
  | a, b => compareFloats a.toFloat b.toFloat

end Numeric

namespace Value

/-- The runtime type of a value. -/
def tag : Value → TypeTag
  | none => .noneType
  | bool _ => .bool
  | int _ => .int
  | float _ => .float
  | str _ => .str
  | binary kind _ => .binary kind
  | range _ => .range
  | collection kind _ => .collection kind
  | dict _ => .dict
  | object c => .instanceOf c
  | classRef c => .classOf c
  | callable kind _ => .callable kind

/-- Whether a value is the none-value. -/
def isNone : Value → Bool
  | none => true
  | _ => false

/-- Truth values, integers and doubles are numbers. -/
def numeric? : Value → Option Numeric
  | bool b => some (.int (if b then 1 else 0))
  | int n => some (.int n)
  | float x => some (.float x)
  | _ => Option.none

/-- The members of a list, tuple, set or frozen set. -/
def elements? : Value → Option (List Value)
  | collection _ items => some items
  | _ => Option.none

/-- The entries of a dictionary. -/
def entries? : Value → Option (List (Value × Value))
  | dict entries => some entries
  | _ => Option.none

/-- The length of a sized value. -/
def size? : Value → Option Nat
  | str s => some s.length
  | binary _ data => some data.length
  | range r => some r.size
  | collection _ items => some items.length
  | dict entries => some entries.length
  | _ => Option.none

end Value

end Conform

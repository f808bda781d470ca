/-
  Conform.Json.Reader

  JSON documents, read by the strict grammar: no comments, no trailing commas,
  no leading zeros, no unpaired surrogates, at most 127 nested containers. An
  object keeps its members as written, repeated names included; what a repeated
  name means is for the reader of the document.

  A number without fraction and exponent is an integer when it fits. Any other
  number is a double, found by one scaling step: its digits are collected in a
  64-bit significand, and that significand, taken as a double, is multiplied or
  divided by one power of ten. The result can differ from the nearest double in
  the last place.
-/

import Conform.Number.Nearest
import Conform.Text.CharClass

namespace Conform

/-- A JSON document. Whole numbers within 64 bits are integers, all other
    numbers are doubles. -/
inductive Json where
  | null
  | bool (b : Bool)
  | int (n : Int64)
  | float (x : Float)
  | str (s : String)
  | array (items : List Json)
  | object (members : List (String × Json))
deriving Inhabited

end Conform

namespace Conform.Json

/-! ## The values of numbers -/

/-- The written parts of a number. Digits are values from 0 to 9. -/
structure NumberText where
  negative : Bool
  whole : List Nat
  fraction : Option (List Nat)
  exponent : Option Int

namespace NumberText

/-- The largest significand. -/
def significandLimit : Nat := 0xffffffffffffffff

/-- The magnitude of the least integer; that of the largest is one less. -/
def intLimit : Nat := 0x8000000000000000

/-- Collects digits of the whole part; yields the significand and how many
    digits did not fit. -/
def takeWhole (significand : Nat) : List Nat → Nat × Nat
  | [] => (significand, 0)
  | d :: ds =>
      if significand * 10 + d > significandLimit then (significand, ds.length + 1)
      else takeWhole (significand * 10 + d) ds

/-- Collects digits of the fraction; yields the significand and how many
    digits it took. -/
def takeFraction (significand : Nat) : List Nat → Nat × Nat
  | [] => (significand, 0)
  | d :: ds =>
      if significand * 10 + d > significandLimit then (significand, 0)
      else
        let (s, taken) := takeFraction (significand * 10 + d) ds
        (s, taken + 1)

/-- The largest exponent of ten that is applied in one step. -/
def stepLimit : Nat := 308

/-- The double nearest to a power of ten. -/
def powerOfTen (k : Nat) : Float := Decimal.toFloat ⟨1, k⟩

/-- The double nearest to a natural number. -/
def floatOfNat (n : Nat) : Float := Nearest.ofFraction n 1

/-- Divides by a power of ten, in steps of at most `stepLimit`. After three
    steps nothing is left of a 64-bit significand. -/
def scaleDown : Nat → Float → Nat → Float
  | 0, f, _ => f
  | fuel + 1, f, k =>
      if k ≤ stepLimit then f / powerOfTen k
      else if f == 0 then f
      else scaleDown fuel (f / powerOfTen stepLimit) (k - stepLimit)

/-- The product `f * 10 ^ exponent`, or `none` when it is out of range. -/
def scale (f : Float) (exponent : Int) : Option Float :=
  if exponent < 0 then some (scaleDown 3 f exponent.natAbs)
  else if exponent.natAbs ≤ stepLimit then
    let g := f * powerOfTen exponent.natAbs
    if g.isInf then none else some g
  else if f == 0 then some f
  else none

/-- The number as a double. -/
def toFloat? (t : NumberText) : Option Float :=
  let (whole, dropped) := takeWhole 0 t.whole
  let (significand, taken) := takeFraction whole (t.fraction.getD [])
  let exponent : Int := (dropped : Int) - taken + t.exponent.getD 0
  (scale (floatOfNat significand) exponent).map fun f => if t.negative then -f else f

/-- The value of the number; `none` when it is too large for a double. A
    negative zero is a double, since integers have none. -/
def toJson? (t : NumberText) : Option Json :=
  let (whole, dropped) := takeWhole 0 t.whole
  if t.fraction.isNone && t.exponent.isNone && dropped == 0 then
    if t.negative then
      if whole == 0 || whole > intLimit then some (.float (-(floatOfNat whole)))
      else some (.int (Int64.ofInt (-(whole : Int))))
    else if whole < intLimit then some (.int (Int64.ofNat whole))
    else some (.float (floatOfNat whole))
  else t.toFloat?.map .float

end NumberText

/-! ## Blanks and words -/

/-- Reads something off the front of a text. -/
abbrev Reader (α : Type) := List Char → Option (α × List Char)

/-- The blanks of JSON. -/
def isBlank (c : Char) : Bool := c == ' ' || c == '\n' || c == '\t' || c == '\r'

/-- The text after leading blanks. -/
def skipBlanks (cs : List Char) : List Char := cs.dropWhile isBlank

/-- The text after a fixed word. -/
def afterWord? (word : List Char) (cs : List Char) : Option (List Char) :=
  if word.isPrefixOf cs then some (cs.drop word.length) else none

/-! ## Numbers -/

/-- Splits off the leading digits, as values. -/
def takeDigits (cs : List Char) : List Nat × List Char :=
  ((cs.takeWhile Char.isDigit).map fun c => c.toNat - 48, cs.dropWhile Char.isDigit)

/-- The digits before the point: a single zero, or no leading zero. -/
def wholePart : Reader (List Nat) := fun cs =>
  match takeDigits cs with
  | ([], _) => none
  | (0 :: _ :: _, _) => none
  | found => some found

/-- The digits after a point, if one follows. -/
def fractionPart : Reader (Option (List Nat)) := fun cs =>
  match cs with
  | '.' :: rest =>
      match takeDigits rest with
      | ([], _) => none
      | (ds, rest) => some (some ds, rest)
  | _ => some (none, cs)

/-- The exponent digits with their sign. -/
def signedExponent : Reader Int := fun cs =>
  let (negative, rest) := match cs with
    | '-' :: rest => (true, rest)
    | '+' :: rest => (false, rest)
    | _ => (false, cs)
  match takeDigits rest with
  | ([], _) => none
  | (ds, rest) =>
      let n : Int := (ds.foldl (fun acc d => acc * 10 + d) 0 : Nat)
      some (if negative then -n else n, rest)

/-- The exponent, if its mark follows. -/
def exponentPart : Reader (Option Int) := fun cs =>
  match cs with
  | 'e' :: rest | 'E' :: rest => (signedExponent rest).map fun (n, rest) => (some n, rest)
  | _ => some (none, cs)

/-- A number. -/
def number : Reader Json := fun cs => do
  let (negative, cs) := match cs with
    | '-' :: rest => (true, rest)
    | _ => (false, cs)
  let (whole, cs) ← wholePart cs
  let (fraction, cs) ← fractionPart cs
  let (exponent, cs) ← exponentPart cs
  let value ← ({ negative, whole, fraction, exponent } : NumberText).toJson?
  return (value, cs)

/-! ## Strings -/

/-- Four hexadecimal digits. -/
def hexUnit : Reader Nat := fun cs =>
  match cs with
  | a :: b :: c :: d :: rest => (Text.hexNumber? [a, b, c, d]).map (·, rest)
  | _ => none

/-- The character of a `\u` escape, after the `u`: one unit, or a leading and
    a trailing surrogate. -/
def unicodeEscape : Reader Char := fun cs => do
  let (unit, rest) ← hexUnit cs
  if 0xDC00 ≤ unit && unit ≤ 0xDFFF then none
  else if 0xD800 ≤ unit && unit ≤ 0xDBFF then
    match rest with
    | '\\' :: 'u' :: rest => do
        let (trail, rest) ← hexUnit rest
        if 0xDC00 ≤ trail && trail ≤ 0xDFFF then
          return (Char.ofNat (0x10000 + (unit - 0xD800) * 0x400 + (trail - 0xDC00)), rest)
        else none
    | _ => none
  else return (Char.ofNat unit, rest)

/-- The character of an escape, after the backslash. -/
def escape : Reader Char := fun cs =>
  match cs with
  | '"' :: rest => some ('"', rest)
  | '\\' :: rest => some ('\\', rest)
  | '/' :: rest => some ('/', rest)
  | 'b' :: rest => some ('\x08', rest)
  | 'f' :: rest => some ('\x0c', rest)
  | 'n' :: rest => some ('\n', rest)
  | 'r' :: rest => some ('\r', rest)
  | 't' :: rest => some ('\t', rest)
  | 'u' :: rest => unicodeEscape rest
  | _ => none

/-- The characters up to the closing quote; one step per character read. -/
def stringBody : Nat → Reader (List Char)
  | 0, _ => none
  | fuel + 1, cs =>
      match cs with
      | [] => none
      | '"' :: rest => some ([], rest)
      | '\\' :: rest => do
          let (c, rest) ← escape rest
          let (more, rest) ← stringBody fuel rest
          return (c :: more, rest)
      | c :: rest =>
          if c.toNat < 0x20 then none
          else do
            let (more, rest) ← stringBody fuel rest
            return (c :: more, rest)

/-- A string. -/
def string : Reader String := fun cs =>
  match cs with
  | '"' :: rest => (stringBody (rest.length + 1) rest).map fun (s, rest) => (String.ofList s, rest)
  | _ => none

/-! ## Documents -/

/-- One or more items with commas between them, up to the closing bracket. -/
def itemsUpTo {α : Type} (close : Char) (item : Reader α) : Nat → Reader (List α)
  | 0, _ => none
  | fuel + 1, cs => do
      let (first, cs) ← item cs
      match skipBlanks cs with
      | c :: rest =>
          if c == close then return ([first], rest)
          else if c == ',' then
            let (more, rest) ← itemsUpTo close item fuel (skipBlanks rest)
            return (first :: more, rest)
          else none
      | [] => none

/-- The items between two brackets, after the opening one. -/
def bracketed {α : Type} (close : Char) (item : Reader α) : Reader (List α) := fun cs =>
  match skipBlanks cs with
  | [] => none
  | c :: rest =>
      if c == close then some ([], rest) else itemsUpTo close item (rest.length + 1) (c :: rest)

/-- A member of an object. -/
def member (value : Reader Json) : Reader (String × Json) := fun cs => do
  let (name, cs) ← string cs
  match skipBlanks cs with
  | ':' :: rest =>
      let (v, rest) ← value rest
      return ((name, v), rest)
  | _ => none

/-- A document with fewer than `depth` nested containers. -/
def document : Nat → Reader Json
  | 0, _ => none
  | depth + 1, cs =>
      match skipBlanks cs with
      | '[' :: rest =>
          if depth = 0 then none
          else (bracketed ']' (document depth) rest).map fun (xs, rest) => (.array xs, rest)
      | '\x7b' :: rest =>
          if depth = 0 then none
          else (bracketed '\x7d' (member (document depth)) rest).map fun (ms, rest) =>
            (.object ms, rest)
      | '"' :: rest => (string ('"' :: rest)).map fun (s, rest) => (.str s, rest)
      | 'n' :: rest => (afterWord? "ull".toList rest).map fun rest => (.null, rest)
      | 't' :: rest => (afterWord? "rue".toList rest).map fun rest => (.bool true, rest)
      | 'f' :: rest => (afterWord? "alse".toList rest).map fun rest => (.bool false, rest)
      | rest => number rest

/-- Nesting from here on is refused. -/
def depthLimit : Nat := 128

/-- The document that a text holds, if it is well formed. -/
def parse? (text : String) : Option Json :=
  match document depthLimit text.toList with
  | some (doc, rest) => if (skipBlanks rest).isEmpty then some doc else none
  | none => none

end Conform.Json

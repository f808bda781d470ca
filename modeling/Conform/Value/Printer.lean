/-
  Conform.Value.Printer

  The printed form of a value, as the host shows it: `'a'`, `(1,)`, `{1: 2}`.
  Messages and paths use it verbatim. Texts and byte strings stand in single
  quotes unless the content has a single quote and no double one; the quote in
  use, the backslash and control characters are escaped.
-/

import Conform.Number.FloatText
import Conform.Value.Basic

namespace Conform.Text

/-! ## Quotes -/

/-- The quote for a content that has, or has not, single and double quotes. -/
def quoteFor (hasSingle hasDouble : Bool) : Char :=
  if hasSingle && !hasDouble then '"' else '\''

/-- Two lower-case hexadecimal digits. -/
def hexPair (n : Nat) : List Char := [Nat.digitChar (n / 16), Nat.digitChar (n % 16)]

/-- The control characters: the general category Cc. -/
def isControl (c : Char) : Bool := c.toNat < 0x20 || (0x7f ≤ c.toNat && c.toNat < 0xa0)

/-- The escapes with a letter of their own. -/
def escapeLetter? (c : Char) : Option Char :=
  if c == '\\' then some '\\'
  else if c == '\n' then some 'n'
  else if c == '\r' then some 'r'
  else if c == '\t' then some 't'
  else none

/-- One character inside quotes. -/
def escapeChar (quote c : Char) : List Char :=
  match escapeLetter? c with
  | some letter => ['\\', letter]
  | none =>
      if c == quote then ['\\', c]
      else if isControl c then '\\' :: 'x' :: hexPair c.toNat
      else [c]

/-- A text in quotes. -/
def quoted (cs : List Char) : List Char :=
  let quote := quoteFor (cs.contains '\'') (cs.contains '"')
  quote :: cs.flatMap (escapeChar quote) ++ [quote]

/-- One byte inside quotes: printable ASCII stands for itself. -/
def escapeByte (quote : Char) (b : UInt8) : List Char :=
  let c := Char.ofNat b.toNat
  match escapeLetter? c with
  | some letter => ['\\', letter]
  | none =>
      if c == quote then ['\\', c]
      else if 0x20 ≤ b.toNat && b.toNat ≤ 0x7e then [c]
      else '\\' :: 'x' :: hexPair b.toNat

/-- A byte string in quotes, marked with a `b`. -/
def quotedBytes (bs : List UInt8) : List Char :=
  let quote := quoteFor (bs.contains 0x27) (bs.contains 0x22)
  'b' :: quote :: bs.flatMap (escapeByte quote) ++ [quote]

end Conform.Text

namespace Conform

/-! ## Values -/

/-- The decimal text of an integer. -/
def intChars (n : Int) : List Char :=
  if n < 0 then '-' :: Nat.toDigits 10 n.natAbs else Nat.toDigits 10 n.natAbs

namespace IntRange

/-- A range shows its step unless it is one. -/
def chars (r : IntRange) : List Char :=
  let bounds := "range(".toList ++ intChars r.start.toInt ++ ", ".toList ++ intChars r.stop.toInt
  if r.step == 1 then bounds ++ [')']
  else bounds ++ ", ".toList ++ intChars r.step.toInt ++ [')']

end IntRange

namespace CallableKind

/-- The text around the name of a callable. -/
def frame : CallableKind → String × String
  | function => ("<function ", ">")
  | method => ("<bound method ", ">")
  | generator => ("<generator object ", ">")
  | builtinFunction => ("<built-in function ", ">")
  | staticMethod => ("<staticmethod(", ")>")
  | classMethod => ("<classmethod(", ")>")

end CallableKind

namespace Value

/-- The brackets around the printed members of a collection. An empty set has
    a text of its own, and a tuple of one member a trailing comma. -/
def bracketed (kind : CollectionKind) (count : Nat) (members : List Char) : List Char :=
  match kind with
  | .list => '[' :: members ++ [']']
  | .tuple => '(' :: members ++ (if count = 1 then [',', ')'] else [')'])
  | .set => if count = 0 then "set()".toList else '\x7b' :: members ++ ['\x7d']
  | .frozenSet =>
      if count = 0 then "frozenset()".toList
      else "frozenset(\x7b".toList ++ members ++ "\x7d)".toList

mutual

/-- The characters of the printed form. -/
def chars : Value → List Char
  | .none => "None".toList
  | .bool b => if b then "True".toList else "False".toList
  | .int n => intChars n.toInt
  | .float x => FloatFormat.host.chars x
  | .str s => Text.quoted s.toList
  | .binary .bytes data => Text.quotedBytes data
  | .binary .byteArray data => "bytearray(".toList ++ Text.quotedBytes data ++ [')']
  | .binary .memoryView _ => "<memory>".toList
  | .range r => r.chars
  | .collection kind items => bracketed kind items.length (joinedChars items)
  | .dict entries => '\x7b' :: entriesChars entries ++ ['\x7d']
  | .object c => '<' :: c.toList ++ " object>".toList
  | .classRef c => "<class '".toList ++ c.toList ++ "'>".toList
  | .callable kind name => kind.frame.1.toList ++ name.toList ++ kind.frame.2.toList

/-- Printed members, separated by commas. -/
def joinedChars : List Value → List Char
  | [] => []
  | [x] => x.chars
  | x :: rest => x.chars ++ ',' :: ' ' :: joinedChars rest

/-- Printed entries, separated by commas. -/
def entriesChars : List (Value × Value) → List Char
  | [] => []
  | [(k, v)] => k.chars ++ ':' :: ' ' :: v.chars
  | (k, v) :: rest => k.chars ++ ':' :: ' ' :: v.chars ++ ',' :: ' ' :: entriesChars rest

end

/-- The printed form. -/
def repr (v : Value) : String := String.ofList v.chars

end Value

end Conform

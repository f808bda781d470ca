/-
  Conform.Declaration.Token

  Splits the text of a declaration into tokens. Each token is kept with the
  byte offset at which it starts; blanks between tokens are dropped.
-/

import Conform.Number.Nearest
import Conform.Text.Alphabetic
import Conform.Text.CharClass

namespace Conform

/-- Why a text is not a declaration, and at which byte offset. -/
structure TextError where
  offset : Nat
  cause : String
deriving Repr, DecidableEq

namespace TextError

/-- The wording of an error. -/
def message (e : TextError) : String :=
  e.cause ++ " at offset " ++ String.ofList (Nat.toDigits 10 e.offset)

end TextError

/-- A token of a declaration. -/
inductive Token where
  | name (s : String)
  | str (s : String)
  | int (n : Int64)
  | float (x : Float)
  | leftBracket
  | rightBracket
  | leftParen
  | rightParen
  | comma
  | pipe
  | ellipsis
deriving BEq

/-- A token and the byte offset of its first character. -/
structure Lexeme where
  token : Token
  offset : Nat

namespace Token

/-- The number of bytes that characters take in UTF-8. -/
def byteLength (cs : List Char) : Nat := cs.foldr (fun c n => c.utf8Size + n) 0

/-! ## Names -/

/-- Whether a character may begin a name. -/
def beginsName (c : Char) : Bool := Text.isAlphabetic c || c == '_'

/-- Whether a character may stand in a dotted name. -/
def continuesName (c : Char) : Bool :=
  Text.isAlphabetic c || Text.isNumeric c || c == '_' || c == '.'

/-- The name at the front of a text: a run of name characters without the dots
    at its end. -/
def nameRun (cs : List Char) : List Char :=
  ((cs.takeWhile continuesName).reverse.dropWhile (· == '.')).reverse

/-! ## Numbers -/

/-- The value of a run of decimal digits. -/
def digitsValue (cs : List Char) : Nat :=
  cs.foldl (fun acc c => acc * 10 + (c.toNat - 48)) 0

/-- The integer that digits denote, if there are some and it fits in 64 bits. -/
def intOf? (negative : Bool) (digits : List Char) : Option Int64 :=
  let n : Int := digitsValue digits
  let n := if negative then -n else n
  if digits.isEmpty || !digits.all Char.isDigit then none
  else if Int64.minValue.toInt ≤ n ∧ n ≤ Int64.maxValue.toInt then some (Int64.ofInt n)
  else none

/-- The double that digits around a point denote, if there are some and the
    point is the only one. -/
def floatOf? (negative : Bool) (digits : List Char) : Option Float :=
  let whole := digits.takeWhile (· != '.')
  let fraction := (digits.dropWhile (· != '.')).drop 1
  if (whole ++ fraction).isEmpty || !(whole ++ fraction).all Char.isDigit then none
  else
    let x := Decimal.toFloat ⟨digitsValue (whole ++ fraction), -(fraction.length : Int)⟩
    some (if negative then -x else x)

/-- The run of characters at the front of a text that may belong to a number. -/
def numberRun (cs : List Char) : List Char :=
  let isPart (c : Char) : Bool := c.isDigit || c == '.' || c == '_'
  match cs with
  | '-' :: rest => '-' :: rest.takeWhile isPart
  | cs => cs.takeWhile isPart

/-- The number that a run denotes. Underscores do not count. -/
def ofNumberRun? (run : List Char) : Option Token :=
  let written := run.filter (· != '_')
  let (negative, digits) := match written with
    | '-' :: rest => (true, rest)
    | _ => (false, written)
  if digits.contains '.' then (floatOf? negative digits).map float
  else (intOf? negative digits).map int

/-! ## Strings -/

/-- What a character stands for after a backslash. -/
def unescape (c : Char) : Char :=
  if c == 'n' then '\n'
  else if c == 't' then '\t'
  else if c == 'r' then '\r'
  else if c == '0' then '\x00'
  else c

/-- The content of a string up to its closing quote, and the number of
    characters read, the quote included; `none` when the string does not end. -/
def stringRun (quote : Char) : List Char → Option (List Char × Nat)
  | [] => none
  | ['\\'] => none
  | '\\' :: c :: rest =>
      (stringRun quote rest).map fun (content, n) => (unescape c :: content, n + 2)
  | c :: rest =>
      if c == quote then some ([], 1)
      else (stringRun quote rest).map fun (content, n) => (c :: content, n + 1)

/-! ## Tokens -/

/-- The token of a character that is one by itself. -/
def ofSingle? (c : Char) : Option Token :=
  if c == '[' then some leftBracket
  else if c == ']' then some rightBracket
  else if c == '(' then some leftParen
  else if c == ')' then some rightParen
  else if c == ',' then some comma
  else if c == '|' then some pipe
  else none

/-- The token at the front of a text that begins with `c`, and the number of
    characters it takes beyond the first; or the reason why there is none. -/
def scan (c : Char) (rest : List Char) : Except String (Token × Nat) :=
  match ofSingle? c with
  | some t => .ok (t, 0)
  | none =>
      if c == '.' && ['.', '.'].isPrefixOf rest then .ok (ellipsis, 2)
      else if c == '\'' || c == '"' then
        match stringRun c rest with
        | some (content, n) => .ok (str (String.ofList content), n)
        | none => .error "unterminated string literal"
      else if c.isDigit || c == '-' then
        let run := numberRun (c :: rest)
        match ofNumberRun? run with
        | some t => .ok (t, run.length - 1)
        | none => .error ("invalid number `" ++ String.ofList (run.filter (· != '_')) ++ "`")
      else if beginsName c then
        let run := nameRun (c :: rest)
        .ok (name (String.ofList run), run.length - 1)
      else .error ("unexpected character `" ++ String.ofList [c] ++ "`")

/-- The tokens of a text that starts at a byte offset. -/
def tokenizeFrom (offset : Nat) : List Char → Except TextError (List Lexeme)
  | [] => .ok []
  | c :: rest =>
      if Text.isBlank c then tokenizeFrom (offset + c.utf8Size) rest
      else
        match scan c rest with
        | .error cause => .error ⟨offset, cause⟩
        | .ok (t, n) =>
            match tokenizeFrom (offset + c.utf8Size + byteLength (rest.take n)) (rest.drop n) with
            | .error e => .error e
            | .ok more => .ok (⟨t, offset⟩ :: more)
termination_by cs => cs.length
decreasing_by
  · simp
  · simp only [List.length_cons, List.length_drop]
    omega

/-- The tokens of a text. -/
def tokenize (text : String) : Except TextError (List Lexeme) := tokenizeFrom 0 text.toList

end Token

end Conform

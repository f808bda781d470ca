/-
  Conform.Pattern.Escape

  The inline flags of patterns and what they change: case, lines, blanks, which
  match is preferred, and whether classes know ASCII alone. Then the escapes:
  literals by themselves or by their code, the named classes, and assertions.
  Back references are refused.
-/

import Conform.Pattern.Tree
import Conform.Text.CaseFold
import Conform.Text.CharClass

namespace Conform.Pattern

open Text (CharRanges)

/-! ## Flags -/

/-- The inline flags, as set at one point of a pattern. -/
structure Flags where
  ignoreCase : Bool := false
  multiLine : Bool := false
  dotAll : Bool := false
  anyBreak : Bool := false
  verbose : Bool := false
  /-- Repetitions are lazy unless marked. -/
  swapGreed : Bool := false
  /-- Classes, case and word boundaries know ASCII alone. -/
  asciiOnly : Bool := false
deriving Repr, DecidableEq

namespace Flags

/-- Sets or clears the flag of one letter. -/
def set? (f : Flags) (letter : Char) (on : Bool) : Option Flags :=
  if letter == 'i' then some { f with ignoreCase := on }
  else if letter == 'm' then some { f with multiLine := on }
  else if letter == 's' then some { f with dotAll := on }
  else if letter == 'R' then some { f with anyBreak := on }
  else if letter == 'x' then some { f with verbose := on }
  else if letter == 'U' then some { f with swapGreed := on }
  else if letter == 'u' then some { f with asciiOnly := !on }
  else none

/-! ## Blanks -/

/-- The text after blanks and comments, where the flags allow them. -/
def skip (f : Flags) : List Char → List Char
  | [] => []
  | c :: rest =>
      if !f.verbose then c :: rest
      else if Text.isBlank c then f.skip rest
      else if c == '#' then skipComment rest
      else c :: rest
where
  /-- A comment ends with its line. -/
  skipComment : List Char → List Char
    | [] => []
    | c :: rest => if c == '\n' then f.skip rest else skipComment rest

/-! ## Classes -/

/-- A class closed under changes of case, where the flags ask for it. -/
def fold (f : Flags) (a : CharRanges) : CharRanges :=
  if f.ignoreCase then a.closeCase f.asciiOnly else a

/-- The complement of a class, if asked for. Where classes know ASCII alone
    there is none, since it would hold bytes that are no characters. -/
def negateIf? (f : Flags) (negated : Bool) (a : CharRanges) : Option CharRanges :=
  if !negated then some a else if f.asciiOnly then none else some a.complement

/-- What `.` matches; nothing where classes know ASCII alone. -/
def dot? (f : Flags) : Option CharRanges :=
  if f.asciiOnly then none
  else if f.dotAll then some .full
  else if f.anyBreak then some (CharRanges.mk [(10, 10), (13, 13)]).complement
  else some (CharRanges.single '\n').complement

/-- What `\d` matches. -/
def digit (f : Flags) : CharRanges :=
  if f.asciiOnly then ⟨[(48, 57)]⟩ else Text.decimalDigitRanges

/-- What `\s` matches. -/
def space (f : Flags) : CharRanges :=
  if f.asciiOnly then ⟨[(9, 13), (32, 32)]⟩ else Text.blankRanges

/-- What `\w` matches. -/
def word (f : Flags) : CharRanges :=
  if f.asciiOnly then ⟨[(48, 57), (65, 90), (95, 95), (97, 122)]⟩ else Text.wordRanges

/-- The class of a literal. -/
def literal (f : Flags) (c : Char) : CharRanges := f.fold (.single c)

/-! ## Assertions -/

/-- What `^` asserts. -/
def caret (f : Flags) : Assertion :=
  if !f.multiLine then .textStart else if f.anyBreak then .lineStartAnyBreak else .lineStart

/-- What `$` asserts. -/
def dollar (f : Flags) : Assertion :=
  if !f.multiLine then .textEnd else if f.anyBreak then .lineEndAnyBreak else .lineEnd

end Flags

/-- What an escape stands for. -/
inductive Escaped where
  | literal (c : Char)
  | cls (a : CharRanges)
  | assertion (a : Assertion)

/-! ## Codes -/

/-- The character with the given hexadecimal code. -/
def charOfHex? (digits : List Char) : Option Char :=
  if digits.isEmpty then none else do Text.charOfCode? (← Text.hexNumber? digits)

/-- The first `width` characters of a text, blanks left out where the flags
    allow them. -/
def takeDigits (f : Flags) : Nat → List Char → Option (List Char × List Char)
  | 0, cs => some ([], cs)
  | width + 1, cs =>
      match f.skip cs with
      | [] => none
      | c :: rest => (takeDigits f width rest).map fun (ds, rest) => (c :: ds, rest)

/-- A hexadecimal code of fixed width, or of any width in braces. -/
def hexEscape (f : Flags) (width : Nat) (cs : List Char) : Option (Char × List Char) := do
  match f.skip cs with
  | '\x7b' :: rest =>
      let isCode (c : Char) : Bool := c != '\x7d'
      let digits := rest.takeWhile isCode
      let digits := if f.verbose then digits.filter fun c => !Text.isBlank c else digits
      match rest.dropWhile isCode with
      | _ :: after => return (← charOfHex? digits, after)
      | [] => none
  | cs =>
      let (digits, rest) ← takeDigits f width cs
      return (← charOfHex? digits, rest)

/-! ## Boundaries -/

/-- The word boundary of a name. -/
def boundaryOf? (f : Flags) : String → Option Assertion
  | "start" => some (.wordStart f.asciiOnly)
  | "end" => some (.wordEnd f.asciiOnly)
  | "start-half" => some (.wordStartHalf f.asciiOnly)
  | "end-half" => some (.wordEndHalf f.asciiOnly)
  | _ => none

/-- Whether a character may stand in the name of a word boundary. -/
def isBoundaryChar (c : Char) : Bool := c.isAlpha || c == '-'

/-- The rest of a word boundary, which may have a name in braces. Braces that
    begin with anything but a letter or a hyphen are none, and stay. -/
def boundary (f : Flags) (cs : List Char) : Option (Assertion × List Char) :=
  match cs with
  | '\x7b' :: inner =>
      match f.skip inner with
      | [] => none
      | c :: rest =>
          if isBoundaryChar c then
            let name := String.ofList ((c :: rest).takeWhile isBoundaryChar)
            match (c :: rest).dropWhile isBoundaryChar with
            | '\x7d' :: after => (boundaryOf? f name).map (·, after)
            | _ => none
          else some (.wordBoundary f.asciiOnly, cs)
  | _ => some (.wordBoundary f.asciiOnly, cs)

/-! ## Escapes -/

/-- The characters that have a meaning of their own. -/
def isMeta (c : Char) : Bool := "\\.+*?()|[]\x7b\x7d^$#&-~".toList.contains c

/-- The characters that an escape may turn into a literal: the meta characters
    and the ASCII characters other than letters, digits and angle brackets. -/
def isEscapable (c : Char) : Bool :=
  isMeta c || (c.toNat < 128 && !c.isAlphanum && c != '<' && c != '>')

/-- A literal given by its code in one byte. Where classes know ASCII alone, a
    byte beyond ASCII is no character. -/
def byteLiteral (f : Flags) (cs : List Char) : Option (Escaped × List Char) := do
  let (c, rest) ← hexEscape f 2 cs
  if f.asciiOnly && 128 ≤ c.toNat && c.toNat < 256 then none else return (.literal c, rest)

/-- An escape, after the backslash. -/
def escape (f : Flags) (cs : List Char) : Option (Escaped × List Char) :=
  match cs with
  | [] => none
  | c :: rest =>
      let negated (a : CharRanges) := (f.negateIf? true a).map fun a => (Escaped.cls a, rest)
      if isEscapable c then some (.literal c, rest)
      else match c with
        | 'd' => some (.cls f.digit, rest)
        | 'D' => negated f.digit
        | 's' => some (.cls f.space, rest)
        | 'S' => negated f.space
        | 'w' => some (.cls f.word, rest)
        | 'W' => negated f.word
        | 'x' => byteLiteral f rest
        | 'u' => (hexEscape f 4 rest).map fun (d, rest) => (.literal d, rest)
        | 'U' => (hexEscape f 8 rest).map fun (d, rest) => (.literal d, rest)
        | 'a' => some (.literal '\x07', rest)
        | 'f' => some (.literal '\x0c', rest)
        | 't' => some (.literal '\t', rest)
        | 'n' => some (.literal '\n', rest)
        | 'r' => some (.literal '\r', rest)
        | 'v' => some (.literal '\x0b', rest)
        | 'A' => some (.assertion .textStart, rest)
        | 'z' => some (.assertion .textEnd, rest)
        | 'b' => (boundary f rest).map fun (a, rest) => (.assertion a, rest)
        | 'B' => some (.assertion (.notWordBoundary f.asciiOnly), rest)
        | '<' => some (.assertion (.wordStart f.asciiOnly), rest)
        | '>' => some (.assertion (.wordEnd f.asciiOnly), rest)
        | _ => none

end Conform.Pattern

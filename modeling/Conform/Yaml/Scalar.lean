/-
  Conform.Yaml.Scalar

  The texts of scalars: plain words, quoted texts, and blocks of lines.
-/

import Conform.Text.CharClass
import Conform.Yaml.Cursor

namespace Conform.Yaml

/-! ## Plain scalars -/

/-- The characters of a plain scalar up to a blank, a line break, or a character
    that ends it; in a flow collection a colon may not stand before another mark
    of the collection. -/
def plainWord (inFlow : Bool) : List Char → Option (List Char)
  | [] => some []
  | c :: rest =>
      if isBlank c || isBreak c then some []
      else if inFlow && c == ':' && atAny ",?[]\x7b\x7d" rest then none
      else if c == ':' && atGap rest then some []
      else if inFlow && atAny ",[]\x7b\x7d" (c :: rest) then some []
      else (plainWord inFlow rest).map (c :: ·)

/-- Reads a plain scalar from one of its words on. On a new line of a block it
    goes on only from column `indent` on. Gives the text, and whether it was
    followed by a line break. -/
def readPlain (inFlow : Bool) (indent : Nat) :
    Nat → List Char → Gap → Cursor → Option ((List Char × Bool) × Cursor)
  | 0, _, _, _ => none
  | fuel + 1, text, gap, c => do
      if c.atDocumentMark || atAny "#" c.rest then return ((text, gap.broken), c)
      let word ← plainWord inFlow c.rest
      let (text, broken) :=
        if word.isEmpty then (text, gap.broken) else (text ++ gap.text ++ word, false)
      let c := c.advance word.length
      if c.rest.isEmpty || !atGap c.rest then return ((text, broken), c)
      let (gap, c) ← Gap.read indent (c.rest.length + 1) {} c
      if !inFlow && c.column < indent then return ((text, gap.broken), c)
      readPlain inFlow indent fuel text gap c

/-- A plain scalar. -/
def plainScalar (inFlow : Bool) (indent : Nat) (c : Cursor) :
    Option ((List Char × Bool) × Cursor) :=
  readPlain inFlow indent (c.rest.length + 1) [] {} c

/-! ## Quoted scalars -/

/-- The character with a hexadecimal code of fixed width. -/
def charOfHex? (width : Nat) (cs : List Char) : Option Char :=
  if cs.length < width then none
  else do Text.charOfCode? (← Text.hexNumber? (cs.take width))

/-- The character of an escape, after the backslash, and the number of
    characters that it takes. -/
def escape? (cs : List Char) : Option (Char × Nat) :=
  match cs with
  | '0' :: _ => some ('\x00', 1)
  | 'a' :: _ => some ('\x07', 1)
  | 'b' :: _ => some ('\x08', 1)
  | 't' :: _ | '\t' :: _ => some ('\t', 1)
  | 'n' :: _ => some ('\n', 1)
  | 'v' :: _ => some ('\x0b', 1)
  | 'f' :: _ => some ('\x0c', 1)
  | 'r' :: _ => some ('\r', 1)
  | 'e' :: _ => some ('\x1b', 1)
  | ' ' :: _ => some (' ', 1)
  | '"' :: _ => some ('"', 1)
  | '/' :: _ => some ('/', 1)
  | '\\' :: _ => some ('\\', 1)
  | 'N' :: _ => some ('\x85', 1)
  | '_' :: _ => some ('\xa0', 1)
  | 'L' :: _ => some ('\u2028', 1)
  | 'P' :: _ => some ('\u2029', 1)
  | 'x' :: rest => (charOfHex? 2 rest).map (·, 3)
  | 'u' :: rest => (charOfHex? 4 rest).map (·, 5)
  | 'U' :: rest => (charOfHex? 8 rest).map (·, 9)
  | _ => none

/-- Reads a quoted scalar from any of its characters on, after its opening
    quote, and over its closing one. -/
def readQuoted (isSingle : Bool) : Nat → List Char → Cursor → Option (List Char × Cursor)
  | 0, _, _ => none
  | fuel + 1, text, c =>
      if c.atDocumentMark then none
      else match c.rest with
        | [] => none
        | '\'' :: '\'' :: _ =>
            if isSingle then readQuoted isSingle fuel (text ++ ['\'']) (c.advance 2)
            else readQuoted isSingle fuel (text ++ ['\'']) (c.advance 1)
        | x :: rest =>
            if x == (if isSingle then '\'' else '"') then some (text, c.advance 1)
            else if isBlank x || isBreak x then do
              let (gap, c) ← Gap.read 0 (c.rest.length + 1) {} c
              readQuoted isSingle fuel (text ++ gap.text) c
            else if !isSingle && x == '\\' then
              if atLineEnd rest && !rest.isEmpty then do
                let c := (c.advance 1).nextLine
                let (gap, c) ← Gap.read 0 (c.rest.length + 1) { broken := true } c
                readQuoted isSingle fuel (text ++ gap.text) c
              else do
                let (y, n) ← escape? rest
                readQuoted isSingle fuel (text ++ [y]) (c.advance (n + 1))
            else readQuoted isSingle fuel (text ++ [x]) (c.advance 1)

/-- A quoted scalar, from its opening quote on. -/
def quotedScalar (isSingle : Bool) (c : Cursor) : Option (List Char × Cursor) :=
  readQuoted isSingle c.rest.length [] (c.advance 1)

/-! ## Block scalars -/

/-- What becomes of the line breaks at the end of a block. -/
inductive Chomping where
  | strip
  | clip
  | keep
deriving Repr, DecidableEq

/-- The sign for chomping, if one comes next. -/
def chomping? : List Char → Option Chomping
  | '+' :: _ => some .keep
  | '-' :: _ => some .strip
  | _ => none

/-- The digit for the indentation, if one comes next; zero is refused. -/
def indentDigit? : List Char → Option (Option Nat)
  | c :: _ => if c == '0' then none else if c.isDigit then some (some (c.toNat - 48)) else some none
  | [] => some none

/-- The marks after the sign of a block scalar: chomping and indentation, in any
    order. -/
def blockMarks? (c : Cursor) : Option ((Chomping × Option Nat) × Cursor) := do
  match chomping? c.rest with
  | some chomp =>
      let c := c.advance 1
      match ← indentDigit? c.rest with
      | some n => return ((chomp, some n), c.advance 1)
      | none => return ((chomp, none), c)
  | none =>
      match ← indentDigit? c.rest with
      | some n =>
          let c := c.advance 1
          match chomping? c.rest with
          | some chomp => return ((chomp, some n), c.advance 1)
          | none => return ((.clip, some n), c)
      | none => return ((.clip, none), c)

/-- Reads the indentation of lines and empty lines, up to column `indent`, if
    it is known. Gives the line breaks, and the largest column met. -/
def readIndent (indent : Option Nat) :
    Nat → List Char → Nat → Cursor → Option ((List Char × Nat) × Cursor)
  | 0, _, _, _ => none
  | fuel + 1, breaks, widest, c =>
      let spaces := (c.rest.takeWhile (· == ' ')).length
      let c := c.advance (match indent with
        | some n => min spaces (n - c.column)
        | none => spaces)
      let widest := max widest c.column
      if atAny "\t" c.rest && indent.all (c.column < ·) then none
      else if !c.rest.isEmpty && atLineEnd c.rest then
        readIndent indent fuel (breaks ++ c.breakText) widest c.nextLine
      else some ((breaks, widest), c)

/-- Reads the lines of a block at column `indent`; `lineBreak` stands before the
    next line and `breaks` are those of empty lines. `afterBlank` says whether
    the line before starts with a blank. -/
def readLines (isLiteral : Bool) (indent : Nat) :
    Nat → List Char → List Char → List Char → Bool → Cursor →
      Option ((List Char × List Char × List Char) × Cursor)
  | 0, _, _, _, _, _ => none
  | fuel + 1, text, lineBreak, breaks, afterBlank, c => do
      if c.column != indent || c.rest.isEmpty then return ((text, lineBreak, breaks), c)
      let startsBlank := c.rest.head?.any isBlank
      let joint :=
        if !isLiteral && lineBreak == ['\n'] && !afterBlank && !startsBlank then
          (if breaks.isEmpty then [' '] else [])
        else lineBreak
      let line := c.rest.takeWhile (!isBreak ·)
      let text := text ++ joint ++ breaks ++ line
      let c := c.advance line.length
      let (lineBreak, c) := if c.rest.isEmpty then ([], c) else (c.breakText, c.nextLine)
      let ((breaks, _), c) ← readIndent (some indent) (c.rest.length + 1) [] 0 c
      readLines isLiteral indent fuel text lineBreak breaks startsBlank c

/-- A block scalar, from its sign on, in a block whose items stand at column
    `parent`, which is negative outside of any block. -/
def blockScalar (isLiteral : Bool) (parent : Int) (c : Cursor) : Option (List Char × Cursor) := do
  let ((chomp, increment), c) ← blockMarks? (c.advance 1)
  let c ← c.finishLine?
  let known := increment.map fun n => (max parent 0).toNat + n
  let ((breaks, widest), c) ← readIndent known (c.rest.length + 1) [] 0 c
  let indent := known.getD (max widest (max (parent + 1).toNat 1))
  let ((text, lineBreak, breaks), c) ←
    readLines isLiteral indent (c.rest.length + 1) [] [] breaks false c
  let text := if chomp == .strip then text else text ++ lineBreak
  return (if chomp == .keep then text ++ breaks else text, c)

end Conform.Yaml

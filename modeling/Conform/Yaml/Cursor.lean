/-
  Conform.Yaml.Cursor

  Places in a YAML text, and the characters that separate its tokens.
-/

namespace Conform.Yaml

/-! ## Characters -/

/-- Whether a character may stand in a YAML text. -/
def isAllowed (c : Char) : Bool :=
  c == '\t' || c == '\n' || c == '\r' || (' ' ≤ c && c ≤ '~') || c == '\x85' ||
    ('\xa0' ≤ c && c ≤ '\ufffd') || '\uffff' < c

/-- Blanks inside a line. -/
def isBlank (c : Char) : Bool := c == ' ' || c == '\t'

/-- Characters that break a line. -/
def isBreak (c : Char) : Bool :=
  c == '\n' || c == '\r' || c == '\x85' || c == '\u2028' || c == '\u2029'

/-- Characters of words such as names of anchors. -/
def isWordChar (c : Char) : Bool := c.isAlphanum || c == '_' || c == '-'

/-- Whether a blank, a line break or the end comes next. -/
def atGap : List Char → Bool
  | [] => true
  | c :: _ => isBlank c || isBreak c

/-- Whether a line break or the end comes next. -/
def atLineEnd : List Char → Bool
  | [] => true
  | c :: _ => isBreak c

/-- Whether one of some characters comes next. -/
def atAny (chars : String) : List Char → Bool
  | [] => false
  | c :: _ => chars.toList.contains c

/-- Whether a mark of three characters stands here by itself. -/
def atMark (mark : String) (cs : List Char) : Bool :=
  mark.toList.isPrefixOf cs && atGap (cs.drop 3)

/-! ## Places -/

/-- A place in a text: what follows, the number of characters before it, and
    line and column. -/
structure Cursor where
  rest : List Char
  index : Nat := 0
  line : Nat := 0
  column : Nat := 0

namespace Cursor

/-- The place `n` characters further in the same line. -/
def advance (n : Nat) (c : Cursor) : Cursor :=
  { c with rest := c.rest.drop n, index := c.index + n, column := c.column + n }

/-- The place after the characters that pass a test; none of them breaks the
    line. -/
def advanceWhile (p : Char → Bool) (c : Cursor) : Cursor :=
  c.advance (c.rest.takeWhile p).length

/-- The place after a line break. -/
def nextLine (c : Cursor) : Cursor :=
  match c.rest with
  | '\r' :: '\n' :: rest => ⟨rest, c.index + 2, c.line + 1, 0⟩
  | _ :: rest => ⟨rest, c.index + 1, c.line + 1, 0⟩
  | [] => c

/-- What a line break stands for in a scalar. -/
def breakText (c : Cursor) : List Char :=
  match c.rest with
  | '\u2028' :: _ => ['\u2028']
  | '\u2029' :: _ => ['\u2029']
  | _ => ['\n']

/-- Whether a document mark stands at the start of this line. -/
def atDocumentMark (c : Cursor) : Bool :=
  c.column == 0 && (atMark "---" c.rest || atMark "..." c.rest)

/-- The place after a comment, if there is one. -/
def skipComment (c : Cursor) : Cursor :=
  if atAny "#" c.rest then c.advanceWhile (!isBreak ·) else c

/-- The start of the next line, if only blanks and a comment are left of this
    one. -/
def finishLine? (c : Cursor) : Option Cursor :=
  let c := (c.advanceWhile isBlank).skipComment
  if !atLineEnd c.rest then none
  else if c.rest.isEmpty then some c
  else some c.nextLine

end Cursor

/-! ## Gaps -/

/-- What stands between two words of a scalar: blanks in one line, or line
    breaks. -/
structure Gap where
  blanks : List Char := []
  /-- Whether the words stand on different lines. -/
  broken : Bool := false
  firstBreak : List Char := []
  moreBreaks : List Char := []

namespace Gap

/-- The text of a gap. One line break is folded to a space, and of more than
    one the first is dropped. -/
def text (g : Gap) : List Char :=
  if !g.broken then g.blanks
  else if g.firstBreak == ['\n'] then (if g.moreBreaks.isEmpty then [' '] else g.moreBreaks)
  else g.firstBreak ++ g.moreBreaks

/-- A gap with one more line break. -/
def addBreak (g : Gap) (text : List Char) : Gap :=
  if g.broken then { g with moreBreaks := g.moreBreaks ++ text }
  else { broken := true, firstBreak := text }

/-- Reads a gap to its end. A tab on a new line before column `tabLimit` is
    refused. -/
def read (tabLimit : Nat) : Nat → Gap → Cursor → Option (Gap × Cursor)
  | 0, _, _ => none
  | fuel + 1, g, c =>
      match c.rest with
      | [] => some (g, c)
      | x :: _ =>
          if isBlank x then
            if g.broken then
              if x == '\t' && c.column < tabLimit then none
              else read tabLimit fuel g (c.advance 1)
            else read tabLimit fuel { g with blanks := g.blanks ++ [x] } (c.advance 1)
          else if isBreak x then read tabLimit fuel (g.addBreak c.breakText) c.nextLine
          else some (g, c)

end Gap

end Conform.Yaml

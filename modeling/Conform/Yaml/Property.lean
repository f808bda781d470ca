/-
  Conform.Yaml.Property

  The tokens of a YAML text, and what may stand before a node or a document:
  anchors, tags, and the directives for the version and for tag handles.
-/

import Conform.Yaml.Scalar

namespace Conform.Yaml

/-! ## Tokens -/

/-- How a scalar is written. -/
inductive Style where
  | plain
  | quoted
  | literal
  | folded
deriving Repr, DecidableEq

/-- A tag as it is written: a handle, empty where there is none, and the rest. -/
structure TagText where
  handle : String
  suffix : String
deriving Repr, DecidableEq

/-- A token. Starts and ends of blocks are given by indentation. -/
inductive Token where
  | version (major minor : Nat)
  /-- What a tag handle stands for. -/
  | tagHandle (handle lead : String)
  | documentStart
  | documentEnd
  | blockSequenceStart
  | blockMappingStart
  | blockEnd
  | flowSequenceStart
  | flowSequenceEnd
  | flowMappingStart
  | flowMappingEnd
  | blockEntry
  | flowEntry
  | key
  | value
  | alias (name : String)
  | anchor (name : String)
  | tag (t : TagText)
  | scalar (text : String) (style : Style)
deriving Repr, DecidableEq

/-! ## Anchors -/

/-- The name of an anchor or alias, after its sign. -/
def anchorName (c : Cursor) : Option (String × Cursor) :=
  let name := c.rest.takeWhile isWordChar
  let c := c.advance name.length
  if name.isEmpty || !(atGap c.rest || atAny "?:,]\x7d%@`" c.rest) then none
  else some (String.ofList name, c)

/-! ## Tags -/

/-- Characters of tags; those that end an item of a flow collection may stand in
    some tags only. -/
def isTagChar (withFlowMarks : Bool) (c : Char) : Bool :=
  isWordChar c || ";/?:@&=+$.!~*'()%".toList.contains c ||
    (withFlowMarks && ",[]".toList.contains c)

/-- An octet written as a percent sign and two digits. -/
def octet? : List Char → Option Nat
  | '%' :: a :: b :: _ => Text.hexNumber? [a, b]
  | _ => none

/-- The number of octets of a character that starts with a given one. -/
def octetCount? (n : Nat) : Option Nat :=
  if n < 0x80 then some 1
  else if 0xc0 ≤ n ∧ n < 0xe0 then some 2
  else if 0xe0 ≤ n ∧ n < 0xf0 then some 3
  else if 0xf0 ≤ n ∧ n < 0xf8 then some 4
  else none

/-- The octets after the first one of a character. -/
def moreOctets? : Nat → List Char → Option (List Nat)
  | 0, _ => some []
  | n + 1, cs => do
      let o ← octet? cs
      if 0x80 ≤ o ∧ o < 0xc0 then return o :: (← moreOctets? n (cs.drop 3)) else none

/-- A character written as octets, and the number of characters they take. -/
def octetChar? (cs : List Char) : Option (Char × Nat) := do
  let first ← octet? cs
  let count ← octetCount? first
  let more ← moreOctets? (count - 1) (cs.drop 3)
  let lead := if count == 1 then first else first % (0x80 / Nat.pow 2 count)
  return (Char.ofNat (more.foldl (fun n o => n * 0x40 + o % 0x40) lead), 3 * count)

/-- Reads the characters of a tag; `fuel` bounds their number. -/
def readTagChars (withFlowMarks : Bool) : Nat → List Char → Cursor → Option (List Char × Cursor)
  | 0, text, c => some (text, c)
  | fuel + 1, text, c =>
      match c.rest with
      | [] => some (text, c)
      | x :: _ =>
          if !isTagChar withFlowMarks x then some (text, c)
          else if x == '%' then do
            let (y, n) ← octetChar? c.rest
            readTagChars withFlowMarks fuel (text ++ [y]) (c.advance n)
          else readTagChars withFlowMarks fuel (text ++ [x]) (c.advance 1)

/-- The characters of a tag. -/
def tagChars (withFlowMarks : Bool) (c : Cursor) : Option (List Char × Cursor) :=
  readTagChars withFlowMarks c.rest.length [] c

/-- A tag handle: an exclamation mark, a word, and another exclamation mark if
    there is one. -/
def handle? (c : Cursor) : Option (List Char × Cursor) :=
  match c.rest with
  | '!' :: rest =>
      let word := rest.takeWhile isWordChar
      let closing := if atAny "!" (rest.drop word.length) then ['!'] else []
      let text := '!' :: word ++ closing
      some (text, c.advance text.length)
  | _ => none

/-- Whether a handle has both of its exclamation marks. -/
def isFullHandle (text : List Char) : Bool :=
  text.length > 1 && text.getLast? == some '!'

/-- A tag, from its exclamation mark on. -/
def tagText (inFlow : Bool) (c : Cursor) : Option (TagText × Cursor) := do
  let (tag, c) ← (do
    if atAny "<" (c.rest.drop 1) then
      let (uri, c) ← tagChars true (c.advance 2)
      if uri.isEmpty || !atAny ">" c.rest then none
      else return (TagText.mk "" (String.ofList uri), c.advance 1)
    else
      let (handle, c) ← handle? c
      let (suffix, c) ← tagChars false c
      if isFullHandle handle then
        if suffix.isEmpty then none
        else return (TagText.mk (String.ofList handle) (String.ofList suffix), c)
      else
        let suffix := handle.drop 1 ++ suffix
        if suffix.isEmpty then return (TagText.mk "" "!", c)
        else return (TagText.mk "!" (String.ofList suffix), c))
  if atGap c.rest || (inFlow && atAny "," c.rest) then return (tag, c) else none

/-! ## Directives -/

/-- A number of at most nine digits. -/
def versionNumber (c : Cursor) : Option (Nat × Cursor) :=
  let digits := c.rest.takeWhile Char.isDigit
  if digits.isEmpty || digits.length > 9 then none
  else
    some (digits.foldl (fun n d => n * 10 + (d.toNat - 48)) 0, c.advance digits.length)

/-- The version of a version directive. -/
def versionValue (c : Cursor) : Option (Token × Cursor) := do
  let (major, c) ← versionNumber c
  if !atAny "." c.rest then none
  else
    let (minor, c) ← versionNumber (c.advance 1)
    return (.version major minor, c)

/-- The handle of a tag directive and what it stands for. -/
def tagHandleValue (c : Cursor) : Option (Token × Cursor) := do
  let (handle, c) ← handle? c
  if (handle.length > 1 && !isFullHandle handle) || !c.rest.head?.any isBlank then none
  else
    let (lead, c) ← tagChars true (c.advanceWhile isBlank)
    if lead.isEmpty || !atGap c.rest then none
    else return (.tagHandle (String.ofList handle) (String.ofList lead), c)

/-- A directive, from its percent sign on, with its line. -/
def directive (c : Cursor) : Option (Token × Cursor) := do
  let c := c.advance 1
  let name := c.rest.takeWhile isWordChar
  let c := c.advance name.length
  if !atGap c.rest then none
  else
    let c := c.advanceWhile isBlank
    let (token, c) ← match String.ofList name with
      | "YAML" => versionValue c
      | "TAG" => tagHandleValue c
      | _ => none
    return (token, ← c.finishLine?)

end Conform.Yaml

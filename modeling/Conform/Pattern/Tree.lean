/-
  Conform.Pattern.Tree

  The tree of a pattern as it is written: groups, repetitions, runs of items,
  alternatives, and assertions, which are conditions on a position of a text
  given by the characters on both sides of it. The tree says how deep a pattern
  is nested.
-/

import Conform.Text.Word

namespace Conform

open Text (CharRanges)

/-! ## Assertions -/

/-- A condition on a position, given by the characters before and after it.
    Word characters are the ASCII ones alone if so asked. -/
inductive Assertion where
  | textStart
  | textEnd
  | lineStart
  | lineEnd
  /-- Line ends where `\r\n` counts as one line break, and `\r` alone as one. -/
  | lineStartAnyBreak
  | lineEndAnyBreak
  | wordBoundary (asciiOnly : Bool)
  | notWordBoundary (asciiOnly : Bool)
  | wordStart (asciiOnly : Bool)
  | wordEnd (asciiOnly : Bool)
  /-- No word character before. -/
  | wordStartHalf (asciiOnly : Bool)
  /-- No word character after. -/
  | wordEndHalf (asciiOnly : Bool)
deriving Repr, DecidableEq

namespace Assertion

/-- Whether there is a word character on one side of a position. -/
def isWordSide (asciiOnly : Bool) (side : Option Char) : Bool :=
  side.any (if asciiOnly then Text.isAsciiWordChar else Text.isWordChar)

/-- Whether the assertion holds between two neighbours. -/
def holds (a : Assertion) (before after : Option Char) : Bool :=
  match a with
  | textStart => before.isNone
  | textEnd => after.isNone
  | lineStart => before.isNone || before == some '\n'
  | lineEnd => after.isNone || after == some '\n'
  | lineStartAnyBreak =>
      before.isNone || before == some '\n' || (before == some '\r' && after != some '\n')
  | lineEndAnyBreak =>
      after.isNone || after == some '\r' || (after == some '\n' && before != some '\r')
  | wordBoundary asciiOnly => isWordSide asciiOnly before != isWordSide asciiOnly after
  | notWordBoundary asciiOnly => isWordSide asciiOnly before == isWordSide asciiOnly after
  | wordStart asciiOnly => !isWordSide asciiOnly before && isWordSide asciiOnly after
  | wordEnd asciiOnly => isWordSide asciiOnly before && !isWordSide asciiOnly after
  | wordStartHalf asciiOnly => !isWordSide asciiOnly before
  | wordEndHalf asciiOnly => !isWordSide asciiOnly after

end Assertion

/-! ## Trees -/

/-- A pattern as it is written. -/
inductive PatternTree where
  | empty
  /-- A setting of flags, which matches the empty text. -/
  | setting
  /-- A character or a class; `nesting` counts the levels inside its
      brackets. -/
  | cls (a : CharRanges) (nesting : Nat)
  | assertion (a : Assertion)
  /-- A group, numbered if it captures what it matches. -/
  | group (index : Option Nat) (p : PatternTree)
  /-- At least `least` and at most `most` times. -/
  | rep (p : PatternTree) (least : Nat) (most : Option Nat) (greedy : Bool)
  /-- Two or more items after one another. -/
  | seq (ps : List PatternTree)
  /-- Two or more alternatives. -/
  | alt (ps : List PatternTree)

namespace PatternTree

mutual
/-- How deep a pattern is nested. -/
def depth : PatternTree → Nat
  | empty | setting | assertion _ => 0
  | cls _ nesting => nesting
  | group _ p => p.depth + 1
  | rep p _ _ _ => p.depth + 1
  | seq ps => depths ps + 1
  | alt ps => depths ps + 1

/-- How deep the deepest of some patterns is nested. -/
def depths : List PatternTree → Nat
  | [] => 0
  | p :: ps => max p.depth (depths ps)
end

/-- The deepest nesting of a valid pattern. -/
def depthLimit : Nat := 250

end PatternTree

end Conform

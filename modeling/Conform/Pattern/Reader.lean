/-
  Conform.Pattern.Reader

  Reads the text of a pattern: literals, `.`, classes, alternatives, groups,
  inline flags, repetitions, anchors, word boundaries and escapes. Look-around,
  back references and classes by Unicode property are refused.
-/

import Conform.Pattern.Bracket
import Conform.Pattern.Tree
import Conform.Text.Alphabetic
import Conform.Text.CharClass

namespace Conform.Pattern

/-! ## Repetitions -/

/-- Decimal digits, with blanks between them where the flags allow it. -/
def digitRun (f : Flags) : List Char → List Char × List Char
  | [] => ([], [])
  | c :: rest =>
      if c.isDigit then
        let (digits, rest) := digitRun f rest
        (c :: digits, rest)
      else if f.verbose && Text.isBlank c then digitRun f rest
      else ([], c :: rest)

/-- A decimal count of at most 32 bits, with blanks around it. -/
def count (f : Flags) (cs : List Char) : Option (Nat × List Char) :=
  let (digits, rest) := digitRun f (cs.dropWhile Text.isBlank)
  let n := digits.foldl (fun acc c => acc * 10 + (c.toNat - 48)) 0
  if digits.isEmpty || n > 0xffffffff then none
  else some (n, f.skip (rest.dropWhile Text.isBlank))

/-- The bounds in braces, after the opening one. -/
def bounds (f : Flags) (cs : List Char) : Option ((Nat × Option Nat) × List Char) := do
  let (least, rest) ← count f (f.skip cs)
  match rest with
  | '\x7d' :: rest => return ((least, some least), rest)
  | ',' :: rest =>
      match f.skip rest with
      | '\x7d' :: rest => return ((least, none), rest)
      | rest =>
          let (most, rest) ← count f rest
          match rest with
          | '\x7d' :: rest => if least ≤ most then return ((least, some most), rest) else none
          | _ => none
  | _ => none

/-- Whether a mark that makes a repetition lazy comes next, and what follows. -/
def lazyMark (cs : List Char) : Bool × List Char :=
  match cs with
  | '?' :: rest => (true, rest)
  | _ => (false, cs)

/-! ## Groups -/

/-- Flags up to the closing parenthesis or the colon; the letters met so far
    may not come again, and a minus sign needs a letter after it. -/
def flagItems (f : Flags) : List Char → List Char → Bool → Bool → Option (Flags × List Char)
  | [], _, _, _ => none
  | c :: rest, seen, negated, dangling =>
      if c == ')' || c == ':' then (if dangling then none else some (f, c :: rest))
      else if c == '-' then (if negated then none else flagItems f rest seen true true)
      else if seen.contains c then none
      else do
        let f ← f.set? c (!negated)
        flagItems f rest (c :: seen) negated false

/-- Whether a character may stand in a group name, at the start or later. -/
def isNameChar (atStart : Bool) (c : Char) : Bool :=
  c == '_' || Text.isAlphabetic c ||
    (!atStart && (Text.isNumeric c || c == '.' || c == '[' || c == ']'))

/-- A group name up to its closing angle bracket. -/
def groupName (cs : List Char) : Option (String × List Char) :=
  let name := cs.takeWhile (· != '>')
  match name, cs.dropWhile (· != '>') with
  | c :: more, _ :: rest =>
      if isNameChar true c && more.all (isNameChar false) then some (String.ofList name, rest)
      else none
  | _, _ => none

/-- What follows an opening parenthesis. -/
inductive Opening where
  /-- Flags for the rest of the enclosing group. -/
  | setting (f : Flags)
  /-- A group that captures nothing, with its flags. -/
  | plain (f : Flags)
  /-- A group that captures what it matches, with its name, if it has one. -/
  | capture (name : Option String)

/-- Reads what follows an opening parenthesis. -/
def opening (f : Flags) (cs : List Char) : Option (Opening × List Char) :=
  match f.skip cs with
  | '?' :: '=' :: _ | '?' :: '!' :: _ | '?' :: '<' :: '=' :: _ | '?' :: '<' :: '!' :: _ => none
  | '?' :: 'P' :: '<' :: rest | '?' :: '<' :: rest =>
      (groupName rest).map fun (name, rest) => (.capture (some name), rest)
  | '?' :: ')' :: _ => none
  | '?' :: rest =>
      match flagItems f rest [] false false with
      | some (g, ')' :: rest) => some (.setting g, rest)
      | some (g, _ :: rest) => some (.plain g, rest)
      | _ => none
  | rest => some (.capture none, rest)

/-! ## Patterns -/

/-- The capturing groups opened so far. -/
structure Captures where
  count : Nat := 0
  names : List String := []

namespace Captures

/-- Opens a group; a name may not come twice. -/
def open? (s : Captures) (name : Option String) : Option (Nat × Captures) :=
  if name.any s.names.contains then none
  else some (s.count + 1, ⟨s.count + 1, name.toList ++ s.names⟩)

end Captures

/-- A group under construction. -/
structure Draft where
  flags : Flags
  /-- Finished alternatives, the last one first. -/
  done : List PatternTree := []
  /-- Items of the current alternative, the last one first. -/
  current : List PatternTree := []

namespace Draft

/-- The items of the current alternative as one pattern. -/
def run (d : Draft) : PatternTree :=
  match d.current with
  | [] => .empty
  | [p] => p
  | ps => .seq ps.reverse

/-- The pattern of the group. -/
def close (d : Draft) : PatternTree :=
  match d.done with
  | [] => d.run
  | ps => .alt (d.run :: ps).reverse

/-- Adds an item. -/
def push (d : Draft) (p : PatternTree) : Draft := { d with current := p :: d.current }

/-- Adds what an escape stands for. -/
def pushEscaped (d : Draft) : Escaped → Draft
  | .literal c => d.push (.cls (d.flags.literal c) 0)
  | .cls a => d.push (.cls a 0)
  | .assertion a => d.push (.assertion a)

/-- Ends the current alternative. -/
def alternate (d : Draft) : Draft := { d with done := d.run :: d.done, current := [] }

/-- Repeats the last item; fails when there is none, or only a setting. -/
def repeatLast? (d : Draft) (least : Nat) (most : Option Nat) (isLazy : Bool) : Option Draft :=
  match d.current with
  | [] | .setting :: _ => none
  | p :: rest =>
      some { d with current := .rep p least most (isLazy == d.flags.swapGreed) :: rest }

end Draft

/-- Reads a group up to its closing parenthesis or the end of the text; one
    step per item. -/
def body : Nat → Draft → Captures → List Char → Option (PatternTree × Captures × List Char)
  | 0, _, _, _ => none
  | fuel + 1, d, captures, cs =>
      match d.flags.skip cs with
      | [] => some (d.close, captures, [])
      | ')' :: rest => some (d.close, captures, ')' :: rest)
      | '|' :: rest => body fuel d.alternate captures rest
      | '(' :: rest => do
          let (opened, rest) ← opening d.flags rest
          match opened with
          | .setting f => body fuel { d.push .setting with flags := f } captures rest
          | .plain f =>
              let (p, captures, rest) ← body fuel { flags := f } captures rest
              match rest with
              | ')' :: rest => body fuel (d.push (.group none p)) captures rest
              | _ => none
          | .capture name =>
              let (index, captures) ← captures.open? name
              let (p, captures, rest) ← body fuel { flags := d.flags } captures rest
              match rest with
              | ')' :: rest => body fuel (d.push (.group (some index) p)) captures rest
              | _ => none
      | '[' :: rest => do
          let (a, rest) ← bracketed d.flags rest
          body fuel (d.push (.cls a.cls a.depth)) captures rest
      | '?' :: rest => do
          let (isLazy, rest) := lazyMark rest
          body fuel (← d.repeatLast? 0 (some 1) isLazy) captures rest
      | '*' :: rest => do
          let (isLazy, rest) := lazyMark rest
          body fuel (← d.repeatLast? 0 none isLazy) captures rest
      | '+' :: rest => do
          let (isLazy, rest) := lazyMark rest
          body fuel (← d.repeatLast? 1 none isLazy) captures rest
      | '\x7b' :: rest => do
          let ((least, most), rest) ← bounds d.flags rest
          let (isLazy, rest) := lazyMark (d.flags.skip rest)
          body fuel (← d.repeatLast? least most isLazy) captures rest
      | '\\' :: rest => do
          let (e, rest) ← escape d.flags rest
          body fuel (d.pushEscaped e) captures rest
      | '.' :: rest => do body fuel (d.push (.cls (← d.flags.dot?) 0)) captures rest
      | '^' :: rest => body fuel (d.push (.assertion d.flags.caret)) captures rest
      | '$' :: rest => body fuel (d.push (.assertion d.flags.dollar)) captures rest
      | c :: rest => body fuel (d.pushEscaped (.literal c)) captures rest

/-- The tree of a pattern text, if it is well formed and not nested too deep. -/
def readTree? (text : String) : Option PatternTree :=
  match body (text.length + 1) { flags := {} } {} text.toList with
  | some (p, _, []) => if p.depth ≤ PatternTree.depthLimit then some p else none
  | _ => none

end Conform.Pattern

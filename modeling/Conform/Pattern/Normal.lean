/-
  Conform.Pattern.Normal

  The normal form of a pattern: neighbouring literals run together, runs and
  alternatives are flat, alternatives that are single characters or classes
  form one class, and a run that all alternatives begin with stands before
  them. The size of the automata of a pattern is that of its normal form.

  Lengths are counted in the bytes of UTF-8. A range of code points is a list of
  sequences of byte ranges; a sequence stands for all byte strings that take one
  byte from each range.
-/

import Conform.Pattern.Tree

namespace Conform.Text.Utf8

/-! ## Bytes -/

/-- The bytes of a code point. -/
def encode (n : Nat) : List Nat :=
  if n < 0x80 then [n]
  else if n < 0x800 then [0xc0 + n / 0x40, 0x80 + n % 0x40]
  else if n < 0x10000 then [0xe0 + n / 0x1000, 0x80 + n / 0x40 % 0x40, 0x80 + n % 0x40]
  else
    [0xf0 + n / 0x40000, 0x80 + n / 0x1000 % 0x40, 0x80 + n / 0x40 % 0x40, 0x80 + n % 0x40]

/-- The number of bytes of a code point. -/
def width (n : Nat) : Nat := (encode n).length

/-- The last code points of one, two and three bytes. -/
def widthEnds : List Nat := [0x7f, 0x7ff, 0xffff]

/-- The numbers of code points that differ in the last one, two and three
    continuation bytes only. -/
def blocks : List Nat := [0x40, 0x1000, 0x40000]

/-- Where a range of code points has to be cut, given by the last code point of
    the first part: where the number of bytes changes, or else where a
    continuation byte does not run through all of its values. -/
def cut? (low high : Nat) : Option Nat :=
  match widthEnds.find? fun m => low ≤ m && m < high with
  | some m => some m
  | none =>
      if high < 0x80 then none
      else blocks.findSome? fun b =>
        if low / b == high / b then none
        else if low % b != 0 then some (low - low % b + (b - 1))
        else if high % b != b - 1 then some (high - high % b - 1)
        else none

/-- The byte ranges of a range of code points without surrogates, in increasing
    order. -/
def splitRange (low high : Nat) : List (List (Nat × Nat)) :=
  match cut? low high with
  | some m =>
      if _h : low ≤ m ∧ m < high then splitRange low m ++ splitRange (m + 1) high
      else [(encode low).zip (encode high)]
  | none => [(encode low).zip (encode high)]
termination_by high - low

/-- The byte ranges of a range of code points, the surrogates left out. -/
def byteRanges (low high : Nat) : List (List (Nat × Nat)) :=
  if low < 0xe000 ∧ 0xd7ff < high then splitRange low 0xd7ff ++ splitRange 0xe000 high
  else splitRange low high

end Conform.Text.Utf8

namespace Conform

open Text (CharRanges)

/-! ## Normal forms -/

/-- A pattern in normal form. -/
inductive NormalPattern where
  | empty
  /-- The characters with the given codes, one after another. -/
  | literal (codes : List Nat)
  | cls (r : CharRanges)
  | assertion (a : Assertion)
  /-- What the group with the given number captures. -/
  | capture (index : Nat) (p : NormalPattern)
  | rep (p : NormalPattern) (least : Nat) (most : Option Nat) (greedy : Bool)
  | seq (ps : List NormalPattern)
  | alt (ps : List NormalPattern)

namespace NormalPattern

/-! ## Equality -/

mutual
/-- Whether two patterns are the same. -/
def same : NormalPattern → NormalPattern → Bool
  | empty, empty => true
  | literal a, literal b => a == b
  | cls a, cls b => a == b
  | assertion a, assertion b => a == b
  | capture i p, capture j q => i == j && p.same q
  | rep p l m g, rep q l' m' g' => l == l' && m == m' && g == g' && p.same q
  | seq ps, seq qs => sames ps qs
  | alt ps, alt qs => sames ps qs
  | _, _ => false

/-- Whether two lists of patterns are the same. -/
def sames : List NormalPattern → List NormalPattern → Bool
  | [], [] => true
  | p :: ps, q :: qs => p.same q && sames ps qs
  | _, _ => false
end

/-! ## Lengths -/

/-- The least of some lengths, none if one of them is missing. -/
def least? : List (Option Nat) → Option Nat
  | [] => none
  | [n] => n
  | n :: ns => do return min (← n) (← least? ns)

/-- The greatest of some lengths, none if one of them is missing. -/
def greatest? : List (Option Nat) → Option Nat
  | [] => none
  | [n] => n
  | n :: ns => do return max (← n) (← greatest? ns)

/-- The sum of some lengths, none if one of them is missing. -/
def sum? : List (Option Nat) → Option Nat
  | [] => some 0
  | n :: ns => do return (← n) + (← sum? ns)

mutual
/-- The number of bytes of the shortest match; none if nothing matches. -/
def shortest : NormalPattern → Option Nat
  | empty | assertion _ => some 0
  | literal codes => some (codes.foldr (fun n k => Text.Utf8.width n + k) 0)
  | cls r => r.ranges.head?.map fun (low, _) => Text.Utf8.width low
  | capture _ p => p.shortest
  | rep p least _ _ => p.shortest.map (· * least)
  | seq ps => sum? (shortests ps)
  | alt ps => least? (shortests ps)

/-- The lengths of the shortest matches. -/
def shortests : List NormalPattern → List (Option Nat)
  | [] => []
  | p :: ps => p.shortest :: shortests ps
end

mutual
/-- The number of bytes of the longest match; none if there is none. -/
def longest : NormalPattern → Option Nat
  | empty | assertion _ => some 0
  | literal codes => some (codes.foldr (fun n k => Text.Utf8.width n + k) 0)
  | cls r => r.ranges.getLast?.map fun (_, high) => Text.Utf8.width high
  | capture _ p => p.longest
  | rep p _ most _ => do return (← most) * (← p.longest)
  | seq ps => sum? (longests ps)
  | alt ps => greatest? (longests ps)

/-- The lengths of the longest matches. -/
def longests : List NormalPattern → List (Option Nat)
  | [] => []
  | p :: ps => p.longest :: longests ps
end

/-- Whether all matches are empty. -/
def isEmptyOnly (p : NormalPattern) : Bool := p.longest == some 0

/-! ## Anchors -/

/-- Whether one of some tests succeeds before the first item that may match
    more than the empty text, or on that item. -/
def holdsAtEdge : List (Bool × Bool) → Bool
  | [] => false
  | (holds, emptyOnly) :: rest => holds || (emptyOnly && holdsAtEdge rest)

mutual
/-- Whether every match starts, or ends, with an assertion. -/
def isAnchored (a : Assertion) (atEnd : Bool) : NormalPattern → Bool
  | empty | literal _ | cls _ => false
  | assertion b => a == b
  | capture _ p => p.isAnchored a atEnd
  | rep p least _ _ => least > 0 && p.isAnchored a atEnd
  | seq ps =>
      let tests := anchorTests a atEnd ps
      holdsAtEdge (if atEnd then tests.reverse else tests)
  | alt ps => (anchorTests a atEnd ps).all (·.1)

/-- For each of some patterns, whether it is anchored and whether all of its
    matches are empty. -/
def anchorTests (a : Assertion) (atEnd : Bool) : List NormalPattern → List (Bool × Bool)
  | [] => []
  | p :: ps => (p.isAnchored a atEnd, p.isEmptyOnly) :: anchorTests a atEnd ps
end

/-! ## Construction -/

/-- The class of a set; of one character, its literal. -/
def ofRanges (r : CharRanges) : NormalPattern :=
  match r.only? with
  | some n => literal [n]
  | none => cls r

/-- A pattern repeated. Where only the empty text can match, once is enough. -/
def repetition (p : NormalPattern) (least : Nat) (most : Option Nat) (greedy : Bool) :
    NormalPattern :=
  let (least, most) :=
    if p.isEmptyOnly then (min least 1, some (min (most.getD 1) 1)) else (least, most)
  if least == 0 && most == some 0 then empty
  else if least == 1 && most == some 1 then p
  else rep p least most greedy

/-- The items of a pattern that stands in a run. -/
def items : NormalPattern → List NormalPattern
  | empty => []
  | seq ps => ps
  | p => [p]

/-- Puts an item in front of a run. -/
def consItem (p : NormalPattern) (ps : List NormalPattern) : List NormalPattern :=
  match p, ps with
  | literal a, literal b :: rest => literal (a ++ b) :: rest
  | p, ps => p :: ps

/-- Patterns after one another. -/
def sequence (ps : List NormalPattern) : NormalPattern :=
  match (ps.flatMap items).foldr consItem [] with
  | [] => empty
  | [p] => p
  | ps => seq ps

/-- The alternatives of a pattern that stands among alternatives. -/
def branches : NormalPattern → List NormalPattern
  | alt ps => ps
  | p => [p]

/-- The code of a pattern that is a single character. -/
def singleCode? : NormalPattern → Option Nat
  | literal [n] => some n
  | _ => none

/-- The set of a pattern that is a class. -/
def classRanges? : NormalPattern → Option CharRanges
  | cls r => some r
  | _ => none

/-- Alternatives as one pattern, where there are none, is one, or all are single
    characters or all classes. -/
def merged? (ps : List NormalPattern) : Option NormalPattern :=
  match ps with
  | [] => some (cls .empty)
  | [p] => some p
  | ps =>
      match ps.mapM singleCode?, ps.mapM classRanges? with
      | some codes, _ => some (ofRanges (.ofCodes codes))
      | none, some rs => some (ofRanges (rs.foldl CharRanges.union .empty))
      | none, none => none

/-- Alternatives, as they stand. -/
def plainChoice (ps : List NormalPattern) : NormalPattern :=
  let ps := ps.flatMap branches
  (merged? ps).getD (alt ps)

/-- The items of a pattern that is a run. -/
def runItems? : NormalPattern → Option (List NormalPattern)
  | seq ps => some ps
  | _ => none

/-- The items that two runs begin with. -/
def commonFront : List NormalPattern → List NormalPattern → List NormalPattern
  | p :: ps, q :: qs => if p.same q then p :: commonFront ps qs else []
  | _, _ => []

/-- Alternatives, with the run that all of them begin with before them. -/
def choice (ps : List NormalPattern) : NormalPattern :=
  let ps := ps.flatMap branches
  match merged? ps with
  | some p => p
  | none =>
      match ps.mapM runItems? with
      | some (run :: runs) =>
          match runs.foldl commonFront run with
          | [] => alt ps
          | front =>
              let rests := (run :: runs).map fun items => sequence (items.drop front.length)
              sequence (front ++ [plainChoice rests])
      | _ => alt ps

end NormalPattern

namespace PatternTree

mutual
/-- The normal form of a pattern. -/
def normalize : PatternTree → NormalPattern
  | empty | setting => .empty
  | cls a _ => .ofRanges a
  | assertion a => .assertion a
  | group (some index) p => .capture index p.normalize
  | group none p => p.normalize
  | rep p least most greedy => .repetition p.normalize least most greedy
  | seq ps => .sequence (normalizeAll ps)
  | alt ps => .choice (normalizeAll ps)

/-- The normal forms of some patterns. -/
def normalizeAll : List PatternTree → List NormalPattern
  | [] => []
  | p :: ps => p.normalize :: normalizeAll ps
end

end PatternTree

end Conform

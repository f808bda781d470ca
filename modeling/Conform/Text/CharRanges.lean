/-
  Conform.Text.CharRanges

  Sets of characters given as closed ranges of code points, with the Boolean
  operations on them. The ranges of a set stand in increasing order and do not
  touch, so two sets with the same ranges are the same set. The surrogate code
  points are no characters: the character after U+D7FF is U+E000.
-/

namespace Conform.Text

/-- Closed ranges of code points, in increasing order. -/
structure CharRanges where
  ranges : List (Nat × Nat)
deriving Repr, DecidableEq

namespace CharRanges

/-- The last code point. -/
def lastCode : Nat := 0x10ffff

/-- The last character before the surrogates. -/
def lastBeforeGap : Nat := 0xd7ff

/-- The first character after the surrogates. -/
def firstAfterGap : Nat := 0xe000

/-- Whether a character lies in one of the ranges. -/
def contains (r : CharRanges) (c : Char) : Bool :=
  r.ranges.any fun (low, high) => low ≤ c.toNat && c.toNat ≤ high

/-- The set without members. -/
def empty : CharRanges := ⟨[]⟩

/-- The set of all characters. -/
def full : CharRanges := ⟨[(0, lastCode)]⟩

/-- The set of one character. -/
def single (c : Char) : CharRanges := ⟨[(c.toNat, c.toNat)]⟩

/-- The set of the characters from `a` to `b`. -/
def range (a b : Char) : CharRanges := ⟨[(a.toNat, b.toNat)]⟩

/-- The code point of the next character. -/
def next (n : Nat) : Nat := if n == lastBeforeGap then firstAfterGap else n + 1

/-- The code point of the previous character. -/
def previous (n : Nat) : Nat := if n == firstAfterGap then lastBeforeGap else n - 1

/-! ## Union -/

/-- The ranges of two lists, ordered by where they start. -/
def merge : List (Nat × Nat) → List (Nat × Nat) → List (Nat × Nat)
  | [], bs => bs
  | as, [] => as
  | a :: as, b :: bs =>
      if a.1 ≤ b.1 then a :: merge as (b :: bs) else b :: merge (a :: as) bs
termination_by as bs => as.length + bs.length

/-- Joins ranges that overlap or touch, `current` standing before the rest. -/
def joinFrom (current : Nat × Nat) : List (Nat × Nat) → List (Nat × Nat)
  | [] => [current]
  | r :: rs =>
      if r.1 ≤ current.2 + 1 then joinFrom (current.1, max current.2 r.2) rs
      else current :: joinFrom r rs

/-- Joins ranges that overlap or touch. -/
def join : List (Nat × Nat) → List (Nat × Nat)
  | [] => []
  | r :: rs => joinFrom r rs

/-- The set of the ranges of a list, in any order. -/
def ofList (rs : List (Nat × Nat)) : CharRanges :=
  ⟨join (rs.mergeSort fun a b => decide (a.1 ≤ b.1))⟩

/-- The characters of either set. -/
def union (a b : CharRanges) : CharRanges := ⟨join (merge a.ranges b.ranges)⟩

/-! ## Intersection and difference -/

/-- The common parts of two lists of ranges. -/
def common : List (Nat × Nat) → List (Nat × Nat) → List (Nat × Nat)
  | [], _ => []
  | _, [] => []
  | a :: as, b :: bs =>
      let low := max a.1 b.1
      let high := min a.2 b.2
      let rest := if a.2 < b.2 then common as (b :: bs) else common (a :: as) bs
      if low ≤ high then (low, high) :: rest else rest
termination_by as bs => as.length + bs.length

/-- The characters of both sets. -/
def inter (a b : CharRanges) : CharRanges := ⟨common a.ranges b.ranges⟩

/-- What is left of a list of ranges without those of another. -/
def without : List (Nat × Nat) → List (Nat × Nat) → List (Nat × Nat)
  | [], _ => []
  | as, [] => as
  | a :: as, b :: bs =>
      if b.2 < a.1 then without (a :: as) bs
      else if a.2 < b.1 then a :: without as (b :: bs)
      else
        let rest :=
          if b.2 < a.2 then without ((next b.2, a.2) :: as) bs else without as (b :: bs)
        if a.1 < b.1 then (a.1, previous b.1) :: rest else rest
termination_by as bs => as.length + bs.length

/-- The characters of the first set that are not in the second. -/
def diff (a b : CharRanges) : CharRanges := ⟨without a.ranges b.ranges⟩

/-- The characters of exactly one of the sets. -/
def symmDiff (a b : CharRanges) : CharRanges := (a.union b).diff (a.inter b)

/-! ## Complement -/

/-- The range from one end to the other, whichever is lower. -/
def between (a b : Nat) : Nat × Nat := (min a b, max a b)

/-- The ranges between those of a list, the last of them ending at `high`. -/
def gapsFrom (high : Nat) : List (Nat × Nat) → List (Nat × Nat)
  | [] => if high < lastCode then [(next high, lastCode)] else []
  | r :: rs => between (next high) (previous r.1) :: gapsFrom r.2 rs

/-- The characters outside a set, given by the ranges between its ranges. Two
    ranges that face each other across the surrogates have no character
    between them, and the two characters at their ends stand in for one. -/
def complement (a : CharRanges) : CharRanges :=
  match a.ranges with
  | [] => full
  | r :: rs =>
      let before := if 0 < r.1 then [(0, previous r.1)] else []
      ⟨before ++ gapsFrom r.2 rs⟩

/-! ## Members -/

/-- The code points of a set, in increasing order. -/
def codes (a : CharRanges) : List Nat :=
  a.ranges.flatMap fun (low, high) => (List.range (high + 1 - low)).map (low + ·)

/-- The set of the code points of a list, in any order. -/
def ofCodes (codes : List Nat) : CharRanges := ofList (codes.map fun n => (n, n))

/-- The only character of a set, if there is just one. -/
def only? (a : CharRanges) : Option Nat :=
  match a.ranges with
  | [(low, high)] => if low == high then some low else none
  | _ => none

/-- The ASCII letters. -/
def asciiLetters : CharRanges := ⟨[(65, 90), (97, 122)]⟩

/-- Whether all characters of a set are ASCII. -/
def isAscii (a : CharRanges) : Bool := a.ranges.all fun r => r.2 < 128

end CharRanges

end Conform.Text

/-
  Conform.Pattern.Bracket

  Bracketed classes: characters, ranges, named classes and nested brackets, and
  the operations between them, which associate to the left.
-/

import Conform.Pattern.Escape

namespace Conform.Pattern

open Text (CharRanges)

/-! ## Drafts -/

/-- A class and how deep it is nested. -/
structure NestedClass where
  cls : CharRanges
  depth : Nat

/-- The operations between the parts of a bracketed class. -/
inductive ClassOp where
  | inter
  | diff
  | symmDiff

namespace ClassOp

/-- The class of two parts. -/
def apply : ClassOp → CharRanges → CharRanges → CharRanges
  | inter, a, b => a.inter b
  | diff, a, b => a.diff b
  | symmDiff, a, b => a.symmDiff b

end ClassOp

/-- A bracketed class under construction: the finished left side with its
    operation, and the items read since. -/
structure ClassDraft where
  left : Option (NestedClass × ClassOp) := none
  current : CharRanges := .empty
  items : Nat := 0
  /-- The depth of the deepest item. -/
  deepest : Nat := 0

namespace ClassDraft

/-- Adds an item to the union. -/
def add (d : ClassDraft) (a : CharRanges) (depth : Nat) : ClassDraft :=
  { d with current := d.current.union a, items := d.items + 1, deepest := max d.deepest depth }

/-- The union of the items; two or more of them are one level deeper. -/
def union (d : ClassDraft) : NestedClass :=
  ⟨d.current, if d.items ≤ 1 then d.deepest else d.deepest + 1⟩

/-- The class of a draft, closed under changes of case where the flags ask for
    it. Operations are between closed classes, and what they give is closed. -/
def close (f : Flags) (d : ClassDraft) : NestedClass :=
  let b := d.union
  match d.left with
  | none => ⟨f.fold b.cls, b.depth⟩
  | some (a, op) => ⟨op.apply a.cls (f.fold b.cls), max a.depth b.depth + 1⟩

/-- Starts the right side of an operation. -/
def operate (f : Flags) (d : ClassDraft) (op : ClassOp) : ClassDraft :=
  { left := some (d.close f, op) }

end ClassDraft

/-! ## Items -/

/-- The classes that have a name. -/
def ofAsciiName? : String → Option CharRanges
  | "alnum" => some ⟨[(48, 57), (65, 90), (97, 122)]⟩
  | "alpha" => some ⟨[(65, 90), (97, 122)]⟩
  | "ascii" => some ⟨[(0, 127)]⟩
  | "blank" => some ⟨[(9, 9), (32, 32)]⟩
  | "cntrl" => some ⟨[(0, 31), (127, 127)]⟩
  | "digit" => some ⟨[(48, 57)]⟩
  | "graph" => some ⟨[(33, 126)]⟩
  | "lower" => some ⟨[(97, 122)]⟩
  | "print" => some ⟨[(32, 126)]⟩
  | "punct" => some ⟨[(33, 47), (58, 64), (91, 96), (123, 126)]⟩
  | "space" => some ⟨[(9, 13), (32, 32)]⟩
  | "upper" => some ⟨[(65, 90)]⟩
  | "word" => some ⟨[(48, 57), (65, 90), (95, 95), (97, 122)]⟩
  | "xdigit" => some ⟨[(48, 57), (65, 70), (97, 102)]⟩
  | _ => none

/-- A named class such as `[:alpha:]`, after the opening bracket. -/
def asciiClass? (cs : List Char) : Option ((Bool × CharRanges) × List Char) :=
  match cs with
  | ':' :: rest =>
      let (negated, rest) := match rest with
        | '^' :: rest => (true, rest)
        | _ => (false, rest)
      match rest.dropWhile (· != ':') with
      | ':' :: ']' :: after =>
          (ofAsciiName? (String.ofList (rest.takeWhile (· != ':')))).map
            fun a => ((negated, a), after)
      | _ => none
  | _ => none

/-- One character or class escape inside brackets. -/
def classItem (f : Flags) (cs : List Char) : Option (Escaped × List Char) :=
  match cs with
  | [] => none
  | '\\' :: rest => escape f rest
  | c :: rest => some (.literal c, rest)

/-- Whether a character may stand in a bracketed class. -/
def allowsMember (f : Flags) (c : Char) : Bool := !f.asciiOnly || c.toNat < 128

/-- Whether a hyphen that makes a range follows: one that does not stand before
    the end of the class or before another hyphen. -/
def rangeFollows (f : Flags) (cs : List Char) : Bool :=
  match cs with
  | '-' :: after =>
      match f.skip after with
      | ']' :: _ | '-' :: _ => false
      | _ => true
  | _ => false

/-- One item inside brackets: a class escape, a character or a range. -/
def classRange (f : Flags) (cs : List Char) : Option (CharRanges × List Char) := do
  let (first, rest) ← classItem f cs
  let rest := f.skip rest
  if rangeFollows f rest then
    let (second, rest) ← classItem f (f.skip (rest.drop 1))
    match first, second with
    | .literal a, .literal b =>
        if a.toNat ≤ b.toNat && allowsMember f a && allowsMember f b then
          return (.range a b, rest)
        else none
    | _, _ => none
  else
    match first with
    | .literal a => if allowsMember f a then return (.single a, rest) else none
    | .cls a => return (a, rest)
    | .assertion _ => none

/-! ## Classes -/

/-- Hyphens at the start of a class are literals. -/
def leadingHyphens (f : Flags) (d : ClassDraft) : List Char → ClassDraft × List Char
  | [] => (d, [])
  | c :: rest =>
      if c == '-' then leadingHyphens f (d.add (.single '-') 0) rest
      else if f.verbose && Text.isBlank c && d.items ≠ 0 then leadingHyphens f d rest
      else (d, c :: rest)

/-- The marks that open a bracketed class: negation, then literal hyphens,
    then a literal closing bracket if nothing came before. -/
def classOpening (f : Flags) (cs : List Char) : (Bool × ClassDraft) × List Char :=
  let cs := f.skip cs
  let (negated, cs) := match cs with
    | '^' :: rest => (true, f.skip rest)
    | _ => (false, cs)
  match leadingHyphens f {} cs with
  | (d, ']' :: rest) =>
      if d.items == 0 then ((negated, d.add (.single ']') 0), rest) else ((negated, d), ']' :: rest)
  | (d, rest) => ((negated, d), rest)

/-- The class that a draft in brackets denotes. -/
def closeClass (f : Flags) (negated : Bool) (d : ClassDraft) : Option NestedClass := do
  let inner := d.close f
  return ⟨← f.negateIf? negated inner.cls, inner.depth + 1⟩

/-- The rest of a bracketed class; one step per item. -/
def classBody (f : Flags) :
    Nat → Bool → ClassDraft → List Char → Option (NestedClass × List Char)
  | 0, _, _, _ => none
  | fuel + 1, negated, draft, cs =>
      match f.skip cs with
      | [] => none
      | '[' :: rest =>
          match asciiClass? rest with
          | some ((neg, a), after) => do
              let a ← f.negateIf? neg (f.fold a)
              classBody f fuel negated (draft.add a 0) after
          | none => do
              let ((neg, inner), rest) := classOpening f rest
              let (a, rest) ← classBody f fuel neg inner rest
              classBody f fuel negated (draft.add a.cls a.depth) rest
      | ']' :: rest => (closeClass f negated draft).map (·, rest)
      | '&' :: '&' :: rest => classBody f fuel negated (draft.operate f .inter) rest
      | '-' :: '-' :: rest => classBody f fuel negated (draft.operate f .diff) rest
      | '~' :: '~' :: rest => classBody f fuel negated (draft.operate f .symmDiff) rest
      | cs => do
          let (a, rest) ← classRange f cs
          classBody f fuel negated (draft.add a 0) rest

/-- A bracketed class, after its opening bracket. -/
def bracketed (f : Flags) (cs : List Char) : Option (NestedClass × List Char) :=
  let ((negated, draft), rest) := classOpening f cs
  classBody f (rest.length + 1) negated draft rest

end Conform.Pattern

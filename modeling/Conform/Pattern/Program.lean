/-
  Conform.Pattern.Program

  Patterns as programs for matching. A program is a graph of instructions; a
  text is read once, and at each position the instructions that can be reached
  without reading are followed together, each of them once. A pattern is known
  by its text; one that is read from a text matches as the program of the text
  does.
-/

import Conform.Pattern.Footprint
import Conform.Pattern.Normal
import Conform.Pattern.Reader

namespace Conform

open Text (CharRanges)

/-- An instruction. Instructions are named by their place in the program. -/
inductive Instruction where
  /-- Reads a character of a set. -/
  | read (r : CharRanges) (next : Nat)
  /-- Goes on where an assertion holds. -/
  | assert (a : Assertion) (next : Nat)
  /-- Goes on in both ways. -/
  | fork (first second : Nat)
  /-- The pattern has matched. -/
  | accept

/-- Instructions and the place to start from. -/
structure Program where
  code : Array Instruction
  start : Nat

namespace Program

/-! ## Construction -/

/-- Adds the instructions of a pattern part, given the place to go on to; gives
    the place where the part starts. -/
abbrev Emit := Nat → Array Instruction → Nat × Array Instruction

/-- Adds an instruction. -/
def emit (i : Instruction) (code : Array Instruction) : Nat × Array Instruction :=
  (code.size, code.push i)

/-- One part before another. -/
def before (p q : Emit) : Emit := fun next code =>
  let (middle, code) := q next code
  p middle code

/-- A part `n` times. -/
def times (p : Emit) : Nat → Emit
  | 0, next, code => (next, code)
  | n + 1, next, code =>
      let (start, code) := p next code
      times p n start code

/-- A part with a fork after it that leads back to its start; gives the places
    of the start and of the fork. -/
def loop (p : Emit) (next : Nat) (code : Array Instruction) :
    (Nat × Nat) × Array Instruction :=
  let (again, code) := emit .accept code
  let (start, code) := p again code
  ((start, again), code.setIfInBounds again (.fork start next))

/-- A part any number of times. -/
def star (p : Emit) : Emit := fun next code =>
  let ((_, again), code) := loop p next code
  (again, code)

/-- A part at least once. -/
def plus (p : Emit) : Emit := fun next code =>
  let ((start, _), code) := loop p next code
  (start, code)

/-- A part at most `n` times more, before the place `inner`; each round may go
    on to the place `exit` instead. -/
def upTo (p : Emit) (exit : Nat) : Nat → Emit
  | 0, inner, code => (inner, code)
  | n + 1, inner, code =>
      let (start, code) := p inner code
      let (choice, code) := emit (.fork start exit) code
      upTo p exit n choice code

/-- A part at least `least` and at most `most` times. -/
def rounds (p : Emit) : Nat → Option Nat → Emit
  | 0, none => star p
  | least + 1, none => before (times p least) (plus p)
  | least, some most => before (times p least) fun next => upTo p next (most - least) next

/-- Either of two parts. -/
def either (p q : Emit) : Emit := fun next code =>
  let (first, code) := p next code
  let (second, code) := q next code
  emit (.fork first second) code

mutual
/-- The instructions of a pattern. -/
def emitPattern : NormalPattern → Emit
  | .empty => fun next code => (next, code)
  | .literal codes => fun next code =>
      codes.foldr (fun n (next, code) => emit (.read ⟨[(n, n)]⟩ next) code) (next, code)
  | .cls r => fun next => emit (.read r next)
  | .assertion a => fun next => emit (.assert a next)
  | .capture _ p => emitPattern p
  | .rep p least most _ => rounds (emitPattern p) least most
  | .seq ps => emitAll ps
  | .alt ps => emitAny ps

/-- The instructions of patterns after one another. -/
def emitAll : List NormalPattern → Emit
  | [] => fun next code => (next, code)
  | p :: ps => before (emitPattern p) (emitAll ps)

/-- The instructions of alternatives. -/
def emitAny : List NormalPattern → Emit
  | [] => fun _ => emit (.read .empty 0)
  | [p] => emitPattern p
  | p :: ps => either (emitPattern p) (emitAny ps)
end

/-- The program of a pattern. -/
def ofPattern (p : NormalPattern) : Program :=
  let (start, code) := emitPattern p 0 #[.accept]
  ⟨code, start⟩

/-! ## Search -/

/-- The instructions met at one position. -/
structure Visit where
  /-- For each instruction the number of the last position where it was met. -/
  met : Array Nat
  /-- The instructions that read a character next. -/
  readers : List (CharRanges × Nat) := []
  matched : Bool := false

/-- Follows instructions at a position, up to those that read; `fuel` bounds the
    number of instructions looked at. -/
def follow (code : Array Instruction) (position : Nat) (before after : Option Char) :
    Nat → List Nat → Visit → Visit
  | 0, _, v => v
  | _, [], v => v
  | fuel + 1, i :: pending, v =>
      if v.met[i]? == some position then follow code position before after fuel pending v
      else
        let v := { v with met := v.met.setIfInBounds i position }
        match code[i]? with
        | some (.read r next) =>
            follow code position before after fuel pending
              { v with readers := (r, next) :: v.readers }
        | some (.assert a next) =>
            let pending := if a.holds before after then next :: pending else pending
            follow code position before after fuel pending v
        | some (.fork first second) =>
            follow code position before after fuel (first :: second :: pending) v
        | some .accept => { v with matched := true }
        | none => follow code position before after fuel pending v

/-- Whether the program matches from one of the `pending` instructions on, or
    from its start at this position or a later one. Positions count from one. -/
def searchFrom (p : Program) (met : Array Nat) (pending : List Nat) (position : Nat)
    (before : Option Char) : List Char → Bool
  | [] =>
      let pending := p.start :: pending
      (follow p.code position before none (2 * p.code.size + pending.length) pending
        { met := met }).matched
  | c :: rest =>
      let pending := p.start :: pending
      let v := follow p.code position before (some c) (2 * p.code.size + pending.length)
        pending { met := met }
      v.matched ||
        searchFrom p v.met
          (v.readers.filterMap fun (r, next) => if r.contains c then some next else none)
          (position + 1) (some c) rest

/-- Whether the program matches somewhere in a text. -/
def occursIn (p : Program) (text : List Char) : Bool :=
  p.searchFrom (Array.replicate p.code.size 0) [] 1 none text

end Program

/-! ## Patterns -/

namespace Pattern

/-- The program of a pattern text, if it is valid: well formed, not nested too
    deep, and with automata that are not too large. -/
def program? (text : String) : Option Program := do
  let tree ← readTree? text
  let form := tree.normalize
  if Footprint.fits form then some (.ofPattern form) else none

end Pattern

/-- A pattern: the text it is known by, and the texts it occurs in. The one does
    not determine the other, as a pattern may be built with flags that its text
    does not show. -/
structure Pattern where
  source : String
  occursIn : String → Bool

namespace Pattern

/-- The pattern that a text stands for, with no flags but its own. -/
def ofString? (source : String) : Option Pattern :=
  (program? source).map fun program => ⟨source, fun text => program.occursIn text.toList⟩

end Pattern

end Conform

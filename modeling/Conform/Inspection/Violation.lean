/-
  Conform.Inspection.Violation

  A violation tells where a value departs from its schema, what was accepted
  there and what was found instead. The place is a location: a root name and the
  steps from container to member.
-/

import Conform.Schema.Basic
import Conform.Value.Printer

namespace Conform

/-! ## Locations -/

/-- One step from a container to one of its members. -/
inductive Step where
  /-- A position in a list or tuple. -/
  | index (i : Nat)
  /-- A member of a set, by its printed form. -/
  | member (repr : String)
  /-- A key of a dictionary, by its printed form. -/
  | key (repr : String)
  /-- The value stored under a key, by the printed form of the key. -/
  | entry (repr : String)
deriving Repr, DecidableEq

namespace Step

/-- The text of a step. -/
def text : Step → String
  | index i => "[" ++ String.ofList (Nat.toDigits 10 i) ++ "]"
  | member repr => "[" ++ repr ++ "]"
  | entry repr => "[" ++ repr ++ "]"
  | key repr => ".key[" ++ repr ++ "]"

end Step

/-- A root name and the steps below it, outermost first. -/
structure Location where
  root : String
  steps : List Step
deriving Repr, DecidableEq

namespace Location

/-- The location of a root. -/
def ofRoot (root : String) : Location := ⟨root, []⟩

/-- The number of steps. -/
def depth (l : Location) : Nat := l.steps.length

/-- One step further down. -/
def down (l : Location) (s : Step) : Location := { l with steps := l.steps ++ [s] }

/-- One step back up; a root stays. -/
def up (l : Location) : Location := { l with steps := l.steps.dropLast }

/-- Back up to at most `depth` steps. -/
def upTo (l : Location) (depth : Nat) : Location := { l with steps := l.steps.take depth }

/-- The text of a location. -/
def text (l : Location) : String := l.steps.foldl (fun acc s => acc ++ s.text) l.root

end Location

/-! ## Violations -/

/-- The ways a value can depart from its schema. -/
inductive ViolationCause where
  /-- Neither the type of the value nor the value itself is accepted. -/
  | typeMismatch
  /-- No declared form of a tuple has the right length. -/
  | lengthMismatch (expected found : Nat)
  /-- A constraint does not hold. -/
  | constraintViolation (unmet : UnmetPredicate)
deriving Repr, DecidableEq

namespace ViolationCause

/-- The short name of a cause. -/
def name : ViolationCause → String
  | typeMismatch => "type_mismatch"
  | lengthMismatch _ _ => "length_mismatch"
  | constraintViolation _ => "constraint_violation"

end ViolationCause

/-- A located departure of a value from its schema. -/
structure Violation where
  cause : ViolationCause
  location : Location
  /-- The admitted type tags, in order. -/
  expectedTags : List TypeTag
  /-- The printed forms of the accepted literals, if some are declared. -/
  expectedLiterals : Option (List String)
  foundTag : TypeTag
  /-- The printed form of the value. -/
  found : String
deriving Repr, DecidableEq

namespace Violation

/-- The violation of a schema by a value at a location. -/
def located (location : Location) (s : Schema) (value : Value) (cause : ViolationCause) :
    Violation where
  cause := cause
  location := location
  expectedTags := s.tags
  expectedLiterals := s.literals.map (·.map Value.repr)
  foundTag := value.tag
  found := value.repr

/-- The accepted types and literals in words. -/
def expectedText (v : Violation) : String :=
  let types := "`[" ++ ", ".intercalate (v.expectedTags.map TypeTag.text) ++ "]`"
  match v.expectedLiterals with
  | none => types
  | some reprs =>
      let literals := "literal values `[" ++ ", ".intercalate reprs ++ "]`"
      if v.expectedTags.isEmpty then literals else types ++ " or " ++ literals

/-- What a message adds about a predicate that could not be evaluated. -/
def faultText : Option PredicateFault → String
  | none => ""
  | some fault => " Predicate failed: " ++ fault.message ++ "."

/-- The wording of a violation. -/
def message (v : Violation) : String :=
  match v.cause with
  | .typeMismatch =>
      "Type mismatch for typed variable `" ++ v.location.text ++
        "`. Expected one of the following " ++ v.expectedText ++ " but got `" ++
        v.foundTag.text ++ "` with value `" ++ v.found ++ "` instead."
  | .lengthMismatch expected found =>
      "Tuple length mismatch for typed variable `" ++ v.location.text ++
        "`. Expected length " ++ String.ofList (Nat.toDigits 10 expected) ++
        " but got length " ++ String.ofList (Nat.toDigits 10 found) ++ " with value `" ++
        v.found ++ "` instead."
  | .constraintViolation unmet =>
      "Constraint violation for typed variable `" ++ v.location.text ++
        "`. Expected value to " ++ unmet.expectation ++ " (`" ++ unmet.predicate ++
        "`) but got `" ++ v.found ++ "` instead." ++ faultText unmet.fault

end Violation

end Conform

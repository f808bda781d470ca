/-
  Conform.Schema.Basic

  Schemas, the normal form of declarations: the admitted type tags, each with
  what it asks of the members of a container, the accepted literal values, and
  the constraints that apply to every accepted value.
-/

import Conform.Constraint.Basic

namespace Conform

mutual

/-- The normal form of a declaration. -/
structure Schema where
  /-- The admitted tags with what they ask of members, in the order of tags. -/
  alternatives : List (TypeTag × Contents)
  /-- The literal values accepted besides, if there are any declared. -/
  literals : Option (List Value)
  /-- The constraints on every accepted value, in order. -/
  constraints : List Constraint

/-- What a type tag asks of the members of a value. -/
inductive Contents where
  /-- Nothing. -/
  | free
  /-- One schema for every member. -/
  | each (member : Schema)
  /-- One schema for the keys and one for the values. -/
  | entries (key value : Schema)
  /-- Alternative forms of a tuple. -/
  | forms (alternatives : List TupleForm)

/-- One declared form of a tuple. -/
structure TupleForm where
  /-- One schema per position; of a repeated form the first one counts, for
      every position. -/
  items : List Schema
  repeated : Bool

end

namespace TupleForm

/-- The form of a tuple with one schema per position. -/
def fixed (items : List Schema) : TupleForm := ⟨items, false⟩

/-- The form of a tuple of any length. -/
def repeating (member : Schema) : TupleForm := ⟨[member], true⟩

/-- Whether a tuple of `n` members has the right length. -/
def fits (f : TupleForm) (n : Nat) : Bool := f.repeated || f.items.length == n

end TupleForm

namespace Contents

/-- Whether nothing is asked of members. -/
def isFree : Contents → Bool
  | free => true
  | _ => false

end Contents

namespace Schema

/-! ## Building -/

/-- The schema that declares nothing. -/
def empty : Schema := ⟨[], none, []⟩

/-- A single tag with what it asks of members. -/
def ofTag (tag : TypeTag) (contents : Contents) : Schema := ⟨[(tag, contents)], none, []⟩

/-- A single tag that asks nothing of members. -/
def bare (tag : TypeTag) : Schema := ofTag tag .free

/-- Literal values only. -/
def ofLiterals (values : List Value) : Schema := ⟨[], some values, []⟩

/-- A constraint only. -/
def ofConstraint (c : Constraint) : Schema := ⟨[], none, [c]⟩

/-- The schema with one more constraint. -/
def constrain (s : Schema) (c : Constraint) : Schema :=
  { s with constraints := s.constraints ++ [c] }

/-! ## Views -/

/-- The admitted tags, in order. -/
def tags (s : Schema) : List TypeTag := s.alternatives.map (·.1)

/-- What is listed for a tag. -/
def lookup? (s : Schema) (tag : TypeTag) : Option Contents := s.alternatives.lookup tag

/-- Whether a value with this tag is accepted by its type. -/
def admits (s : Schema) (tag : TypeTag) : Bool :=
  (s.lookup? tag).isSome || (s.lookup? .any).isSome

/-- What is asked of the members of a value with this tag: what its own tag
    lists, or else what `any` lists. -/
def contents? (s : Schema) (tag : TypeTag) : Option Contents :=
  (s.lookup? tag).or (s.lookup? .any)

/-- Whether the tag of a value alone decides: no literals, no constraints and
    nothing asked of members. -/
def decidedByTag (s : Schema) : Bool :=
  s.literals.isNone && s.constraints.isEmpty && s.alternatives.all (·.2.isFree)

/-- Whether only constraints are declared, so that values of any type pass on
    to them. -/
def constrainsOnly (s : Schema) : Bool := s.alternatives.isEmpty && s.literals.isNone

end Schema

end Conform

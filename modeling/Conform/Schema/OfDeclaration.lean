/-
  Conform.Schema.OfDeclaration

  The schema of a declaration. Class names are looked up in a class table if
  there is one; without a table no name can be looked up, and the family of a
  class is that class alone.
-/

import Conform.ClassTable
import Conform.Declaration.Basic
import Conform.Declaration.Parser
import Conform.Schema.Join

namespace Conform

/-- Why a declaration has no schema. -/
inductive SchemaError where
  /-- A container with the wrong number of type arguments. -/
  | arity (declaration : String) (expected found : Nat)
  /-- The repeat mark at a place where nothing can be repeated. -/
  | misplacedEllipsis (declaration : String)
  /-- A union or a literal without members. -/
  | unsupported (declaration : String)
  | unknownClass (name : String)
  /-- An annotation for a parameter that is not declared. -/
  | unknownParameter (name : String)
  | malformed (e : TextError)
deriving Repr, DecidableEq

namespace SchemaError

/-- The wording of an error. -/
def message : SchemaError → String
  | arity declaration expected found =>
      "`" ++ declaration ++ "` requires exactly " ++ String.ofList (Nat.toDigits 10 expected) ++
        " type argument(s) but got " ++ String.ofList (Nat.toDigits 10 found)
  | misplacedEllipsis declaration =>
      "misplaced `...` in `" ++ declaration ++
        "`: only `tuple[T, ...]` may repeat an element type"
  | unsupported declaration => "unsupported type declaration `" ++ declaration ++ "`"
  | unknownClass name => "unknown class `" ++ name ++ "`"
  | unknownParameter name =>
      "annotation for `" ++ name ++ "` does not match any declared parameter"
  | malformed e => "annotation parse error: " ++ e.message

end SchemaError

namespace Declaration

/-- The schema of a declaration, or why there is none. -/
abbrev SchemaResult := Except SchemaError Schema

/-! ## Classes -/

/-- The schema of a name. -/
def namedSchema (classes : Option ClassTable) (name : String) : SchemaResult :=
  if classes.any (·.contains name) then .ok (.bare (.instanceOf name))
  else .error (.unknownClass name)

/-- The schema of a class and its subclasses. -/
def familySchema (classes : Option ClassTable) (name : String) : SchemaResult :=
  match classes with
  | Option.none => .ok (.bareUnion [.instanceOf name])
  | some table =>
      match table.family? name with
      | some names => .ok (.bareUnion (names.map .instanceOf))
      | Option.none => .error (.unknownClass name)

/-- The constraints among metadata. -/
def constraintsOf (metadata : List Declaration) : List Constraint :=
  metadata.filterMap fun
    | constraint c => some c
    | _ => Option.none

/-! ## From the schemas of the parts -/

/-- The schemas of all parts, or the first error. -/
def allSchemas : List SchemaResult → Except SchemaError (List Schema)
  | [] => .ok []
  | r :: rest => do
      let s ← r
      let more ← allSchemas rest
      return s :: more

/-- The form of a tuple with the given arguments. -/
def tupleForm (args : List Declaration) (parts : List SchemaResult) :
    Except SchemaError TupleForm :=
  match args, parts with
  | [element, ellipsis], [r, _] =>
      if element.isEllipsis then .error (.misplacedEllipsis (text (container .tuple args)))
      else do return .repeating (← r)
  | _, _ =>
      if args.any isEllipsis then .error (.misplacedEllipsis (text (container .tuple args)))
      else do return .fixed (← allSchemas parts)

/-- What a container with the given arguments asks of members. -/
def containerContents (kind : Container) (args : List Declaration)
    (parts : List SchemaResult) : Except SchemaError Contents :=
  match kind with
  | .list | .set | .frozenSet =>
      match parts with
      | [r] => do return .each (← r)
      | _ => .error (.arity (text (container kind args)) 1 args.length)
  | .dict =>
      match parts with
      | [r, q] => do return .entries (← r) (← q)
      | _ => .error (.arity (text (container kind args)) 2 args.length)
  | .tuple => do return .forms [← tupleForm args parts]

/-- Joins further members of a union onto a schema. -/
def joinOnto (joined : Schema) : List SchemaResult → SchemaResult
  | [] => .ok joined
  | r :: rest => do
      let s ← r
      joinOnto (joined.join s) rest

/-- The schema of a union. -/
def joinAll : List SchemaResult → SchemaResult
  | [] => .error (.unsupported "Union[]")
  | r :: rest => do
      let s ← r
      joinOnto s rest

/-! ## Declarations -/

mutual

/-- The schema of a declaration. -/
def toSchema (classes : Option ClassTable) : Declaration → SchemaResult
  | none => .ok (.bare .noneType)
  | any => .ok (.bare .any)
  | sized => .ok (.bareUnion TypeTag.measurable)
  | callable => .ok (.bareUnion TypeTag.invocable)
  | ellipsis => .error (.misplacedEllipsis (text ellipsis))
  | concrete tag => .ok (.bare tag)
  | classNamed name => .ok (.bare (.instanceOf name))
  | named name => namedSchema classes name
  | typeOf name => .ok (.bare (.classOf name))
  | family name => familySchema classes name
  | container kind args => do
      return .ofTag kind.tag (← containerContents kind args (schemasOf classes args))
  | union members => joinAll (schemasOf classes members)
  | literal values =>
      if values.isEmpty then .error (.unsupported (text (literal values)))
      else .ok (.ofLiterals values)
  | constraint c => .ok (.ofConstraint c)
  | annotated base metadata => do
      let s ← toSchema classes base
      return (constraintsOf metadata).foldl Schema.constrain s

/-- The schema of each of several declarations. -/
def schemasOf (classes : Option ClassTable) : List Declaration → List SchemaResult
  | [] => []
  | d :: rest => toSchema classes d :: schemasOf classes rest

end

/-- The schema of the declaration that a text spells. -/
def schemaOfText (classes : Option ClassTable) (text : String) : SchemaResult :=
  match parse text with
  | .error e => .error (.malformed e)
  | .ok d => toSchema classes d

end Declaration

end Conform

/-
  Conform.Declaration.Basic

  Type declarations, as they are written for parameters and results, with the
  usual ways to build them, their equality, and their text in the notation that
  `Declaration.parse` reads.
-/

import Conform.Constraint.Basic

namespace Conform

/-- The containers that take type arguments. -/
inductive Container where
  | list
  | set
  | frozenSet
  | dict
  | tuple
deriving Repr, DecidableEq

namespace Container

/-- The type tag of a container. -/
def tag : Container → TypeTag
  | list => .collection .list
  | set => .collection .set
  | frozenSet => .collection .frozenSet
  | dict => .dict
  | tuple => .collection .tuple

/-- The name of a container. -/
def name : Container → String
  | list => "list"
  | set => "set"
  | frozenSet => "frozenset"
  | dict => "dict"
  | tuple => "tuple"

/-- The container of a given name, in small letters or capitalised. -/
def ofName? (name : String) : Option Container :=
  if name == "list" || name == "List" then some list
  else if name == "set" || name == "Set" then some set
  else if name == "frozenset" || name == "FrozenSet" then some frozenSet
  else if name == "dict" || name == "Dict" then some dict
  else if name == "tuple" || name == "Tuple" then some tuple
  else none

end Container

/-- A type declaration. -/
inductive Declaration where
  | none
  | any
  /-- Any value with a length. -/
  | sized
  /-- Any value that can be called. -/
  | callable
  /-- The mark `...` that repeats the element type of a tuple. -/
  | ellipsis
  /-- A concrete type; containers accept any elements. -/
  | concrete (tag : TypeTag)
  /-- Instances of a class. -/
  | classNamed (name : String)
  /-- A name whose meaning is looked up among the registered classes. -/
  | named (name : String)
  /-- A class itself. -/
  | typeOf (name : String)
  /-- Instances of a class or of its subclasses. -/
  | family (name : String)
  /-- A container with type arguments; their number is checked later. -/
  | container (kind : Container) (args : List Declaration)
  | union (members : List Declaration)
  | literal (values : List Value)
  | constraint (c : Constraint)
  /-- A declaration with metadata, of which only constraints have an effect. -/
  | annotated (base : Declaration) (metadata : List Declaration)

namespace Declaration

/-! ## Building -/

/-- The members of a union, or the declaration itself. -/
def unionMembers : Declaration → List Declaration
  | union members => members
  | d => [d]

/-- The union of members; members that are unions themselves are opened, one
    level deep. -/
def unionOf (members : List Declaration) : Declaration :=
  union (members.flatMap unionMembers)

/-- The union with none. -/
def optional (d : Declaration) : Declaration := unionOf [d, none]

/-- A tuple of any length with one element type. -/
def tupleOf (element : Declaration) : Declaration := container .tuple [element, ellipsis]

/-- Whether a declaration is the repeat mark. -/
def isEllipsis : Declaration → Bool
  | ellipsis => true
  | _ => false

/-! ## Equality -/

mutual

/-- Equality of declarations: constructor by constructor, with host equality
    for literal values. -/
def equal : Declaration → Declaration → Bool
  | none, none => true
  | any, any => true
  | sized, sized => true
  | callable, callable => true
  | ellipsis, ellipsis => true
  | concrete s, concrete t => s == t
  | classNamed m, classNamed n => m == n
  | named m, named n => m == n
  | typeOf m, typeOf n => m == n
  | family m, family n => m == n
  | container k xs, container l ys => k == l && equalAll xs ys
  | union xs, union ys => equalAll xs ys
  | literal xs, literal ys => Value.equalAll xs ys
  | constraint c, constraint d => c.equal d
  | annotated b xs, annotated c ys => equal b c && equalAll xs ys
  | _, _ => false

/-- Equality of lists of declarations, position by position. -/
def equalAll : List Declaration → List Declaration → Bool
  | [], [] => true
  | x :: xs, y :: ys => equal x y && equalAll xs ys
  | _, _ => false

end

instance : BEq Declaration := ⟨equal⟩

/-! ## Text -/

mutual

/-- The characters of the text. -/
def chars : Declaration → List Char
  | none => "None".toList
  | any => "Any".toList
  | sized => "Sized".toList
  | callable => "Callable".toList
  | ellipsis => "...".toList
  | concrete tag => tag.name.toList
  | classNamed name => name.toList
  | named name => name.toList
  | typeOf name => "type[".toList ++ name.toList ++ [']']
  | family name => "WithSubclasses(".toList ++ name.toList ++ [')']
  | container kind args =>
      kind.name.toList ++ '[' :: (if args.isEmpty && kind == .tuple then ['(', ')']
        else joinedChars ", ".toList args) ++ [']']
  | union members => joinedChars " | ".toList members
  | literal values => "Literal[".toList ++ Value.joinedChars values ++ [']']
  | constraint c => c.text.toList
  | annotated base metadata =>
      "Annotated[".toList ++ base.chars ++ listedChars metadata ++ [']']

/-- Texts with a separator between them. -/
def joinedChars (separator : List Char) : List Declaration → List Char
  | [] => []
  | [d] => d.chars
  | d :: rest => d.chars ++ separator ++ joinedChars separator rest

/-- Texts with a comma before each. -/
def listedChars : List Declaration → List Char
  | [] => []
  | d :: rest => ',' :: ' ' :: d.chars ++ listedChars rest

end

/-- The text of a declaration. -/
def text (d : Declaration) : String := String.ofList d.chars

end Declaration

end Conform

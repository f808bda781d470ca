/-
  Conform.TypeTag

  A type tag names one concrete runtime type. Tags have a fixed order, by kind
  and then by class name, and two spellings: the plain name, and the text shown
  in messages, where a class itself reads `type[C]`.
-/

namespace Conform

/-! ## Kinds -/

/-- The byte string types. They compare by content, whatever their kind. -/
inductive BinaryKind where
  | bytes
  | byteArray
  | memoryView
deriving Repr, DecidableEq

/-- The collection types other than dictionaries. -/
inductive CollectionKind where
  | list
  | tuple
  | set
  | frozenSet
deriving Repr, DecidableEq

namespace CollectionKind

/-- Sets and frozen sets have members and no positions. -/
def isUnordered : CollectionKind → Bool
  | .set | .frozenSet => true
  | .list | .tuple => false

end CollectionKind

/-- The shapes of a callable value. -/
inductive CallableKind where
  | function
  | method
  | generator
  | builtinFunction
  | staticMethod
  | classMethod
deriving Repr, DecidableEq

/-! ## Tags -/

/-- One concrete runtime type, or `any` for all of them. -/
inductive TypeTag where
  | any
  | noneType
  | bool
  | int
  | float
  | str
  | binary (kind : BinaryKind)
  | range
  | collection (kind : CollectionKind)
  | dict
  | callable (kind : CallableKind)
  /-- Instances of the named class. -/
  | instanceOf (className : String)
  /-- The named class itself. -/
  | classOf (className : String)
deriving Repr, DecidableEq

namespace TypeTag

/-! ## Order -/

/-- Position of a tag's kind in the order of tags. -/
def rank : TypeTag → Nat
  | any => 0
  | noneType => 1
  | bool => 2
  | int => 3
  | float => 4
  | str => 5
  | binary .bytes => 6
  | binary .byteArray => 7
  | binary .memoryView => 8
  | range => 9
  | collection .list => 10
  | collection .tuple => 11
  | collection .set => 12
  | collection .frozenSet => 13
  | dict => 14
  | callable .function => 15
  | callable .method => 16
  | callable .generator => 17
  | callable .builtinFunction => 18
  | callable .staticMethod => 19
  | callable .classMethod => 20
  | instanceOf _ => 21
  | classOf _ => 22

/-- The class a tag speaks of; empty for the standard types. -/
def className : TypeTag → String
  | instanceOf c | classOf c => c
  | _ => ""

instance : Ord TypeTag where
  compare a b := (compare a.rank b.rank).then (compare a.className.toList b.className.toList)

/-! ## Names -/

/-- The name of the type. -/
def name : TypeTag → String
  | any => "Any"
  | noneType => "NoneType"
  | bool => "bool"
  | int => "int"
  | float => "float"
  | str => "str"
  | binary .bytes => "bytes"
  | binary .byteArray => "bytearray"
  | binary .memoryView => "memoryview"
  | range => "range"
  | collection .list => "list"
  | collection .tuple => "tuple"
  | collection .set => "set"
  | collection .frozenSet => "frozenset"
  | dict => "dict"
  | callable .function => "function"
  | callable .method => "method"
  | callable .generator => "generator"
  | callable .builtinFunction => "builtin_function_or_method"
  | callable .staticMethod => "staticmethod"
  | callable .classMethod => "classmethod"
  | instanceOf c | classOf c => c

/-- The text of a tag in messages. -/
def text : TypeTag → String
  | classOf c => "type[" ++ c ++ "]"
  | t => t.name

/-- The tags of the standard types, in order. -/
def standard : List TypeTag :=
  [noneType, bool, int, float, str, binary .bytes, binary .byteArray, binary .memoryView, range,
    collection .list, collection .tuple, collection .set, collection .frozenSet, dict,
    callable .function, callable .method, callable .generator, callable .builtinFunction,
    callable .staticMethod, callable .classMethod]

/-- The standard type of a given name. `Any` is not a type name, and neither is
    the name of a class. -/
def ofTypeName? (name : String) : Option TypeTag :=
  standard.find? (·.name == name)

/-! ## Capabilities -/

/-- The types whose values have a length. -/
def measurable : List TypeTag :=
  [collection .list, collection .tuple, dict, collection .set, collection .frozenSet, str,
    binary .bytes, binary .byteArray, binary .memoryView, range]

/-- The types whose values can be called. -/
def invocable : List TypeTag :=
  [callable .function, callable .method, callable .generator, callable .builtinFunction,
    callable .staticMethod, callable .classMethod]

end TypeTag

end Conform

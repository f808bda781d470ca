/-
  Conform.Proofs.Declaration.Grammar

  The grammar of declarations, as a relation between runs of tokens and the
  declarations they spell. It says nothing about a reader: no look-ahead, no
  order of attempts and no bound on the nesting. What a derivation is worth is
  said here too, from tables and relations of the grammar's own: which module is
  dropped in front of a name, what a name stands for and how unions are opened.

    union     := term ('|' term)*
    term      := '...' | name | name '[' arguments ']'
    arguments := by name, one of
      Literal                              literal (',' literal)* ','?
      Type, type                           name
      Optional                             union ','?
      Union                                union (',' union)* ','?
      Callable                             tokens with balanced brackets
      list, set, frozenset, dict, tuple    union (',' union)* ','?
      tuple                                '(' ')'
-/

import Conform.Declaration.Parser
import Mathlib.Tactic.SplitIfs

namespace Conform

/-- The names under which a container is known. -/
def Container.names : Container → List String
  | list => ["list", "List"]
  | set => ["set", "Set"]
  | frozenSet => ["frozenset", "FrozenSet"]
  | dict => ["dict", "Dict"]
  | tuple => ["tuple", "Tuple"]

theorem Container.ofName?_eq_some_iff {name : String} {kind : Container} :
    ofName? name = some kind ↔ name ∈ kind.names := by
  constructor
  · intro h
    unfold ofName? at h
    split_ifs at h <;> cases h <;> simp_all [names]
  · have known : ∀ known ∈ kind.names, ofName? known = some kind := by
      cases kind <;> decide
    exact known name

namespace Declaration

/-! ## Lists of items -/

/-- Items with a separator between each two of them. -/
inductive Chained {α : Type} (separator : Token) (item : List Token → α → Prop) :
    List Token → List α → Prop
  | one {ts a} : item ts a → Chained separator item ts [a]
  | more {ts us a as} : item ts a → Chained separator item us as →
      Chained separator item (ts ++ separator :: us) (a :: as)

/-- Items with commas between them, and perhaps a comma after the last. -/
inductive Listed {α : Type} (item : List Token → α → Prop) : List Token → List α → Prop
  | plain {ts as} : Chained .comma item ts as → Listed item ts as
  | trailing {ts as} : Chained .comma item ts as → Listed item (ts ++ [.comma]) as

/-- Tokens in which every square bracket has its partner. -/
inductive Balanced : List Token → Prop
  | nil : Balanced []
  | other {t ts} : t ≠ .leftBracket → t ≠ .rightBracket → Balanced ts → Balanced (t :: ts)
  | nested {ts us} : Balanced ts → Balanced us →
      Balanced (.leftBracket :: ts ++ .rightBracket :: us)

/-! ## Names -/

/-- The modules that are dropped, with the dot after them. -/
def droppedModules : List String := ["typing.", "builtins.", "collections.abc.", "types."]

/-- A name as it is written, and without the module in front of it. -/
inductive Unqualified : String → String → Prop
  | qualified {m n} : m ∈ droppedModules → Unqualified (m ++ n) n
  | plain {n} : (∀ m ∈ droppedModules, ¬ m.toList <+: n.toList) → Unqualified n n

/-- The names that stand for nothing without arguments. -/
def incompleteNames : List String := ["Optional", "Union", "Literal", "Type", "Annotated"]

/-- The names that stand for a declaration of their own. -/
def ownNames : List String := ["None", "NoneType", "Any", "object", "Sized", "Callable"]

/-- The names of types. The containers have two each. -/
def typeNames : List (String × TypeTag) :=
  [("bool", .bool), ("int", .int), ("float", .float), ("str", .str),
    ("bytes", .binary .bytes), ("bytearray", .binary .byteArray),
    ("memoryview", .binary .memoryView), ("range", .range),
    ("list", .collection .list), ("List", .collection .list),
    ("tuple", .collection .tuple), ("Tuple", .collection .tuple),
    ("set", .collection .set), ("Set", .collection .set),
    ("frozenset", .collection .frozenSet), ("FrozenSet", .collection .frozenSet),
    ("dict", .dict), ("Dict", .dict),
    ("function", .callable .function), ("method", .callable .method),
    ("generator", .callable .generator),
    ("builtin_function_or_method", .callable .builtinFunction),
    ("staticmethod", .callable .staticMethod), ("classmethod", .callable .classMethod)]

/-- What a name stands for without arguments. A name that is in no table is that
    of a class. -/
inductive NameMeans : String → Declaration → Prop
  | none {n} : n ∈ ["None", "NoneType"] → NameMeans n none
  | any {n} : n ∈ ["Any", "object"] → NameMeans n any
  | sized : NameMeans "Sized" sized
  | callable : NameMeans "Callable" callable
  | type {n tag} : (n, tag) ∈ typeNames → NameMeans n (concrete tag)
  | named {n} : n ∉ ownNames → n ∉ typeNames.map (·.1) → NameMeans n (named n)

/-! ## Unions -/

/-- The members of a union, where those that are unions themselves are opened;
    what is inside these stays as it is. -/
inductive Opened : List Declaration → List Declaration → Prop
  | nil : Opened [] []
  | union {inner ds es} : Opened ds es → Opened (union inner :: ds) (inner ++ es)
  | other {d ds es} : (∀ inner, d ≠ union inner) → Opened ds es → Opened (d :: ds) (d :: es)

/-! ## The grammar -/

inductive SpellsLiteral : List Token → Value → Prop
  | str (s : String) : SpellsLiteral [.str s] (.str s)
  | int (n : Int64) : SpellsLiteral [.int n] (.int n)
  | float (x : Float) : SpellsLiteral [.float x] (.float x)
  | true : SpellsLiteral [.name "True"] (.bool true)
  | false : SpellsLiteral [.name "False"] (.bool false)
  | none : SpellsLiteral [.name "None"] .none

mutual

/-- One term stands for itself, several for their union. -/
inductive SpellsUnion : List Token → Declaration → Prop
  | single {ts d} : SpellsTerm ts d → SpellsUnion ts d
  | several {ts us d ds es} : SpellsTerm ts d → Chained .pipe SpellsTerm us ds →
      Opened (d :: ds) es → SpellsUnion (ts ++ .pipe :: us) (union es)

/-- Of a name only what follows its module counts. -/
inductive SpellsTerm : List Token → Declaration → Prop
  | ellipsis : SpellsTerm [.ellipsis] ellipsis
  | bare {raw name d} : Unqualified raw name → name ∉ incompleteNames → NameMeans name d →
      SpellsTerm [.name raw] d
  | applied {raw name ts d} : Unqualified raw name → SpellsArguments name ts d →
      SpellsTerm (.name raw :: .leftBracket :: ts ++ [.rightBracket]) d

/-- What may stand between the brackets after a name. `Optional` is short for a
    union with none. -/
inductive SpellsArguments : String → List Token → Declaration → Prop
  | literal {ts vs} : Listed SpellsLiteral ts vs → SpellsArguments "Literal" ts (literal vs)
  | typeOf {name raw className} : name ∈ ["Type", "type"] → Unqualified raw className →
      SpellsArguments name [.name raw] (typeOf className)
  | optional {ts d es} : Listed SpellsUnion ts [d] → Opened [d, none] es →
      SpellsArguments "Optional" ts (union es)
  | union {ts ds es} : Listed SpellsUnion ts ds → Opened ds es →
      SpellsArguments "Union" ts (union es)
  | callable {ts} : Balanced ts → SpellsArguments "Callable" ts callable
  | container {name kind ts ds} : name ∈ Container.names kind → Listed SpellsUnion ts ds →
      SpellsArguments name ts (container kind ds)
  | emptyTuple {name} : name ∈ Container.names .tuple →
      SpellsArguments name [.leftParen, .rightParen] (container .tuple [])

end

end Declaration

end Conform

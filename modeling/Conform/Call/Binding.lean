/-
  Conform.Call.Binding

  The parameters of a callable and how the arguments of a call are bound to
  them. Positional arguments fill the positional parameters in order, then
  keywords fill parameters by name; what is left over goes to the parameters
  that take the rest, and what is not filled takes its default.
-/

import Conform.Value.Comparison

namespace Conform

/-! ## Parameters -/

/-- How a parameter receives arguments. -/
inductive ParameterKind where
  /-- By position or by name. -/
  | positional
  /-- By name only. -/
  | keywordOnly
  /-- All further positional arguments, as a tuple. -/
  | restPositional
  /-- All further keywords, as a dictionary. -/
  | restKeyword
deriving Repr, DecidableEq

/-- A parameter of a callable. -/
structure Parameter where
  name : String
  kind : ParameterKind
  default : Option Value

namespace Parameter

/-- Whether a keyword of the given name goes to this parameter. -/
def takesKeyword (p : Parameter) (name : String) : Bool :=
  p.name == name && (p.kind == .positional || p.kind == .keywordOnly)

end Parameter

/-- The parameters of a callable, in order. -/
structure ParameterList where
  parameters : List Parameter

namespace ParameterList

/-- The first parameter of a name. -/
def find? (ps : ParameterList) (name : String) : Option Parameter :=
  ps.parameters.find? (·.name == name)

/-- Whether there is a parameter of a kind. -/
def has (ps : ParameterList) (kind : ParameterKind) : Bool :=
  ps.parameters.any (·.kind == kind)

/-- The number of positional parameters. -/
def positionalCount (ps : ParameterList) : Nat :=
  (ps.parameters.filter (·.kind == .positional)).length

end ParameterList

/-! ## Binding -/

/-- Why arguments do not fit the parameters. -/
inductive BindingError where
  | tooManyPositional (expected found : Nat)
  | unexpectedKeyword (name : String)
  | multipleValues (name : String)
  | missingArgument (name : String)
deriving Repr, DecidableEq

namespace BindingError

/-- The wording of an error. -/
def message : BindingError → String
  | tooManyPositional expected found =>
      "takes " ++ String.ofList (Nat.toDigits 10 expected) ++ " positional argument(s) but " ++
        String.ofList (Nat.toDigits 10 found) ++ " were given"
  | unexpectedKeyword name => "got an unexpected keyword argument `" ++ name ++ "`"
  | multipleValues name => "got multiple values for argument `" ++ name ++ "`"
  | missingArgument name => "missing required argument `" ++ name ++ "`"

end BindingError

/-- A parameter with the value it received. -/
structure Binding where
  name : String
  kind : ParameterKind
  value : Value

/-! ## Slots -/

/-- A parameter with the argument it was given, if it was given one. -/
structure Slot where
  parameter : Parameter
  given : Option Value

namespace Slot

/-- Gives positional arguments to the positional parameters, in order. -/
def fillPositional : List Parameter → List Value → List Slot
  | [], _ => []
  | p :: rest, args =>
      if p.kind == .positional then
        match args with
        | [] => ⟨p, none⟩ :: fillPositional rest []
        | a :: more => ⟨p, some a⟩ :: fillPositional rest more
      else ⟨p, none⟩ :: fillPositional rest args

/-- What a keyword comes to. -/
inductive KeywordFit where
  | filled (slots : List Slot)
  | taken
  | unmatched

/-- Gives a keyword to the first slot that takes it by name. -/
def fillKeyword (name : String) (value : Value) : List Slot → KeywordFit
  | [] => .unmatched
  | s :: rest =>
      if s.parameter.takesKeyword name then
        if s.given.isSome then .taken else .filled (⟨s.parameter, some value⟩ :: rest)
      else match fillKeyword name value rest with
        | .filled slots => .filled (s :: slots)
        | .taken => .taken
        | .unmatched => .unmatched

/-- Gives keywords to slots in order, and collects those that match none. -/
def fillKeywords (collects : Bool) (slots : List Slot) (extra : List (String × Value)) :
    List (String × Value) → Except BindingError (List Slot × List (String × Value))
  | [] => .ok (slots, extra)
  | (name, value) :: rest =>
      match fillKeyword name value slots with
      | .filled slots => fillKeywords collects slots extra rest
      | .taken => .error (.multipleValues name)
      | .unmatched =>
          if collects then fillKeywords collects slots (extra ++ [(name, value)]) rest
          else .error (.unexpectedKeyword name)

/-- The bindings of the slots. The first parameter that takes the rest takes
    all that is left over of its kind. -/
def settle (extraArgs : List Value) (extraKeywords : List (String × Value)) :
    List Slot → Except BindingError (List Binding)
  | [] => .ok []
  | s :: rest =>
      match s.parameter.kind with
      | .restPositional => do
          let more ← settle [] extraKeywords rest
          return ⟨s.parameter.name, .restPositional, .collection .tuple extraArgs⟩ :: more
      | .restKeyword => do
          let more ← settle extraArgs [] rest
          let entries := extraKeywords.map fun (name, v) => (.str name, v)
          return ⟨s.parameter.name, .restKeyword, .dictOf entries⟩ :: more
      | kind =>
          match s.given.or s.parameter.default with
          | none => .error (.missingArgument s.parameter.name)
          | some v => do
              let more ← settle extraArgs extraKeywords rest
              return ⟨s.parameter.name, kind, v⟩ :: more

end Slot

namespace ParameterList

/-- Binds the arguments of a call. -/
def bind (ps : ParameterList) (args : List Value) (keywords : List (String × Value)) :
    Except BindingError (List Binding) :=
  if ps.positionalCount < args.length && !ps.has .restPositional then
    .error (.tooManyPositional ps.positionalCount args.length)
  else do
    let slots := Slot.fillPositional ps.parameters args
    let (slots, extra) ← Slot.fillKeywords (ps.has .restKeyword) slots [] keywords
    Slot.settle (args.drop ps.positionalCount) extra slots

end ParameterList

end Conform

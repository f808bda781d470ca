/-
  Conform.Guard.Basic

  Guarded callables. A guarded callable carries its parameters, declarations
  for some of them and for its result, and its settings. The schemas of all
  declarations are made together, when they are first needed; the outcome,
  good or bad, is kept until a declaration or the use of the class table
  changes.
-/

import Conform.Call.Binding
import Conform.Schema.OfDeclaration
import Conform.Settings.Json

namespace Conform

/-! ## Annotations -/

/-- A declaration as it was attached: ready, or as a text to be read later. -/
inductive Annotation where
  | declared (d : Declaration)
  | written (text : String)

namespace Annotation

/-- The schema of an annotation. -/
def toSchema (classes : Option ClassTable) : Annotation → Except SchemaError Schema
  | declared d => d.toSchema classes
  | written text => Declaration.schemaOfText classes text

end Annotation

/-! ## Callables -/

/-- The schemas of one callable. -/
structure CallSchemas where
  parameters : List (String × Schema)
  result : Option Schema

namespace CallSchemas

/-- The schema of a parameter, if it is declared. -/
def parameter? (c : CallSchemas) (name : String) : Option Schema := c.parameters.lookup name

end CallSchemas

/-- A callable with its declarations. -/
structure GuardedCallable where
  name : String
  parameters : ParameterList
  /-- Declarations of parameters, by name, in the order of attachment. -/
  annotations : List (String × Annotation)
  result : Option Annotation
  settings : Settings
  /-- Whether class names are looked up in the class table. -/
  usesClasses : Bool
  /-- What making the schemas came to, once it was done. -/
  schemas : Option (Except SchemaError CallSchemas)

namespace GuardedCallable

/-- A callable without declarations. -/
def new (name : String) (parameters : ParameterList) : GuardedCallable where
  name := name
  parameters := parameters
  annotations := []
  result := none
  settings := {}
  usesClasses := false
  schemas := none

/-- Declares a parameter, in place of an earlier declaration. -/
def declareParameter (f : GuardedCallable) (parameter : String) (a : Annotation) :
    GuardedCallable :=
  { f with
    annotations := f.annotations.filter (·.1 != parameter) ++ [(parameter, a)]
    schemas := none }

/-- Declares the result. -/
def declareResult (f : GuardedCallable) (a : Annotation) : GuardedCallable :=
  { f with result := some a, schemas := none }

/-- Changes the settings. Schemas that are made stay so. -/
def withSettings (f : GuardedCallable) (s : Settings) : GuardedCallable :=
  { f with settings := s }

/-- Turns the use of the class table on or off. -/
def withClasses (f : GuardedCallable) (uses : Bool) : GuardedCallable :=
  { f with usesClasses := uses, schemas := none }

/-- The schemas of declared parameters, in order. -/
def parameterSchemas (classes : Option ClassTable) (parameters : ParameterList) :
    List (String × Annotation) → Except SchemaError (List (String × Schema))
  | [] => .ok []
  | (name, a) :: rest =>
      if (parameters.find? name).isNone then .error (.unknownParameter name)
      else do
        let s ← a.toSchema classes
        let more ← parameterSchemas classes parameters rest
        return (name, s) :: more

/-- The schemas of all declarations, those of parameters first. -/
def makeSchemas (f : GuardedCallable) (classes : ClassTable) :
    Except SchemaError CallSchemas := do
  let classes := if f.usesClasses then some classes else none
  let parameters ← parameterSchemas classes f.parameters f.annotations
  match f.result with
  | none => return ⟨parameters, none⟩
  | some a => return ⟨parameters, some (← a.toSchema classes)⟩

end GuardedCallable

end Conform

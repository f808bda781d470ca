/-
  Conform.Guard.Session

  Calls of a guarded callable. A call binds its arguments, checks them in the
  order of the parameters, runs the callable and checks the result. In strict
  mode the first violation ends the call; otherwise violations are reported and
  the call goes on.
-/

import Conform.Call.Binding
import Conform.Guard.Basic
import Conform.Inspection.Basic

namespace Conform

/-! ## Errors -/

/-- Why a guarded call fails. -/
inductive GuardError where
  | schema (callable : String) (cause : SchemaError)
  | binding (callable : String) (cause : BindingError)
  /-- A value violates its schema; `clean` leaves out where it was noticed. -/
  | violation (callable : String) (v : Violation) (clean : Bool)
deriving Repr, DecidableEq

namespace GuardError

/-- The wording of an error. Positions in the caller's program are not known
    here; their places in the text are marked. -/
def message : GuardError → String
  | schema callable cause => "cannot enforce `" ++ callable ++ "`: " ++ cause.message
  | binding callable cause => "cannot bind arguments for `" ++ callable ++ "`: " ++ cause.message
  | violation callable v clean =>
      v.message ++ " (in `" ++ callable ++ "`, called at <caller>)" ++
        (if clean then "" else "\n  raised from <origin>")

end GuardError

/-! ## Sessions -/

/-- A callable together with the class table it shares and the events that
    were reported. -/
structure Session where
  callable : GuardedCallable
  classes : ClassTable
  events : List Event

/-- Something that happens in a session. -/
abbrev Guard (α : Type) := EStateM GuardError Session α

namespace Guard

/-- Reports an event. -/
def log (e : Event) : Guard Unit := modify fun s => { s with events := s.events ++ [e] }

/-- What making the schemas comes to; done on the first occasion only. -/
def schemaOutcome : Guard (Except SchemaError CallSchemas) := do
  let s ← get
  match s.callable.schemas with
  | some outcome => return outcome
  | none =>
      let f := s.callable
      log (.schemasMade f.name f.annotations.length f.result.isSome)
      let outcome := f.makeSchemas s.classes
      modify fun s => { s with callable := { s.callable with schemas := some outcome } }
      return outcome

/-- The schemas of the callable. -/
def schemas : Guard CallSchemas := do
  match ← schemaOutcome with
  | .ok c => return c
  | .error e => throw (.schema (← get).callable.name e)

/-! ## Checks -/

/-- Deals with a violation as the settings say. -/
def report (v : Violation) : Guard Unit := do
  let f := (← get).callable
  if f.settings.strict then throw (.violation f.name v f.settings.cleanTraceback)
  else log (.violation f.name v)

/-- Takes note of a verdict: its events are reported, and so is a violation. -/
def conclude (verdict : Verdict) : Guard Unit := do
  match verdict with
  | .ok () t => modify fun s => { s with events := s.events ++ t.events }
  | .error v t =>
      modify fun s => { s with events := s.events ++ t.events }
      report v

/-- Inspects members one after the other, each below its own step. -/
def inspectEach (s : Schema) : List (Step × Value) → Inspector Unit
  | [] => pure ()
  | (step, v) :: rest => do
      Inspector.below step (Inspection.inspectValue v s)
      inspectEach s rest

/-- The members of the tuple that takes further positional arguments. -/
def numbered (v : Value) : List (Step × Value) :=
  (v.elements?.getD []).zipIdx.map fun (member, i) => (.index i, member)

/-- The values of the dictionary that takes further keywords. -/
def keyed (v : Value) : List (Step × Value) :=
  (v.entries?.getD []).map fun (k, member) => (.entry k.repr, member)

/-- Inspects a bound argument. A parameter that takes the rest is inspected by
    member. -/
def inspectBinding (s : Schema) (b : Binding) : Verdict :=
  match b.kind with
  | .restPositional => inspectEach s (numbered b.value) (.start (.ofRoot b.name))
  | .restKeyword => inspectEach s (keyed b.value) (.start (.ofRoot b.name))
  | _ => inspect b.value s b.name

/-- Checks those of the bound arguments that are declared. -/
def checkBindings (c : CallSchemas) : List Binding → Guard Unit
  | [] => pure ()
  | b :: rest => do
      match c.parameter? b.name with
      | some s => conclude (inspectBinding s b)
      | none => pure ()
      checkBindings c rest

/-- Checks the bound arguments of a call. -/
def checkArguments (bindings : List Binding) : Guard Unit := do
  let f := (← get).callable
  if !f.settings.enabled then log (.argumentsSkipped f.name)
  else
    let c ← schemas
    checkBindings c bindings

/-- Checks a result. -/
def checkResult (value : Value) : Guard Unit := do
  let f := (← get).callable
  if !f.settings.enabled then log (.resultSkipped f.name)
  else
    match (← schemas).result with
    | none => pure ()
    | some s => conclude (inspect value s "return")

/-! ## Calls -/

/-- Binds the arguments of a call to the parameters of the callable. -/
def bindArguments (args : List Value) (keywords : List (String × Value)) :
    Guard (List Binding) := do
  let f := (← get).callable
  match f.parameters.bind args keywords with
  | .ok bindings => return bindings
  | .error e => throw (.binding f.name e)

/-- What happens before the callable runs: its arguments are bound and
    checked. -/
def enter (args : List Value) (keywords : List (String × Value)) :
    Guard (List Binding) := do
  let bindings ← bindArguments args keywords
  checkArguments bindings
  return bindings

/-- What happens after the callable ran: its result is checked. -/
def leave (output : Value) : Guard Value := do
  checkResult output
  return output

end Guard

/-- What a call comes to, and the arguments with which the callable was run, if
    it was run. -/
structure CallOutcome where
  result : Except GuardError Value
  invokedWith : Option (List Binding)

namespace Session

/-- A call of the callable, which computes its result by `invoke`. -/
def call (s : Session) (args : List Value) (keywords : List (String × Value))
    (invoke : List Binding → Value) : CallOutcome × Session :=
  match Guard.enter args keywords s with
  | .error e s => (⟨.error e, none⟩, s)
  | .ok bindings s =>
      match Guard.leave (invoke bindings) s with
      | .error e s => (⟨.error e, some bindings⟩, s)
      | .ok output s => (⟨.ok output, some bindings⟩, s)

/-- Registers a class in the shared table. -/
def register (s : Session) (name : String) (bases : List String) :
    Except ClassError Session := do
  let classes ← s.classes.register name bases
  return { s with classes }

end Session

end Conform

/-
  Conform.Proofs.Guard.Calls

  What calls and checks do to a session, as equations. All of them read the
  session in the same few places: the name, parameters and settings of the
  callable, and what making its schemas came to. The rest of a step is decided
  by the verdicts on the values at hand: the events it adds (`reports`), and the
  violation that ends it, if one does (`ending?`).
-/

import Conform.Guard.Session
import Conform.Proofs.Inspection.Announcement

namespace Conform

/-! ## Sessions -/

namespace Session

/-- The session with further events. -/
def reporting (s : Session) (es : List Event) : Session := { s with events := s.events ++ es }

/-- What making the schemas came to, or would come to now. -/
def outcome (s : Session) : Except SchemaError CallSchemas :=
  s.callable.schemas.getD (s.callable.makeSchemas s.classes)

/-- The event of making the schemas, unless that was done before. -/
def makingEvents (s : Session) : List Event :=
  if s.callable.schemas.isSome then []
  else [.schemasMade s.callable.name s.callable.annotations.length s.callable.result.isSome]

/-- The session with its schemas made. -/
def prepared (s : Session) : Session where
  callable := { s.callable with schemas := some s.outcome }
  classes := s.classes
  events := s.events ++ s.makingEvents

theorem prepared_of_made {s : Session} (h : s.callable.schemas.isSome = true) : s.prepared = s := by
  obtain ⟨kept, hkept⟩ := Option.isSome_iff_exists.mp h
  have houtcome : some s.outcome = s.callable.schemas := by
    rw [outcome, hkept, Option.getD_some]
  simp [prepared, makingEvents, houtcome, h]

theorem reporting_nil (s : Session) : s.reporting [] = s := by
  rw [reporting, List.append_nil]

@[simp] theorem reporting_reporting (s : Session) (es fs : List Event) :
    (s.reporting es).reporting fs = s.reporting (es ++ fs) := by
  simp [reporting]

/-- Once the schemas are made, further events do not undo it. -/
theorem prepared_reporting_prepared (s : Session) (es : List Event) :
    (s.prepared.reporting es).prepared = s.prepared.reporting es :=
  prepared_of_made rfl

/-- The events that a session has beyond those of an earlier one. -/
def eventsSince (s before : Session) : List Event := s.events.drop before.events.length

theorem eventsSince_prepared_reporting (s : Session) (es : List Event) :
    (s.prepared.reporting es).eventsSince s = s.makingEvents ++ es := by
  simp [eventsSince, reporting, prepared]

end Session

namespace Guard

theorem schemaOutcome_eq (s : Session) : schemaOutcome s = .ok s.outcome s.prepared := by
  obtain ⟨⟨name, parameters, annotations, result, settings, usesClasses, schemas⟩, classes,
    events⟩ := s
  cases schemas with
  | none => rfl
  | some outcome =>
      rw [Session.prepared_of_made rfl]
      rfl

end Guard

/-- Goes on with the schemas of the callable, or ends if they cannot be made. -/
def Session.withSchemas {α : Type} (s : Session)
    (next : CallSchemas → EStateM.Result GuardError Session α) :
    EStateM.Result GuardError Session α :=
  match s.outcome with
  | .ok c => next c
  | .error e => .error (.schema s.callable.name e) s.prepared

section WithSchemas

variable {α : Type} {s : Session} (next : CallSchemas → EStateM.Result GuardError Session α)

theorem Session.withSchemas_of_ok {c : CallSchemas} (h : s.outcome = .ok c) :
    s.withSchemas next = next c := by
  simp only [withSchemas, h]

theorem Session.withSchemas_of_error {e : SchemaError} (h : s.outcome = .error e) :
    s.withSchemas next = .error (.schema s.callable.name e) s.prepared := by
  simp only [withSchemas, h]

end WithSchemas

theorem Guard.schemas_eq (s : Session) : schemas s = s.withSchemas fun c => .ok c s.prepared := by
  simp only [schemas, bind, EStateM.bind, schemaOutcome_eq, Session.withSchemas]
  cases s.outcome with
  | ok c => rfl
  | error e => rfl

/-- A step that first gets the schemas. -/
theorem Guard.schemas_bind_eq {α : Type} (step : CallSchemas → Guard α) (s : Session) :
    (schemas >>= step) s = s.withSchemas fun c => step c s.prepared := by
  simp only [bind, EStateM.bind, schemas_eq, Session.withSchemas]
  cases s.outcome with
  | ok c => rfl
  | error e => rfl

/-! ## Verdicts -/

namespace CallSchemas

/-- The verdicts on those bound arguments that are declared, in order. -/
def verdicts (c : CallSchemas) (bindings : List Binding) : List Verdict :=
  bindings.filterMap fun b => (c.parameter? b.name).map (Guard.inspectBinding · b)

/-- The verdict on a result, if the result is declared. -/
def resultVerdicts (c : CallSchemas) (value : Value) : List Verdict :=
  (c.result.map (inspect value · "return")).toList

end CallSchemas

theorem Guard.inspectEach_announces (e : Schema) (members : List (Step × Value)) :
    Inspection.Announces (Guard.inspectEach e members) := by
  induction members with
  | nil => exact Inspection.closed_announces.pure
  | cons member rest ih =>
      obtain ⟨step, v⟩ := member
      have hv := Inspection.inspectValue_announces v e
      exact Inspection.closed_announces.seq (Inspection.closed_announces.below step hv) ih

namespace CallSchemas

theorem announced_of_mem_verdicts {c : CallSchemas} {bindings : List Binding} {v : Verdict}
    (h : v ∈ c.verdicts bindings) : Inspection.Announced [] v.trail.events := by
  obtain ⟨b, _, hb⟩ := List.mem_filterMap.mp h
  obtain ⟨e, _, rfl⟩ := Option.map_eq_some_iff.mp hb
  unfold Guard.inspectBinding
  cases b.kind with
  | restPositional => exact Guard.inspectEach_announces e _ _
  | restKeyword => exact Guard.inspectEach_announces e _ _
  | _ => exact Inspection.inspectValue_announces b.value e _

theorem announced_of_mem_resultVerdicts {c : CallSchemas} {value : Value} {v : Verdict}
    (h : v ∈ c.resultVerdicts value) : Inspection.Announced [] v.trail.events := by
  obtain ⟨e, _, rfl⟩ := Option.map_eq_some_iff.mp (Option.mem_toList.mp h)
  exact Inspection.inspectValue_announces value e _

end CallSchemas

/-- What is reported of verdicts. In strict mode nothing follows the first
    violation; otherwise each violation is a warning. -/
def reports (name : String) (strict : Bool) : List Verdict → List Event
  | [] => []
  | v :: rest =>
      v.trail.events ++
        match v.violation? with
        | none => reports name strict rest
        | some d => if strict then [] else .violation name d :: reports name strict rest

/-- The violation that ends a step: in strict mode the first one. -/
def ending? (strict : Bool) (vs : List Verdict) : Option Violation :=
  if strict then vs.findSome? Verdict.violation? else none

/-- What it comes to when a session takes note of verdicts. -/
def Session.concluded {α : Type} (s : Session) (vs : List Verdict) (a : α) :
    EStateM.Result GuardError Session α :=
  let f := s.callable
  match ending? f.settings.strict vs with
  | none => .ok a (s.reporting (reports f.name f.settings.strict vs))
  | some d => .error (.violation f.name d f.settings.cleanTraceback)
      (s.reporting (reports f.name f.settings.strict vs))

namespace Session

variable {α : Type} {s : Session} {vs : List Verdict}

theorem concluded_of_ending {d : Violation} (h : ending? s.callable.settings.strict vs = some d)
    (a : α) : s.concluded vs a =
      .error (.violation s.callable.name d s.callable.settings.cleanTraceback)
        (s.reporting (reports s.callable.name s.callable.settings.strict vs)) := by
  simp only [concluded, h]

theorem concluded_of_no_ending (h : ending? s.callable.settings.strict vs = none) (a : α) :
    s.concluded vs a =
      .ok a (s.reporting (reports s.callable.name s.callable.settings.strict vs)) := by
  simp only [concluded, h]

/-- Verdicts that let a step go on leave further events behind and nothing else. -/
theorem eq_reporting_of_concluded {s' : Session} {a b : α} (h : s.concluded vs a = .ok b s') :
    ∃ es, s' = s.reporting es := by
  cases hending : ending? s.callable.settings.strict vs with
  | none =>
      rw [concluded_of_no_ending hending] at h
      cases h
      exact ⟨_, rfl⟩
  | some d =>
      rw [concluded_of_ending hending] at h
      cases h

end Session

namespace Guard

theorem report_eq (d : Violation) (s : Session) :
    report d s = if s.callable.settings.strict
      then .error (.violation s.callable.name d s.callable.settings.cleanTraceback) s
      else .ok () (s.reporting [.violation s.callable.name d]) := by
  have hreport : report d s = (if s.callable.settings.strict
      then throw (.violation s.callable.name d s.callable.settings.cleanTraceback)
      else log (.violation s.callable.name d) : Guard Unit) s := rfl
  rw [hreport]
  split <;> rfl

theorem conclude_eq (v : Verdict) (s : Session) : conclude v s = s.concluded [v] () := by
  cases v with
  | ok a t =>
      have hending : ending? s.callable.settings.strict [.ok () t] = none := by
        simp [ending?, Verdict.violation?]
      have hreports : reports s.callable.name s.callable.settings.strict [.ok () t] = t.events := by
        simp [reports, Verdict.trail, Verdict.violation?]
      simp only [Session.concluded, hending, hreports]
      rfl
  | error d t =>
      have hconclude : conclude (.error d t) s = report d (s.reporting t.events) := rfl
      rw [hconclude, report_eq]
      cases hstrict : s.callable.settings.strict with
      | true =>
          simp [Session.concluded, Session.reporting, ending?, reports, hstrict, Verdict.trail,
            Verdict.violation?]
      | false =>
          simp [Session.concluded, Session.reporting, ending?, reports, hstrict, Verdict.trail,
            Verdict.violation?]

@[simp] theorem concluded_nil {α : Type} (s : Session) (a : α) : s.concluded [] a = .ok a s := by
  simp [Session.concluded, Session.reporting, ending?, reports]

/-- Verdicts are taken note of one after the other. -/
theorem concluded_cons (s : Session) (v : Verdict) (vs : List Verdict) :
    s.concluded (v :: vs) () = match s.concluded [v] () with
      | .ok () s' => s'.concluded vs ()
      | .error e s' => .error e s' := by
  cases hv : v.violation? with
  | none =>
      have hending : ending? s.callable.settings.strict (v :: vs) =
          ending? s.callable.settings.strict vs := by
        simp [ending?, hv]
      have hfirst : s.concluded [v] () = .ok () (s.reporting v.trail.events) := by
        simp [Session.concluded, ending?, reports, hv]
      rw [hfirst]
      simp only [Session.concluded, hending, reports, hv]
      simp [Session.reporting]
  | some d =>
      cases hstrict : s.callable.settings.strict with
      | true => simp [Session.concluded, ending?, reports, hv, hstrict]
      | false => simp [Session.concluded, Session.reporting, ending?, reports, hv, hstrict]

theorem checkBindings_eq (c : CallSchemas) (bindings : List Binding) (s : Session) :
    checkBindings c bindings s = s.concluded (c.verdicts bindings) () := by
  induction bindings generalizing s with
  | nil => exact (concluded_nil s ()).symm
  | cons b rest ih =>
      cases hb : c.parameter? b.name with
      | none =>
          have hverdicts : c.verdicts (b :: rest) = c.verdicts rest := by
            simp [CallSchemas.verdicts, hb]
          rw [hverdicts, ← ih]
          simp only [checkBindings, hb]
      | some schema =>
          have hverdicts : c.verdicts (b :: rest) = inspectBinding schema b :: c.verdicts rest := by
            simp [CallSchemas.verdicts, hb]
          rw [hverdicts, concluded_cons, ← conclude_eq]
          simp only [checkBindings, hb, bind, EStateM.bind]
          cases conclude (inspectBinding schema b) s with
          | ok a s' => exact ih s'
          | error e s' => rfl

/-! ## Checks -/

theorem checkArguments_eq (bindings : List Binding) (s : Session) :
    checkArguments bindings s = (if !s.callable.settings.enabled
      then log (.argumentsSkipped s.callable.name)
      else schemas >>= fun c => checkBindings c bindings : Guard Unit) s := rfl

theorem checkResult_eq (value : Value) (s : Session) :
    checkResult value s = (if !s.callable.settings.enabled
      then log (.resultSkipped s.callable.name)
      else schemas >>= fun c => match c.result with
        | none => pure ()
        | some e => conclude (inspect value e "return") : Guard Unit) s := rfl

section Disabled

variable {s : Session} (h : s.callable.settings.enabled = false)
include h

theorem checkArguments_of_disabled (bindings : List Binding) :
    checkArguments bindings s = .ok () (s.reporting [.argumentsSkipped s.callable.name]) := by
  rw [checkArguments_eq, h]
  rfl

theorem checkResult_of_disabled (value : Value) :
    checkResult value s = .ok () (s.reporting [.resultSkipped s.callable.name]) := by
  rw [checkResult_eq, h]
  rfl

end Disabled

section Enabled

variable {s : Session} (h : s.callable.settings.enabled = true)
include h

theorem checkArguments_of_enabled (bindings : List Binding) :
    checkArguments bindings s =
      s.withSchemas fun c => s.prepared.concluded (c.verdicts bindings) () := by
  rw [checkArguments_eq, if_neg (by simp [h]), schemas_bind_eq]
  congr 1
  funext c
  exact checkBindings_eq c bindings s.prepared

theorem checkResult_of_enabled (value : Value) :
    checkResult value s =
      s.withSchemas fun c => s.prepared.concluded (c.resultVerdicts value) () := by
  rw [checkResult_eq, if_neg (by simp [h]), schemas_bind_eq]
  congr 1
  funext c
  cases hresult : c.result with
  | none =>
      have hverdicts : c.resultVerdicts value = [] := by
        simp [CallSchemas.resultVerdicts, hresult]
      rw [hverdicts, concluded_nil]
      rfl
  | some e =>
      have hverdicts : c.resultVerdicts value = [inspect value e "return"] := by
        simp [CallSchemas.resultVerdicts, hresult]
      rw [hverdicts]
      exact conclude_eq _ s.prepared

end Enabled

theorem bindArguments_eq (args : List Value) (keywords : List (String × Value)) (s : Session) :
    bindArguments args keywords s = (match s.callable.parameters.bind args keywords with
      | .ok bindings => pure bindings
      | .error e => throw (.binding s.callable.name e) : Guard (List Binding)) s := rfl

end Guard

/-! ## Calls -/

namespace Session

variable {s : Session} {args : List Value} {keywords : List (String × Value)}
  {bindings : List Binding} (invoke : List Binding → Value)

theorem call_of_unbound {e : BindingError}
    (hbind : s.callable.parameters.bind args keywords = .error e) :
    s.call args keywords invoke = (⟨.error (.binding s.callable.name e), none⟩, s) := by
  have hbindArguments : Guard.bindArguments args keywords s =
      .error (.binding s.callable.name e) s := by
    rw [Guard.bindArguments_eq, hbind]
    rfl
  simp only [call, Guard.enter, bind, EStateM.bind, hbindArguments]

/-- A call that binds its arguments checks them, runs the callable if they pass,
    and checks the result. -/
theorem call_of_bound (hbind : s.callable.parameters.bind args keywords = .ok bindings) :
    s.call args keywords invoke = match Guard.checkArguments bindings s with
      | .error e s' => (⟨.error e, none⟩, s')
      | .ok () s' => match Guard.checkResult (invoke bindings) s' with
        | .error e s'' => (⟨.error e, some bindings⟩, s'')
        | .ok () s'' => (⟨.ok (invoke bindings), some bindings⟩, s'') := by
  have hbindArguments : Guard.bindArguments args keywords s = .ok bindings s := by
    rw [Guard.bindArguments_eq, hbind]
    rfl
  simp only [call, Guard.enter, bind, EStateM.bind, hbindArguments]
  cases Guard.checkArguments bindings s with
  | error e s' => rfl
  | ok a s' =>
      simp only [Guard.leave, bind, EStateM.bind, pure, EStateM.pure]
      cases Guard.checkResult (invoke bindings) s' with
      | error e s'' => rfl
      | ok b s'' => rfl

theorem call_of_disabled (h : s.callable.settings.enabled = false)
    (hbind : s.callable.parameters.bind args keywords = .ok bindings) :
    s.call args keywords invoke = (⟨.ok (invoke bindings), some bindings⟩,
      s.reporting [.argumentsSkipped s.callable.name, .resultSkipped s.callable.name]) := by
  have hafter :
      (s.reporting [.argumentsSkipped s.callable.name]).callable.settings.enabled = false := h
  rw [call_of_bound invoke hbind, Guard.checkArguments_of_disabled h]
  dsimp only
  rw [Guard.checkResult_of_disabled hafter, reporting_reporting]
  rfl

section Enabled

variable (h : s.callable.settings.enabled = true)
  (hbind : s.callable.parameters.bind args keywords = .ok bindings)
include h hbind

theorem call_of_no_schemas {e : SchemaError} (houtcome : s.outcome = .error e) :
    s.call args keywords invoke = (⟨.error (.schema s.callable.name e), none⟩, s.prepared) := by
  rw [call_of_bound invoke hbind, Guard.checkArguments_of_enabled h,
    withSchemas_of_error _ houtcome]

/-- With its schemas made, a call is decided by the verdicts on the arguments
    and, if the callable is run, on the result. -/
theorem call_of_schemas {c : CallSchemas} (houtcome : s.outcome = .ok c) :
    s.call args keywords invoke = match s.prepared.concluded (c.verdicts bindings) () with
      | .error e s' => (⟨.error e, none⟩, s')
      | .ok () s' => match s'.concluded (c.resultVerdicts (invoke bindings)) () with
        | .error e s'' => (⟨.error e, some bindings⟩, s'')
        | .ok () s'' => (⟨.ok (invoke bindings), some bindings⟩, s'') := by
  rw [call_of_bound invoke hbind, Guard.checkArguments_of_enabled h, withSchemas_of_ok _ houtcome]
  cases hchecked : s.prepared.concluded (c.verdicts bindings) () with
  | error e s' => rfl
  | ok a s' =>
      obtain ⟨es, rfl⟩ := eq_reporting_of_concluded hchecked
      have hafter : (s.prepared.reporting es).callable.settings.enabled = true := h
      have hmade : (s.prepared.reporting es).outcome = .ok c := houtcome
      dsimp only
      rw [Guard.checkResult_of_enabled hafter, withSchemas_of_ok _ hmade,
        prepared_reporting_prepared]

end Enabled

end Session

end Conform

/-
  Conform.Proofs.Guard.FirstNeed

  The schemas of a callable are made once, when a step first needs them, and
  kept from then on. Between the steps the surroundings change: the settings of
  the callable are replaced and classes are registered in the shared table. What
  a step needs and when that is first so depend on the surroundings and on the
  declarations alone, so they are said here without a session; the session then
  follows. However a callable is put together, the schemas that it keeps are
  those of its own declarations (`GuardedCallable.Attainable.keepsOwnSchemas`).
-/

import Conform.Proofs.ClassTable.Registration
import Conform.Proofs.Guard.Calls

namespace Conform

/-! ## Actions -/

/-- What may happen in a session while the declarations stay as they are. -/
inductive Action where
  | call (args : List Value) (keywords : List (String × Value)) (invoke : List Binding → Value)
  | checkArguments (bindings : List Binding)
  | checkResult (value : Value)
  | makeSchemas
  | changeSettings (settings : Settings)
  | register (name : String) (bases : List String)

/-- What an action comes to. -/
inductive Answer where
  | called (outcome : CallOutcome)
  | checked (result : Except GuardError Unit)
  | made (result : Except GuardError CallSchemas)
  | changed
  | registered (result : Except ClassError Unit)

namespace Answer

/-- The answer and the session that a step ends with. -/
def ofResult {α : Type} (answer : Except GuardError α → Answer) :
    EStateM.Result GuardError Session α → Answer × Session
  | .ok a s => (answer (.ok a), s)
  | .error e s => (answer (.error e), s)

end Answer

namespace Session

/-- Takes an action. A registration that is refused changes nothing. -/
def perform (s : Session) : Action → Answer × Session
  | .call args keywords invoke =>
      let (outcome, s') := s.call args keywords invoke
      (.called outcome, s')
  | .checkArguments bindings => Answer.ofResult .checked (Guard.checkArguments bindings s)
  | .checkResult value => Answer.ofResult .checked (Guard.checkResult value s)
  | .makeSchemas => Answer.ofResult .made (Guard.schemas s)
  | .changeSettings settings =>
      (.changed, { s with callable := s.callable.withSettings settings })
  | .register name bases =>
      match s.register name bases with
      | .ok s' => (.registered (.ok ()), s')
      | .error e => (.registered (.error e), s)

/-- The session after several actions. -/
def performAll (s : Session) (actions : List Action) : Session :=
  actions.foldl (fun s a => (s.perform a).2) s

end Session

/-! ## Surroundings -/

/-- What changes from outside between the steps of a session. -/
structure Surroundings where
  settings : Settings
  classes : ClassTable

namespace Surroundings

/-- The surroundings after an action. -/
def after (o : Surroundings) : Action → Surroundings
  | .changeSettings settings => { o with settings }
  | .register name bases => { o with classes := o.classes.attempt (name, bases) }
  | _ => o

/-- The surroundings after several actions. -/
def afterAll (o : Surroundings) (actions : List Action) : Surroundings := actions.foldl after o

end Surroundings

/-- Whether an action on a callable with these parameters and settings needs its
    schemas. While the guard is off only an explicit request does, and a call
    does not if its arguments do not bind. -/
def Action.needsSchemas (ps : ParameterList) (settings : Settings) : Action → Bool
  | .call args keywords _ => settings.enabled && (ps.bind args keywords).isOk
  | .checkArguments _ | .checkResult _ => settings.enabled
  | .makeSchemas => true
  | .changeSettings _ | .register .. => false

namespace Surroundings

/-- The classes that are registered when an action first needs the schemas. -/
def classesAtFirstNeed (ps : ParameterList) (o : Surroundings) :
    List Action → Option ClassTable
  | [] => none
  | a :: rest =>
      if a.needsSchemas ps o.settings then some o.classes
      else (o.after a).classesAtFirstNeed ps rest

theorem after_of_needed {ps : ParameterList} {o : Surroundings} {a : Action}
    (h : a.needsSchemas ps o.settings = true) : o.after a = o := by
  cases a with
  | changeSettings settings => cases h
  | register name bases => cases h
  | _ => rfl

theorem classesAtFirstNeed_singleton (ps : ParameterList) (o : Surroundings) (a : Action) :
    o.classesAtFirstNeed ps [a] = if a.needsSchemas ps o.settings then some o.classes else none :=
  rfl

theorem classesAtFirstNeed_append (ps : ParameterList) (o : Surroundings)
    (actions more : List Action) :
    o.classesAtFirstNeed ps (actions ++ more) = (o.classesAtFirstNeed ps actions).or
      ((o.afterAll actions).classesAtFirstNeed ps more) := by
  induction actions generalizing o with
  | nil => rfl
  | cons a rest ih =>
      rw [List.cons_append, classesAtFirstNeed, classesAtFirstNeed]
      split
      · rfl
      · exact ih (o.after a)

end Surroundings

/-! ## Making the schemas -/

/-- Whether an event tells that schemas are made. -/
def Event.isSchemasMade : Event → Bool
  | .schemasMade .. => true
  | _ => false

/-- No event among these tells that schemas are made. -/
def NoneMade (es : List Event) : Prop := ∀ e ∈ es, e.isSchemasMade = false

theorem NoneMade.nil : NoneMade [] := by simp [NoneMade]

theorem NoneMade.append {es fs : List Event} (hes : NoneMade es) (hfs : NoneMade fs) :
    NoneMade (es ++ fs) := by
  intro e he
  exact (List.mem_append.mp he).elim (hes e) (hfs e)

theorem NoneMade.of_announced {es : List Event} (h : Inspection.Announced [] es) :
    NoneMade es := by
  obtain ⟨places, rfl⟩ := h
  intro e he
  obtain ⟨place, _, rfl⟩ := List.mem_map.mp he
  rfl

theorem NoneMade.reports (name : String) (strict : Bool) {vs : List Verdict}
    (h : ∀ v ∈ vs, Inspection.Announced [] v.trail.events) :
    NoneMade (reports name strict vs) := by
  induction vs with
  | nil => exact .nil
  | cons v rest ih =>
      obtain ⟨hv, hrest⟩ := List.forall_mem_cons.mp h
      rw [Conform.reports]
      apply (NoneMade.of_announced hv).append
      cases v.violation? with
      | none => exact ih hrest
      | some d =>
          cases strict with
          | true => exact .nil
          | false => exact List.forall_mem_cons.mpr ⟨rfl, ih hrest⟩

/-! ## Steps that need the schemas -/

namespace GuardedCallable

/-- The callable with its schemas not made. -/
def unmade (f : GuardedCallable) : GuardedCallable := { f with schemas := none }

/-- What verdicts amount to under the settings of a callable. -/
def conclusion (f : GuardedCallable) (vs : List Verdict) : Except GuardError Unit :=
  match ending? f.settings.strict vs with
  | none => .ok ()
  | some d => .error (.violation f.name d f.settings.cleanTraceback)

end GuardedCallable

namespace Session

/-- The end of a step, whether it succeeds or fails. -/
def ended {α : Type} (s : Session) : Except GuardError α → EStateM.Result GuardError Session α
  | .ok a => .ok a s
  | .error e => .error e s

theorem ofResult_ended {α : Type} (answer : Except GuardError α → Answer) (s : Session)
    (result : Except GuardError α) :
    Answer.ofResult answer (s.ended result) = (answer result, s) := by
  cases result with
  | ok a => rfl
  | error e => rfl

theorem concluded_eq_ended {s : Session} {f : GuardedCallable} (h : s.callable.unmade = f.unmade)
    (vs : List Verdict) : s.concluded vs () =
      (s.reporting (reports f.name f.settings.strict vs)).ended (f.conclusion vs) := by
  have hname : s.callable.name = f.name := congrArg (·.name) h
  have hsettings : s.callable.settings = f.settings := congrArg (·.settings) h
  unfold GuardedCallable.conclusion
  cases hending : ending? f.settings.strict vs with
  | none =>
      rw [concluded_of_no_ending (by rw [hsettings, hending]), hname, hsettings]
      rfl
  | some d =>
      rw [concluded_of_ending (by rw [hsettings, hending]), hname, hsettings]
      rfl

/-- What an action comes to in a session: the answer, and the events beside that
    of making the schemas. -/
structure Response where
  answer : Answer
  events : List Event
  noneMade : NoneMade events

/-- The response to an action of all sessions of a callable in which making the
    schemas came to a given outcome, or would come to it now. -/
def Responds (f : GuardedCallable) (outcome : Except SchemaError CallSchemas) (a : Action)
    (r : Response) : Prop :=
  ∀ s : Session, s.callable.unmade = f.unmade → s.outcome = outcome →
    s.perform a = (r.answer, s.prepared.reporting r.events)

section Responses

variable (f : GuardedCallable)

theorem responds_makeSchemas (outcome : Except SchemaError CallSchemas) :
    ∃ r, Responds f outcome .makeSchemas r := by
  refine ⟨⟨.made (outcome.mapError (.schema f.name)), [], .nil⟩, ?_⟩
  intro s hs houtcome
  have hname : s.callable.name = f.name := congrArg (·.name) hs
  rw [perform, Guard.schemas_eq, reporting_nil]
  cases outcome with
  | ok c =>
      rw [withSchemas_of_ok _ houtcome]
      rfl
  | error e =>
      rw [withSchemas_of_error _ houtcome, hname]
      rfl

/-- A check that takes note of verdicts on what it is given. -/
theorem responds_check {a : Action} (vs : CallSchemas → List Verdict)
    (hvs : ∀ c, ∀ v ∈ vs c, Inspection.Announced [] v.trail.events)
    (h : ∀ s : Session, s.callable.unmade = f.unmade → s.perform a =
      Answer.ofResult .checked (s.withSchemas fun c => s.prepared.concluded (vs c) ()))
    (outcome : Except SchemaError CallSchemas) : ∃ r, Responds f outcome a r := by
  cases outcome with
  | error e =>
      refine ⟨⟨.checked (.error (.schema f.name e)), [], .nil⟩, ?_⟩
      intro s hs houtcome
      have hname : s.callable.name = f.name := congrArg (·.name) hs
      rw [h s hs, withSchemas_of_error _ houtcome, hname, reporting_nil]
      rfl
  | ok c =>
      refine ⟨⟨.checked (f.conclusion (vs c)), reports f.name f.settings.strict (vs c),
        .reports _ _ (hvs c)⟩, ?_⟩
      intro s hs houtcome
      have hprepared : s.prepared.callable.unmade = f.unmade := hs
      rw [h s hs, withSchemas_of_ok _ houtcome, concluded_eq_ended hprepared, ofResult_ended]

section Enabled

variable (henabled : f.settings.enabled = true)
include henabled

theorem enabled_of_unmade {s : Session} (hs : s.callable.unmade = f.unmade) :
    s.callable.settings.enabled = true :=
  (congrArg (·.settings.enabled) hs).trans henabled

theorem responds_checkArguments (bindings : List Binding)
    (outcome : Except SchemaError CallSchemas) :
    ∃ r, Responds f outcome (.checkArguments bindings) r := by
  apply responds_check f (·.verdicts bindings)
    fun c v hv => CallSchemas.announced_of_mem_verdicts hv
  intro s hs
  rw [perform, Guard.checkArguments_of_enabled (enabled_of_unmade f henabled hs)]

theorem responds_checkResult (value : Value) (outcome : Except SchemaError CallSchemas) :
    ∃ r, Responds f outcome (.checkResult value) r := by
  apply responds_check f (·.resultVerdicts value) fun c v hv =>
    CallSchemas.announced_of_mem_resultVerdicts hv
  intro s hs
  rw [perform, Guard.checkResult_of_enabled (enabled_of_unmade f henabled hs)]

theorem responds_call {args : List Value} {keywords : List (String × Value)}
    {bindings : List Binding} (hbind : f.parameters.bind args keywords = .ok bindings)
    (invoke : List Binding → Value) (outcome : Except SchemaError CallSchemas) :
    ∃ r, Responds f outcome (.call args keywords invoke) r := by
  have hbind' {s : Session} (hs : s.callable.unmade = f.unmade) :
      s.callable.parameters.bind args keywords = .ok bindings :=
    (congrArg (·.parameters.bind args keywords) hs).trans hbind
  -- a call can end at the schemas, at its arguments or at its result
  cases outcome with
  | error e =>
      refine ⟨⟨.called ⟨.error (.schema f.name e), none⟩, [], .nil⟩, ?_⟩
      intro s hs houtcome
      have hname : s.callable.name = f.name := congrArg (·.name) hs
      rw [perform, call_of_no_schemas invoke (enabled_of_unmade f henabled hs) (hbind' hs) houtcome,
        hname, reporting_nil]
  | ok c =>
      have hcall {s : Session} (hs : s.callable.unmade = f.unmade) (houtcome : s.outcome = .ok c) :=
        call_of_schemas invoke (enabled_of_unmade f henabled hs) (hbind' hs) houtcome
      have hannounced := NoneMade.reports f.name f.settings.strict
        fun v (hv : v ∈ c.verdicts bindings) => CallSchemas.announced_of_mem_verdicts hv
      have hannounced' := NoneMade.reports f.name f.settings.strict
        fun v (hv : v ∈ c.resultVerdicts (invoke bindings)) =>
          CallSchemas.announced_of_mem_resultVerdicts hv
      cases harguments : f.conclusion (c.verdicts bindings) with
      | error e =>
          refine ⟨⟨.called ⟨.error e, none⟩, _, hannounced⟩, ?_⟩
          intro s hs houtcome
          have hprepared : s.prepared.callable.unmade = f.unmade := hs
          rw [perform, hcall hs houtcome, concluded_eq_ended hprepared, harguments]
          rfl
      | ok u =>
          refine ⟨⟨.called ⟨(f.conclusion (c.resultVerdicts (invoke bindings))).map
            fun _ => invoke bindings, some bindings⟩, _, hannounced.append hannounced'⟩, ?_⟩
          intro s hs houtcome
          have hprepared : s.prepared.callable.unmade = f.unmade := hs
          have hafter (es : List Event) : (s.prepared.reporting es).callable.unmade = f.unmade := hs
          rw [perform, hcall hs houtcome, concluded_eq_ended hprepared, harguments, ended]
          dsimp only
          rw [concluded_eq_ended (hafter _), reporting_reporting]
          cases f.conclusion (c.resultVerdicts (invoke bindings)) with
          | ok w => rfl
          | error e => rfl

end Enabled

theorem responds_of_needed (outcome : Except SchemaError CallSchemas) {a : Action}
    (h : a.needsSchemas f.parameters f.settings = true) : ∃ r, Responds f outcome a r := by
  cases a with
  | call args keywords invoke =>
      obtain ⟨henabled, hbinds⟩ := Bool.and_eq_true_iff.mp h
      cases hbind : f.parameters.bind args keywords with
      | ok bindings => exact responds_call f henabled hbind invoke outcome
      | error e =>
          rw [hbind] at hbinds
          cases hbinds
  | checkArguments bindings => exact responds_checkArguments f h bindings outcome
  | checkResult value => exact responds_checkResult f h value outcome
  | makeSchemas => exact responds_makeSchemas f outcome
  | changeSettings settings => cases h
  | register name bases => cases h

end Responses

/-! ## Histories -/

/-- What of a session changes from outside. -/
def surroundings (s : Session) : Surroundings := ⟨s.callable.settings, s.classes⟩

/-- How often events tell that schemas are made. -/
def timesMade (es : List Event) : Nat := es.countP Event.isSchemasMade

theorem timesMade_append (es fs : List Event) :
    timesMade (es ++ fs) = timesMade es + timesMade fs :=
  List.countP_append

theorem timesMade_of_noneMade {es : List Event} (h : NoneMade es) : timesMade es = 0 := by
  rw [timesMade, List.countP_eq_zero]
  intro e he
  simp [h e he]

/-- A session that came from another one. Between the two the surroundings
    became `o`, and the schemas were first needed when `first` was the table of
    classes, if they were needed at all. -/
structure Led (s : Session) (o : Surroundings) (first : Option ClassTable) (s' : Session) :
    Prop where
  callable : s'.callable = { s.callable with
    settings := o.settings
    schemas := s.callable.schemas.or (first.map s.callable.makeSchemas) }
  classes : s'.classes = o.classes
  events : ∃ es, s'.events = s.events ++ es ∧
    timesMade es = if s.callable.schemas.isNone && first.isSome then 1 else 0

theorem Led.reporting (s : Session) {es : List Event} (h : NoneMade es) :
    Led s s.surroundings none (s.reporting es) where
  callable := by simp [surroundings, Session.reporting]
  classes := rfl
  events := ⟨es, rfl, by simpa using timesMade_of_noneMade h⟩

theorem Led.refl (s : Session) : Led s s.surroundings none s := by
  have h := Led.reporting s .nil
  rwa [reporting_nil] at h

theorem timesMade_makingEvents (s : Session) :
    timesMade s.makingEvents = if s.callable.schemas.isNone then 1 else 0 := by
  unfold makingEvents
  cases s.callable.schemas with
  | some kept => rfl
  | none => rfl

theorem Led.prepared (s : Session) : Led s s.surroundings (some s.classes) s.prepared where
  callable := by
    have hmade : some s.outcome =
        s.callable.schemas.or (some (s.callable.makeSchemas s.classes)) := by
      unfold outcome
      cases s.callable.schemas with
      | some kept => rfl
      | none => rfl
    simp [Session.prepared, surroundings, hmade]
  classes := rfl
  events := ⟨s.makingEvents, rfl, by simpa using timesMade_makingEvents s⟩

theorem Led.trans {s s' s'' : Session} {o o' : Surroundings} {first second : Option ClassTable}
    (h : Led s o first s') (h' : Led s' o' second s'') : Led s o' (first.or second) s'' where
  callable := by
    rw [h'.callable, h.callable, Option.map_or, Option.or_assoc]
    rfl
  classes := h'.classes
  events := by
    obtain ⟨es, hes, hcount⟩ := h.events
    obtain ⟨fs, hfs, hcount'⟩ := h'.events
    refine ⟨es ++ fs, by rw [hfs, hes, List.append_assoc], ?_⟩
    rw [timesMade_append, hcount, hcount', h.callable]
    -- the second part makes the schemas only if nothing before it did
    cases s.callable.schemas with
    | some kept => simp
    | none =>
        cases first with
        | some classes => simp
        | none => simp

theorem perform_register (s : Session) (name : String) (bases : List String) :
    (s.perform (.register name bases)).2 =
      { s with classes := s.classes.attempt (name, bases) } := by
  rcases s.classes.attempt_cases (name, bases) with ⟨h, _, hafter⟩ | ⟨_, hrefused, hafter⟩
  · have hregister := (ClassTable.register_eq_ok_iff).mpr ⟨h, rfl⟩
    simp only [perform, register, hregister, hafter]
    rfl
  · cases hregister : s.classes.register name bases with
    | ok t => simp [hregister, Except.isOk, Except.toBool] at hrefused
    | error e =>
        simp only [perform, register, hregister, hafter]
        rfl

/-- A step that does not need the schemas leaves them alone. -/
theorem Led.of_not_needed {s : Session} {a : Action}
    (h : a.needsSchemas s.callable.parameters s.callable.settings = false) :
    Led s (s.surroundings.after a) none (s.perform a).2 := by
  cases a with
  | call args keywords invoke =>
      -- its arguments do not bind, or the guard is off
      cases hbind : s.callable.parameters.bind args keywords with
      | error e =>
          rw [perform, call_of_unbound invoke hbind]
          exact .refl s
      | ok bindings =>
          have hdisabled : s.callable.settings.enabled = false := by
            simpa [Action.needsSchemas, hbind, Except.isOk, Except.toBool] using h
          rw [perform, call_of_disabled invoke hdisabled hbind]
          exact .reporting s (by simp [NoneMade, Event.isSchemasMade])
  | checkArguments bindings =>
      rw [perform, Guard.checkArguments_of_disabled h]
      exact .reporting s (by simp [NoneMade, Event.isSchemasMade])
  | checkResult value =>
      rw [perform, Guard.checkResult_of_disabled h]
      exact .reporting s (by simp [NoneMade, Event.isSchemasMade])
  | makeSchemas => cases h
  | changeSettings settings =>
      exact ⟨by simp [perform, Surroundings.after, GuardedCallable.withSettings], rfl,
        [], by simp [perform], by simp [timesMade]⟩
  | register name bases =>
      rw [perform_register]
      exact ⟨by simp [surroundings, Surroundings.after], rfl, [], by simp, by simp [timesMade]⟩

/-- One action leads from a session to the next. -/
theorem Led.perform (s : Session) (a : Action) :
    Led s (s.surroundings.after a) (s.surroundings.classesAtFirstNeed s.callable.parameters [a])
      (s.perform a).2 := by
  rw [Surroundings.classesAtFirstNeed_singleton]
  split
  case isTrue hneeds =>
    obtain ⟨r, hr⟩ := responds_of_needed s.callable s.outcome hneeds
    rw [hr s rfl rfl, Surroundings.after_of_needed hneeds]
    exact (Led.prepared s).trans (.reporting s.prepared r.noneMade)
  case isFalse hneeds =>
    exact .of_not_needed (Bool.eq_false_iff.mpr hneeds)

/-- So do any actions, one after the other. -/
theorem Led.performAll (s : Session) (actions : List Action) :
    Led s (s.surroundings.afterAll actions)
      (s.surroundings.classesAtFirstNeed s.callable.parameters actions)
      (s.performAll actions) := by
  induction actions generalizing s with
  | nil => exact .refl s
  | cons a rest ih =>
      have hstep := Led.perform s a
      have hrest := ih (s.perform a).2
      -- the rest starts from the surroundings that the first action leaves
      have hsurroundings : (s.perform a).2.surroundings = s.surroundings.after a := by
        rw [surroundings, hstep.callable, hstep.classes]
      have hparameters : (s.perform a).2.callable.parameters = s.callable.parameters :=
        congrArg (·.parameters) hstep.callable
      rw [hsurroundings, hparameters] at hrest
      have hfirst := s.surroundings.classesAtFirstNeed_append s.callable.parameters [a] rest
      rw [List.singleton_append] at hfirst
      rw [hfirst]
      exact hstep.trans hrest

end Session

/-! ## Callables keep their own schemas -/

namespace GuardedCallable

/-- Schemas that are kept were made from the callable's own declarations, with
    the classes of some moment. -/
def KeepsOwnSchemas (f : GuardedCallable) : Prop :=
  ∀ kept, f.schemas = some kept → ∃ classes, kept = f.makeSchemas classes

theorem keepsOwnSchemas_of_unmade {f : GuardedCallable} (h : f.schemas = none) :
    f.KeepsOwnSchemas := by
  intro kept hkept
  rw [h] at hkept
  cases hkept

/-- Schemas that were made before or are made at the first need are the
    callable's own. -/
theorem KeepsOwnSchemas.led {s s' : Session} {o : Surroundings} {first : Option ClassTable}
    (h : s.callable.KeepsOwnSchemas) (hled : s.Led o first s') : s'.callable.KeepsOwnSchemas := by
  rw [hled.callable]
  intro kept hkept
  rcases Option.or_eq_some_iff.mp hkept with hbefore | ⟨_, hfirst⟩
  · exact h kept hbefore
  · obtain ⟨classes, _, hmade⟩ := Option.map_eq_some_iff.mp hfirst
    exact ⟨classes, hmade.symm⟩

/-- The callables that can be had: new ones, and what declarations, settings and
    the actions of a session make of others. -/
inductive Attainable : GuardedCallable → Prop
  | new (name : String) (parameters : ParameterList) : Attainable (new name parameters)
  | declareParameter {f : GuardedCallable} (parameter : String) (a : Annotation) :
      Attainable f → Attainable (f.declareParameter parameter a)
  | declareResult {f : GuardedCallable} (a : Annotation) :
      Attainable f → Attainable (f.declareResult a)
  | withSettings {f : GuardedCallable} (settings : Settings) :
      Attainable f → Attainable (f.withSettings settings)
  | withClasses {f : GuardedCallable} (uses : Bool) : Attainable f → Attainable (f.withClasses uses)
  | perform {s : Session} (a : Action) : Attainable s.callable → Attainable (s.perform a).2.callable

/-- Declaring drops the schemas, and settings have no part in making them. -/
theorem Attainable.keepsOwnSchemas {f : GuardedCallable} (h : Attainable f) :
    f.KeepsOwnSchemas := by
  induction h with
  | new => exact keepsOwnSchemas_of_unmade rfl
  | declareParameter => exact keepsOwnSchemas_of_unmade rfl
  | declareResult => exact keepsOwnSchemas_of_unmade rfl
  | withSettings settings _ ih => exact ih
  | withClasses => exact keepsOwnSchemas_of_unmade rfl
  | perform a _ ih => exact ih.led (.perform _ a)

end GuardedCallable

/-! ## Steps after any history -/

namespace Session

theorem Led.eventsSince {s s' : Session} {o : Surroundings} {first : Option ClassTable}
    (h : Led s o first s') : timesMade (s'.eventsSince s) =
      if s.callable.schemas.isNone && first.isSome then 1 else 0 := by
  obtain ⟨es, hes, hcount⟩ := h.events
  rw [Session.eventsSince, hes, List.drop_left, hcount]

/-- Events beside those of making schemas. -/
def otherEvents (es : List Event) : List Event := es.filter (!·.isSchemasMade)

theorem otherEvents_makingEvents_append (s : Session) {es : List Event} (h : NoneMade es) :
    otherEvents (s.makingEvents ++ es) = es := by
  have hmaking : otherEvents s.makingEvents = [] := by
    unfold makingEvents
    split <;> rfl
  have hes : otherEvents es = es := List.filter_eq_self.mpr fun e he => by simp [h e he]
  rw [otherEvents, List.filter_append]
  exact (congrArg₂ (· ++ ·) hmaking hes).trans (List.nil_append es)

/-- Two sessions of one callable answer alike when making its schemas came to the
    same, or would. -/
theorem perform_agrees {s u : Session} {a : Action}
    (hneeds : a.needsSchemas s.callable.parameters s.callable.settings = true)
    (hcallable : u.callable.unmade = s.callable.unmade) (houtcome : u.outcome = s.outcome) :
    (s.perform a).1 = (u.perform a).1 ∧
      otherEvents ((s.perform a).2.eventsSince s) =
        otherEvents ((u.perform a).2.eventsSince u) := by
  obtain ⟨r, hr⟩ := responds_of_needed s.callable s.outcome hneeds
  rw [hr s rfl rfl, hr u hcallable houtcome]
  dsimp only
  rw [eventsSince_prepared_reporting, eventsSince_prepared_reporting,
    otherEvents_makingEvents_append s r.noneMade, otherEvents_makingEvents_append u r.noneMade]
  exact ⟨rfl, rfl⟩

/-- The schemas of a callable are made once, in any history that starts before
    they are made. After it the callable keeps what making them against the
    classes of the first need came to, good or bad, and nothing later changes
    that; the event of making them was reported once if they were needed and
    otherwise never. A further step that needs the schemas behaves as in a new
    session of the callable over those classes, and one that does not need them
    does not make them. -/
theorem schemas_made_once (s : Session) (hunmade : s.callable.schemas = none)
    (actions : List Action) :
    let f := s.callable
    let o := s.surroundings.afterAll actions
    let first := s.surroundings.classesAtFirstNeed f.parameters actions
    let s' := s.performAll actions
    s'.callable = { f with settings := o.settings, schemas := first.map f.makeSchemas } ∧
    s'.classes = o.classes ∧
    timesMade (s'.eventsSince s) = (if first.isSome then 1 else 0) ∧
    (first.isSome → ∀ later, (s'.performAll later).callable.schemas = s'.callable.schemas) ∧
    ∀ a : Action,
      if a.needsSchemas f.parameters o.settings then
        ∃ classes,
          s.surroundings.classesAtFirstNeed f.parameters (actions ++ [a]) = some classes ∧
          let new : Session := ⟨{ f with settings := o.settings }, classes, []⟩
          (s'.perform a).1 = (new.perform a).1 ∧
          otherEvents ((s'.perform a).2.eventsSince s') = otherEvents (new.perform a).2.events
      else timesMade ((s'.perform a).2.eventsSince s') = 0 := by
  intro f o first s'
  have hled : Led s o first s' := .performAll s actions
  have hcallable : s'.callable =
      { f with settings := o.settings, schemas := first.map f.makeSchemas } := by
    rw [hled.callable, hunmade, Option.none_or]
  refine ⟨hcallable, hled.classes, ?_, ?_, ?_⟩
  · rw [hled.eventsSince, hunmade]
    rfl
  · intro hfirst later
    obtain ⟨classes, hclasses⟩ := Option.isSome_iff_exists.mp hfirst
    have hkept : s'.callable.schemas = some (f.makeSchemas classes) := by
      rw [hcallable, hclasses]
      rfl
    rw [(Led.performAll s' later).callable, hkept]
    rfl
  · intro a
    have hparameters : s'.callable.parameters = f.parameters := congrArg (·.parameters) hcallable
    have hsettings : s'.callable.settings = o.settings := congrArg (·.settings) hcallable
    split
    case isTrue hneeds =>
      refine ⟨first.getD o.classes, ?_, ?_⟩
      · rw [Surroundings.classesAtFirstNeed_append, Surroundings.classesAtFirstNeed_singleton,
          if_pos hneeds, Option.or_some]
      · intro new
        have hnew : new.callable.schemas = none := hunmade
        -- schemas that are not made yet would be made against the classes of now
        have houtcome : new.outcome = s'.outcome :=
          calc new.outcome = f.makeSchemas (first.getD o.classes) := by
                rw [outcome, hnew]
                rfl
            _ = s'.outcome := by
                rw [outcome, hcallable, hled.classes]
                cases first with
                | none => rfl
                | some classes => rfl
        have hsame : new.callable.unmade = s'.callable.unmade := by
          rw [hcallable]
          rfl
        exact perform_agrees (by rw [hparameters, hsettings, hneeds]) hsame houtcome
    case isFalse hneeds =>
      have hstep : Led s' _ none (s'.perform a).2 :=
        .of_not_needed (by rw [hparameters, hsettings]; exact Bool.eq_false_iff.mpr hneeds)
      rw [hstep.eventsSince]
      simp

/-- A class that is registered too late: the refusal of the first need stays. -/
theorem schemas_made_once_refusal :
    let f := ((GuardedCallable.new "feed" ⟨[⟨"pet", .positional, none⟩]⟩).declareParameter
      "pet" (.declared (.named "Dog"))).withClasses true
    let s : Session := ⟨f, .empty, []⟩
    let early := ClassTable.empty.attempt ("Animal", [])
    let actions : List Action :=
      [.changeSettings { enabled := false }, .checkArguments [], .register "Animal" [],
        .changeSettings {}, .call [] [] fun _ => .none, .checkResult .none,
        .register "Dog" ["Animal"], .changeSettings { strict := false }]
    let s' := s.performAll actions
    f.schemas = none ∧ f.makeSchemas early = .error (.unknownClass "Dog") ∧
    s'.callable.schemas = some (f.makeSchemas early) ∧
    s'.classes = early.attempt ("Dog", ["Animal"]) ∧ timesMade (s'.eventsSince s) = 1 ∧
    (s'.perform .makeSchemas).1 =
      (perform ⟨f.withSettings { strict := false }, early, []⟩ .makeSchemas).1 := by
  intro f s early actions s'
  obtain ⟨hcallable, hclasses, hevents, _, hsteps⟩ := schemas_made_once s rfl actions
  obtain ⟨classes, hfirst, hanswer, _⟩ := hsteps .makeSchemas
  cases hfirst
  exact ⟨rfl, rfl, congrArg (·.schemas) hcallable, hclasses, hevents, hanswer⟩

end Session

end Conform

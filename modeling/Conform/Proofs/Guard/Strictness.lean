/-
  Conform.Proofs.Guard.Strictness

  Strict mode and lenient mode agree. A lenient call warns of every violation
  that it finds, in the order of the parameters and then of the result; a strict
  call ends with the first of these, so it never sees the others. Both find the
  same violations as long as they run, since they take note of the same verdicts
  and differ only in what they do with them.
-/

import Conform.Proofs.Call.Binding
import Conform.Proofs.Guard.FirstNeed
import Conform.Proofs.Inspection.Report

namespace Conform

/-! ## Violations and warnings -/

namespace CallSchemas

/-- The violation of a bound argument, if it is declared and has one. -/
def argumentViolation? (c : CallSchemas) (b : Binding) : Option Violation :=
  (c.parameter? b.name).bind fun e => (Guard.inspectBinding e b).violation?

/-- The violation of a result, if it is declared and has one. -/
def resultViolation? (c : CallSchemas) (value : Value) : Option Violation :=
  c.result.bind fun e => (inspect value e "return").violation?

theorem filterMap_violation?_verdicts (c : CallSchemas) (bindings : List Binding) :
    (c.verdicts bindings).filterMap Verdict.violation? =
      bindings.filterMap c.argumentViolation? := by
  rw [verdicts, List.filterMap_filterMap]
  congr 1
  funext b
  simp only [argumentViolation?, Option.bind_map]
  rfl

theorem filterMap_violation?_resultVerdicts (c : CallSchemas) (value : Value) :
    (c.resultVerdicts value).filterMap Verdict.violation? = (c.resultViolation? value).toList := by
  cases h : c.result with
  | none => simp [resultVerdicts, resultViolation?, h]
  | some e =>
      cases hv : (inspect value e "return").violation? with
      | none => simp [resultVerdicts, resultViolation?, h, hv]
      | some d => simp [resultVerdicts, resultViolation?, h, hv]

end CallSchemas

/-- In strict mode the first violation ends a step. -/
theorem ending?_strict (vs : List Verdict) :
    ending? true vs = (vs.filterMap Verdict.violation?).head? := by
  rw [List.head?_filterMap]
  rfl

/-- The warnings among events. -/
def warnings (es : List Event) : List Event := es.filter (·.level == .warn)

theorem warnings_append (es fs : List Event) : warnings (es ++ fs) = warnings es ++ warnings fs :=
  List.filter_append ..

theorem warnings_of_announced {es : List Event} (h : Inspection.Announced [] es) :
    warnings es = [] := by
  obtain ⟨places, rfl⟩ := h
  simp [warnings, Event.level, List.filter_map, Function.comp_def]

/-- Lenient reports warn of every violation, strict ones of none. -/
theorem warnings_reports (name : String) (strict : Bool) {vs : List Verdict}
    (h : ∀ v ∈ vs, Inspection.Announced [] v.trail.events) :
    warnings (reports name strict vs) =
      if strict then [] else (vs.filterMap Verdict.violation?).map (Event.violation name) := by
  induction vs with
  | nil => simp [reports, warnings]
  | cons v rest ih =>
      obtain ⟨hv, hrest⟩ := List.forall_mem_cons.mp h
      rw [reports, warnings_append, warnings_of_announced hv, List.nil_append]
      cases hviolation : v.violation? with
      | none => simpa [hviolation] using ih hrest
      | some d =>
          cases strict with
          | true => simp [warnings]
          | false =>
              have hwarn : warnings (.violation name d :: reports name false rest) =
                  .violation name d :: warnings (reports name false rest) := rfl
              simpa [hviolation, hwarn] using ih hrest

/-! ## Where violations are found -/

/-- What an inspector reports lies below the root at which it starts. -/
theorem Inspection.Reports.root {m : Inspector Unit} {Q : List Step → Violation → Prop}
    (h : Reports m Q) {root : String} {d : Violation}
    (hd : Verdict.violation? (m (.start (.ofRoot root))) = some d) : d.location.root = root := by
  cases hm : m (.start (.ofRoot root)) with
  | ok a t => simp [hm, Verdict.violation?] at hd
  | error e t =>
      rw [hm] at hd
      cases hd
      obtain ⟨_, found, _, hfound, _⟩ := h.stopped _ d t hm
      rw [hfound]
      rfl

theorem Guard.inspectEach_reports (e : Schema) (members : List (Step × Value)) :
    Inspection.Reports (Guard.inspectEach e members) fun _ _ => True := by
  induction members with
  | nil => exact Inspection.Reports.pure
  | cons member rest ih =>
      obtain ⟨step, v⟩ := member
      have hv := Inspection.inspectValue_reports v e
      exact (hv.below fun _ _ _ => trivial).seq fun _ => ih

theorem CallSchemas.root_argumentViolation? {c : CallSchemas} {b : Binding} {d : Violation}
    (h : c.argumentViolation? b = some d) : d.location.root = b.name := by
  obtain ⟨e, _, hd⟩ := Option.bind_eq_some_iff.mp h
  unfold Guard.inspectBinding at hd
  cases hkind : b.kind with
  | restPositional =>
      rw [hkind] at hd
      exact (Guard.inspectEach_reports e _).root hd
  | restKeyword =>
      rw [hkind] at hd
      exact (Guard.inspectEach_reports e _).root hd
  | _ =>
      rw [hkind] at hd
      exact (Inspection.inspectValue_reports b.value e).root hd

theorem CallSchemas.root_resultViolation? {c : CallSchemas} {value : Value} {d : Violation}
    (h : c.resultViolation? value = some d) : d.location.root = "return" := by
  obtain ⟨e, _, hd⟩ := Option.bind_eq_some_iff.mp h
  exact (Inspection.inspectValue_reports value e).root hd

/-! ## Declared parameters -/

namespace GuardedCallable

theorem parameterSchemas_names {classes : Option ClassTable} {ps : ParameterList}
    {annotations : List (String × Annotation)} {schemas : List (String × Schema)}
    (h : parameterSchemas classes ps annotations = .ok schemas) :
    schemas.map (·.1) = annotations.map (·.1) := by
  induction annotations generalizing schemas with
  | nil =>
      cases h
      rfl
  | cons annotation rest ih =>
      obtain ⟨name, a⟩ := annotation
      unfold parameterSchemas at h
      split at h
      · cases h
      · obtain ⟨s, _, hmore⟩ := bind_eq_ok_iff.mp h
        obtain ⟨more, hrest, hschemas⟩ := bind_eq_ok_iff.mp hmore
        cases hschemas
        rw [List.map_cons, List.map_cons, ih hrest]

/-- The schemas of the parameters come first, then that of the result. -/
theorem parameters_of_makeSchemas {f : GuardedCallable} {classes : ClassTable} {c : CallSchemas}
    (h : f.makeSchemas classes = .ok c) :
    parameterSchemas (if f.usesClasses then some classes else none) f.parameters f.annotations =
        .ok c.parameters ∧ c.result.isSome = f.result.isSome := by
  obtain ⟨parameters, hparameters, hresult⟩ := bind_eq_ok_iff.mp h
  cases hf : f.result with
  | none =>
      simp only [hf] at hresult
      cases hresult
      exact ⟨hparameters, rfl⟩
  | some a =>
      simp only [hf] at hresult
      obtain ⟨s, _, hs⟩ := bind_eq_ok_iff.mp hresult
      cases hs
      exact ⟨hparameters, rfl⟩

/-- Schemas are made for what is declared, and for nothing else. -/
theorem declared_of_makeSchemas {f : GuardedCallable} {classes : ClassTable} {c : CallSchemas}
    (h : f.makeSchemas classes = .ok c) :
    c.parameters.map (·.1) = f.annotations.map (·.1) ∧ c.result.isSome = f.result.isSome := by
  obtain ⟨hparameters, hresult⟩ := parameters_of_makeSchemas h
  exact ⟨parameterSchemas_names hparameters, hresult⟩

end GuardedCallable

/-! ## Two runs of one call -/

namespace Session

/-- The session with strict mode on or off. -/
def withStrict (s : Session) (strict : Bool) : Session :=
  { s with callable := s.callable.withSettings { s.callable.settings with strict } }

theorem warnings_makingEvents (s : Session) : warnings s.makingEvents = [] := by
  unfold makingEvents
  split <;> rfl

section Runs

variable {s : Session} {args : List Value} {keywords : List (String × Value)}
  {bindings : List Binding} {c : CallSchemas} (invoke : List Binding → Value)
  (henabled : s.callable.settings.enabled = true)
  (hbind : s.callable.parameters.bind args keywords = .ok bindings) (houtcome : s.outcome = .ok c)
include henabled hbind houtcome

/-- A lenient call runs to its end. -/
theorem call_lenient (hstrict : s.callable.settings.strict = false) :
    s.call args keywords invoke = (⟨.ok (invoke bindings), some bindings⟩,
      s.prepared.reporting (reports s.callable.name false (c.verdicts bindings) ++
        reports s.callable.name false (c.resultVerdicts (invoke bindings)))) := by
  have hgoes (u : Session) (hu : u.callable.settings.strict = false) (vs : List Verdict) :
      u.concluded vs () = .ok () (u.reporting (reports u.callable.name false vs)) := by
    simp [concluded, ending?, hu]
  rw [call_of_schemas invoke henabled hbind houtcome, hgoes s.prepared hstrict]
  dsimp only
  rw [hgoes (s.prepared.reporting _) hstrict, reporting_reporting]
  rfl

/-- A strict call ends with the first violation of an argument, before the
    callable is run, or else with the violation of the result. -/
theorem call_strict (hstrict : s.callable.settings.strict = true) :
    (s.call args keywords invoke).1 =
      match bindings.filterMap c.argumentViolation?, c.resultViolation? (invoke bindings) with
      | d :: _, _ =>
          ⟨.error (.violation s.callable.name d s.callable.settings.cleanTraceback), none⟩
      | [], some d => ⟨.error (.violation s.callable.name d s.callable.settings.cleanTraceback),
          some bindings⟩
      | [], none => ⟨.ok (invoke bindings), some bindings⟩ := by
  have harguments := ending?_strict (c.verdicts bindings)
  have hresult := ending?_strict (c.resultVerdicts (invoke bindings))
  rw [← hstrict, c.filterMap_violation?_verdicts] at harguments
  rw [← hstrict, c.filterMap_violation?_resultVerdicts, Option.head?_toList] at hresult
  rw [call_of_schemas invoke henabled hbind houtcome]
  -- making the schemas and reporting leave the settings alone
  cases hfirst : bindings.filterMap c.argumentViolation? with
  | cons d ds =>
      rw [hfirst, List.head?_cons] at harguments
      rw [@concluded_of_ending _ s.prepared _ _ harguments]
      rfl
  | nil =>
      rw [hfirst, List.head?_nil] at harguments
      rw [@concluded_of_no_ending _ s.prepared _ harguments]
      dsimp only
      cases hlast : c.resultViolation? (invoke bindings) with
      | some d =>
          rw [hlast] at hresult
          rw [@concluded_of_ending _ (s.prepared.reporting _) _ _ hresult]
          rfl
      | none =>
          rw [hlast] at hresult
          rw [@concluded_of_no_ending _ (s.prepared.reporting _) _ hresult]

end Runs

/-- Only what is declared can be violated. -/
theorem declared_of_outcome {s : Session} {c : CallSchemas} (hown : s.callable.KeepsOwnSchemas)
    (houtcome : s.outcome = .ok c) :
    (∀ b d, c.argumentViolation? b = some d → b.name ∈ s.callable.annotations.map (·.1)) ∧
    ∀ value d, c.resultViolation? value = some d → s.callable.result.isSome := by
  have hmade : ∃ classes, s.callable.makeSchemas classes = .ok c := by
    cases hkept : s.callable.schemas with
    | none =>
        rw [outcome, hkept, Option.getD_none] at houtcome
        exact ⟨s.classes, houtcome⟩
    | some kept =>
        rw [outcome, hkept, Option.getD_some] at houtcome
        obtain ⟨classes, hclasses⟩ := hown kept hkept
        exact ⟨classes, hclasses ▸ houtcome⟩
  obtain ⟨classes, hclasses⟩ := hmade
  obtain ⟨hnames, hresult⟩ := GuardedCallable.declared_of_makeSchemas hclasses
  constructor
  · intro b d hd
    obtain ⟨e, he, _⟩ := Option.bind_eq_some_iff.mp hd
    obtain ⟨_, _, hrows, _⟩ := List.lookup_eq_some_iff.mp he
    rw [← hnames, hrows]
    simp
  · intro value d hd
    obtain ⟨e, he, _⟩ := Option.bind_eq_some_iff.mp hd
    rw [← hresult, he]
    rfl

/-- The warnings of a lenient call. -/
theorem warnings_lenient (s : Session) (c : CallSchemas) (bindings : List Binding)
    (value : Value) :
    warnings (makingEvents s ++ (reports s.callable.name false (c.verdicts bindings) ++
        reports s.callable.name false (c.resultVerdicts value))) =
      (bindings.filterMap c.argumentViolation? ++ (c.resultViolation? value).toList).map
        (Event.violation s.callable.name) := by
  have harguments := warnings_reports s.callable.name false
    fun v (hv : v ∈ c.verdicts bindings) => CallSchemas.announced_of_mem_verdicts hv
  have hresult := warnings_reports s.callable.name false
    fun v (hv : v ∈ c.resultVerdicts value) => CallSchemas.announced_of_mem_resultVerdicts hv
  rw [c.filterMap_violation?_verdicts] at harguments
  rw [c.filterMap_violation?_resultVerdicts] at hresult
  rw [warnings_append, warnings_makingEvents, List.nil_append, warnings_append, harguments, hresult,
    List.map_append]
  rfl

/-- A strict and a lenient run of one call of a callable that is enabled. When
    the arguments do not bind or the schemas cannot be made, both end with that
    error and the callable is not run. Otherwise the lenient run returns what
    the callable computes and warns of each violation once, in the order of the
    parameters and then of the result; the strict run ends with the violation of
    the first warning, or returns the same value if there is none, and it runs
    the callable exactly if no argument is warned of. -/
theorem strict_lenient_agree (s : Session) (henabled : s.callable.settings.enabled = true)
    (args : List Value) (keywords : List (String × Value)) (invoke : List Binding → Value) :
    let f := s.callable
    let strict := (s.withStrict true).call args keywords invoke
    let lenient := (s.withStrict false).call args keywords invoke
    let warned := warnings (lenient.2.eventsSince s)
    (∀ e, f.parameters.bind args keywords = .error e →
      strict.1 = ⟨.error (.binding f.name e), none⟩ ∧
      lenient.1 = ⟨.error (.binding f.name e), none⟩) ∧
    (∀ bindings e, f.parameters.bind args keywords = .ok bindings → s.outcome = .error e →
      strict.1 = ⟨.error (.schema f.name e), none⟩ ∧
      lenient.1 = ⟨.error (.schema f.name e), none⟩) ∧
    ∀ bindings c, f.parameters.bind args keywords = .ok bindings → s.outcome = .ok c →
      let onArguments := bindings.filterMap c.argumentViolation?
      let onResult := c.resultViolation? (invoke bindings)
      lenient.1 = ⟨.ok (invoke bindings), some bindings⟩ ∧
      warned = (onArguments ++ onResult.toList).map (Event.violation f.name) ∧
      (bindings.map fun b => (b.name, b.kind)) =
        (f.parameters.parameters.map fun p => (p.name, p.kind)) ∧
      (∀ b d, c.argumentViolation? b = some d → d.location.root = b.name) ∧
      (∀ d, onResult = some d → d.location.root = "return") ∧
      (f.KeepsOwnSchemas →
        (∀ b d, c.argumentViolation? b = some d → b.name ∈ f.annotations.map (·.1)) ∧
        ∀ d, onResult = some d → f.result.isSome) ∧
      (match warned with
        | [] => strict.1.result = .ok (invoke bindings)
        | first :: _ => ∃ d, first = .violation f.name d ∧
            strict.1.result = .error (.violation f.name d f.settings.cleanTraceback)) ∧
      strict.1.invokedWith = if onArguments = [] then some bindings else none := by
  refine ⟨fun e hbind => ?_, fun bindings e hbind houtcome => ?_,
    fun bindings c hbind houtcome => ?_⟩
  · rw [@call_of_unbound (s.withStrict true) _ _ invoke e hbind,
      @call_of_unbound (s.withStrict false) _ _ invoke e hbind]
    exact ⟨rfl, rfl⟩
  · rw [@call_of_no_schemas (s.withStrict true) _ _ _ invoke henabled hbind e houtcome,
      @call_of_no_schemas (s.withStrict false) _ _ _ invoke henabled hbind e houtcome]
    exact ⟨rfl, rfl⟩
  · have hlenient := @call_lenient (s.withStrict false) _ _ _ c invoke henabled hbind houtcome rfl
    have hstrict := @call_strict (s.withStrict true) _ _ _ c invoke henabled hbind houtcome rfl
    have hwarned : warnings (((s.withStrict false).call args keywords invoke).2.eventsSince s) =
        (bindings.filterMap c.argumentViolation? ++
          (c.resultViolation? (invoke bindings)).toList).map
            (Event.violation s.callable.name) := by
      rw [hlenient, ← warnings_lenient s c bindings (invoke bindings)]
      exact congrArg warnings ((s.withStrict false).eventsSince_prepared_reporting _)
    refine ⟨congrArg Prod.fst hlenient, hwarned, ParameterList.bind_parameters hbind,
      fun b d => CallSchemas.root_argumentViolation?,
      fun d => CallSchemas.root_resultViolation?,
      fun hown => ⟨(declared_of_outcome hown houtcome).1,
        (declared_of_outcome hown houtcome).2 _⟩, ?_⟩
    rw [hwarned, hstrict]
    -- the first warning is that of an argument, if there is one, or that of the result
    cases bindings.filterMap c.argumentViolation? with
    | cons d ds => exact ⟨⟨d, rfl, rfl⟩, rfl⟩
    | nil =>
        cases c.resultViolation? (invoke bindings) with
        | some d => exact ⟨⟨d, rfl, rfl⟩, rfl⟩
        | none => exact ⟨rfl, rfl⟩

/-- Three violations in one call: of an argument, of a member of the further
    arguments, and of the result. -/
theorem strict_lenient_agree_rest :
    let s : Session :=
      { callable := (((GuardedCallable.new "join" ⟨[⟨"sep", .positional, none⟩,
            ⟨"parts", .restPositional, none⟩, ⟨"options", .restKeyword, none⟩]⟩).declareParameter
          "parts" (.declared (.concrete .int))).declareParameter
          "sep" (.declared (.concrete .str))).declareResult (.declared (.concrete .int))
        classes := .empty
        events := [] }
    let args : List Value := [.int 1, .int 2, .str "c"]
    let keywords : List (String × Value) := [("width", .none)]
    let strict := (s.withStrict true).call args keywords fun _ => .none
    let lenient := (s.withStrict false).call args keywords fun _ => .none
    s.callable.settings.enabled = true ∧
    ∃ first second third : Violation,
      [first, second, third].map (·.location.root) = ["sep", "parts", "return"] ∧
      warnings (lenient.2.eventsSince s) =
        [first, second, third].map (Event.violation "join") ∧
      strict.1.result = .error (.violation "join" first true) ∧
      strict.1.invokedWith = none := by
  intro s args keywords strict lenient
  have hlaw := strict_lenient_agree s rfl args keywords fun _ => .none
  obtain ⟨-, hwarned, -, -, -, -, hfirst, hrun⟩ := hlaw.2.2 _ _ rfl rfl
  rw [hwarned] at hfirst
  obtain ⟨d, hd, hresult⟩ := hfirst
  cases hd
  exact ⟨rfl, _, _, _, rfl, hwarned, hresult, hrun⟩

end Session

end Conform

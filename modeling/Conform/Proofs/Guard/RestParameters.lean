/-
  Conform.Proofs.Guard.RestParameters

  Parameters that take the rest. Such a parameter is bound to a tuple or a
  dictionary, and its declaration is about the members. The check goes through
  the members in a loop of its own, without forms and without a test of all
  members at once. It comes to the same as the inspection of the whole container
  under the declaration `tuple[T, ...]` or `dict[str, T]`: both walk along the
  same members, below the same steps, and stop at the same violation.
-/

import Conform.Proofs.Call.Repetition
import Conform.Proofs.Guard.Strictness
import Conform.Proofs.Inspection.Tuples

namespace Conform

/-! ## Declarations of parameters -/

/-- The declaration that an annotation holds or spells. -/
def Annotation.declaration? : Annotation → Option Declaration
  | declared d => some d
  | written text => (Declaration.parse text).toOption

theorem Annotation.exists_declaration {classes : Option ClassTable} {a : Annotation} {e : Schema}
    (h : a.toSchema classes = .ok e) :
    ∃ d, a.declaration? = some d ∧ d.toSchema classes = .ok e := by
  cases a with
  | declared d => exact ⟨d, rfl, h⟩
  | written text =>
      simp only [toSchema, Declaration.schemaOfText] at h
      cases hparse : Declaration.parse text with
      | error fault => simp [hparse] at h
      | ok d =>
          rw [hparse] at h
          exact ⟨d, by simp [declaration?, hparse, Except.toOption], h⟩

/-- What a declaration says about the value that a parameter of some kind is
    bound to: the members of a tuple, those of a dictionary, or the value. -/
def Declaration.ofBound (d : Declaration) : ParameterKind → Declaration
  | .restPositional => tupleOf d
  | .restKeyword => container .dict [concrete .str, d]
  | _ => d

namespace GuardedCallable

/-- What is declared of a parameter. -/
def declaration? (f : GuardedCallable) (name : String) : Option Declaration :=
  (f.annotations.lookup name).bind Annotation.declaration?

/-- The violation of a bound value, inspected as a whole. -/
def boundViolation? (f : GuardedCallable) (classes : Option ClassTable) (b : Binding) :
    Option Violation :=
  (f.declaration? b.name).bind fun d =>
    match (d.ofBound b.kind).toSchema classes with
    | .ok e => (inspect b.value e b.name).violation?
    | .error _ => none

theorem parameterSchemas_lookup {classes : Option ClassTable} {ps : ParameterList}
    {annotations : List (String × Annotation)} {schemas : List (String × Schema)}
    (h : parameterSchemas classes ps annotations = .ok schemas) (name : String) :
    Option.Rel (fun a e => a.toSchema classes = .ok e) (annotations.lookup name)
      (schemas.lookup name) := by
  induction annotations generalizing schemas with
  | nil =>
      cases h
      exact .none
  | cons annotation rest ih =>
      obtain ⟨key, a⟩ := annotation
      unfold parameterSchemas at h
      split at h
      · cases h
      · obtain ⟨e, he, hmore⟩ := bind_eq_ok_iff.mp h
        obtain ⟨more, hrest, hschemas⟩ := bind_eq_ok_iff.mp hmore
        cases hschemas
        -- both lists are searched for the same names, in the same order
        rw [List.lookup_cons, List.lookup_cons]
        cases name == key with
        | true => exact .some he
        | false => exact ih hrest

/-- The schema of a parameter is that of its declaration. -/
theorem parameter?_of_makeSchemas {f : GuardedCallable} {table : ClassTable} {c : CallSchemas}
    (h : f.makeSchemas table = .ok c) (name : String) :
    Option.Rel
      (fun d e => Declaration.toSchema (if f.usesClasses then some table else none) d = .ok e)
      (f.declaration? name) (c.parameter? name) := by
  have hlookup := parameterSchemas_lookup (parameters_of_makeSchemas h).1 name
  unfold declaration? CallSchemas.parameter?
  generalize f.annotations.lookup name = annotation at hlookup ⊢
  generalize c.parameters.lookup name = schema at hlookup ⊢
  cases hlookup with
  | none => exact .none
  | some he =>
      obtain ⟨d, hd, hdeclared⟩ := Annotation.exists_declaration he
      simp only [Option.bind_some, hd]
      exact .some hdeclared

end GuardedCallable

/-! ## What is bound to parameters that take the rest -/

namespace ParameterList

variable {ps : ParameterList} {args : List Value} {keywords : List (String × Value)}
  {bindings : List Binding} {b : Binding}

theorem exists_outcome_of_mem (h : ps.bind args keywords = .ok bindings) (hb : b ∈ bindings) :
    ∃ extraArgs extraKeywords s, s.parameter.kind = b.kind ∧
      Slot.outcome extraArgs extraKeywords s = some b.value := by
  -- there is one binding for each parameter, so that the place of `b` is that of a parameter
  obtain ⟨i, hi⟩ := List.mem_iff_getElem?.mp hb
  have hkinds := congrArg (·[i]?) (bind_parameters h)
  simp only [List.getElem?_map, hi, Option.map_some] at hkinds
  obtain ⟨p, hp, _⟩ := Option.map_eq_some_iff.mp hkinds.symm
  obtain ⟨v, hv, hbinding⟩ := exists_of_bind h hp
  cases hi.symm.trans hbinding
  exact ⟨_, _, _, rfl, hv⟩

theorem tuple_of_restPositional (h : ps.bind args keywords = .ok bindings) (hb : b ∈ bindings)
    (hkind : b.kind = .restPositional) : ∃ items, b.value = .collection .tuple items := by
  obtain ⟨extraArgs, extraKeywords, s, hs, hvalue⟩ := exists_outcome_of_mem h hb
  rw [hkind] at hs
  simp only [Slot.outcome, hs, Option.some.injEq] at hvalue
  exact ⟨extraArgs, hvalue.symm⟩

theorem dict_of_restKeyword (h : ps.bind args keywords = .ok bindings) (hb : b ∈ bindings)
    (hkind : b.kind = .restKeyword) :
    ∃ entries, b.value = .dict entries ∧ ∀ p ∈ entries, ∃ key, p.1 = .str key := by
  obtain ⟨extraArgs, extraKeywords, s, hs, hvalue⟩ := exists_outcome_of_mem h hb
  rw [hkind] at hs
  simp only [Slot.outcome, hs, Option.some.injEq] at hvalue
  obtain ⟨entries, hentries, hholds⟩ := holdsLast_dictOf extraKeywords
  refine ⟨entries, hvalue.symm.trans hentries, fun p hp => ?_⟩
  obtain ⟨key, _, hkey⟩ := hholds.exists_key hp
  exact ⟨key, hkey⟩

end ParameterList

/-! ## Two walks over the same members -/

namespace Guard

open Inspection

theorem inspectEach_agree (e : Schema) (members : List (Step × Value)) :
    Agree (inspectEach e members) (walkPlainly e members) := by
  induction members with
  | nil => exact Agree.pure
  | cons p rest ih => exact ((inspectValue_agree p.2 e).below p.1).seq ih

/-- A dictionary with texts for keys is walked along its values. -/
theorem inspectPlainly_dict {e : Schema} {entries : List (Value × Value)}
    (hkeys : ∀ p ∈ entries, ∃ key, p.1 = .str key) :
    inspectPlainly (.dict entries) (.ofTag .dict (.entries (.bare .str) e)) =
      plainEntries e entries := by
  have hadmitted : ∀ p ∈ entries, (Schema.bare .str).admits p.1.tag = true := by
    intro p hp
    obtain ⟨key, hkey⟩ := hkeys p hp
    rw [hkey]
    rfl
  -- the keys come first, and all of them pass
  have hpassed (t : Trail) : plainKeys (.bare .str) entries t = .ok () t := by
    rw [plainKeys_eq_walk]
    exact walkPlainly_of_admitted rfl hadmitted _ t
  funext t
  show EStateM.bind (EStateM.bind (plainKeys (.bare .str) entries) fun _ => plainEntries e entries)
    (fun _ => pure ()) t = plainEntries e entries t
  simp only [EStateM.bind, hpassed]
  cases plainEntries e entries t with
  | ok a u => rfl
  | error d u => rfl

end Guard

open Inspection in
/-- Inspecting what a parameter is bound to comes to the same as inspecting it
    as a whole, under the declaration of the whole. -/
theorem Guard.inspectBinding_withoutEvents {ps : ParameterList} {args : List Value}
    {keywords : List (String × Value)} {bindings : List Binding} {b : Binding}
    (hbind : ps.bind args keywords = .ok bindings) (hb : b ∈ bindings)
    {classes : Option ClassTable} {d : Declaration} {e : Schema} (he : d.toSchema classes = .ok e) :
    ∃ g, (d.ofBound b.kind).toSchema classes = .ok g ∧
      (inspectBinding e b).withoutEvents = (inspect b.value g b.name).withoutEvents := by
  unfold inspectBinding
  cases hkind : b.kind with
  | restPositional =>
      refine ⟨_, Declaration.toSchema_tupleOf he, ?_⟩
      obtain ⟨items, hitems⟩ := ParameterList.tuple_of_restPositional hbind hb hkind
      -- one form, which fits every length: the tuple is walked along it
      have hform : plainForm items (.repeating e) =
          walkPlainly e (items.zipIdx.map fun p => (.index p.2, p.1)) :=
        plainMembers_eq_walk _ e 0 items
      have hwhole := inspectValue_agree (.collection .tuple items)
        (.ofTag (.collection .tuple) (.forms [.repeating e]))
      rw [inspectPlainly_form (f := .repeating e) rfl, hform] at hwhole
      rw [hitems]
      exact (inspectEach_agree e _ (.start _) (.start _) rfl).trans
        (hwhole (.start _) (.start _) rfl).symm
  | restKeyword =>
      have hstr : Declaration.toSchema classes (.concrete .str) = .ok (.bare .str) := rfl
      refine ⟨_, Declaration.toSchema_dict hstr he, ?_⟩
      obtain ⟨entries, hentries, hkeys⟩ := ParameterList.dict_of_restKeyword hbind hb hkind
      have hwhole := inspectValue_agree (.dict entries) (.ofTag .dict (.entries (.bare .str) e))
      rw [inspectPlainly_dict hkeys, plainEntries_eq_walk] at hwhole
      rw [hentries]
      exact (inspectEach_agree e _ (.start _) (.start _) rfl).trans
        (hwhole (.start _) (.start _) rfl).symm
  | positional => exact ⟨e, he, rfl⟩
  | keywordOnly => exact ⟨e, he, rfl⟩

theorem Verdict.violation?_eq_of_withoutEvents {v w : Verdict}
    (h : v.withoutEvents = w.withoutEvents) : v.violation? = w.violation? := by
  cases v with
  | ok a t =>
      cases w with
      | ok b u => rfl
      | error d u => simp [withoutEvents] at h
  | error d t =>
      cases w with
      | ok b u => simp [withoutEvents] at h
      | error d' u =>
          simp only [withoutEvents, EStateM.Result.error.injEq] at h
          exact congrArg some h.1

/-! ## Checked arguments -/

namespace CallSchemas

section Bound

variable {f : GuardedCallable} {table : ClassTable} {c : CallSchemas}
  (hmade : f.makeSchemas table = .ok c)
include hmade

theorem argumentViolation?_of_undeclared {b : Binding} (hb : f.declaration? b.name = none) :
    c.argumentViolation? b = none := by
  have hrel := GuardedCallable.parameter?_of_makeSchemas hmade b.name
  rw [hb] at hrel
  unfold argumentViolation?
  generalize c.parameter? b.name = schema at hrel ⊢
  cases hrel with
  | none => rfl

/-- A declared argument is checked as a whole. -/
theorem argumentViolation?_of_declared {args : List Value} {keywords : List (String × Value)}
    {bindings : List Binding} (hbind : f.parameters.bind args keywords = .ok bindings) {b : Binding}
    (hb : b ∈ bindings) {d : Declaration} (hd : f.declaration? b.name = some d) :
    ∃ e, (d.ofBound b.kind).toSchema (if f.usesClasses then some table else none) = .ok e ∧
      c.argumentViolation? b = (inspect b.value e b.name).violation? := by
  have hrel := GuardedCallable.parameter?_of_makeSchemas hmade b.name
  rw [hd] at hrel
  unfold argumentViolation?
  generalize c.parameter? b.name = schema at hrel ⊢
  cases hrel with
  | some hmember =>
      obtain ⟨e, he, hverdict⟩ := Guard.inspectBinding_withoutEvents hbind hb hmember
      exact ⟨e, he, Verdict.violation?_eq_of_withoutEvents hverdict⟩

theorem argumentViolation?_eq_boundViolation? {args : List Value}
    {keywords : List (String × Value)} {bindings : List Binding}
    (hbind : f.parameters.bind args keywords = .ok bindings) {b : Binding} (hb : b ∈ bindings) :
    c.argumentViolation? b =
      f.boundViolation? (if f.usesClasses then some table else none) b := by
  unfold GuardedCallable.boundViolation?
  cases hd : f.declaration? b.name with
  | none => exact argumentViolation?_of_undeclared hmade hd
  | some d =>
      obtain ⟨e, he, hviolation⟩ := argumentViolation?_of_declared hmade hbind hb hd
      simp only [Option.bind_some, he, hviolation]

end Bound

end CallSchemas

namespace Session

section Checked

variable {s : Session} {c : CallSchemas} (henabled : s.callable.settings.enabled = true)
  (houtcome : s.outcome = .ok c) (bindings : List Binding)
include henabled houtcome

/-- A lenient check goes through and warns of each violation. -/
theorem checkArguments_lenient (hstrict : s.callable.settings.strict = false) :
    ∃ s', Guard.checkArguments bindings s = .ok () s' ∧
      warnings (s'.eventsSince s) =
        (bindings.filterMap c.argumentViolation?).map (Event.violation s.callable.name) := by
  have hending : ending? s.prepared.callable.settings.strict (c.verdicts bindings) = none := by
    show ending? s.callable.settings.strict _ = none
    rw [hstrict]
    rfl
  have hwarnings := warnings_reports s.callable.name false
    fun v (hv : v ∈ c.verdicts bindings) => CallSchemas.announced_of_mem_verdicts hv
  rw [c.filterMap_violation?_verdicts] at hwarnings
  rw [Guard.checkArguments_of_enabled henabled, withSchemas_of_ok _ houtcome,
    concluded_of_no_ending hending]
  refine ⟨_, rfl, ?_⟩
  rw [eventsSince_prepared_reporting, warnings_append, warnings_makingEvents, List.nil_append]
  show warnings (reports s.callable.name s.callable.settings.strict _) = _
  rw [hstrict, hwarnings]
  rfl

/-- A strict check ends with the first violation. -/
theorem checkArguments_strict (hstrict : s.callable.settings.strict = true) :
    ∃ s', Guard.checkArguments bindings s =
      match (bindings.filterMap c.argumentViolation?).head? with
      | none => .ok () s'
      | some d => .error (.violation s.callable.name d s.callable.settings.cleanTraceback) s' := by
  have hending := ending?_strict (c.verdicts bindings)
  rw [← hstrict, c.filterMap_violation?_verdicts] at hending
  rw [Guard.checkArguments_of_enabled henabled, withSchemas_of_ok _ houtcome]
  -- making the schemas leaves the settings alone
  cases hfirst : (bindings.filterMap c.argumentViolation?).head? with
  | none =>
      rw [hfirst] at hending
      exact ⟨_, @concluded_of_no_ending _ s.prepared _ hending ()⟩
  | some d =>
      rw [hfirst] at hending
      exact ⟨_, @concluded_of_ending _ s.prepared _ _ hending ()⟩

end Checked

/-- Parameters that take the rest are checked like the containers they are bound
    to. If the schemas of a callable are made and a call binds its arguments,
    each declared argument has the violation, or none, that the bound value has
    under the declaration of the whole: for the further positional arguments a
    tuple of any length, for the further keywords a dictionary with texts for
    keys. These violations are what a lenient check warns of, in order; a strict
    check ends with the first of them, and passes if there is none. -/
theorem rest_checked_as_container (s : Session) (henabled : s.callable.settings.enabled = true)
    (table : ClassTable) (c : CallSchemas) (hmade : s.callable.makeSchemas table = .ok c)
    (houtcome : s.outcome = .ok c) (args : List Value) (keywords : List (String × Value))
    (bindings : List Binding) (hbind : s.callable.parameters.bind args keywords = .ok bindings) :
    let f := s.callable
    let classes := if f.usesClasses then some table else none
    let violations := bindings.filterMap (f.boundViolation? classes)
    (∀ b ∈ bindings, ∀ d, f.declaration? b.name = some d →
      ∃ e, (d.ofBound b.kind).toSchema classes = .ok e ∧
        c.argumentViolation? b = (inspect b.value e b.name).violation?) ∧
    (f.settings.strict = false → ∃ s', Guard.checkArguments bindings s = .ok () s' ∧
      warnings (s'.eventsSince s) = violations.map (Event.violation f.name)) ∧
    (f.settings.strict = true → ∃ s', Guard.checkArguments bindings s =
      match violations.head? with
      | none => .ok () s'
      | some d => .error (.violation f.name d f.settings.cleanTraceback) s') := by
  intro f classes violations
  have hviolations : bindings.filterMap c.argumentViolation? = violations :=
    List.filterMap_congr fun b hb =>
      CallSchemas.argumentViolation?_eq_boundViolation? hmade hbind hb
  rw [← hviolations]
  refine ⟨?_, checkArguments_lenient henabled houtcome bindings,
    checkArguments_strict henabled houtcome bindings⟩
  intro b hb d hd
  exact CallSchemas.argumentViolation?_of_declared hmade hbind hb hd

/-- Further arguments that are lists of numbers, and a keyword with a number: the
    second list fails at its member, as in the tuple of both lists. -/
theorem rest_checked_as_container_lists :
    let f := ((GuardedCallable.new "join" ⟨[⟨"parts", .restPositional, none⟩,
        ⟨"options", .restKeyword, none⟩]⟩).declareParameter
      "parts" (.declared (.container .list [.concrete .int]))).declareParameter
      "options" (.declared (.concrete .int))
    let parts : List Value := [.collection .list [.int 1], .collection .list [.int 2, .str "c"]]
    let bindings : List Binding := [⟨"parts", .restPositional, .collection .tuple parts⟩,
      ⟨"options", .restKeyword, .dict [(.str "width", .none)]⟩]
    f.parameters.bind parts [("width", .none)] = .ok bindings ∧
    ∃ e d s', Declaration.toSchema none (.tupleOf (.container .list [.concrete .int])) = .ok e ∧
      (inspect (.collection .tuple parts) e "parts").violation? = some d ∧
      d.location = ⟨"parts", [.index 1, .index 1]⟩ ∧
      Guard.checkArguments bindings ⟨f, .empty, []⟩ = .error (.violation "join" d true) s' := by
  intro f parts bindings
  have hbind : f.parameters.bind parts [("width", .none)] = .ok bindings := rfl
  obtain ⟨hdeclared, _, hstrict⟩ := rest_checked_as_container ⟨f, .empty, []⟩ rfl .empty _ rfl rfl
    parts [("width", .none)] bindings hbind
  obtain ⟨e, he, hviolation⟩ := hdeclared
    ⟨"parts", .restPositional, .collection .tuple parts⟩ List.mem_cons_self _ rfl
  obtain ⟨s', hs'⟩ := hstrict rfl
  refine ⟨hbind, e, _, s', he, hviolation.symm.trans rfl, rfl, hs'⟩

end Session

end Conform

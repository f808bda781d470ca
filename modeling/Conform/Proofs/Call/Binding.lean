/-
  Conform.Proofs.Call.Binding

  Bindings and parameters: a call that binds its arguments has one binding for
  each parameter, in the order of the parameters.
-/

import Conform.Call.Binding
import Conform.Proofs.Schema.OfDeclaration

namespace Conform

namespace Slot

/-- The parameters that slots belong to. -/
def parameters (slots : List Slot) : List Parameter := slots.map (·.parameter)

theorem parameters_fillPositional (ps : List Parameter) (args : List Value) :
    parameters (fillPositional ps args) = ps := by
  induction ps generalizing args with
  | nil => rfl
  | cons p rest ih =>
      unfold fillPositional
      split
      · cases args with
        | nil => exact congrArg (p :: ·) (ih [])
        | cons a more => exact congrArg (p :: ·) (ih more)
      · exact congrArg (p :: ·) (ih args)

/-- A keyword fills a slot and moves none. -/
theorem parameters_of_fillKeyword {name : String} {value : Value} {slots filled : List Slot}
    (h : fillKeyword name value slots = .filled filled) : parameters filled = parameters slots := by
  induction slots generalizing filled with
  | nil => cases h
  | cons s rest ih =>
      unfold fillKeyword at h
      split at h
      · split at h
        · cases h
        · cases h
          rfl
      · cases hrest : fillKeyword name value rest with
        | filled more =>
            rw [hrest] at h
            cases h
            exact congrArg (s.parameter :: ·) (ih hrest)
        | taken =>
            rw [hrest] at h
            cases h
        | unmatched =>
            rw [hrest] at h
            cases h

theorem parameters_of_fillKeywords {collects : Bool} {slots filled : List Slot}
    {extra extra' keywords : List (String × Value)}
    (h : fillKeywords collects slots extra keywords = .ok (filled, extra')) :
    parameters filled = parameters slots := by
  induction keywords generalizing slots extra with
  | nil =>
      cases h
      rfl
  | cons keyword rest ih =>
      obtain ⟨name, value⟩ := keyword
      unfold fillKeywords at h
      cases hfit : fillKeyword name value slots with
      | filled more =>
          rw [hfit] at h
          rw [ih h, parameters_of_fillKeyword hfit]
      | taken =>
          rw [hfit] at h
          cases h
      | unmatched =>
          rw [hfit] at h
          cases collects with
          | true => exact ih h
          | false => cases h

/-- The value a slot settles on, given what is left over for it. -/
def outcome (extraArgs : List Value) (extraKeywords : List (String × Value)) (s : Slot) :
    Option Value :=
  match s.parameter.kind with
  | .restPositional => some (.collection .tuple extraArgs)
  | .restKeyword => some (.dictOf (extraKeywords.map fun kw => (.str kw.1, kw.2)))
  | _ => s.given.or s.parameter.default

/-- What the slots before leave over for a parameter that takes the rest. -/
def leftOver {α : Type} (kind : ParameterKind) (before : List Slot) (extra : List α) : List α :=
  if before.any (·.parameter.kind == kind) then [] else extra

/-- A slot settles on its value, or fails for want of one, before the slots after it. -/
theorem settle_cons {extraArgs : List Value} {extraKeywords : List (String × Value)} {s : Slot}
    {rest : List Slot} :
    settle extraArgs extraKeywords (s :: rest) =
      match s.outcome extraArgs extraKeywords with
      | none => .error (.missingArgument s.parameter.name)
      | some v => do
          let more ← settle (leftOver .restPositional [s] extraArgs)
            (leftOver .restKeyword [s] extraKeywords) rest
          return ⟨s.parameter.name, s.parameter.kind, v⟩ :: more := by
  rw [settle]
  cases hkind : s.parameter.kind with
  | restPositional => simp [outcome, leftOver, hkind]
  | restKeyword => simp [outcome, leftOver, hkind]
  | _ =>
      cases hvalue : s.given.or s.parameter.default <;>
        simp [outcome, leftOver, hkind, hvalue]

/-- Each slot comes to one binding, under the name and kind of its parameter. -/
theorem settle_parameters {extraArgs : List Value} {extraKeywords : List (String × Value)}
    {slots : List Slot} {bindings : List Binding}
    (h : settle extraArgs extraKeywords slots = .ok bindings) :
    bindings.map (fun b => (b.name, b.kind)) =
      (parameters slots).map fun p => (p.name, p.kind) := by
  induction slots generalizing extraArgs extraKeywords bindings with
  | nil =>
      cases h
      rfl
  | cons s rest ih =>
      rw [settle_cons] at h
      cases hvalue : s.outcome extraArgs extraKeywords with
      | none => simp [hvalue] at h
      | some v =>
          simp only [hvalue] at h
          obtain ⟨more, hsettled, hbindings⟩ := bind_eq_ok_iff.mp h
          cases hbindings
          simp only [parameters, List.map_cons] at ih ⊢
          rw [ih hsettled]

end Slot

namespace ParameterList

/-- A call that binds its arguments has one binding for each parameter, in order. -/
theorem bind_parameters {ps : ParameterList} {args : List Value}
    {keywords : List (String × Value)} {bindings : List Binding}
    (h : ps.bind args keywords = .ok bindings) :
    bindings.map (fun b => (b.name, b.kind)) = ps.parameters.map fun p => (p.name, p.kind) := by
  unfold bind at h
  split at h
  · cases h
  · obtain ⟨⟨slots, extra⟩, hfilled, hsettled⟩ := bind_eq_ok_iff.mp h
    rw [Slot.settle_parameters hsettled, Slot.parameters_of_fillKeywords hfilled,
      Slot.parameters_fillPositional]

end ParameterList

end Conform

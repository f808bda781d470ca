/-
  Conform.Proofs.Call.Arguments

  Where the arguments of a call go. The slots of a call are looked at as one
  function from the indices of the parameters to what these are given:
  positional arguments give it by rank, keywords by name, and no argument is
  given twice or to nobody. A call binds its arguments exactly when they fit,
  and otherwise fails with the first fault: too many positional arguments, then
  the first keyword at fault, then the first parameter that is missing.
-/

import Conform.Proofs.Call.Binding
import Conform.Proofs.Value.Equivalence
import Mathlib.Logic.Function.Basic

namespace Conform

namespace ParameterList

variable {ps : ParameterList} {args : List Value} {keywords : List (String × Value)}

/-! ## What the parameters are given -/

/-- How many positional parameters stand before an index. -/
def rank (ps : ParameterList) (i : Nat) : Nat :=
  (ps.parameters.take i).countP (·.kind == .positional)

/-- The argument that goes to the parameter at an index by its position. -/
def byPosition? (ps : ParameterList) (args : List Value) (i : Nat) : Option Value :=
  if ps.parameters[i]?.any (·.kind == .positional) then args[ps.rank i]? else none

/-- The index of the parameter that a keyword goes to. -/
def named? (ps : ParameterList) (name : String) : Option Nat :=
  ps.parameters.findIdx? (·.takesKeyword name)

/-- The argument that goes to the parameter at an index by its name. -/
def byKeyword? (ps : ParameterList) (keywords : List (String × Value)) (i : Nat) :
    Option Value :=
  (keywords.find? fun kw => ps.named? kw.1 == some i).map (·.2)

/-- The argument that goes to the parameter at an index. -/
def given? (ps : ParameterList) (args : List Value) (keywords : List (String × Value))
    (i : Nat) : Option Value :=
  (ps.byPosition? args i).or (ps.byKeyword? keywords i)

/-- The keywords that go to no parameter of their name. -/
def unmatched (ps : ParameterList) (keywords : List (String × Value)) : List (String × Value) :=
  keywords.filter fun kw => (ps.named? kw.1).isNone

/-- Two keywords that go to the same parameter have its name. -/
theorem named?_inj {a b : String} {i : Nat} (ha : ps.named? a = some i)
    (hb : ps.named? b = some i) : a = b := by
  obtain ⟨_, hta, _⟩ := List.findIdx?_eq_some_iff_getElem.mp ha
  obtain ⟨_, htb, _⟩ := List.findIdx?_eq_some_iff_getElem.mp hb
  simp only [Parameter.takesKeyword, Bool.and_eq_true, beq_iff_eq] at hta htb
  exact hta.1.symm.trans htb.1

/-- A keyword goes to a parameter that takes arguments by name. -/
theorem exists_of_named? {name : String} {i : Nat} (h : ps.named? name = some i) :
    ∃ p, ps.parameters[i]? = some p ∧ (p.kind = .positional ∨ p.kind = .keywordOnly) := by
  obtain ⟨hi, htakes, _⟩ := List.findIdx?_eq_some_iff_getElem.mp h
  simp only [Parameter.takesKeyword, Bool.and_eq_true, Bool.or_eq_true, beq_iff_eq] at htakes
  exact ⟨ps.parameters[i], List.getElem?_eq_getElem hi, htakes.2⟩

theorem rank_cons {p : Parameter} {rest : List Parameter} {i : Nat} :
    (mk (p :: rest)).rank (i + 1) =
      (mk rest).rank i + if p.kind == .positional then 1 else 0 := by
  rw [rank, List.take_succ_cons, List.countP_cons, rank]

end ParameterList

/-! ## Slots by index -/

namespace Slot

/-- The slots of parameters, by what the parameter at each index is given. -/
def arrange (ps : List Parameter) (given : Nat → Option Value) : List Slot :=
  ps.mapIdx fun i p => ⟨p, given i⟩

variable {ps : List Parameter} {p : Parameter} {given : Nat → Option Value}

theorem arrange_cons :
    arrange (p :: ps) given = ⟨p, given 0⟩ :: arrange ps fun i => given (i + 1) := by
  rw [arrange, List.mapIdx_cons]
  rfl

theorem getElem?_arrange (i : Nat) :
    (arrange ps given)[i]? = ps[i]?.map fun p => ⟨p, given i⟩ := by
  rw [arrange, List.getElem?_mapIdx]

theorem forall_mem_arrange {P : Slot → Prop} :
    (∀ s ∈ arrange ps given, P s) ↔ ∀ i p, ps[i]? = some p → P ⟨p, given i⟩ := by
  constructor
  · intro hall i p hp
    have hslot : (arrange ps given)[i]? = some ⟨p, given i⟩ := by
      rw [getElem?_arrange, hp]
      rfl
    exact hall _ (List.mem_of_getElem? hslot)
  · intro hall s hs
    obtain ⟨i, hi⟩ := List.mem_iff_getElem?.mp hs
    rw [getElem?_arrange] at hi
    obtain ⟨p, hp, rfl⟩ := Option.map_eq_some_iff.mp hi
    exact hall i p hp

theorem parameters_arrange (ps : List Parameter) (given : Nat → Option Value) :
    parameters (arrange ps given) = ps := by
  apply List.ext_getElem?
  intro i
  rw [parameters, List.getElem?_map, getElem?_arrange, Option.map_map]
  exact Option.map_id'

theorem leftOver_arrange {α : Type} (kind : ParameterKind) (i : Nat) (extra : List α) :
    leftOver kind ((arrange ps given).take i) extra =
      if (ps.take i).any (·.kind == kind) then [] else extra := by
  have hany : ((arrange ps given).take i).any (·.parameter.kind == kind) =
      (ps.take i).any (·.kind == kind) := by
    conv_rhs => rw [← parameters_arrange ps given, parameters, ← List.map_take, List.any_map]
    rfl
  rw [leftOver, hany]

/-- The positional parameter of a rank is given the argument of that rank. -/
theorem fillPositional_eq (args : List Value) :
    fillPositional ps args = arrange ps ((ParameterList.mk ps).byPosition? args) := by
  induction ps generalizing args with
  | nil => rfl
  | cons p rest ih =>
      rw [arrange_cons]
      unfold fillPositional
      by_cases hkind : (p.kind == .positional) = true
      · -- the parameter takes the first argument, and those behind it rank one higher
        rw [if_pos hkind]
        cases args with
        | nil =>
            have hnone (qs : List Parameter) (i : Nat) :
                (ParameterList.mk qs).byPosition? [] i = none := by
              simp [ParameterList.byPosition?]
            simp only [ih, funext (hnone rest), hnone]
        | cons a more =>
            have hfirst : (ParameterList.mk (p :: rest)).byPosition? (a :: more) 0 = some a := by
              simp [ParameterList.byPosition?, ParameterList.rank, hkind]
            have hrest (i : Nat) : (ParameterList.mk (p :: rest)).byPosition? (a :: more) (i + 1) =
                (ParameterList.mk rest).byPosition? more i := by
              simp [ParameterList.byPosition?, ParameterList.rank_cons, hkind]
            simp only [hfirst, hrest, ih]
      · rw [if_neg hkind]
        have hfirst : (ParameterList.mk (p :: rest)).byPosition? args 0 = none := by
          simp [ParameterList.byPosition?, hkind]
        have hrest (i : Nat) : (ParameterList.mk (p :: rest)).byPosition? args (i + 1) =
            (ParameterList.mk rest).byPosition? args i := by
          simp [ParameterList.byPosition?, ParameterList.rank_cons, hkind]
        simp only [hfirst, hrest, ih]

/-- A keyword is given to the parameter it goes to, unless this one has an argument. -/
theorem fillKeyword_eq {name : String} {value : Value} :
    fillKeyword name value (arrange ps given) =
      match (ParameterList.mk ps).named? name with
      | none => .unmatched
      | some i =>
          if (given i).isSome then .taken
          else .filled (arrange ps (Function.update given i (some value))) := by
  induction ps generalizing given with
  | nil => rfl
  | cons p rest ih =>
      rw [arrange_cons, fillKeyword, ParameterList.named?, List.findIdx?_cons]
      by_cases htakes : p.takesKeyword name = true
      · simp [htakes, arrange_cons]
      · simp only [htakes]
        rw [ih, ParameterList.named?]
        cases List.findIdx? (·.takesKeyword name) rest with
        | none => rfl
        | some i =>
            by_cases htaken : (given (i + 1)).isSome = true
            · simp [htaken]
            · -- the parameters behind the first are numbered one higher
              have hshift : (fun j => Function.update given (i + 1) (some value) (j + 1)) =
                  Function.update (fun j => given (j + 1)) i (some value) := by
                funext j
                simp [Function.update_apply]
              simp [htaken, arrange_cons, hshift]

/-! ## Settling -/

/-- What a slot is at fault for: an argument that is missing. -/
def fault? (s : Slot) : Option BindingError :=
  match s.parameter.kind with
  | .positional | .keywordOnly =>
      if (s.given.or s.parameter.default).isNone then some (.missingArgument s.parameter.name)
      else none
  | _ => none

theorem fault?_eq (s : Slot) (extraArgs : List Value) (extraKeywords : List (String × Value)) :
    s.fault? = if (s.outcome extraArgs extraKeywords).isNone
      then some (.missingArgument s.parameter.name) else none := by
  cases hkind : s.parameter.kind <;> simp [fault?, outcome, hkind]

/-- A parameter that takes one argument settles on it, or on its default. -/
theorem outcome_of_named {s : Slot} {extraArgs : List Value}
    {extraKeywords : List (String × Value)}
    (h : s.parameter.kind = .positional ∨ s.parameter.kind = .keywordOnly) :
    s.outcome extraArgs extraKeywords = s.given.or s.parameter.default := by
  rcases h with h | h <;> simp [outcome, h]

theorem fault?_eq_none_iff {s : Slot} :
    s.fault? = none ↔ (s.parameter.kind = .positional ∨ s.parameter.kind = .keywordOnly →
      s.given.or s.parameter.default ≠ none) := by
  cases hkind : s.parameter.kind <;> simp [fault?, hkind]

theorem leftOver_cons {α : Type} (kind : ParameterKind) {s : Slot} {before : List Slot}
    {extra : List α} :
    leftOver kind (s :: before) extra = leftOver kind before (leftOver kind [s] extra) := by
  by_cases hkind : (s.parameter.kind == kind) = true <;> simp [leftOver, hkind]

section Settle

variable {extraArgs : List Value} {extraKeywords : List (String × Value)} {slots : List Slot}

/-- The first slot with a missing argument is the one that is told. -/
theorem settle_eq_error_iff {e : BindingError} :
    settle extraArgs extraKeywords slots = .error e ↔ slots.findSome? fault? = some e := by
  induction slots generalizing extraArgs extraKeywords with
  | nil => simp [settle]
  | cons s rest ih =>
      rw [settle_cons, List.findSome?_cons, fault?_eq s extraArgs extraKeywords]
      cases s.outcome extraArgs extraKeywords with
      | none => simp
      | some v =>
          -- what is left over decides no fault, so that the rest may settle with less
          simp only [Option.isNone_some, Bool.false_eq_true, if_false]
          rw [← ih]
          cases settle (leftOver .restPositional [s] extraArgs)
            (leftOver .restKeyword [s] extraKeywords) rest with
          | error e => simp
          | ok more => simp

/-- Each slot settles with what the slots before it leave over. -/
theorem exists_of_settle {bindings : List Binding} {i : Nat} {s : Slot}
    (h : settle extraArgs extraKeywords slots = .ok bindings) (hs : slots[i]? = some s) :
    ∃ v, s.outcome (leftOver .restPositional (slots.take i) extraArgs)
        (leftOver .restKeyword (slots.take i) extraKeywords) = some v ∧
      bindings[i]? = some ⟨s.parameter.name, s.parameter.kind, v⟩ := by
  induction slots generalizing extraArgs extraKeywords bindings i with
  | nil => simp at hs
  | cons first rest ih =>
      rw [settle_cons] at h
      cases hvalue : first.outcome extraArgs extraKeywords with
      | none => simp [hvalue] at h
      | some v =>
          simp only [hvalue] at h
          obtain ⟨more, hsettled, hbindings⟩ := bind_eq_ok_iff.mp h
          cases hbindings
          cases i with
          | zero =>
              cases hs
              exact ⟨v, hvalue, rfl⟩
          | succ i =>
              -- the first slot is one of those before, and leaves over what the rest starts with
              rw [List.take_succ_cons, leftOver_cons .restPositional, leftOver_cons .restKeyword]
              exact ih hsettled hs

end Settle

end Slot

/-! ## Keywords -/

namespace ParameterList

variable {ps : ParameterList} {args : List Value} {keywords : List (String × Value)}
  {given : Nat → Option Value}

/-- What a keyword is at fault for, where some parameters have an argument. -/
def keywordFault? (ps : ParameterList) (given : Nat → Option Value) (kw : String × Value) :
    Option BindingError :=
  match ps.named? kw.1 with
  | some i => if (given i).isSome then some (.multipleValues kw.1) else none
  | none => if ps.has .restKeyword then none else some (.unexpectedKeyword kw.1)

/-- An argument for one parameter is no fault of keywords for others. -/
theorem findSome?_keywordFault?_update {i : Nat} {value : Option Value}
    (h : ∀ kw ∈ keywords, ps.named? kw.1 ≠ some i) :
    keywords.findSome? (ps.keywordFault? (Function.update given i value)) =
      keywords.findSome? (ps.keywordFault? given) := by
  have hsame : ∀ kw ∈ keywords,
      ps.keywordFault? (Function.update given i value) kw = ps.keywordFault? given kw := by
    intro kw hkw
    unfold keywordFault?
    cases hname : ps.named? kw.1 with
    | none => rfl
    | some j =>
        have hne : j ≠ i := fun hji => h kw hkw (by rw [hname, hji])
        simp only [Function.update_of_ne hne]
  rw [← List.head?_filterMap, List.filterMap_congr hsame, List.head?_filterMap]

theorem byKeyword?_cons {name : String} {value : Value} {i : Nat} :
    ps.byKeyword? ((name, value) :: keywords) i =
      if ps.named? name = some i then some value else ps.byKeyword? keywords i := by
  by_cases h : ps.named? name = some i <;> simp [byKeyword?, h]

/-- A keyword that is given to a free parameter is what goes to it by name. -/
theorem update_or_byKeyword? {name : String} {value : Value} {j : Nat}
    (hname : ps.named? name = some j) (hfree : given j = none) :
    (fun i => (Function.update given j (some value) i).or (ps.byKeyword? keywords i)) =
      fun i => (given i).or (ps.byKeyword? ((name, value) :: keywords) i) := by
  funext i
  rw [byKeyword?_cons, hname, Function.update_apply]
  by_cases hi : i = j
  · subst hi
    simp [hfree]
  · have hne : some j ≠ some i := fun h => hi (Option.some.inj h).symm
    rw [if_neg hi, if_neg hne]

theorem byKeyword?_eq_none_iff {i : Nat} :
    ps.byKeyword? keywords i = none ↔ ∀ kw ∈ keywords, ps.named? kw.1 ≠ some i := by
  simp [byKeyword?]

/-- No two keywords go to one parameter. -/
def Apart (ps : ParameterList) (keywords : List (String × Value)) : Prop :=
  (keywords.filterMap fun kw => ps.named? kw.1).Nodup

theorem apart_cons_of_unmatched {name : String} {value : Value} (hname : ps.named? name = none) :
    ps.Apart ((name, value) :: keywords) ↔ ps.Apart keywords := by
  simp [Apart, hname]

theorem apart_cons_of_named {name : String} {value : Value} {j : Nat}
    (hname : ps.named? name = some j) :
    ps.Apart ((name, value) :: keywords) ↔
      (∀ kw ∈ keywords, ps.named? kw.1 ≠ some j) ∧ ps.Apart keywords := by
  simp [Apart, hname]

/-- Keywords of different names go to different parameters. -/
theorem apart_of_nodup (hdistinct : (keywords.map (·.1)).Nodup) : ps.Apart keywords := by
  induction keywords with
  | nil => exact List.nodup_nil
  | cons kw rest ih =>
      obtain ⟨name, value⟩ := kw
      rw [List.map_cons, List.nodup_cons] at hdistinct
      obtain ⟨hnew, hrest⟩ := hdistinct
      cases hname : ps.named? name with
      | none => exact (apart_cons_of_unmatched hname).mpr (ih hrest)
      | some j =>
          refine (apart_cons_of_named hname).mpr ⟨fun kw hkw hsame => ?_, ih hrest⟩
          exact hnew (List.mem_map.mpr ⟨kw, hkw, named?_inj hsame hname⟩)

/-- Keywords that go to different parameters are given each to its own, unless
    one of them is at fault. -/
theorem fillKeywords_eq {extra : List (String × Value)} (hapart : ps.Apart keywords) :
    Slot.fillKeywords (ps.has .restKeyword) (Slot.arrange ps.parameters given) extra keywords =
      match keywords.findSome? (ps.keywordFault? given) with
      | some e => .error e
      | none => .ok (Slot.arrange ps.parameters fun i => (given i).or (ps.byKeyword? keywords i),
          extra ++ ps.unmatched keywords) := by
  induction keywords generalizing given extra with
  | nil => simp [Slot.fillKeywords, byKeyword?, unmatched]
  | cons kw rest ih =>
      obtain ⟨name, value⟩ := kw
      rw [Slot.fillKeywords, Slot.fillKeyword_eq, List.findSome?_cons]
      cases hname : ps.named? name with
      | none =>
          have hrest : ps.Apart rest := (apart_cons_of_unmatched hname).mp hapart
          by_cases hcollects : ps.has .restKeyword = true
          · -- the keyword is kept for the parameter that takes the rest
            have hgiven (i : Nat) :
                ps.byKeyword? ((name, value) :: rest) i = ps.byKeyword? rest i := by
              simp [byKeyword?_cons, hname]
            have hextra : ps.unmatched ((name, value) :: rest) =
                (name, value) :: ps.unmatched rest := by
              simp [unmatched, hname]
            have hfault : ps.keywordFault? given (name, value) = none := by
              simp [keywordFault?, hname, hcollects]
            simp only [hcollects, if_true, hfault, hgiven, hextra]
            rw [← hcollects, ih hrest, List.append_assoc]
            rfl
          · simp [keywordFault?, hname, hcollects]
      | some j =>
          -- no other keyword goes to the parameter that is filled now
          obtain ⟨hothers, hrest⟩ := (apart_cons_of_named hname).mp hapart
          by_cases htaken : (given j).isSome = true
          · simp [keywordFault?, hname, htaken]
          · have hfree : given j = none := by simpa using htaken
            have hextra : ps.unmatched ((name, value) :: rest) = ps.unmatched rest := by
              simp [unmatched, hname]
            have hfault : ps.keywordFault? given (name, value) = none := by
              simp [keywordFault?, hname, htaken]
            simp only [htaken, Bool.false_eq_true, if_false, hfault, hextra]
            rw [ih hrest, findSome?_keywordFault?_update hothers, update_or_byKeyword? hname hfree]

/-- Keywords that find a slot each, or are collected, go to different parameters
    that had no argument before. -/
theorem apart_of_fillKeywords {collects : Bool} {extra : List (String × Value)}
    {filled : List Slot × List (String × Value)}
    (h : Slot.fillKeywords collects (Slot.arrange ps.parameters given) extra keywords =
      .ok filled) :
    ps.Apart keywords ∧ ∀ kw ∈ keywords, ∀ i, ps.named? kw.1 = some i → given i = none := by
  induction keywords generalizing given extra with
  | nil => exact ⟨List.nodup_nil, fun _ hkw => absurd hkw List.not_mem_nil⟩
  | cons kw rest ih =>
      obtain ⟨name, value⟩ := kw
      rw [Slot.fillKeywords, Slot.fillKeyword_eq] at h
      cases hname : ps.named? name with
      | none =>
          cases collects with
          | false => simp [hname] at h
          | true =>
              simp only [hname, if_true] at h
              obtain ⟨hapart, hfree⟩ := ih h
              refine ⟨(apart_cons_of_unmatched hname).mpr hapart,
                List.forall_mem_cons.mpr ⟨fun i hi => ?_, hfree⟩⟩
              rw [hname] at hi
              cases hi
      | some j =>
          by_cases htaken : (given j).isSome = true
          · simp [hname, htaken] at h
          · have hj : given j = none := by simpa using htaken
            simp only [hname, htaken, Bool.false_eq_true, if_false] at h
            obtain ⟨hapart, hfree⟩ := ih h
            -- the parameter has its argument now, so that no later keyword goes to it
            have hothers : ∀ kw ∈ rest, ps.named? kw.1 ≠ some j := by
              intro kw hkw hsame
              simpa using hfree kw hkw j hsame
            have hbefore : ∀ kw ∈ rest, ∀ i, ps.named? kw.1 = some i → given i = none := by
              intro kw hkw i hi
              have hne : i ≠ j := fun hij => hothers kw hkw (by rw [hi, hij])
              simpa [Function.update_of_ne hne] using hfree kw hkw i hi
            refine ⟨(apart_cons_of_named hname).mpr ⟨hothers, hapart⟩,
              List.forall_mem_cons.mpr ⟨fun i hi => ?_, hbefore⟩⟩
            rw [hname, Option.some.injEq] at hi
            rw [← hi, hj]

theorem byKeyword?_of_mem (hdistinct : (keywords.map (·.1)).Nodup) {kw : String × Value} {i : Nat}
    (hkw : kw ∈ keywords) (hname : ps.named? kw.1 = some i) :
    ps.byKeyword? keywords i = some kw.2 := by
  induction keywords with
  | nil => cases hkw
  | cons first rest ih =>
      obtain ⟨name, value⟩ := first
      rw [List.map_cons, List.nodup_cons] at hdistinct
      rw [byKeyword?_cons]
      rcases List.mem_cons.mp hkw with rfl | hkw
      · rw [if_pos hname]
      · have hne : ps.named? name ≠ some i := by
          intro hsame
          have hnames : name = kw.1 := named?_inj hsame hname
          exact hdistinct.1 (List.mem_map.mpr ⟨kw, hkw, hnames.symm⟩)
        rw [if_neg hne]
        exact ih hdistinct.2 hkw

/-! ## Calls -/

/-- What a call is at fault for: too many positional arguments, before the first
    keyword at fault, before the first missing argument. -/
def fault? (ps : ParameterList) (args : List Value) (keywords : List (String × Value)) :
    Option BindingError :=
  if ps.positionalCount < args.length && !ps.has .restPositional then
    some (.tooManyPositional ps.positionalCount args.length)
  else
    (keywords.findSome? (ps.keywordFault? (ps.byPosition? args))).or
      ((Slot.arrange ps.parameters (ps.given? args keywords)).findSome? Slot.fault?)

/-- The arguments of a call fit its parameters. -/
structure Fits (ps : ParameterList) (args : List Value) (keywords : List (String × Value)) :
    Prop where
  positional : args.length ≤ ps.positionalCount ∨ ps.has .restPositional = true
  keyword : ∀ kw ∈ keywords,
    (∃ i, ps.named? kw.1 = some i ∧ ps.byPosition? args i = none) ∨
      ps.named? kw.1 = none ∧ ps.has .restKeyword = true
  complete : ∀ i p, ps.parameters[i]? = some p → p.kind = .positional ∨ p.kind = .keywordOnly →
    (∃ a, ps.byPosition? args i = some a) ∨ (∃ kw ∈ keywords, ps.named? kw.1 = some i) ∨
      ∃ v, p.default = some v

/-- The bindings of a call hold its arguments, each in its place. -/
structure Bound (ps : ParameterList) (args : List Value) (keywords : List (String × Value))
    (bindings : List Binding) : Prop where
  entries : bindings.map (fun b => (b.name, b.kind)) = ps.parameters.map fun p => (p.name, p.kind)
  positional : ∀ i p a, ps.parameters[i]? = some p → p.kind = .positional →
    args[ps.rank i]? = some a → bindings[i]? = some ⟨p.name, p.kind, a⟩
  keyword : ∀ i p, ps.parameters[i]? = some p → ∀ kw ∈ keywords, ps.named? kw.1 = some i →
    bindings[i]? = some ⟨p.name, p.kind, kw.2⟩
  default : ∀ i p, ps.parameters[i]? = some p → p.kind = .positional ∨ p.kind = .keywordOnly →
    ps.byPosition? args i = none → (∀ kw ∈ keywords, ps.named? kw.1 ≠ some i) →
    ∃ v, p.default = some v ∧ bindings[i]? = some ⟨p.name, p.kind, v⟩
  restPositional : ∀ (i : Nat) p, ps.parameters[i]? = some p → p.kind = .restPositional →
    bindings[i]? = some ⟨p.name, p.kind, .collection .tuple
      (if (ps.parameters.take i).any (·.kind == .restPositional) then []
        else args.drop ps.positionalCount)⟩
  restKeyword : ∀ (i : Nat) p, ps.parameters[i]? = some p → p.kind = .restKeyword →
    bindings[i]? = some ⟨p.name, p.kind, .dict
      (if (ps.parameters.take i).any (·.kind == .restKeyword) then []
        else (ps.unmatched keywords).map fun kw => (.str kw.1, kw.2))⟩

/-- A call without too many arguments settles what its arguments give, unless a
    keyword is at fault. -/
theorem bind_eq (hapart : ps.Apart keywords)
    (hmany : ¬ (ps.positionalCount < args.length && !ps.has .restPositional) = true) :
    ps.bind args keywords =
      match keywords.findSome? (ps.keywordFault? (ps.byPosition? args)) with
      | some e => .error e
      | none => Slot.settle (args.drop ps.positionalCount) (ps.unmatched keywords)
          (Slot.arrange ps.parameters (ps.given? args keywords)) := by
  rw [bind, if_neg hmany, Slot.fillPositional_eq]
  simp only [fillKeywords_eq hapart]
  cases keywords.findSome? (ps.keywordFault? (ps.byPosition? args)) with
  | none => rfl
  | some e => rfl

/-- A call binds its arguments only if it is not at fault at once for too many
    of them, and if no two keywords go to one parameter. -/
theorem apart_of_bind {bindings : List Binding} (h : ps.bind args keywords = .ok bindings) :
    ¬ (ps.positionalCount < args.length && !ps.has .restPositional) = true ∧
      ps.Apart keywords := by
  have hmany : ¬ (ps.positionalCount < args.length && !ps.has .restPositional) = true := by
    intro hmany
    rw [bind, if_pos hmany] at h
    cases h
  rw [bind, if_neg hmany, Slot.fillPositional_eq] at h
  obtain ⟨filled, hfilled, _⟩ := bind_eq_ok_iff.mp h
  exact ⟨hmany, (apart_of_fillKeywords hfilled).1⟩

theorem Apart.bind_eq_error_iff (hapart : ps.Apart keywords) {e : BindingError} :
    ps.bind args keywords = .error e ↔ ps.fault? args keywords = some e := by
  by_cases hmany : (ps.positionalCount < args.length && !ps.has .restPositional) = true
  · rw [bind, if_pos hmany, fault?, if_pos hmany]
    simp
  · rw [bind_eq hapart hmany, fault?, if_neg hmany]
    cases keywords.findSome? (ps.keywordFault? (ps.byPosition? args)) with
    | none => simp [Slot.settle_eq_error_iff]
    | some e => simp

theorem bind_eq_error_iff (hdistinct : (keywords.map (·.1)).Nodup) {e : BindingError} :
    ps.bind args keywords = .error e ↔ ps.fault? args keywords = some e :=
  (apart_of_nodup hdistinct).bind_eq_error_iff

theorem keywordFault?_eq_none_iff {kw : String × Value} :
    ps.keywordFault? given kw = none ↔
      (∃ i, ps.named? kw.1 = some i ∧ given i = none) ∨
        ps.named? kw.1 = none ∧ ps.has .restKeyword = true := by
  unfold keywordFault?
  cases ps.named? kw.1 <;> simp

/-- A parameter has a value when an argument goes to it or it has a default. -/
theorem given?_or_ne_none_iff {i : Nat} {default : Option Value} :
    (ps.given? args keywords i).or default ≠ none ↔
      (∃ a, ps.byPosition? args i = some a) ∨ (∃ kw ∈ keywords, ps.named? kw.1 = some i) ∨
        ∃ v, default = some v := by
  have hkeyword : ps.byKeyword? keywords i ≠ none ↔ ∃ kw ∈ keywords, ps.named? kw.1 = some i := by
    rw [ne_eq, byKeyword?_eq_none_iff]
    simp
  rw [← hkeyword, ← Option.ne_none_iff_exists', ← Option.ne_none_iff_exists', given?, ne_eq,
    Option.or_eq_none_iff, Option.or_eq_none_iff]
  tauto

/-- A call is not at fault exactly when its arguments fit. -/
theorem fault?_eq_none_iff : ps.fault? args keywords = none ↔ ps.Fits args keywords := by
  have hmissing :
      (Slot.arrange ps.parameters (ps.given? args keywords)).findSome? Slot.fault? = none ↔
        ∀ i p, ps.parameters[i]? = some p → p.kind = .positional ∨ p.kind = .keywordOnly →
          (∃ a, ps.byPosition? args i = some a) ∨ (∃ kw ∈ keywords, ps.named? kw.1 = some i) ∨
            ∃ v, p.default = some v := by
    rw [List.findSome?_eq_none_iff, Slot.forall_mem_arrange]
    simp only [Slot.fault?_eq_none_iff, given?_or_ne_none_iff]
  have hkeywords : keywords.findSome? (ps.keywordFault? (ps.byPosition? args)) = none ↔
      ∀ kw ∈ keywords, (∃ i, ps.named? kw.1 = some i ∧ ps.byPosition? args i = none) ∨
        ps.named? kw.1 = none ∧ ps.has .restKeyword = true := by
    rw [List.findSome?_eq_none_iff]
    simp only [keywordFault?_eq_none_iff]
  by_cases hmany : (ps.positionalCount < args.length && !ps.has .restPositional) = true
  · -- this fault comes first, and such arguments do not fit whatever the keywords are
    rw [fault?, if_pos hmany]
    simp only [Bool.and_eq_true, decide_eq_true_iff, Bool.not_eq_true'] at hmany
    constructor
    · intro h
      cases h
    · intro hfits
      rcases hfits.positional with hfew | hrest
      · omega
      · rw [hmany.2] at hrest
        cases hrest
  · rw [fault?, if_neg hmany, Option.or_eq_none_iff, hkeywords, hmissing]
    have hpositional : args.length ≤ ps.positionalCount ∨ ps.has .restPositional = true := by
      simpa [Nat.not_lt, or_iff_not_imp_left] using hmany
    exact ⟨fun h => ⟨hpositional, h.1, h.2⟩, fun h => ⟨h.keyword, h.complete⟩⟩

/-- A call binds its arguments exactly when they fit and no two keywords go to
    one parameter. -/
theorem exists_bind_iff_apart :
    (∃ bindings, ps.bind args keywords = .ok bindings) ↔
      ps.Apart keywords ∧ ps.Fits args keywords := by
  rw [← fault?_eq_none_iff]
  constructor
  · rintro ⟨bindings, hbind⟩
    have hapart := (apart_of_bind hbind).2
    refine ⟨hapart, Option.eq_none_iff_forall_ne_some.mpr fun e he => ?_⟩
    rw [hapart.bind_eq_error_iff.mpr he] at hbind
    cases hbind
  · rintro ⟨hapart, hnone⟩
    cases hbind : ps.bind args keywords with
    | ok bindings => exact ⟨bindings, rfl⟩
    | error e =>
        rw [hapart.bind_eq_error_iff.mp hbind] at hnone
        cases hnone

/-- A call whose keywords have different names binds its arguments exactly when
    they fit. -/
theorem exists_bind_iff (hdistinct : (keywords.map (·.1)).Nodup) :
    (∃ bindings, ps.bind args keywords = .ok bindings) ↔ ps.Fits args keywords := by
  rw [exists_bind_iff_apart]
  exact and_iff_right (apart_of_nodup hdistinct)

/-! ## Bindings -/

section Bindings

variable {bindings : List Binding} {i : Nat} {p : Parameter}

/-- What the parameter at an index receives in a call that binds its arguments. -/
theorem exists_of_bind (h : ps.bind args keywords = .ok bindings)
    (hp : ps.parameters[i]? = some p) :
    ∃ v, Slot.outcome
        (if (ps.parameters.take i).any (·.kind == .restPositional) then []
          else args.drop ps.positionalCount)
        (if (ps.parameters.take i).any (·.kind == .restKeyword) then []
          else ps.unmatched keywords) ⟨p, ps.given? args keywords i⟩ = some v ∧
      bindings[i]? = some ⟨p.name, p.kind, v⟩ := by
  obtain ⟨hmany, hapart⟩ := apart_of_bind h
  rw [bind_eq hapart hmany] at h
  cases hfault : keywords.findSome? (ps.keywordFault? (ps.byPosition? args)) with
  | some e => simp [hfault] at h
  | none =>
      simp only [hfault] at h
      have hslot : (Slot.arrange ps.parameters (ps.given? args keywords))[i]? =
          some ⟨p, ps.given? args keywords i⟩ := by
        rw [Slot.getElem?_arrange, hp]
        rfl
      have hsettled := Slot.exists_of_settle h hslot
      rw [Slot.leftOver_arrange .restPositional, Slot.leftOver_arrange .restKeyword] at hsettled
      exact hsettled

/-- A parameter that takes one argument holds it, or its default. -/
theorem binding_of_named (h : ps.bind args keywords = .ok bindings)
    (hp : ps.parameters[i]? = some p)
    (hkind : p.kind = .positional ∨ p.kind = .keywordOnly) :
    ∃ v, (ps.given? args keywords i).or p.default = some v ∧
      bindings[i]? = some ⟨p.name, p.kind, v⟩ := by
  obtain ⟨v, hvalue, hbinding⟩ := exists_of_bind h hp
  rw [Slot.outcome_of_named hkind] at hvalue
  exact ⟨v, hvalue, hbinding⟩

theorem unmatched_pairwise (hdistinct : (keywords.map (·.1)).Nodup) :
    ((ps.unmatched keywords).map fun kw => (Value.str kw.1, kw.2)).Pairwise
      fun e f => (e.1 == f.1) = false := by
  have hnames : keywords.Pairwise fun a b => a.1 ≠ b.1 := List.pairwise_map.mp hdistinct
  refine List.pairwise_map.mpr ((hnames.filter _).imp fun {a b} hne => ?_)
  show Value.equal (.str a.1) (.str b.1) = false
  rw [Value.equal]
  exact beq_eq_false_iff_ne.mpr hne

theorem bound_of_bind (hdistinct : (keywords.map (·.1)).Nodup)
    (h : ps.bind args keywords = .ok bindings) : ps.Bound args keywords bindings := by
  have hfits : ps.Fits args keywords := (exists_bind_iff hdistinct).mp ⟨bindings, h⟩
  constructor
  case entries => exact bind_parameters h
  case positional =>
    intro i p a hp hkind harg
    obtain ⟨v, hvalue, hbinding⟩ := binding_of_named h hp (Or.inl hkind)
    have hposition : ps.byPosition? args i = some a := by
      simp [byPosition?, hp, hkind, harg]
    simp only [given?, hposition, Option.some_or, Option.some.injEq] at hvalue
    rw [hbinding, hvalue]
  case keyword =>
    intro i p hp kw hkw hname
    obtain ⟨q, hq, hkind⟩ := exists_of_named? hname
    obtain rfl : p = q := Option.some.inj (hp.symm.trans hq)
    obtain ⟨v, hvalue, hbinding⟩ := binding_of_named h hp hkind
    -- the keyword is not at fault, so that the parameter has no argument by position
    have hposition : ps.byPosition? args i = none := by
      rcases hfits.keyword kw hkw with ⟨j, hj, hnone⟩ | ⟨hnone, _⟩
      · rw [hname, Option.some.injEq] at hj
        rw [hj, hnone]
      · rw [hname] at hnone
        cases hnone
    simp only [given?, hposition, byKeyword?_of_mem hdistinct hkw hname, Option.none_or,
      Option.some_or, Option.some.injEq] at hvalue
    rw [hbinding, hvalue]
  case default =>
    intro i p hp hkind hposition hkeyword
    obtain ⟨v, hvalue, hbinding⟩ := binding_of_named h hp hkind
    simp only [given?, hposition, byKeyword?_eq_none_iff.mpr hkeyword, Option.none_or] at hvalue
    exact ⟨v, hvalue, hbinding⟩
  case restPositional =>
    intro i p hp hkind
    obtain ⟨v, hvalue, hbinding⟩ := exists_of_bind h hp
    simp only [Slot.outcome, hkind, Option.some.injEq] at hvalue
    rw [hbinding, ← hvalue]
  case restKeyword =>
    intro i p hp hkind
    obtain ⟨v, hvalue, hbinding⟩ := exists_of_bind h hp
    simp only [Slot.outcome, hkind, Option.some.injEq] at hvalue
    rw [hbinding, ← hvalue]
    -- keywords of different names make entries with different keys, which all stay
    by_cases hbefore : (ps.parameters.take i).any (·.kind == .restKeyword) = true
    · rw [if_pos hbefore, if_pos hbefore]
      rfl
    · rw [if_neg hbefore, if_neg hbefore, Value.dictOf_of_distinct (unmatched_pairwise hdistinct)]

end Bindings

/-- A call whose keywords have different names binds its arguments exactly when
    they fit; its bindings then hold them, each in its place, and otherwise the
    call fails with the first fault. -/
theorem bind_exact (ps : ParameterList) (args : List Value) (keywords : List (String × Value))
    (hdistinct : (keywords.map (·.1)).Nodup) :
    ((∃ bindings, ps.bind args keywords = .ok bindings) ↔ ps.Fits args keywords) ∧
    (∀ bindings, ps.bind args keywords = .ok bindings → ps.Bound args keywords bindings) ∧
    ∀ e, ps.bind args keywords = .error e ↔ ps.fault? args keywords = some e :=
  ⟨exists_bind_iff hdistinct, fun _ => bound_of_bind hdistinct,
    fun _ => bind_eq_error_iff hdistinct⟩

/-- A keyword-only parameter before a positional one, two parameters that take
    the rest of the arguments, a default and a keyword that nobody asks for. -/
theorem bind_exact_mixed :
    let ps : ParameterList := ⟨[⟨"k", .keywordOnly, none⟩, ⟨"a", .positional, none⟩,
      ⟨"rest", .restPositional, none⟩, ⟨"b", .positional, some (.int 5)⟩,
      ⟨"more", .restPositional, none⟩, ⟨"others", .restKeyword, none⟩]⟩
    let keywords : List (String × Value) := [("x", .int 10), ("k", .int 2)]
    (keywords.map (·.1)).Nodup ∧ ps.Fits [.int 1] keywords ∧
      ∃ bindings, ps.bind [.int 1] keywords = .ok bindings ∧ ps.Bound [.int 1] keywords bindings ∧
        bindings[0]? = some ⟨"k", .keywordOnly, .int 2⟩ ∧
        bindings[5]? = some ⟨"others", .restKeyword, .dict [(.str "x", .int 10)]⟩ := by
  intro ps keywords
  have hdistinct : (keywords.map (·.1)).Nodup := by decide
  have hfits : ps.Fits [.int 1] keywords := fault?_eq_none_iff.mp (by decide)
  obtain ⟨hiff, hbound, _⟩ := bind_exact ps [.int 1] keywords hdistinct
  obtain ⟨bindings, hbind⟩ := hiff.mpr hfits
  have hholds := hbound bindings hbind
  refine ⟨hdistinct, hfits, bindings, hbind, hholds, ?_, ?_⟩
  · exact hholds.keyword 0 _ rfl ("k", .int 2) (by simp [keywords]) (by decide)
  · exact hholds.restKeyword 5 _ rfl rfl

/-- A parameter that takes the further keywords does not take one for a
    parameter that has its argument by position. -/
theorem bind_taken_keyword :
    let ps : ParameterList := ⟨[⟨"a", .positional, none⟩, ⟨"others", .restKeyword, none⟩]⟩
    ps.has .restKeyword = true ∧ ps.byPosition? [.int 1] 0 = some (.int 1) ∧
      ps.bind [.int 1] [("a", .int 2)] = .error (.multipleValues "a") := by
  exact ⟨rfl, rfl, rfl⟩

end ParameterList

end Conform

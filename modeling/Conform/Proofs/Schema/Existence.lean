/-
  Conform.Proofs.Schema.Existence

  Which declarations have a schema. `WellFormed` states the rules for each kind
  of declaration: how many type arguments a container takes, where the repeat
  mark may stand, which names have to be registered, and what may not be empty.
  A declaration has a schema exactly if it follows the rules at every depth.
-/

import Conform.Proofs.ClassTable.Family

namespace Conform

namespace Declaration

/-- The declarations that follow the rules. No rule admits the repeat mark by
    itself, and none asks anything of metadata. -/
inductive WellFormed (classes : Option ClassTable) : Declaration → Prop
  | none : WellFormed classes .none
  | any : WellFormed classes .any
  | sized : WellFormed classes .sized
  | callable : WellFormed classes .callable
  | concrete (tag : TypeTag) : WellFormed classes (.concrete tag)
  | classNamed (name : String) : WellFormed classes (.classNamed name)
  | typeOf (name : String) : WellFormed classes (.typeOf name)
  | constraint (c : Constraint) : WellFormed classes (.constraint c)
  /-- A name needs a class table that knows it. -/
  | named {table : ClassTable} {name : String} (given : classes = some table)
      (known : table.contains name = true) : WellFormed classes (.named name)
  /-- A class with its subclasses is only looked up if there is a class table. -/
  | family {name : String} (known : ∀ table, classes = some table → table.contains name = true) :
      WellFormed classes (.family name)
  | collection {kind : Container} {d : Declaration}
      (single : kind = .list ∨ kind = .set ∨ kind = .frozenSet) (member : WellFormed classes d) :
      WellFormed classes (.container kind [d])
  | dict {k e : Declaration} (key : WellFormed classes k) (value : WellFormed classes e) :
      WellFormed classes (.container .dict [k, e])
  /-- The repeat mark stands second of two arguments. -/
  | tupleOf {d : Declaration} (member : WellFormed classes d) :
      WellFormed classes (.container .tuple [d, .ellipsis])
  | tuple {ds : List Declaration} (members : ∀ d ∈ ds, WellFormed classes d) :
      WellFormed classes (.container .tuple ds)
  | union {ds : List Declaration} (nonempty : ds ≠ []) (members : ∀ d ∈ ds, WellFormed classes d) :
      WellFormed classes (.union ds)
  | literal {values : List Value} (nonempty : values ≠ []) : WellFormed classes (.literal values)
  | annotated {base : Declaration} {metadata : List Declaration} (h : WellFormed classes base) :
      WellFormed classes (.annotated base metadata)

variable {classes : Option ClassTable}

/-! ## Names -/

theorem hasSchema_named_iff {name : String} :
    HasSchema classes (.named name) ↔
      ∃ table, classes = some table ∧ table.contains name = true := by
  unfold HasSchema
  rw [toSchema]
  unfold namedSchema
  cases classes with
  | none => simp
  | some table =>
      cases hknown : table.contains name with
      | false => simp [hknown]
      | true => simp [hknown]

theorem hasSchema_family_iff {name : String} :
    HasSchema classes (.family name) ↔
      ∀ table, classes = some table → table.contains name = true := by
  unfold HasSchema
  rw [toSchema]
  unfold familySchema
  cases classes with
  | none => simp
  | some table =>
      cases hfamily : table.family? name with
      | none =>
          have hunknown := ClassTable.family?_eq_none_iff.mp hfamily
          simp [hfamily, hunknown]
      | some names =>
          have hknown : table.contains name = true := by
            rw [← Bool.not_eq_false, ← ClassTable.family?_eq_none_iff, hfamily]
            simp
          simp [hfamily, hknown]

/-! ## Containers -/

theorem not_hasSchema_ellipsis : ¬ HasSchema classes .ellipsis := by
  rintro ⟨s, hs⟩
  cases hs

theorem isEllipsis_eq_false {d : Declaration} (h : HasSchema classes d) : d.isEllipsis = false := by
  cases d with
  | ellipsis => exact absurd h not_hasSchema_ellipsis
  | _ => rfl

theorem hasSchema_container_iff {kind : Container} {args : List Declaration} :
    HasSchema classes (.container kind args) ↔
      ∃ c, containerContents kind args (schemasOf classes args) = .ok c := by
  unfold HasSchema
  simp only [toSchema, bind_eq_ok_iff]
  constructor
  · rintro ⟨_, c, hc, _⟩
    exact ⟨c, hc⟩
  · rintro ⟨c, hc⟩
    exact ⟨_, c, hc, rfl⟩

theorem hasSchema_collection_iff {kind : Container} {args : List Declaration}
    (single : kind = .list ∨ kind = .set ∨ kind = .frozenSet) :
    HasSchema classes (.container kind args) ↔ ∃ d, args = [d] ∧ HasSchema classes d := by
  rw [hasSchema_container_iff]
  constructor
  · rintro ⟨c, hc⟩
    obtain ⟨d, e, hargs, he, _⟩ := containerContents_member_eq_ok single hc
    exact ⟨d, hargs, e, he⟩
  · rintro ⟨d, rfl, e, he⟩
    refine ⟨.each e, ?_⟩
    rcases single with rfl | rfl | rfl <;> simp only [containerContents, schemasOf, he] <;> rfl

theorem hasSchema_dict_iff {args : List Declaration} :
    HasSchema classes (.container .dict args) ↔
      ∃ k e, args = [k, e] ∧ HasSchema classes k ∧ HasSchema classes e := by
  constructor
  · intro h
    obtain ⟨c, hc⟩ := hasSchema_container_iff.mp h
    obtain ⟨d, d', k, e, hargs, hk, he, _⟩ := containerContents_dict_eq_ok hc
    exact ⟨d, d', hargs, ⟨k, hk⟩, e, he⟩
  · rintro ⟨d, d', rfl, ⟨k, hk⟩, e, he⟩
    exact ⟨_, toSchema_dict hk he⟩

theorem exists_tupleForm_of_all {args : List Declaration} (h : ∀ d ∈ args, HasSchema classes d) :
    ∃ f, tupleForm args (schemasOf classes args) = .ok f := by
  obtain ⟨items, hitems⟩ := exists_haveSchemas_iff.mpr h
  have hparts := allSchemas_eq_ok_iff.mpr hitems
  have hplain : args.any isEllipsis = false := by
    rw [List.any_eq_false]
    intro d hd
    simp [isEllipsis_eq_false (h d hd)]
  refine ⟨.fixed items, ?_⟩
  unfold tupleForm
  split
  · -- the repeat mark would be one of the arguments, but it has no schema
    exact absurd (h .ellipsis (by simp)) not_hasSchema_ellipsis
  · simp only [hplain, hparts]
    rfl

theorem hasSchema_tuple_iff {args : List Declaration} :
    HasSchema classes (.container .tuple args) ↔
      (∃ d, args = [d, .ellipsis] ∧ HasSchema classes d) ∨ ∀ d ∈ args, HasSchema classes d := by
  constructor
  · intro h
    obtain ⟨c, hc⟩ := hasSchema_container_iff.mp h
    obtain ⟨f, hf, _⟩ := bind_eq_ok_iff.mp hc
    rcases tupleForm_eq_ok hf with ⟨d, e, hargs, he, _⟩ | ⟨items, hitems, _⟩
    · exact Or.inl ⟨d, hargs, e, he⟩
    · exact Or.inr (exists_haveSchemas_iff.mp ⟨items, hitems⟩)
  · rintro (⟨d, rfl, e, he⟩ | hall)
    · exact ⟨_, toSchema_tupleOf he⟩
    · obtain ⟨f, hf⟩ := exists_tupleForm_of_all hall
      refine hasSchema_container_iff.mpr ⟨.forms [f], ?_⟩
      simp only [containerContents, hf]
      rfl

/-! ## Literals and metadata -/

theorem hasSchema_literal_iff {values : List Value} :
    HasSchema classes (.literal values) ↔ values ≠ [] := by
  cases values with
  | nil => simp [HasSchema, toSchema]
  | cons v rest => simp [HasSchema, toSchema]

theorem hasSchema_annotated_iff {base : Declaration} {metadata : List Declaration} :
    HasSchema classes (.annotated base metadata) ↔ HasSchema classes base := by
  unfold HasSchema
  simp only [toSchema, bind_eq_ok_iff]
  constructor
  · rintro ⟨_, s, hs, _⟩
    exact ⟨s, hs⟩
  · rintro ⟨s, hs⟩
    exact ⟨_, s, hs, rfl⟩

/-! ## All declarations -/

theorem WellFormed.hasSchema {d : Declaration} (h : WellFormed classes d) :
    HasSchema classes d := by
  induction h with
  | none | any | sized | callable | concrete | classNamed | typeOf | constraint => exact ⟨_, rfl⟩
  | named given known => exact hasSchema_named_iff.mpr ⟨_, given, known⟩
  | family known => exact hasSchema_family_iff.mpr known
  | collection single _ ih => exact (hasSchema_collection_iff single).mpr ⟨_, rfl, ih⟩
  | dict _ _ ihk ihe => exact hasSchema_dict_iff.mpr ⟨_, _, rfl, ihk, ihe⟩
  | tupleOf _ ih => exact hasSchema_tuple_iff.mpr (Or.inl ⟨_, rfl, ih⟩)
  | tuple _ ih => exact hasSchema_tuple_iff.mpr (Or.inr ih)
  | union nonempty _ ih => exact hasSchema_union_iff.mpr ⟨nonempty, ih⟩
  | literal nonempty => exact hasSchema_literal_iff.mpr nonempty
  | annotated _ ih => exact hasSchema_annotated_iff.mpr ih

theorem wellFormed_container {kind : Container} {args : List Declaration}
    (ih : ∀ d ∈ args, HasSchema classes d → WellFormed classes d)
    (h : HasSchema classes (.container kind args)) : WellFormed classes (.container kind args) := by
  -- lists, sets and frozen sets follow one rule
  have hcollection (single : kind = .list ∨ kind = .set ∨ kind = .frozenSet) :
      WellFormed classes (.container kind args) := by
    obtain ⟨d, rfl, hd⟩ := (hasSchema_collection_iff single).mp h
    exact .collection single (ih d (by simp) hd)
  cases kind with
  | list => exact hcollection (by simp)
  | set => exact hcollection (by simp)
  | frozenSet => exact hcollection (by simp)
  | dict =>
      obtain ⟨k, e, rfl, hk, he⟩ := hasSchema_dict_iff.mp h
      exact .dict (ih k (by simp) hk) (ih e (by simp) he)
  | tuple =>
      rcases hasSchema_tuple_iff.mp h with ⟨d, rfl, hd⟩ | hall
      · exact .tupleOf (ih d (by simp) hd)
      · exact .tuple fun d hd => ih d hd (hall d hd)

/-- A declaration has a schema exactly if it is well formed. -/
theorem hasSchema_iff_wellFormed (classes : Option ClassTable) (d : Declaration) :
    (∃ s, toSchema classes d = .ok s) ↔ WellFormed classes d := by
  refine ⟨?_, WellFormed.hasSchema⟩
  -- a schema is put together from the schemas of the operands, so the induction is on these
  induction d using induction_operands with
  | step d ih =>
      intro h
      cases d with
      | none => exact .none
      | any => exact .any
      | sized => exact .sized
      | callable => exact .callable
      | ellipsis => exact absurd h not_hasSchema_ellipsis
      | concrete tag => exact .concrete tag
      | classNamed name => exact .classNamed name
      | named name =>
          obtain ⟨table, given, known⟩ := hasSchema_named_iff.mp h
          exact .named given known
      | typeOf name => exact .typeOf name
      | family name => exact .family (hasSchema_family_iff.mp h)
      | container kind args => exact wellFormed_container ih h
      | union members =>
          obtain ⟨nonempty, hall⟩ := hasSchema_union_iff.mp h
          exact .union nonempty fun x hx => ih x hx (hall x hx)
      | literal values => exact .literal (hasSchema_literal_iff.mp h)
      | constraint c => exact .constraint c
      | annotated base metadata =>
          exact .annotated (ih base (List.mem_singleton.mpr rfl) (hasSchema_annotated_iff.mp h))

end Declaration

end Conform

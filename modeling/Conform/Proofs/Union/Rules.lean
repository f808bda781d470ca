/-
  Conform.Proofs.Union.Rules

  What schemas accept together, as rules. A set of schemas stands for their
  union: a tag is admitted where one of them admits it, members face the union
  of what is asked of them, a tuple needs one form out of all, literals count
  where no schema admits the tag, and the constraints of all schemas apply.

  The rules speak of a set, so neither order nor grouping nor repetition of the
  schemas can matter to them. A single schema is the set with one element.
-/

import Conform.Inspection.Basic
import Conform.Proofs.Value.Members
import Mathlib.Data.Set.Lattice

namespace Conform

/-! ## What a set of schemas asks -/

namespace Contents

/-- The schema for the members of a list or set, if there is one. -/
def memberPart : Contents → Set Schema
  | each e => {e}
  | _ => ∅

/-- The schema for the keys of a dictionary, if there is one. -/
def keyPart : Contents → Set Schema
  | entries k _ => {k}
  | _ => ∅

/-- The schema for the values of a dictionary, if there is one. -/
def valuePart : Contents → Set Schema
  | entries _ e => {e}
  | _ => ∅

/-- The forms for a tuple. -/
def formPart : Contents → Set TupleForm
  | forms fs => {f | f ∈ fs}
  | _ => ∅

end Contents

/-- What the schemas ask of members under a tag, each one on its own. -/
def askedUnder (S : Set Schema) (tag : TypeTag) : Set Contents :=
  ⋃ s ∈ S, {c | s.contents? tag = some c}

/-- All that is asked in one part. -/
def askedIn {α : Type} (part : Contents → Set α) (C : Set Contents) : Set α := ⋃ c ∈ C, part c

/-- All schemas for the members of lists and sets. -/
abbrev memberSchemas (C : Set Contents) : Set Schema := askedIn Contents.memberPart C

/-- All schemas for the keys of dictionaries. -/
abbrev keySchemas (C : Set Contents) : Set Schema := askedIn Contents.keyPart C

/-- All schemas for the values of dictionaries. -/
abbrev valueSchemas (C : Set Contents) : Set Schema := askedIn Contents.valuePart C

/-- All forms for tuples. -/
abbrev tupleForms (C : Set Contents) : Set TupleForm := askedIn Contents.formPart C

/-- The schema that a form has for a position. -/
def TupleForm.itemAt? (f : TupleForm) (i : Nat) : Option Schema :=
  if f.repeated then f.items.head? else f.items[i]?

theorem TupleForm.mem_items_of_itemAt? {f : TupleForm} {i : Nat} {e : Schema}
    (h : f.itemAt? i = some e) : e ∈ f.items := by
  unfold TupleForm.itemAt? at h
  split at h
  · exact List.mem_of_head? h
  · exact List.mem_of_getElem? h

/-- A value meets the constraints of all schemas. -/
def MeetsAll (S : Set Schema) (v : Value) : Prop :=
  ∀ s ∈ S, ∀ c ∈ s.constraints, c.unmet? v = none

/-! ## Rules -/

mutual

/-- The union of schemas accepts a value. -/
inductive UnionAccepts : Set Schema → Value → Prop
  /-- None is accepted where its tag is listed, without regard to constraints. -/
  | none {S : Set Schema} (listed : ∃ s ∈ S, .noneType ∈ s.tags) : UnionAccepts S .none
  /-- Where only constraints are declared, they decide. -/
  | refined {S : Set Schema} {v : Value} (only : ∀ s ∈ S, s.constrainsOnly = true)
      (meets : MeetsAll S v) : UnionAccepts S v
  /-- The tag is admitted and the members are accepted. -/
  | typed {S : Set Schema} {v : Value} (members : MembersAccepted (askedUnder S v.tag) v)
      (meets : MeetsAll S v) : UnionAccepts S v
  /-- The tag is not admitted and the value equals a literal. -/
  | literal {S : Set Schema} {v : Value} (unlisted : askedUnder S v.tag = ∅)
      (hit : ∃ s ∈ S, Inspection.equalsLiteral s v = true) (meets : MeetsAll S v) :
      UnionAccepts S v

/-- What is asked of members is met by those of a value. -/
inductive MembersAccepted : Set Contents → Value → Prop
  /-- Nothing is asked. -/
  | free {C : Set Contents} {v : Value} (h : .free ∈ C) : MembersAccepted C v
  | each {C : Set Contents} {v : Value} (some : (memberSchemas C).Nonempty)
      (h : ∀ w ∈ v.members, UnionAccepts (memberSchemas C) w) : MembersAccepted C v
  | entries {C : Set Contents} {v : Value} (some : (keySchemas C).Nonempty)
      (keys : ∀ p ∈ v.pairs, UnionAccepts (keySchemas C) p.1)
      (values : ∀ p ∈ v.pairs, UnionAccepts (valueSchemas C) p.2) : MembersAccepted C v
  /-- One form has the right length and accepts the member at each position. -/
  | form {C : Set Contents} {v : Value} (f : TupleForm) (mem : f ∈ tupleForms C)
      (fits : f.fits v.members.length = true)
      (h : ∀ i w e, v.members[i]? = some w → f.itemAt? i = some e → UnionAccepts {e} w) :
      MembersAccepted C v

end

/-- A form has the right length for a value and accepts its members. -/
def FormAccepts (f : TupleForm) (v : Value) : Prop :=
  f.fits v.members.length = true ∧
    ∀ i w e, v.members[i]? = some w → f.itemAt? i = some e → UnionAccepts {e} w

theorem unionAccepts_iff {S : Set Schema} {v : Value} :
    UnionAccepts S v ↔
      (v = .none ∧ ∃ s ∈ S, .noneType ∈ s.tags) ∨
        (((∀ s ∈ S, s.constrainsOnly = true) ∨ MembersAccepted (askedUnder S v.tag) v ∨
          (askedUnder S v.tag = ∅ ∧ ∃ s ∈ S, Inspection.equalsLiteral s v = true)) ∧
          MeetsAll S v) := by
  constructor
  · intro h
    cases h with
    | none listed => exact Or.inl ⟨rfl, listed⟩
    | refined only meets => exact Or.inr ⟨Or.inl only, meets⟩
    | typed members meets => exact Or.inr ⟨Or.inr (Or.inl members), meets⟩
    | literal unlisted hit meets => exact Or.inr ⟨Or.inr (Or.inr ⟨unlisted, hit⟩), meets⟩
  · rintro (⟨rfl, listed⟩ | ⟨only | members | ⟨unlisted, hit⟩, meets⟩)
    · exact .none listed
    · exact .refined only meets
    · exact .typed members meets
    · exact .literal unlisted hit meets

theorem membersAccepted_iff {C : Set Contents} {v : Value} :
    MembersAccepted C v ↔
      .free ∈ C ∨
        ((memberSchemas C).Nonempty ∧ ∀ w ∈ v.members, UnionAccepts (memberSchemas C) w) ∨
        ((keySchemas C).Nonempty ∧ (∀ p ∈ v.pairs, UnionAccepts (keySchemas C) p.1) ∧
          ∀ p ∈ v.pairs, UnionAccepts (valueSchemas C) p.2) ∨
        ∃ f ∈ tupleForms C, FormAccepts f v := by
  constructor
  · intro h
    cases h with
    | free h => exact Or.inl h
    | each some h => exact Or.inr (Or.inl ⟨some, h⟩)
    | entries some keys values => exact Or.inr (Or.inr (Or.inl ⟨some, keys, values⟩))
    | form f mem fits h => exact Or.inr (Or.inr (Or.inr ⟨f, mem, fits, h⟩))
  · rintro (h | ⟨some, h⟩ | ⟨some, keys, values⟩ | ⟨f, mem, fits, h⟩)
    · exact .free h
    · exact .each some h
    · exact .entries some keys values
    · exact .form f mem fits h

/-! ## One more schema, one more demand -/

theorem mem_askedUnder {S : Set Schema} {tag : TypeTag} {c : Contents} :
    c ∈ askedUnder S tag ↔ ∃ s ∈ S, s.contents? tag = some c := by
  simp [askedUnder]

theorem askedUnder_insert (s : Schema) (S : Set Schema) (tag : TypeTag) :
    askedUnder (insert s S) tag = {c | s.contents? tag = some c} ∪ askedUnder S tag :=
  Set.biUnion_insert s S _

theorem askedUnder_insert_of_none {s : Schema} {tag : TypeTag} (h : s.contents? tag = none)
    (S : Set Schema) : askedUnder (insert s S) tag = askedUnder S tag := by
  rw [askedUnder_insert, h]
  simp

theorem askedUnder_insert_of_some {s : Schema} {tag : TypeTag} {c : Contents}
    (h : s.contents? tag = some c) (S : Set Schema) :
    askedUnder (insert s S) tag = insert c (askedUnder S tag) := by
  rw [askedUnder_insert, h]
  ext d
  simp [eq_comm]

theorem mem_askedIn {α : Type} {part : Contents → Set α} {C : Set Contents} {a : α} :
    a ∈ askedIn part C ↔ ∃ c ∈ C, a ∈ part c := by
  simp [askedIn]

theorem askedIn_insert {α : Type} (part : Contents → Set α) (c : Contents) (C : Set Contents) :
    askedIn part (insert c C) = part c ∪ askedIn part C := Set.biUnion_insert c C _

theorem askedIn_mono {α : Type} (part : Contents → Set α) {C D : Set Contents} (h : C ⊆ D) :
    askedIn part C ⊆ askedIn part D := Set.biUnion_subset_biUnion_left h

/-- Where no tag is admitted, no value is. -/
theorem not_membersAccepted_empty {v : Value} : ¬ MembersAccepted ∅ v := by
  rw [membersAccepted_iff]
  simp [askedIn]

/-! ## A single schema -/

theorem askedUnder_singleton (s : Schema) (tag : TypeTag) :
    askedUnder {s} tag = {c | s.contents? tag = some c} := Set.biUnion_singleton s _

theorem unionAccepts_singleton_iff {s : Schema} {v : Value} :
    UnionAccepts {s} v ↔
      (v = .none ∧ .noneType ∈ s.tags) ∨
        ((s.constrainsOnly = true ∨ (∃ c, s.contents? v.tag = some c ∧ MembersAccepted {c} v) ∨
          (s.contents? v.tag = none ∧ Inspection.equalsLiteral s v = true)) ∧
          ∀ c ∈ s.constraints, c.unmet? v = none) := by
  rw [unionAccepts_iff, askedUnder_singleton]
  cases h : s.contents? v.tag with
  | none => simp [MeetsAll, not_membersAccepted_empty]
  | some c =>
      have hset : {d | some c = some d} = ({c} : Set Contents) := by
        ext d
        simp [eq_comm]
      rw [hset]
      simp [MeetsAll]

@[simp] theorem membersAccepted_free {v : Value} : MembersAccepted {.free} v :=
  .free (Set.mem_singleton _)

theorem membersAccepted_each {e : Schema} {v : Value} :
    MembersAccepted {.each e} v ↔ ∀ w ∈ v.members, UnionAccepts {e} w := by
  rw [membersAccepted_iff]
  simp [askedIn, Contents.memberPart, Contents.keyPart, Contents.formPart]

theorem membersAccepted_entries {k e : Schema} {v : Value} :
    MembersAccepted {.entries k e} v ↔
      (∀ p ∈ v.pairs, UnionAccepts {k} p.1) ∧ ∀ p ∈ v.pairs, UnionAccepts {e} p.2 := by
  rw [membersAccepted_iff]
  simp [askedIn, Contents.memberPart, Contents.keyPart, Contents.valuePart, Contents.formPart]

theorem membersAccepted_forms {fs : List TupleForm} {v : Value} :
    MembersAccepted {.forms fs} v ↔ ∃ f ∈ fs, FormAccepts f v := by
  rw [membersAccepted_iff]
  simp [askedIn, Contents.memberPart, Contents.keyPart, Contents.formPart]

end Conform

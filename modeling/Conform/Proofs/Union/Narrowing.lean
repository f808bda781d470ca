/-
  Conform.Proofs.Union.Narrowing

  Constraints only narrow. A constraint can be attached to a declaration as
  metadata, or joined to it like any member of a union. Both ways give one
  schema, and of the values that the declaration accepts, it keeps those that
  meet all predicates, with none always kept where it is declared.
-/

import Conform.Proofs.Union.Laws

namespace Conform

/-! ## One more constraint -/

namespace Schema

variable {s : Schema} {v : Value}

theorem Canonical.freeUnderAny_eq (h : s.Canonical) :
    freeUnderAny s.alternatives = s.alternatives := by
  unfold freeUnderAny
  split
  next hany =>
    -- beside `any` all tags are free already
    have hfree : ∀ p ∈ s.alternatives, (p.1, Contents.free) = p := by
      intro p hp
      rw [← h.freeBesideAny hany p hp]
    exact (List.map_congr_left hfree).trans (List.map_id _)
  next => rfl

/-- To a canonical schema, a join with a constraint adds that constraint. -/
theorem Canonical.join_ofConstraint (h : s.Canonical) (c : Constraint) :
    s.join (ofConstraint c) = s.constrain c := by
  have halternatives : freeUnderAny (joinAlternatives s.alternatives []) = s.alternatives :=
    h.freeUnderAny_eq
  have hliterals : joinLiterals s.literals none = s.literals := rfl
  rw [ofConstraint, Schema.join, halternatives, hliterals]
  rfl

theorem unionAccepts_constrain_iff {c : Constraint} :
    UnionAccepts {s.constrain c} v ↔
      UnionAccepts {s} v ∧ (c.unmet? v = none ∨ (v = .none ∧ .noneType ∈ s.tags)) := by
  have hconstraints : (∀ b ∈ (s.constrain c).constraints, b.unmet? v = none) ↔
      (∀ b ∈ s.constraints, b.unmet? v = none) ∧ c.unmet? v = none := by
    simp only [Schema.constrain, List.forall_mem_append, List.forall_mem_singleton]
  -- Of all that acceptance looks at, only the list of constraints has changed.
  have htags : (s.constrain c).tags = s.tags := rfl
  have hcontents : (s.constrain c).contents? v.tag = s.contents? v.tag := rfl
  have honly : (s.constrain c).constrainsOnly = s.constrainsOnly := rfl
  have hliteral : Inspection.equalsLiteral (s.constrain c) v = Inspection.equalsLiteral s v := rfl
  rw [unionAccepts_singleton_iff, unionAccepts_singleton_iff, hconstraints, htags, hcontents,
    honly, hliteral, ← and_assoc, or_and_left, or_comm (b := c.unmet? v = none)]

/-- More constraints keep the values that meet all of them, and none where it is declared. -/
theorem unionAccepts_foldl_constrain_iff {cs : List Constraint} :
    UnionAccepts {cs.foldl Schema.constrain s} v ↔
      UnionAccepts {s} v ∧
        ((∀ c ∈ cs, c.unmet? v = none) ∨ (v = .none ∧ .noneType ∈ s.tags)) := by
  induction cs generalizing s with
  | nil => simp
  | cons c rest ih =>
      have htags : (s.constrain c).tags = s.tags := rfl
      rw [List.foldl_cons, ih, unionAccepts_constrain_iff, htags, List.forall_mem_cons,
        and_or_right, and_assoc]

end Schema

/-! ## Two ways to attach constraints -/

namespace Declaration

variable {classes : Option ClassTable} {d : Declaration} {s : Schema}
  {metadata : List Declaration} {cs : List Constraint}

/-- The constraints that metadata carries, in order and amid anything else. -/
inductive Carries : List Declaration → List Constraint → Prop
  | nil : Carries [] []
  | constraint (c : Constraint) {metadata : List Declaration} {cs : List Constraint}
      (rest : Carries metadata cs) : Carries (.constraint c :: metadata) (c :: cs)
  | other {m : Declaration} (ignored : ∀ c, m ≠ .constraint c) {metadata : List Declaration}
      {cs : List Constraint} (rest : Carries metadata cs) : Carries (m :: metadata) cs

theorem Carries.constraintsOf_eq (h : Carries metadata cs) : constraintsOf metadata = cs := by
  induction h with
  | nil => rfl
  | constraint c _ ih => exact congrArg (c :: ·) ih
  | other ignored _ ih =>
      unfold constraintsOf
      rw [List.filterMap_cons_none]
      · exact ih
      · split
        next c => exact absurd rfl (ignored c)
        next => rfl

/-- The union with one constraint after the other, as `d | c₁ | … | cₙ`. -/
def joinedWith (d : Declaration) (cs : List Constraint) : Declaration :=
  cs.foldl (fun joined c => unionOf [joined, constraint c]) d

theorem toSchema_unionOf_constraint (h : toSchema classes d = .ok s) (c : Constraint) :
    toSchema classes (unionOf [d, constraint c]) = .ok (s.constrain c) := by
  have hcanonical : s.Canonical := (everywhere_canonical h).here
  -- `d` is opened if it is a union; its schema is the join of its members either way.
  have hmember : ∃ s₀ ss, HaveSchemas classes d.unionMembers (s₀ :: ss) ∧
      s = ss.foldl Schema.join s₀ := by
    cases d with
    | union members => exact toSchema_union_eq_ok_iff.mp h
    | _ => exact ⟨s, [], .cons h .nil, rfl⟩
  obtain ⟨s₀, ss, hmembers, rfl⟩ := hmember
  have hconstraint : HaveSchemas classes [constraint c] [.ofConstraint c] := .cons rfl .nil
  have hflat : [d, constraint c].flatMap unionMembers = d.unionMembers ++ [constraint c] := rfl
  rw [unionOf, hflat, toSchema_union_eq_ok_iff]
  refine ⟨s₀, ss ++ [Schema.ofConstraint c], List.rel_append hmembers hconstraint, ?_⟩
  rw [List.foldl_append, List.foldl_cons, List.foldl_nil, hcanonical.join_ofConstraint]

theorem toSchema_joinedWith (h : toSchema classes d = .ok s) (cs : List Constraint) :
    toSchema classes (d.joinedWith cs) = .ok (cs.foldl Schema.constrain s) := by
  induction cs generalizing d s with
  | nil => exact h
  | cons c rest ih => exact ih (toSchema_unionOf_constraint h c)

theorem toSchema_annotated (h : toSchema classes d = .ok s) (hcs : Carries metadata cs) :
    toSchema classes (annotated d metadata) = .ok (cs.foldl Schema.constrain s) := by
  rw [toSchema, h, hcs.constraintsOf_eq]
  rfl

/-! ## What remains accepted -/

/-- Constraints as metadata and constraints in a union give one schema, which
    accepts what the declaration accepts and all predicates hold of; none, where
    it is declared, need not meet them. -/
theorem constraints_narrow (classes : Option ClassTable) (A : Declaration) (s : Schema)
    (metadata : List Declaration) (cs : List Constraint) (hA : toSchema classes A = .ok s)
    (hcs : Carries metadata cs) :
    ∃ t, toSchema classes (annotated A metadata) = .ok t ∧
      toSchema classes (A.joinedWith cs) = .ok t ∧
      ∀ v root, Accepts classes (annotated A metadata) v root ↔
        Accepts classes A v root ∧
          ((∀ c ∈ cs, ∀ p ∈ c.predicates, p.evaluate v = .ok true) ∨
            (v = .none ∧ .noneType ∈ s.tags)) := by
  have hannotated := toSchema_annotated hA hcs
  refine ⟨_, hannotated, toSchema_joinedWith hA cs, fun v root => ?_⟩
  have hmet : (∀ c ∈ cs, c.unmet? v = Option.none) ↔
      ∀ c ∈ cs, ∀ p ∈ c.predicates, p.evaluate v = .ok true :=
    forall₂_congr fun _ _ => Constraint.unmet?_eq_none_iff
  rw [accepts_iff hannotated, accepts_iff hA, Schema.unionAccepts_foldl_constrain_iff, hmet]

/-- None passes beside predicates that cannot be evaluated for it. -/
theorem constraints_narrow_optional :
    let A := annotated (optional (concrete .int)) [constraint ⟨[.ge (.int 0)]⟩]
    let narrowed := annotated A [literal [.str "digit"], constraint ⟨[.le (.int 9)]⟩, any,
      constraint ⟨[.ne (.int 5)]⟩]
    toSchema Option.none narrowed =
        toSchema Option.none (A.joinedWith [⟨[.le (.int 9)]⟩, ⟨[.ne (.int 5)]⟩]) ∧
      Accepts Option.none narrowed (.int 4) "x" ∧ Accepts Option.none narrowed .none "x" ∧
      ¬ Accepts Option.none narrowed (.int 12) "x" := by
  intro A narrowed
  have hcs : Carries [literal [.str "digit"], constraint ⟨[.le (.int 9)]⟩, any,
      constraint ⟨[.ne (.int 5)]⟩] [⟨[.le (.int 9)]⟩, ⟨[.ne (.int 5)]⟩] :=
    .other (by simp) (.constraint _ (.other (by simp) (.constraint _ .nil)))
  obtain ⟨t, hannotated, hjoined, haccepts⟩ := constraints_narrow Option.none A _ _ _ rfl hcs
  refine ⟨hannotated.trans hjoined.symm, ?_, ?_, ?_⟩
  · refine (haccepts _ _).mpr ⟨⟨_, rfl, by decide +kernel⟩, Or.inl ?_⟩
    simp only [List.forall_mem_cons]
    decide +kernel
  · exact (haccepts _ _).mpr ⟨⟨_, rfl, by decide +kernel⟩, Or.inr ⟨rfl, by decide⟩⟩
  · rw [haccepts]
    rintro ⟨_, hmet | ⟨hnone, _⟩⟩
    · simp only [List.forall_mem_cons] at hmet
      exact absurd hmet.1.1 (by decide +kernel)
    · cases hnone

end Declaration

end Conform

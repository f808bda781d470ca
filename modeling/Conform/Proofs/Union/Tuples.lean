/-
  Conform.Proofs.Union.Tuples

  Unions of two tuple declarations. The join keeps the form of the first side
  and takes the form of the second unless it compares equal to the first. As
  comparison is host equality of literals and parameters, two forms can compare
  equal and accept different tuples, and then the second one is lost: a byte
  string may be asked for the number 1 but not for the truth value that equals
  it. Exact declarations lose nothing.
-/

import Conform.Proofs.Schema.Exact
import Conform.Proofs.Union.Laws

namespace Conform

/-- The schema of a tuple declaration with these forms. -/
abbrev Schema.ofForms (fs : List TupleForm) : Schema := .ofTag (.collection .tuple) (.forms fs)

theorem Schema.ofForms_equal (f g : TupleForm) :
    (ofForms [f]).equal (ofForms [g]) = f.equal g := by
  simp [Schema.equal, ofTag, equalAlternatives, Contents.equal, equalForms, equalLiterals,
    equalConstraints]

theorem Schema.ofForms_join (fs gs : List TupleForm) :
    (ofForms fs).join (ofForms gs) = ofForms (joinForms fs gs) := rfl

theorem joinForms_singleton (f g : TupleForm) :
    joinForms [f] [g] = if f.equal g = true then [f] else [f, g] := by
  simp [joinForms, BEq.beq]

theorem Schema.ofForms_contents? (fs : List TupleForm) (k : TypeTag) :
    (ofForms fs).contents? k = if k = .collection .tuple then some (.forms fs) else none := by
  have hany : (TypeTag.any == .collection .tuple) = false := by decide
  by_cases hk : k = .collection .tuple
  · simp [contents?, lookup?, ofTag, hk]
  · have hk' : (k == .collection .tuple) = false := beq_eq_false_iff_ne.mpr hk
    simp [contents?, lookup?, ofTag, List.lookup_cons, hk, hk', hany]

/-- Only tuples are accepted, and these by one of the forms. -/
theorem unionAccepts_ofForms {fs : List TupleForm} {v : Value} :
    UnionAccepts {.ofForms fs} v ↔ v.tag = .collection .tuple ∧ ∃ f ∈ fs, FormAccepts f v := by
  have hnone : .noneType ∉ (Schema.ofForms fs).tags := by simp [Schema.tags, Schema.ofTag]
  have hdeclares : (Schema.ofForms fs).constrainsOnly = false := rfl
  have hliterals : Inspection.equalsLiteral (Schema.ofForms fs) v = false := rfl
  have hconstraints : (Schema.ofForms fs).constraints = [] := rfl
  rw [unionAccepts_singleton_iff, Schema.ofForms_contents?, hdeclares, hliterals, hconstraints]
  by_cases htag : v.tag = .collection .tuple
  · simp [htag, hnone, membersAccepted_forms]
  · simp [htag, hnone]

namespace Declaration

variable {classes : Option ClassTable} {as bs : List Declaration} {s t : Schema}

theorem toSchema_tuple_eq_ok (h : toSchema classes (container .tuple as) = .ok s) :
    ∃ f, s = .ofForms [f] := by
  rw [toSchema, bind_eq_ok_iff] at h
  obtain ⟨c, hc, hs⟩ := h
  rw [containerContents, bind_eq_ok_iff] at hc
  obtain ⟨f, _, hf⟩ := hc
  cases hf
  cases hs
  exact ⟨f, rfl⟩

/-- The union accepts what the first tuple declaration accepts, and what the
    second does unless the two compare equal. -/
theorem unionOf_tuples_accepts_iff (hA : toSchema classes (container .tuple as) = .ok s)
    (hB : toSchema classes (container .tuple bs) = .ok t) (v : Value) (root : String) :
    Accepts classes (unionOf [container .tuple as, container .tuple bs]) v root ↔
      Accepts classes (container .tuple as) v root ∨
        (s.equal t = false ∧ Accepts classes (container .tuple bs) v root) := by
  have hunion : toSchema classes (unionOf [container .tuple as, container .tuple bs]) =
      .ok (s.join t) := toSchema_union_eq_ok_iff.mpr ⟨s, [t], .cons hA (.cons hB .nil), rfl⟩
  obtain ⟨f, rfl⟩ := toSchema_tuple_eq_ok hA
  obtain ⟨g, rfl⟩ := toSchema_tuple_eq_ok hB
  rw [accepts_iff hunion, accepts_iff hA, accepts_iff hB, Schema.ofForms_join, joinForms_singleton,
    Schema.ofForms_equal, unionAccepts_ofForms, unionAccepts_ofForms, unionAccepts_ofForms]
  by_cases hequal : f.equal g = true
  · simp [hequal]
  · simp [hequal, and_or_left]

/-- A declaration accepts whatever another one accepts. -/
def Subsumes (classes : Option ClassTable) (d e : Declaration) : Prop :=
  ∀ v root, Accepts classes e v root → Accepts classes d v root

/-- What one of two declarations accepts, their union accepts in either order. -/
def LosesNothing (classes : Option ClassTable) (d e : Declaration) : Prop :=
  ∀ v root, Accepts classes d v root ∨ Accepts classes e v root →
    Accepts classes (unionOf [d, e]) v root ∧ Accepts classes (unionOf [e, d]) v root

/-- The second declaration is kept exactly where comparing equal to the first
    entails accepting no more. -/
theorem unionOf_tuples_subsumes_second_iff (hA : toSchema classes (container .tuple as) = .ok s)
    (hB : toSchema classes (container .tuple bs) = .ok t) :
    Subsumes classes (unionOf [container .tuple as, container .tuple bs]) (container .tuple bs) ↔
      (s.equal t = true → Subsumes classes (container .tuple as) (container .tuple bs)) := by
  simp only [Subsumes, unionOf_tuples_accepts_iff hA hB]
  cases s.equal t with
  | true => simp
  | false => simp +contextual

/-- The first declaration is never lost. -/
theorem losesNothing_tuples_iff (hA : toSchema classes (container .tuple as) = .ok s)
    (hB : toSchema classes (container .tuple bs) = .ok t) :
    LosesNothing classes (container .tuple as) (container .tuple bs) ↔
      Subsumes classes (unionOf [container .tuple as, container .tuple bs]) (container .tuple bs) ∧
      Subsumes classes (unionOf [container .tuple bs, container .tuple as])
        (container .tuple as) := by
  constructor
  · intro hall
    refine ⟨fun v root h => ?_, fun v root h => ?_⟩
    · exact (hall v root (Or.inr h)).1
    · exact (hall v root (Or.inl h)).2
  · rintro ⟨hsecond, hfirst⟩ v root h
    rcases h with h | h
    · exact ⟨(unionOf_tuples_accepts_iff hA hB v root).mpr (Or.inl h), hfirst v root h⟩
    · exact ⟨hsecond v root h, (unionOf_tuples_accepts_iff hB hA v root).mpr (Or.inl h)⟩

/-- An exact tuple declaration accepts whatever one that compares equal does. -/
theorem subsumes_of_equal_tuples {meanings : Meanings}
    (hA : toSchema classes (container .tuple as) = .ok s)
    (hB : toSchema classes (container .tuple bs) = .ok t)
    (eA : (container .tuple as).Exact meanings) (eB : (container .tuple bs).Exact meanings)
    (hequal : s.equal t = true) : Subsumes classes (container .tuple as) (container .tuple bs) := by
  intro v root h
  rw [accepts_iff hB] at h
  have hiff := unionAccepts_iff_of_equal v s t (everywhere_exact hA eA) (everywhere_exact hB eB)
    hequal
  exact (accepts_iff hA).mpr (hiff.mpr h)

/-- The union of two tuple declarations loses an alternative exactly where one
    compares equal to the other without accepting whatever the other does.
    Exact declarations lose nothing. -/
theorem tuple_union_loses_nothing_iff (classes : Option ClassTable) (as bs : List Declaration)
    (s t : Schema) (hA : toSchema classes (container .tuple as) = .ok s)
    (hB : toSchema classes (container .tuple bs) = .ok t) :
    (LosesNothing classes (container .tuple as) (container .tuple bs) ↔
      (s.equal t = true → Subsumes classes (container .tuple as) (container .tuple bs)) ∧
      (t.equal s = true → Subsumes classes (container .tuple bs) (container .tuple as))) ∧
    ∀ meanings, (container .tuple as).Exact meanings → (container .tuple bs).Exact meanings →
      LosesNothing classes (container .tuple as) (container .tuple bs) := by
  rw [losesNothing_tuples_iff hA hB, unionOf_tuples_subsumes_second_iff hA hB,
    unionOf_tuples_subsumes_second_iff hB hA]
  refine ⟨Iff.rfl, fun meanings eA eB => ⟨?_, ?_⟩⟩
  · exact subsumes_of_equal_tuples hA hB eA eB
  · exact subsumes_of_equal_tuples hB hA eB eA

/-- Equal bounds of different types: one form is dropped and no alternative is lost. -/
theorem tuple_union_loses_nothing_bounds :
    ∃ s t, toSchema Option.none (container .tuple
        [annotated (concrete .int) [constraint ⟨[.ge (.int 1)]⟩]]) = .ok s ∧
      toSchema Option.none (container .tuple
        [annotated (concrete .int) [constraint ⟨[.ge (.bool true)]⟩]]) = .ok t ∧
      s.equal t = true ∧
      LosesNothing Option.none
        (container .tuple [annotated (concrete .int) [constraint ⟨[.ge (.int 1)]⟩]])
        (container .tuple [annotated (concrete .int) [constraint ⟨[.ge (.bool true)]⟩]]) := by
  let meanings : Meanings := ⟨fun _ _ => .answer true, fun _ _ => true⟩
  have hint : (concrete .int).Exact meanings :=
    .intro (by simp [ownLiterals]) (by simp [ownConstraints]) (by simp [operands])
  have hbound {b : Value} (hb : b.isExact = true) :
      (annotated (concrete .int) [constraint ⟨[.ge b]⟩]).Exact meanings := by
    refine .intro (by simp [ownLiterals]) ?_ (by simpa [operands] using hint)
    simpa [ownConstraints, constraintsOf, Constraint.Exact, Predicate.Exact] using hb
  have htuple {d : Declaration} (hd : d.Exact meanings) :
      (container .tuple [d]).Exact meanings :=
    .intro (by simp [ownLiterals]) (by simp [ownConstraints]) (by simpa [operands] using hd)
  refine ⟨_, _, rfl, rfl, by decide +kernel, ?_⟩
  have hlaw := tuple_union_loses_nothing_iff Option.none
    [annotated (concrete .int) [constraint ⟨[.ge (.int 1)]⟩]]
    [annotated (concrete .int) [constraint ⟨[.ge (.bool true)]⟩]] _ _ rfl rfl
  exact hlaw.2 _ (htuple (hbound rfl)) (htuple (hbound rfl))

/-- A byte string that holds 1: the form that asks for the number is dropped, and
    the one that asks for the truth value cannot be tested on it. -/
theorem tuple_union_loses_number :
    Accepts Option.none
        (container .tuple [annotated (concrete (.binary .bytes))
          [constraint ⟨[.includes [.int 1]]⟩]])
        (.collection .tuple [.binary .bytes [1]]) "x" ∧
      ¬ Accepts Option.none
        (unionOf [container .tuple [annotated (concrete (.binary .bytes))
            [constraint ⟨[.includes [.bool true]]⟩]],
          container .tuple [annotated (concrete (.binary .bytes))
            [constraint ⟨[.includes [.int 1]]⟩]]])
        (.collection .tuple [.binary .bytes [1]]) "x" := by
  constructor
  · exact ⟨_, rfl, by decide +kernel⟩
  · rintro ⟨s, hs, hpasses⟩
    cases hs
    exact absurd hpasses (by decide +kernel)

end Declaration

end Conform

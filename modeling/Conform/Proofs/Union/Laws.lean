/-
  Conform.Proofs.Union.Laws

  Laws of declared unions. A union of declarations accepts what the schemas of
  its members accept together (`StandsFor`), however the members are ordered,
  grouped and repeated. For plain declarations it accepts what any member does,
  and of the values without merged members nothing else.
-/

import Conform.Proofs.Inspection.Acceptance
import Conform.Proofs.Schema.Shape
import Conform.Proofs.Union.Inclusion
import Conform.Proofs.Union.Join

namespace Conform

namespace Declaration

variable {classes : Option ClassTable} {d e : Declaration} {ds es : List Declaration}
  {v : Value} {root : String}

/-- A declaration has a schema. -/
def HasSchema (classes : Option ClassTable) (d : Declaration) : Prop :=
  ∃ s, toSchema classes d = .ok s

/-- A declaration has a schema, and the value passes the inspection for it. -/
def Accepts (classes : Option ClassTable) (d : Declaration) (v : Value) (root : String) : Prop :=
  ∃ s, toSchema classes d = .ok s ∧ passes v s root = true

/-- Two declarations have schemas, and these accept the same values. -/
def AcceptAlike (classes : Option ClassTable) (d e : Declaration) : Prop :=
  HasSchema classes d ∧ HasSchema classes e ∧
    ∀ v root, Accepts classes d v root ↔ Accepts classes e v root

theorem accepts_iff {s : Schema} (h : toSchema classes d = .ok s) :
    Accepts classes d v root ↔ UnionAccepts {s} v := by
  constructor
  · rintro ⟨t, ht, haccepts⟩
    obtain rfl : t = s := Except.ok.inj (ht.symm.trans h)
    exact passes_iff.mp haccepts
  · exact fun haccepts => ⟨s, h, passes_iff.mpr haccepts⟩

/-! ## The schemas of several declarations -/

/-- The schemas that declarations have. -/
def schemaSet (classes : Option ClassTable) (ds : List Declaration) : Set Schema :=
  {s | ∃ d ∈ ds, toSchema classes d = .ok s}

theorem schemaSet_congr (h : ∀ d, d ∈ ds ↔ d ∈ es) :
    schemaSet classes ds = schemaSet classes es := by
  simp only [schemaSet, h]

theorem schemaSet_append (ds es : List Declaration) :
    schemaSet classes (ds ++ es) = schemaSet classes ds ∪ schemaSet classes es := by
  ext s
  simp [schemaSet, or_and_right, exists_or]

theorem schemaSet_cons {s : Schema} (h : toSchema classes d = .ok s) (ds : List Declaration) :
    schemaSet classes (d :: ds) = insert s (schemaSet classes ds) := by
  ext t
  simp [schemaSet, h, eq_comm]

theorem schemaSet_singleton {s : Schema} (h : toSchema classes d = .ok s) :
    schemaSet classes [d] = {s} := by
  rw [schemaSet_cons h]
  simp [schemaSet]

theorem schemaSet_of_haveSchemas {ss : List Schema} (h : HaveSchemas classes ds ss) :
    schemaSet classes ds = {s | s ∈ ss} := by
  induction h with
  | nil => simp [schemaSet]
  | cons hs _ ih =>
      rw [schemaSet_cons hs, ih]
      ext t
      simp

theorem exists_haveSchemas_iff :
    (∃ ss, HaveSchemas classes ds ss) ↔ ∀ d ∈ ds, HasSchema classes d := by
  induction ds with
  | nil => simp
  | cons d rest ih =>
      simp only [List.forall₂_cons_left_iff, List.forall_mem_cons, ← ih]
      constructor
      · rintro ⟨_, s, ss, hs, hss, rfl⟩
        exact ⟨⟨s, hs⟩, ss, hss⟩
      · rintro ⟨⟨s, hs⟩, ss, hss⟩
        exact ⟨s :: ss, s, ss, hs, hss, rfl⟩

theorem hasSchema_union_iff :
    HasSchema classes (.union ds) ↔ ds ≠ [] ∧ ∀ d ∈ ds, HasSchema classes d := by
  rw [← exists_haveSchemas_iff]
  simp only [HasSchema, toSchema_union_eq_ok_iff]
  constructor
  · rintro ⟨_, s, ss, hss, _⟩
    refine ⟨?_, s :: ss, hss⟩
    rintro rfl
    cases hss
  · rintro ⟨hne, ss, hss⟩
    cases hss with
    | nil => exact absurd rfl hne
    | cons hs hss => exact ⟨_, _, _, .cons hs hss, rfl⟩

/-! ## Opening a union -/

/-- What is needed of declarations for their union to be the union of what they
    accept together. -/
structure Unitable (classes : Option ClassTable) (d : Declaration) : Prop where
  hasSchema : HasSchema classes d
  plainTuples : d.hasPlainTuples = true

theorem unitable_union_iff :
    Unitable classes (.union ds) ↔ ds ≠ [] ∧ ∀ d ∈ ds, Unitable classes d := by
  constructor
  · rintro ⟨hschema, hplain⟩
    obtain ⟨hne, hall⟩ := hasSchema_union_iff.mp hschema
    have htuples := allHavePlainTuples_iff.mp hplain
    exact ⟨hne, fun d hd => ⟨hall d hd, htuples d hd⟩⟩
  · rintro ⟨hne, hall⟩
    exact ⟨hasSchema_union_iff.mpr ⟨hne, fun d hd => (hall d hd).hasSchema⟩,
      allHavePlainTuples_iff.mpr fun d hd => (hall d hd).plainTuples⟩

/-- Beside other declarations, a union stands for its members. -/
theorem unionAccepts_schemaSet_union (h : Unitable classes (.union ds)) (es : List Declaration) :
    UnionAccepts (schemaSet classes (.union ds :: es)) v ↔
      UnionAccepts (schemaSet classes (ds ++ es)) v := by
  obtain ⟨u, hu⟩ := h.hasSchema
  obtain ⟨s, ss, hss, rfl⟩ := toSchema_union_eq_ok_iff.mp hu
  have hjoinable : ∀ t ∈ s :: ss, t.Everywhere Schema.Joinable :=
    forall_mem_of_forall₂_imp (allHavePlainTuples_iff.mp h.plainTuples)
      (hss.imp fun _ _ => everywhere_joinable)
  rw [schemaSet_cons hu, schemaSet_append, schemaSet_of_haveSchemas hss]
  exact unionAccepts_insert_foldl_join hjoinable _

theorem unionAccepts_schemaSet_unionMembers (hd : Unitable classes d) (es : List Declaration) :
    UnionAccepts (schemaSet classes (d :: es)) v ↔
      UnionAccepts (schemaSet classes (d.unionMembers ++ es)) v := by
  cases d with
  | union ms => exact unionAccepts_schemaSet_union hd es
  | _ => exact Iff.rfl

/-- Opening all members that are unions changes nothing. -/
theorem unionAccepts_schemaSet_flatMap (hds : ∀ d ∈ ds, Unitable classes d)
    (es : List Declaration) :
    UnionAccepts (schemaSet classes (ds ++ es)) v ↔
      UnionAccepts (schemaSet classes (ds.flatMap unionMembers ++ es)) v := by
  induction ds generalizing es with
  | nil => exact Iff.rfl
  | cons d rest ih =>
      obtain ⟨hd, hrest⟩ := List.forall_mem_cons.mp hds
      -- What `d` opens to moves behind the rest, which the induction hypothesis then opens.
      have hswap : schemaSet classes (d.unionMembers ++ (rest ++ es)) =
          schemaSet classes (rest ++ (d.unionMembers ++ es)) :=
        schemaSet_congr fun x => by simp [or_left_comm]
      have hback : schemaSet classes (rest.flatMap unionMembers ++ (d.unionMembers ++ es)) =
          schemaSet classes ((d :: rest).flatMap unionMembers ++ es) :=
        schemaSet_congr fun x => by simp [or_left_comm]
      rw [List.cons_append, unionAccepts_schemaSet_unionMembers hd, hswap, ih hrest, hback]

/-! ## What a union stands for -/

/-- A declaration accepts what some others accept together. -/
structure StandsFor (classes : Option ClassTable) (d : Declaration) (ds : List Declaration) :
    Prop where
  hasSchema : HasSchema classes d
  accepts_iff : ∀ v root, Accepts classes d v root ↔ UnionAccepts (schemaSet classes ds) v

theorem standsFor_self (h : HasSchema classes d) : StandsFor classes d [d] where
  hasSchema := h
  accepts_iff v root := by
    obtain ⟨s, hs⟩ := h
    rw [accepts_iff hs, schemaSet_singleton hs]

theorem standsFor_union (hne : ds ≠ []) (hds : ∀ d ∈ ds, Unitable classes d) :
    StandsFor classes (.union ds) ds := by
  have hunion := unitable_union_iff.mpr ⟨hne, hds⟩
  refine ⟨hunion.hasSchema, fun v root => ?_⟩
  rw [(standsFor_self hunion.hasSchema).accepts_iff,
    unionAccepts_schemaSet_union hunion, List.append_nil]

theorem Unitable.unionMembers (h : Unitable classes d) :
    d.unionMembers ≠ [] ∧ ∀ x ∈ d.unionMembers, Unitable classes x := by
  cases d with
  | union ms => exact unitable_union_iff.mp h
  | _ => exact ⟨List.cons_ne_nil _ _, List.forall_mem_singleton.mpr h⟩

theorem standsFor_unionOf (hne : ds ≠ []) (hds : ∀ d ∈ ds, Unitable classes d) :
    StandsFor classes (unionOf ds) ds := by
  have hopened : StandsFor classes (unionOf ds) (ds.flatMap unionMembers) := by
    apply standsFor_union
    · intro hnil
      obtain ⟨d, hd⟩ := List.exists_mem_of_ne_nil ds hne
      exact (hds d hd).unionMembers.1 (List.flatMap_eq_nil_iff.mp hnil d hd)
    · intro x hx
      obtain ⟨d, hd, hx⟩ := List.mem_flatMap.mp hx
      exact (hds d hd).unionMembers.2 x hx
  refine ⟨hopened.hasSchema, fun v root => ?_⟩
  have hflat := unionAccepts_schemaSet_flatMap (v := v) hds []
  rw [List.append_nil, List.append_nil] at hflat
  rw [hopened.accepts_iff, hflat]

theorem StandsFor.congr (h : StandsFor classes d ds) (hmem : ∀ x, x ∈ ds ↔ x ∈ es) :
    StandsFor classes d es where
  hasSchema := h.hasSchema
  accepts_iff v root := by rw [h.accepts_iff, schemaSet_congr hmem]

/-- A union among the members may be opened. -/
theorem StandsFor.ungroup (h : StandsFor classes d (.union ds :: es))
    (hunion : Unitable classes (.union ds)) : StandsFor classes d (ds ++ es) where
  hasSchema := h.hasSchema
  accepts_iff v root := by
    rw [h.accepts_iff, unionAccepts_schemaSet_union hunion]

theorem StandsFor.acceptAlike (hd : StandsFor classes d ds) (he : StandsFor classes e ds) :
    AcceptAlike classes d e := by
  refine ⟨hd.hasSchema, he.hasSchema, fun v root => ?_⟩
  rw [hd.accepts_iff, he.accepts_iff]

/-! ## Order, grouping and repetition -/

section Operands

variable {A B C : Declaration}

theorem unionOf_comm (hA : Unitable classes A) (hB : Unitable classes B) :
    AcceptAlike classes (unionOf [A, B]) (unionOf [B, A]) := by
  have hAB : StandsFor classes (unionOf [A, B]) [A, B] :=
    standsFor_unionOf (List.cons_ne_nil _ _) (by simp [hA, hB])
  have hBA : StandsFor classes (unionOf [B, A]) [B, A] :=
    standsFor_unionOf (List.cons_ne_nil _ _) (by simp [hA, hB])
  exact hAB.acceptAlike (hBA.congr (by simp [or_comm]))

theorem standsFor_union_left (hA : Unitable classes A) (hB : Unitable classes B)
    (hC : Unitable classes C) : StandsFor classes (union [union [A, B], C]) [A, B, C] := by
  have hAB : Unitable classes (union [A, B]) :=
    unitable_union_iff.mpr ⟨List.cons_ne_nil _ _, by simp [hA, hB]⟩
  have hgrouped : StandsFor classes (union [union [A, B], C]) [union [A, B], C] :=
    standsFor_union (List.cons_ne_nil _ _) (by simp [hAB, hC])
  exact hgrouped.ungroup hAB

theorem standsFor_union_right (hA : Unitable classes A) (hB : Unitable classes B)
    (hC : Unitable classes C) : StandsFor classes (union [A, union [B, C]]) [A, B, C] := by
  have hBC : Unitable classes (union [B, C]) :=
    unitable_union_iff.mpr ⟨List.cons_ne_nil _ _, by simp [hB, hC]⟩
  have hgrouped : StandsFor classes (union [A, union [B, C]]) [A, union [B, C]] :=
    standsFor_union (List.cons_ne_nil _ _) (by simp [hA, hBC])
  -- The union is opened at the head of the list, where order is of no concern.
  have hfirst : StandsFor classes (union [A, union [B, C]]) [union [B, C], A] :=
    hgrouped.congr (by simp [or_comm])
  exact (hfirst.ungroup hBC).congr (by simp [or_comm, or_left_comm])

theorem unionOf_self (hA : Unitable classes A) : AcceptAlike classes (unionOf [A, A]) A := by
  have hAA : StandsFor classes (unionOf [A, A]) [A, A] :=
    standsFor_unionOf (List.cons_ne_nil _ _) (by simp [hA])
  exact (hAA.congr (by simp)).acceptAlike (standsFor_self hA.hasSchema)

end Operands

/-- The order, grouping and repetition of the members of a union do not matter. -/
theorem union_order_grouping_repetition (classes : Option ClassTable) (A B C : Declaration)
    (hA : HasSchema classes A) (hB : HasSchema classes B) (hC : HasSchema classes C)
    (tA : A.hasPlainTuples = true) (tB : B.hasPlainTuples = true) (tC : C.hasPlainTuples = true) :
    AcceptAlike classes (unionOf [A, B]) (unionOf [B, A]) ∧
      AcceptAlike classes (union [union [A, B], C]) (union [A, union [B, C]]) ∧
      AcceptAlike classes (union [A, union [B, C]]) (union [A, B, C]) ∧
      AcceptAlike classes (union [A, B, C]) (unionOf [A, B, C]) ∧
      AcceptAlike classes (unionOf [A, A]) A := by
  have uA : Unitable classes A := ⟨hA, tA⟩
  have uB : Unitable classes B := ⟨hB, tB⟩
  have uC : Unitable classes C := ⟨hC, tC⟩
  have left := standsFor_union_left uA uB uC
  have right := standsFor_union_right uA uB uC
  have three : StandsFor classes (union [A, B, C]) [A, B, C] :=
    standsFor_union (List.cons_ne_nil _ _) (by simp [uA, uB, uC])
  have flat : StandsFor classes (unionOf [A, B, C]) [A, B, C] :=
    standsFor_unionOf (List.cons_ne_nil _ _) (by simp [uA, uB, uC])
  exact ⟨unionOf_comm uA uB, left.acceptAlike right, right.acceptAlike three,
    three.acceptAlike flat, unionOf_self uA⟩

/-- Members with a literal that is not plain, with a constraint and with a tuple. -/
theorem union_order_grouping_repetition_mixed :
    AcceptAlike Option.none
      (union [union [container .list [literal [.float 0]],
        annotated (concrete .int) [constraint ⟨[.ge (.int 0)]⟩]], tupleOf any])
      (union [container .list [literal [.float 0]],
        union [annotated (concrete .int) [constraint ⟨[.ge (.int 0)]⟩], tupleOf any]]) := by
  have hlaws := union_order_grouping_repetition Option.none (container .list [literal [.float 0]])
    (annotated (concrete .int) [constraint ⟨[.ge (.int 0)]⟩]) (tupleOf any) ⟨_, rfl⟩ ⟨_, rfl⟩
    ⟨_, rfl⟩ (by decide) (by decide) (by decide)
  exact hlaws.2.1

/-! ## What plain unions accept -/

theorem plainSet_schemaSet (h : ∀ d ∈ ds, d.isPlain = true) : PlainSet (schemaSet classes ds) where
  canonical := by
    rintro s ⟨d, _, hs⟩
    exact everywhere_canonical hs
  plain := by
    rintro s ⟨d, hd, hs⟩
    exact everywhere_plain hs (h d hd)

theorem standsFor_unionOf_plain {A B : Declaration} (hA : HasSchema classes A)
    (hB : HasSchema classes B) (pA : A.isPlain = true) (pB : B.isPlain = true) :
    StandsFor classes (unionOf [A, B]) [A, B] := by
  have uA : Unitable classes A := ⟨hA, hasPlainTuples_of_isPlain A pA⟩
  have uB : Unitable classes B := ⟨hB, hasPlainTuples_of_isPlain B pB⟩
  exact standsFor_unionOf (List.cons_ne_nil _ _) (by simp [uA, uB])

/-- A plain union accepts what one of its members accepts. -/
theorem unionOf_accepts_of_accepts (classes : Option ClassTable) (A B : Declaration)
    (hA : HasSchema classes A) (hB : HasSchema classes B) (pA : A.isPlain = true)
    (pB : B.isPlain = true) :
    HasSchema classes (unionOf [A, B]) ∧
      ∀ v root, Accepts classes A v root ∨ Accepts classes B v root →
        Accepts classes (unionOf [A, B]) v root := by
  have hunion := standsFor_unionOf_plain hA hB pA pB
  have hplain : PlainSet (schemaSet classes [A, B]) := plainSet_schemaSet (by simp [pA, pB])
  refine ⟨hunion.hasSchema, fun v root h => ?_⟩
  rw [hunion.accepts_iff]
  have hmember : ∃ s ∈ schemaSet classes [A, B], UnionAccepts {s} v := by
    rcases h with ⟨s, hs, hpasses⟩ | ⟨s, hs, hpasses⟩
    · exact ⟨s, ⟨A, by simp, hs⟩, passes_iff.mp hpasses⟩
    · exact ⟨s, ⟨B, by simp, hs⟩, passes_iff.mp hpasses⟩
  obtain ⟨s, hs, haccepts⟩ := hmember
  exact acceptedByMore v _ _ (Set.singleton_subset_iff.mpr hs) ⟨s, rfl⟩ hplain haccepts

/-- In the union the tag `int` hides the literal that one side has for members. -/
theorem unionOf_accepts_hidden_literal :
    Accepts Option.none
      (unionOf [container .list [literal [.int 1]],
        container .list [union [tupleOf (concrete .str), concrete .int]]])
      (.collection .list [.int 1]) "x" := by
  have hunion := unionOf_accepts_of_accepts Option.none (container .list [literal [.int 1]])
    (container .list [union [tupleOf (concrete .str), concrete .int]]) ⟨_, rfl⟩ ⟨_, rfl⟩
    (by decide) (by decide)
  exact hunion.2 _ _ (Or.inl ⟨_, rfl, by decide +kernel⟩)

/-- Of the values whose members are not merged, a plain union accepts only what
    one of its members accepts. -/
theorem accepts_or_of_unionOf_accepts (classes : Option ClassTable) (A B : Declaration)
    (hA : HasSchema classes A) (hB : HasSchema classes B) (pA : A.isPlain = true)
    (pB : B.isPlain = true) :
    HasSchema classes (unionOf [A, B]) ∧
      ∀ v root, v.mergesMembers = false → Accepts classes (unionOf [A, B]) v root →
        Accepts classes A v root ∨ Accepts classes B v root := by
  have hunion := standsFor_unionOf_plain hA hB pA pB
  have hplain : PlainSet (schemaSet classes [A, B]) := plainSet_schemaSet (by simp [pA, pB])
  have hne : (schemaSet classes [A, B]).Nonempty := by
    obtain ⟨s, hs⟩ := hA
    exact ⟨s, A, List.mem_cons_self, hs⟩
  refine ⟨hunion.hasSchema, fun v root hv h => ?_⟩
  rw [hunion.accepts_iff] at h
  obtain ⟨s, ⟨d, hd, hs⟩, haccepts⟩ := h.exists_singleton hv hne hplain
  have hpasses : Accepts classes d v root := ⟨s, hs, passes_iff.mpr haccepts⟩
  rcases List.mem_pair.mp hd with rfl | rfl
  · exact Or.inl hpasses
  · exact Or.inr hpasses

/-- A tuple that holds a list, against two forms of tuples. -/
theorem accepts_or_of_unionOf_accepts_tuple :
    Accepts Option.none (tupleOf (concrete .int))
        (.collection .tuple [.str "a", .collection .list [.int 1]]) "x" ∨
      Accepts Option.none (container .tuple [concrete .str, container .list [concrete .int]])
        (.collection .tuple [.str "a", .collection .list [.int 1]]) "x" := by
  have hunion := accepts_or_of_unionOf_accepts Option.none (tupleOf (concrete .int))
    (container .tuple [concrete .str, container .list [concrete .int]]) ⟨_, rfl⟩ ⟨_, rfl⟩
    (by decide) (by decide)
  exact hunion.2 _ _ rfl ⟨_, rfl, by decide +kernel⟩

end Declaration

end Conform

/-
  Conform.Proofs.Schema.WellFormed

  Schemas of declarations are well formed at every level: each declares a type,
  a literal or a constraint, demands stand under the tags that can have them and
  not at all beside `any`, and the forms of a tuple are there, are told apart by
  comparison and have one item where they repeat.

  The join breaks none of this. It takes over forms of the right side only if no
  form on the left compares equal to them, so the distinctness of forms survives
  for every comparison, however coarse it is on literals.
-/

import Conform.Proofs.Schema.Shape

namespace Conform

/-- What the forms listed under one tag have to be. -/
structure FormsWellFormed (fs : List TupleForm) : Prop where
  nonempty : fs ≠ []
  distinct : fs.Pairwise fun earlier later => earlier.equal later = false
  repeated : ∀ f ∈ fs, f.repeated = true → ∃ e, f.items = [e]

/-- A schema declares a type, a literal or a constraint. -/
def Schema.Declares (s : Schema) : Prop :=
  s.tags ≠ [] ∨ (∃ ls, s.literals = some ls ∧ ls ≠ []) ∨ s.constraints ≠ []

/-- One level of a schema is well formed. -/
structure Schema.WellFormed (s : Schema) : Prop where
  declares : s.Declares
  freeBesideAny : .any ∈ s.tags → ∀ p ∈ s.alternatives, p.2 = .free
  each : ∀ k e, (k, .each e) ∈ s.alternatives →
    k = .collection .list ∨ k = .collection .set ∨ k = .collection .frozenSet
  entries : ∀ k l e, (k, .entries l e) ∈ s.alternatives → k = .dict
  forms : ∀ k fs, (k, .forms fs) ∈ s.alternatives → k = .collection .tuple ∧ FormsWellFormed fs

/-! ## The forms of a join -/

theorem distinct_append_singleton {fs : List TupleForm} {g : TupleForm}
    (h : fs.Pairwise fun earlier later => earlier.equal later = false)
    (hnew : ¬ fs.any (· == g) = true) :
    (fs ++ [g]).Pairwise fun earlier later => earlier.equal later = false := by
  refine List.pairwise_append.mpr ⟨h, List.pairwise_singleton _ _, ?_⟩
  intro f hf x hx
  obtain rfl := List.mem_singleton.mp hx
  have hnone : ∀ f ∈ fs, ¬ (f == x) = true := by simpa using hnew
  exact Bool.eq_false_iff.mpr (hnone f hf)

theorem distinct_joinForms {fs : List TupleForm}
    (h : fs.Pairwise fun earlier later => earlier.equal later = false) (gs : List TupleForm) :
    (joinForms fs gs).Pairwise fun earlier later => earlier.equal later = false := by
  unfold joinForms
  induction gs generalizing fs with
  | nil => exact h
  | cons g rest ih =>
      rw [List.foldl_cons]
      apply ih
      split
      · exact h
      next hnew => exact distinct_append_singleton h hnew

theorem FormsWellFormed.joinForms {fs gs : List TupleForm} (hf : FormsWellFormed fs)
    (hg : FormsWellFormed gs) : FormsWellFormed (joinForms fs gs) where
  nonempty := by
    obtain ⟨f, hmem⟩ := List.exists_mem_of_ne_nil fs hf.nonempty
    exact List.ne_nil_of_mem (mem_joinForms_of_mem_left gs hmem)
  distinct := distinct_joinForms hf.distinct gs
  repeated f hmem hrep := by
    rcases mem_or_mem_of_mem_joinForms hmem with h | h
    · exact hf.repeated f h hrep
    · exact hg.repeated f h hrep

theorem formsWellFormed_fixed (items : List Schema) : FormsWellFormed [.fixed items] where
  nonempty := List.cons_ne_nil _ _
  distinct := List.pairwise_singleton _ _
  repeated f hmem hrep := by
    obtain rfl := List.mem_singleton.mp hmem
    cases hrep

theorem formsWellFormed_repeating (e : Schema) : FormsWellFormed [.repeating e] where
  nonempty := List.cons_ne_nil _ _
  distinct := List.pairwise_singleton _ _
  repeated f hmem _ := by
    obtain rfl := List.mem_singleton.mp hmem
    exact ⟨e, rfl⟩

/-! ## One level -/

namespace Schema

variable {a b s : Schema}

/-- A canonical schema that declares something is well formed if its forms are. -/
theorem WellFormed.of_canonical (hc : s.Canonical) (hd : s.Declares)
    (hf : ∀ k fs, (k, .forms fs) ∈ s.alternatives → FormsWellFormed fs) : s.WellFormed where
  declares := hd
  freeBesideAny hany := hc.freeBesideAny (mem_tags_iff.mp hany)
  each k e hmem := by
    have hsuits : (Contents.each e).suits k = true := hc.suited _ hmem
    simpa [Contents.suits, or_assoc] using hsuits
  entries k l e hmem := by
    have hsuits : (Contents.entries l e).suits k = true := hc.suited _ hmem
    simpa [Contents.suits] using hsuits
  forms k fs hmem := by
    have hsuits : (Contents.forms fs).suits k = true := hc.suited _ hmem
    exact ⟨by simpa [Contents.suits] using hsuits, hf k fs hmem⟩

theorem Declares.join (ha : a.Canonical) (hb : b.Canonical) (h : a.Declares) :
    (a.join b).Declares := by
  rcases h with htags | ⟨ls, hls, hne⟩ | hcs
  · obtain ⟨k, hk⟩ := List.exists_mem_of_ne_nil _ htags
    exact Or.inl (List.ne_nil_of_mem ((mem_tags_join ha hb).mpr (Or.inl hk)))
  · refine Or.inr (Or.inl ?_)
    rw [literals_join, hls]
    cases b.literals with
    | none => exact ⟨ls, rfl, hne⟩
    | some ms => exact ⟨ls ++ ms, rfl, List.append_ne_nil_of_left_ne_nil hne ms⟩
  · refine Or.inr (Or.inr ?_)
    rw [constraints_join]
    exact List.append_ne_nil_of_left_ne_nil hcs _

theorem WellFormed.join (ca : a.Canonical) (cb : b.Canonical) (ha : a.WellFormed)
    (hb : b.WellFormed) : (a.join b).WellFormed := by
  refine .of_canonical (ca.join cb) (ha.declares.join ca cb) fun k fs hmem => ?_
  rcases cases_of_mem_join ca cb hmem with h | h | h | ⟨p, q, hp, hq, h⟩
  · cases h
  · exact (ha.forms k fs h).2
  · exact (hb.forms k fs h).2
  · -- joined demands are forms only if both sides list forms
    rcases Contents.join_cases p q with hpq | ⟨s, t, rfl, rfl⟩ | ⟨l, s, m, t, rfl, rfl⟩ |
      ⟨gs, hs, rfl, rfl⟩
    · cases h.trans hpq
    · cases h.trans (Contents.each_join_each s t)
    · cases h.trans (Contents.entries_join_entries l s m t)
    · obtain rfl : fs = joinForms gs hs := by
        simpa using h.trans (Contents.forms_join_forms gs hs)
      exact (ha.forms k gs hp).2.joinForms (hb.forms k hs hq).2

theorem wellFormed_ofTag {tag : TypeTag} {c : Contents} (hsuits : c.suits tag = true)
    (hf : ∀ fs, c = .forms fs → FormsWellFormed fs) : (ofTag tag c).WellFormed := by
  refine .of_canonical (canonical_ofTag hsuits) (Or.inl (List.cons_ne_nil _ _)) ?_
  intro k fs hmem
  have hpair : (k, Contents.forms fs) = (tag, c) := List.mem_singleton.mp hmem
  exact hf fs (congrArg Prod.snd hpair).symm

theorem wellFormed_bare (tag : TypeTag) : (bare tag).WellFormed :=
  wellFormed_ofTag rfl fun _ h => by cases h

theorem WellFormed.constrain (h : s.WellFormed) (c : Constraint) : (s.constrain c).WellFormed where
  declares := Or.inr (Or.inr (List.append_ne_nil_of_right_ne_nil _ (List.cons_ne_nil _ _)))
  freeBesideAny := h.freeBesideAny
  each := h.each
  entries := h.entries
  forms := h.forms

end Schema

/-! ## Schemas of declarations -/

namespace Declaration

open Schema

variable {classes : Option ClassTable}

theorem compositional_wellFormed : Compositional classes fun _ s => s.Everywhere WellFormed where
  tags _ tag tags := everywhere_tags wellFormed_bare (fun _ _ => WellFormed.join) tag tags
  each suits _ part :=
    everywhere_ofTag (wellFormed_ofTag suits fun _ h => by cases h) (by simpa [Contents.parts])
  entries _ part _ part' :=
    everywhere_ofTag (wellFormed_ofTag rfl fun _ h => by cases h)
      (by simp [Contents.parts, part, part'])
  repeating {d e} _ part := by
    refine everywhere_ofTag (wellFormed_ofTag rfl ?_)
      (by simpa [Contents.parts, TupleForm.repeating])
    rintro fs ⟨⟩
    exact formsWellFormed_repeating e
  fixed {args items} _ parts := by
    refine everywhere_ofTag (wellFormed_ofTag rfl ?_)
      (by simpa [Contents.parts, TupleForm.fixed] using forall_mem_of_forall₂ parts)
    rintro fs ⟨⟩
    exact formsWellFormed_fixed items
  union schemas parts :=
    Everywhere.foldl_join (fun _ _ => WellFormed.join) (everywhere_canonical_of_haveSchemas schemas)
      (forall_mem_of_forall₂ parts)
  literal {values} nonempty := by
    refine everywhere_ofLiterals (.of_canonical (canonical_of_no_tags rfl) ?_ ?_)
    · exact Or.inr (Or.inl ⟨values, rfl, nonempty⟩)
    · exact fun _ _ hmem => absurd hmem List.not_mem_nil
  constraint c := by
    refine everywhere_ofConstraint (.of_canonical (canonical_of_no_tags rfl) ?_ ?_)
    · exact Or.inr (Or.inr (List.cons_ne_nil _ _))
    · exact fun _ _ hmem => absurd hmem List.not_mem_nil
  annotated _ part := part.foldl_constrain fun _ c _ h => h.constrain c

/-- The schema of a declaration is well formed at every level. -/
theorem toSchema_wellFormed (classes : Option ClassTable) (d : Declaration) (s : Schema)
    (h : toSchema classes d = .ok s) : s.Everywhere WellFormed :=
  compositional_wellFormed.of_toSchema h

/-- A form that is declared twice, one that repeats, and demands that `any` gives up below. -/
theorem toSchema_wellFormed_mixed :
    ∃ s, toSchema Option.none
        (union [container .tuple [concrete .int], tupleOf (literal [.int 1]),
          container .tuple [concrete .int],
          container .list [union [container .set [concrete .str], any]]]) = .ok s ∧
      s.tags = [.collection .list, .collection .tuple] ∧ s.Everywhere WellFormed := by
  refine ⟨_, rfl, rfl, ?_⟩
  exact toSchema_wellFormed Option.none
    (union [container .tuple [concrete .int], tupleOf (literal [.int 1]),
      container .tuple [concrete .int],
      container .list [union [container .set [concrete .str], any]]]) _ rfl

end Declaration

end Conform

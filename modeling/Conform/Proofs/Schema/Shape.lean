/-
  Conform.Proofs.Schema.Shape

  The shape of schemas of declarations: canonical throughout, plain throughout
  where the declaration is plain, and with plain tuple items throughout where
  the type arguments of tuples are plain.
-/

import Conform.Proofs.Schema.OfDeclaration

namespace Conform

/-! ## Plain declarations -/

namespace Declaration

mutual

/-- Whether a declaration has no constraints and only plain literals. Metadata
    other than constraints has no effect and is not looked at. -/
def isPlain : Declaration → Bool
  | literal values => values.all Value.isPlain
  | constraint _ => false
  | container _ args => allPlain args
  | union members => allPlain members
  | annotated base metadata => base.isPlain && (constraintsOf metadata).isEmpty
  | _ => true

def allPlain : List Declaration → Bool
  | [] => true
  | d :: rest => d.isPlain && allPlain rest

end

mutual

/-- Whether the type arguments of tuples, at any depth, are plain. -/
def hasPlainTuples : Declaration → Bool
  | container .tuple args => allPlain args
  | container _ args => allHavePlainTuples args
  | union members => allHavePlainTuples members
  | annotated base _ => base.hasPlainTuples
  | _ => true

def allHavePlainTuples : List Declaration → Bool
  | [] => true
  | d :: rest => d.hasPlainTuples && allHavePlainTuples rest

end

theorem allPlain_iff {ds : List Declaration} :
    allPlain ds = true ↔ ∀ d ∈ ds, d.isPlain = true := by
  induction ds with
  | nil => simp [allPlain]
  | cons d rest ih => simp [allPlain, ih]

theorem allHavePlainTuples_iff {ds : List Declaration} :
    allHavePlainTuples ds = true ↔ ∀ d ∈ ds, d.hasPlainTuples = true := by
  induction ds with
  | nil => simp [allHavePlainTuples]
  | cons d rest ih => simp [allHavePlainTuples, ih]

theorem hasPlainTuples_of_isPlain (d : Declaration) (h : d.isPlain = true) :
    d.hasPlainTuples = true := by
  induction d using induction_operands with
  | step d ih =>
      cases d with
      | container kind args =>
          have hargs := allPlain_iff.mp h
          cases kind with
          | tuple => exact h
          | _ => exact allHavePlainTuples_iff.mpr fun x hx => ih x hx (hargs x hx)
      | union members =>
          have hmembers := allPlain_iff.mp h
          exact allHavePlainTuples_iff.mpr fun x hx => ih x hx (hmembers x hx)
      | annotated base metadata =>
          rw [isPlain, Bool.and_eq_true] at h
          exact ih base List.mem_cons_self h.1
      | _ => rfl

end Declaration

/-! ## Properties of built schemas -/

namespace Schema

variable {P : Schema → Prop}

theorem everywhere_ofTag {tag : TypeTag} {c : Contents} (here : P (.ofTag tag c))
    (inside : ∀ t ∈ c.parts, t.Everywhere P) : (ofTag tag c).Everywhere P := by
  refine .intro here fun t ht => inside t ?_
  simpa [ofTag, parts] using ht

theorem everywhere_bare {tag : TypeTag} (here : P (.bare tag)) : (bare tag).Everywhere P :=
  everywhere_ofTag here fun _ ht => absurd ht List.not_mem_nil

theorem everywhere_ofLiterals {values : List Value} (here : P (.ofLiterals values)) :
    (ofLiterals values).Everywhere P :=
  .intro here fun _ ht => absurd ht List.not_mem_nil

theorem everywhere_ofConstraint {c : Constraint} (here : P (.ofConstraint c)) :
    (ofConstraint c).Everywhere P :=
  .intro here fun _ ht => absurd ht List.not_mem_nil

theorem Everywhere.foldl_constrain {s : Schema} (h : s.Everywhere P) {cs : List Constraint}
    (hP : ∀ t, ∀ c ∈ cs, P t → P (t.constrain c)) : (cs.foldl constrain s).Everywhere P := by
  induction cs generalizing s with
  | nil => exact h
  | cons c rest ih =>
      have hfirst : (s.constrain c).Everywhere P :=
        .intro (hP s c List.mem_cons_self h.here) h.inside
      exact ih hfirst fun t d hd => hP t d (List.mem_cons_of_mem c hd)

theorem Everywhere.foldl_join
    (hP : ∀ a b, a.Canonical → b.Canonical → P a → P b → P (a.join b)) {s : Schema}
    {ss : List Schema} (canonical : ∀ t ∈ s :: ss, t.Everywhere Canonical)
    (h : ∀ t ∈ s :: ss, t.Everywhere P) : (ss.foldl Schema.join s).Everywhere P := by
  induction ss generalizing s with
  | nil => exact h s List.mem_cons_self
  | cons t rest ih =>
      have hs : s ∈ s :: t :: rest := List.mem_cons_self
      have ht : t ∈ s :: t :: rest := List.mem_cons_of_mem _ List.mem_cons_self
      have hrest {x : Schema} (hx : x ∈ rest) : x ∈ s :: t :: rest :=
        List.mem_cons_of_mem _ (List.mem_cons_of_mem _ hx)
      rw [List.foldl_cons]
      apply ih
      · intro x hx
        rcases List.mem_cons.mp hx with rfl | hx
        · exact everywhere_canonical_join (canonical s hs) (canonical t ht)
        · exact canonical x (hrest hx)
      · intro x hx
        rcases List.mem_cons.mp hx with rfl | hx
        · exact Everywhere.join hP (canonical s hs) (canonical t ht) (h s hs) (h t ht)
        · exact h x (hrest hx)

theorem canonical_ofTag {tag : TypeTag} {c : Contents} (h : c.suits tag = true) :
    (ofTag tag c).Canonical where
  ascending := List.pairwise_singleton _ _
  suited := by
    intro p hp
    obtain rfl := List.mem_singleton.mp hp
    exact h
  freeBesideAny := by
    intro hany p hp
    obtain rfl := List.mem_singleton.mp hp
    obtain rfl : tag = .any := by
      rw [← mem_tags_iff] at hany
      exact (List.mem_singleton.mp hany).symm
    cases c <;> simp_all [Contents.suits]

theorem canonical_of_no_tags {s : Schema} (h : s.alternatives = []) : s.Canonical where
  ascending := by
    rw [h]
    exact List.Pairwise.nil
  suited := by simp [h]
  freeBesideAny := by simp [h]

theorem plain_ofTag (tag : TypeTag) (c : Contents) : (ofTag tag c).Plain where
  unconstrained := rfl
  literals _ h := by cases h
  declares := rfl

theorem tuplesPlain_ofTag {tag : TypeTag} {c : Contents} (h : ∀ fs, c ≠ .forms fs) :
    (ofTag tag c).TuplesPlain := by
  intro k fs hmem
  have hpair := List.mem_singleton.mp hmem
  exact absurd (congrArg Prod.snd hpair).symm (h fs)

theorem everywhere_tags (hP : ∀ k, P (bare k))
    (hjoin : ∀ a b, a.Canonical → b.Canonical → P a → P b → P (a.join b)) (tag : TypeTag)
    (tags : List TypeTag) : (tags.foldl (fun s k => s.join (bare k)) (bare tag)).Everywhere P := by
  have hbare : ∀ t ∈ bare tag :: tags.map bare, ∃ k, t = bare k := by
    simp only [List.mem_cons, List.mem_map]
    rintro t (rfl | ⟨k, _, rfl⟩)
    · exact ⟨tag, rfl⟩
    · exact ⟨k, rfl⟩
  rw [← List.foldl_map]
  apply Everywhere.foldl_join hjoin
  · intro t ht
    obtain ⟨k, rfl⟩ := hbare t ht
    exact everywhere_bare (canonical_ofTag rfl)
  · intro t ht
    obtain ⟨k, rfl⟩ := hbare t ht
    exact everywhere_bare (hP k)

end Schema

/-! ## Schemas of declarations -/

namespace Declaration

open Schema

variable {classes : Option ClassTable} {d : Declaration} {s : Schema}

theorem compositional_canonical :
    Compositional classes fun _ s => s.Everywhere Canonical where
  tags _ tag tags :=
    everywhere_tags (fun _ => canonical_ofTag rfl) (fun _ _ ha hb _ _ => ha.join hb) tag tags
  each suits _ part := everywhere_ofTag (canonical_ofTag suits) (by simpa [Contents.parts])
  entries _ part _ part' :=
    everywhere_ofTag (canonical_ofTag rfl) (by simp [Contents.parts, part, part'])
  repeating _ part :=
    everywhere_ofTag (canonical_ofTag rfl) (by simpa [Contents.parts, TupleForm.repeating])
  fixed _ parts :=
    everywhere_ofTag (canonical_ofTag rfl)
      (by simpa [Contents.parts, TupleForm.fixed] using forall_mem_of_forall₂ parts)
  union _ parts :=
    have hall := forall_mem_of_forall₂ parts
    Everywhere.foldl_join (fun _ _ ha hb _ _ => ha.join hb) hall hall
  literal _ := everywhere_ofLiterals (canonical_of_no_tags rfl)
  constraint _ := everywhere_ofConstraint (canonical_of_no_tags rfl)
  annotated _ part :=
    part.foldl_constrain fun _ _ _ h => ⟨h.ascending, h.suited, h.freeBesideAny⟩

/-- The schema of a declaration is canonical throughout. -/
theorem everywhere_canonical (h : toSchema classes d = .ok s) : s.Everywhere Canonical :=
  compositional_canonical.of_toSchema h

theorem everywhere_canonical_of_haveSchemas {ds : List Declaration} {ss : List Schema}
    (h : HaveSchemas classes ds ss) : ∀ s ∈ ss, s.Everywhere Canonical :=
  forall_mem_of_forall₂ (h.imp fun _ _ => everywhere_canonical)

theorem compositional_plain :
    Compositional classes fun d s => d.isPlain = true → s.Everywhere Plain where
  tags _ tag tags _ :=
    everywhere_tags (fun k => plain_ofTag k .free) (fun _ _ => Plain.join) tag tags
  each _ _ part h := by
    have hd := allPlain_iff.mp h
    exact everywhere_ofTag (plain_ofTag _ _) (by simpa [Contents.parts] using part (hd _ (by simp)))
  entries _ part _ part' h := by
    have hd := allPlain_iff.mp h
    exact everywhere_ofTag (plain_ofTag _ _)
      (by simp [Contents.parts, part (hd _ (by simp)), part' (hd _ (by simp))])
  repeating _ part h := by
    have hd := allPlain_iff.mp h
    exact everywhere_ofTag (plain_ofTag _ _)
      (by simpa [Contents.parts, TupleForm.repeating] using part (hd _ (by simp)))
  fixed _ parts h :=
    everywhere_ofTag (plain_ofTag _ _)
      (by simpa [Contents.parts, TupleForm.fixed] using
        forall_mem_of_forall₂_imp (allPlain_iff.mp h) parts)
  union schemas parts h :=
    Everywhere.foldl_join (fun _ _ => Plain.join) (everywhere_canonical_of_haveSchemas schemas)
      (forall_mem_of_forall₂_imp (allPlain_iff.mp h) parts)
  literal {values} _ h := by
    refine everywhere_ofLiterals ⟨rfl, ?_, rfl⟩
    intro ls hls
    obtain rfl : values = ls := Option.some.inj hls
    exact List.all_eq_true.mp h
  constraint _ h := by cases h
  annotated {base metadata s} _ part h := by
    rw [isPlain, Bool.and_eq_true, List.isEmpty_iff] at h
    rw [h.2]
    exact part h.1

/-- The schema of a plain declaration is plain throughout. -/
theorem everywhere_plain (h : toSchema classes d = .ok s) (hd : d.isPlain = true) :
    s.Everywhere Plain :=
  compositional_plain.of_toSchema h hd

theorem compositional_tuplesPlain :
    Compositional classes fun d s => d.hasPlainTuples = true → s.Everywhere TuplesPlain where
  tags _ tag tags _ :=
    everywhere_tags (fun _ => tuplesPlain_ofTag (fun _ => by simp)) (fun _ _ => TuplesPlain.join)
      tag tags
  each {kind d e} suits _ part h := by
    have hd : d.hasPlainTuples = true := by
      cases kind <;> simp_all [hasPlainTuples, allHavePlainTuples, Contents.suits, Container.tag]
    exact everywhere_ofTag (tuplesPlain_ofTag fun _ => by simp)
      (by simpa [Contents.parts] using part hd)
  entries _ part _ part' h := by
    have hd := allHavePlainTuples_iff.mp h
    exact everywhere_ofTag (tuplesPlain_ofTag fun _ => by simp)
      (by simp [Contents.parts, part (hd _ (by simp)), part' (hd _ (by simp))])
  -- A tuple with plain arguments is plain as a whole.
  repeating schema _ h :=
    (compositional_plain.repeating schema (everywhere_plain schema) h).tuplesPlain
  fixed schemas _ h :=
    (compositional_plain.fixed schemas (schemas.imp fun _ _ => everywhere_plain) h).tuplesPlain
  union schemas parts h :=
    Everywhere.foldl_join (fun _ _ => TuplesPlain.join)
      (everywhere_canonical_of_haveSchemas schemas)
      (forall_mem_of_forall₂_imp (allHavePlainTuples_iff.mp h) parts)
  literal _ _ := everywhere_ofLiterals fun _ _ hmem => absurd hmem List.not_mem_nil
  constraint _ _ := everywhere_ofConstraint fun _ _ hmem => absurd hmem List.not_mem_nil
  annotated _ part h := (part h).foldl_constrain fun _ _ _ h => h

/-- Plain type arguments of tuples make for a schema that joins as a union. -/
theorem everywhere_joinable (h : toSchema classes d = .ok s) (hd : d.hasPlainTuples = true) :
    s.Everywhere Joinable :=
  (everywhere_canonical h).joinable (compositional_tuplesPlain.of_toSchema h hd)

end Declaration

end Conform

/-
  Conform.Proofs.Union.Join

  The join of schemas stands for their union: beside any other schemas, the
  join of two accepts together with them what the two accept
  (`unionAccepts_insert_join`). A chain of joins is therefore as good as the
  set of its members, and no order or grouping of joins can be told apart.

  The proof is by induction on the value. At each level a join differs from the
  set of its two sides in one place only, what both ask under the tag of the
  value; there the members meet a join again, and a form that was dropped is
  replaced by the one that compares equal to it.
-/

import Conform.Proofs.Union.Equality

namespace Conform

namespace Schema

variable {a b : Schema} {v : Value}

theorem equalsLiteral_join :
    Inspection.equalsLiteral (a.join b) v = true ↔
      Inspection.equalsLiteral a v = true ∨ Inspection.equalsLiteral b v = true := by
  unfold Inspection.equalsLiteral
  rw [literals_join]
  cases a.literals <;> cases b.literals <;> simp [joinLiterals]

end Schema

/-- What suits one tag is of one kind. -/
theorem Contents.cases_of_suits {c d : Contents} {k : TypeTag} (hc : c.suits k = true)
    (hd : d.suits k = true) :
    c = .free ∨ d = .free ∨ (∃ s t, c = .each s ∧ d = .each t) ∨
      (∃ l s m t, c = .entries l s ∧ d = .entries m t) ∨
      ∃ fs gs, c = .forms fs ∧ d = .forms gs := by
  cases c <;> cases d <;> simp_all [Contents.suits]

/-! ## Members under a join -/

/-- The join of two schemas can be told from the two by no value beside `w`. -/
abbrev JoinAccepts (w : Value) : Prop :=
  ∀ (a b : Schema) (S : Set Schema), a.Everywhere Schema.Joinable → b.Everywhere Schema.Joinable →
    (UnionAccepts (insert (a.join b) S) w ↔ UnionAccepts (insert a (insert b S)) w)

section Members

variable {v : Value} (C : Set Contents)

theorem membersAccepted_insert_each (ih : ∀ w ∈ v.members, JoinAccepts w) {s t : Schema}
    (hs : s.Everywhere Schema.Joinable) (ht : t.Everywhere Schema.Joinable) :
    MembersAccepted (insert (.each (s.join t)) C) v ↔
      MembersAccepted (insert (.each s) (insert (.each t) C)) v := by
  have hmembers : (∀ w ∈ v.members, UnionAccepts (insert (s.join t) (memberSchemas C)) w) ↔
      ∀ w ∈ v.members, UnionAccepts (insert s (insert t (memberSchemas C))) w :=
    forall₂_congr fun w hw => ih w hw s t _ hs ht
  simp only [membersAccepted_iff, askedIn_insert, Contents.memberPart, Contents.keyPart,
    Contents.valuePart, Contents.formPart, Set.singleton_union, Set.empty_union, hmembers]
  simp

theorem membersAccepted_insert_entries
    (ih : ∀ p ∈ v.pairs, JoinAccepts p.1 ∧ JoinAccepts p.2) {k l s t : Schema}
    (hk : k.Everywhere Schema.Joinable) (hl : l.Everywhere Schema.Joinable)
    (hs : s.Everywhere Schema.Joinable) (ht : t.Everywhere Schema.Joinable) :
    MembersAccepted (insert (.entries (k.join l) (s.join t)) C) v ↔
      MembersAccepted (insert (.entries k s) (insert (.entries l t) C)) v := by
  have hkeys : (∀ p ∈ v.pairs, UnionAccepts (insert (k.join l) (keySchemas C)) p.1) ↔
      ∀ p ∈ v.pairs, UnionAccepts (insert k (insert l (keySchemas C))) p.1 :=
    forall₂_congr fun p hp => (ih p hp).1 k l _ hk hl
  have hvalues : (∀ p ∈ v.pairs, UnionAccepts (insert (s.join t) (valueSchemas C)) p.2) ↔
      ∀ p ∈ v.pairs, UnionAccepts (insert s (insert t (valueSchemas C))) p.2 :=
    forall₂_congr fun p hp => (ih p hp).2 s t _ hs ht
  simp only [membersAccepted_iff, askedIn_insert, Contents.memberPart, Contents.keyPart,
    Contents.valuePart, Contents.formPart, Set.singleton_union, Set.empty_union, hkeys, hvalues]
  simp

/-- Joining forms drops only such as compare equal to one that stays. -/
theorem exists_formAccepts_joinForms {fs gs : List TupleForm}
    (hfs : ∀ f ∈ fs, ∀ e ∈ f.items, e.Everywhere Schema.Plain)
    (hgs : ∀ g ∈ gs, ∀ e ∈ g.items, e.Everywhere Schema.Plain) :
    (∃ f ∈ joinForms fs gs, FormAccepts f v) ↔
      (∃ f ∈ fs, FormAccepts f v) ∨ ∃ g ∈ gs, FormAccepts g v := by
  constructor
  · rintro ⟨f, hf, haccepts⟩
    rcases mem_or_mem_of_mem_joinForms hf with hf | hf
    · exact Or.inl ⟨f, hf, haccepts⟩
    · exact Or.inr ⟨f, hf, haccepts⟩
  · rintro (⟨f, hf, haccepts⟩ | ⟨g, hg, haccepts⟩)
    · exact ⟨f, mem_joinForms_of_mem_left gs hf, haccepts⟩
    · obtain ⟨f, hf, rfl | hequal⟩ := exists_mem_joinForms_of_mem_right fs hg
      · exact ⟨f, hf, haccepts⟩
      · have hitems : ∀ e ∈ f.items, e.Everywhere Schema.Plain := by
          rcases mem_or_mem_of_mem_joinForms hf with hf | hf
          · exact hfs f hf
          · exact hgs f hf
        -- without constraints it does not matter what patterns and custom tests do
        have hexact {e : Schema} (he : e.Everywhere Schema.Plain) :
            e.Everywhere (Schema.Exact ⟨fun _ _ => .answer true, fun _ _ => true⟩) :=
          he.imp fun _ h => h.exact
        have hiff : FormAccepts f v ↔ FormAccepts g v :=
          formAccepts_iff_of_equal (fun w _ => unionAccepts_iff_of_equal w)
            (fun e he => hexact (hitems e he)) (fun e he => hexact (hgs g hg e he)) hequal
        exact ⟨f, hf, hiff.mpr haccepts⟩

theorem membersAccepted_insert_forms {fs gs : List TupleForm}
    (hfs : ∀ f ∈ fs, ∀ e ∈ f.items, e.Everywhere Schema.Plain)
    (hgs : ∀ g ∈ gs, ∀ e ∈ g.items, e.Everywhere Schema.Plain) :
    MembersAccepted (insert (.forms (joinForms fs gs)) C) v ↔
      MembersAccepted (insert (.forms fs) (insert (.forms gs) C)) v := by
  have hforms := exists_formAccepts_joinForms (v := v) hfs hgs
  simp only [membersAccepted_iff, askedIn_insert, Contents.memberPart, Contents.keyPart,
    Contents.valuePart, Contents.formPart, Set.empty_union, Set.mem_union, Set.mem_ofPred_eq,
    or_and_right, exists_or, hforms, or_assoc]
  simp

end Members

/-- Asking the join of two demands is asking both. -/
theorem membersAccepted_insert_join {v : Value} (ihm : ∀ w ∈ v.members, JoinAccepts w)
    (ihp : ∀ p ∈ v.pairs, JoinAccepts p.1 ∧ JoinAccepts p.2) {a b : Schema}
    (ha : a.Everywhere Schema.Joinable) (hb : b.Everywhere Schema.Joinable) {c d : Contents}
    (hc : a.contents? v.tag = some c) (hd : b.contents? v.tag = some d) (C : Set Contents) :
    MembersAccepted (insert (c.join d) C) v ↔ MembersAccepted (insert c (insert d C)) v := by
  have hcs := ha.here.canonical.suits_of_contents? hc
  have hds := hb.here.canonical.suits_of_contents? hd
  rcases Contents.cases_of_suits hcs hds with rfl | rfl | ⟨s, t, rfl, rfl⟩ |
    ⟨k, s, l, t, rfl, rfl⟩ | ⟨fs, gs, rfl, rfl⟩
  · rw [Contents.free_join]
    exact iff_of_true (.free (Set.mem_insert _ _)) (.free (Set.mem_insert _ _))
  · rw [Contents.join_free]
    exact iff_of_true (.free (Set.mem_insert _ _))
      (.free (Set.mem_insert_of_mem _ (Set.mem_insert _ _)))
  · rw [Contents.each_join_each]
    exact membersAccepted_insert_each C ihm (ha.of_contents? hc s List.mem_cons_self)
      (hb.of_contents? hd t List.mem_cons_self)
  · rw [Contents.entries_join_entries]
    have hs : s ∈ [k, s] := List.mem_cons_of_mem _ List.mem_cons_self
    have ht : t ∈ [l, t] := List.mem_cons_of_mem _ List.mem_cons_self
    exact membersAccepted_insert_entries C ihp (ha.of_contents? hc k List.mem_cons_self)
      (hb.of_contents? hd l List.mem_cons_self) (ha.of_contents? hc s hs)
      (hb.of_contents? hd t ht)
  · rw [Contents.forms_join_forms]
    exact membersAccepted_insert_forms C (ha.here.tuplesPlain_of_contents? hc)
      (hb.here.tuplesPlain_of_contents? hd)

/-- Under the tag of a value, a join asks of members what its two sides ask. -/
theorem membersAccepted_askedUnder_join {v : Value} (ihm : ∀ w ∈ v.members, JoinAccepts w)
    (ihp : ∀ p ∈ v.pairs, JoinAccepts p.1 ∧ JoinAccepts p.2) {a b : Schema} (S : Set Schema)
    (ha : a.Everywhere Schema.Joinable) (hb : b.Everywhere Schema.Joinable) :
    (MembersAccepted (askedUnder (insert (a.join b) S) v.tag) v ↔
        MembersAccepted (askedUnder (insert a (insert b S)) v.tag) v) ∧
      (askedUnder (insert (a.join b) S) v.tag = ∅ ↔
        askedUnder (insert a (insert b S)) v.tag = ∅) := by
  have hjoin := Schema.contents?_join ha.here.canonical hb.here.canonical v.tag
  cases hc : a.contents? v.tag with
  | none =>
      rw [hc, Option.merge_none_left] at hjoin
      rw [askedUnder_insert_of_none hc, askedUnder_insert, askedUnder_insert, hjoin]
      exact ⟨Iff.rfl, Iff.rfl⟩
  | some c =>
      cases hd : b.contents? v.tag with
      | none =>
          rw [hc, hd, Option.merge_none_right] at hjoin
          rw [askedUnder_insert_of_some hjoin, askedUnder_insert_of_some hc,
            askedUnder_insert_of_none hd]
          exact ⟨Iff.rfl, Iff.rfl⟩
      | some d =>
          rw [hc, hd, Option.merge_some_some] at hjoin
          rw [askedUnder_insert_of_some hjoin, askedUnder_insert_of_some hc,
            askedUnder_insert_of_some hd]
          refine ⟨membersAccepted_insert_join ihm ihp ha hb hc hd _, ?_⟩
          exact iff_of_false (Set.insert_nonempty _ _).ne_empty (Set.insert_nonempty _ _).ne_empty

/-! ## The join stands for the union -/

/-- Beside any other schemas, the join of two accepts what the two accept. -/
theorem unionAccepts_insert_join (v : Value) : JoinAccepts v := by
  induction v using Value.induction_parts with
  | step v ihm ihp =>
      intro a b S ha hb
      have ca := ha.here.canonical
      have cb := hb.here.canonical
      obtain ⟨hmembers, hempty⟩ := membersAccepted_askedUnder_join ihm ihp S ha hb
      have hmeets : MeetsAll (insert (a.join b) S) v ↔ MeetsAll (insert a (insert b S)) v := by
        simp only [MeetsAll, Set.forall_mem_insert, Schema.constraints_join, List.forall_mem_append,
          and_assoc]
      simp only [unionAccepts_iff, hmembers, hempty, hmeets, Set.exists_mem_insert,
        Set.forall_mem_insert, Schema.mem_tags_join ca cb, Schema.constrainsOnly_join ca cb,
        Schema.equalsLiteral_join, or_assoc, and_assoc]

/-- Beside any other schemas, the join of several accepts what these accept. -/
theorem unionAccepts_insert_foldl_join {v : Value} {s : Schema} {ss : List Schema}
    (h : ∀ t ∈ s :: ss, t.Everywhere Schema.Joinable) (S : Set Schema) :
    UnionAccepts (insert (ss.foldl Schema.join s) S) v ↔
      UnionAccepts ({t | t ∈ s :: ss} ∪ S) v := by
  induction ss generalizing s S with
  | nil =>
      have hset : {t | t ∈ [s]} ∪ S = insert s S := by
        ext t
        simp
      rw [List.foldl_nil, hset]
  | cons t rest ih =>
      obtain ⟨hs, hrest⟩ := List.forall_mem_cons.mp h
      obtain ⟨ht, hrest⟩ := List.forall_mem_cons.mp hrest
      -- The join of `s` and `t` is taken last out of the set, and only then opened.
      have hjoined : ({x | x ∈ s.join t :: rest} ∪ S : Set Schema) =
          insert (s.join t) ({x | x ∈ rest} ∪ S) := by
        ext x
        simp [or_assoc]
      have hset : ({x | x ∈ s :: t :: rest} ∪ S : Set Schema) =
          insert s (insert t ({x | x ∈ rest} ∪ S)) := by
        ext x
        simp [or_assoc]
      rw [List.foldl_cons, ih (List.forall_mem_cons.mpr ⟨hs.join_joinable ht, hrest⟩), hjoined,
        hset]
      exact unionAccepts_insert_join v s t _ hs ht

end Conform

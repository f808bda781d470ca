/-
  Conform.Proofs.Union.Equality

  Schemas that compare equal accept the same values, as long as their literals
  and the parameters of their constraints are exact. The join of tuple forms
  drops a form that compares equal to one that is there, and this is why it may.

  Comparison goes position by position, so it is stated through `Option.Rel`:
  at every tag and at every position, both sides have something that compares
  equal, or neither has anything.
-/

import Conform.Proofs.Schema.Exact
import Conform.Proofs.Union.Rules
import Mathlib.Data.List.Forall2

namespace Conform

/-! ## Comparison position by position -/

theorem exists_mem_right_of_forall₂ {α : Type} {r : α → α → Prop} {xs ys : List α}
    (h : List.Forall₂ r xs ys) {x : α} (hx : x ∈ xs) : ∃ y ∈ ys, r x y := by
  induction h with
  | nil => exact absurd hx List.not_mem_nil
  | @cons x' y' xs ys hxy _ ih =>
      rcases List.mem_cons.mp hx with rfl | hx
      · exact ⟨y', List.mem_cons_self, hxy⟩
      · obtain ⟨y, hy, hr⟩ := ih hx
        exact ⟨y, List.mem_cons_of_mem y' hy, hr⟩

theorem forall₂_of_equalItems {xs ys : List Schema} (h : equalItems xs ys = true) :
    List.Forall₂ (fun s t => s.equal t = true) xs ys :=
  forall₂_of_stepwise (by simp [equalItems]) (by simp [equalItems])
    (fun _ _ _ _ => by rw [equalItems]) h

theorem forall₂_of_equalForms {fs gs : List TupleForm} (h : equalForms fs gs = true) :
    List.Forall₂ (fun f g => f.equal g = true) fs gs :=
  forall₂_of_stepwise (by simp [equalForms]) (by simp [equalForms])
    (fun _ _ _ _ => by rw [equalForms]) h

theorem forall₂_of_equalAlternatives {xs ys : List (TypeTag × Contents)}
    (h : equalAlternatives xs ys = true) :
    List.Forall₂ (fun p q => (p.1 == q.1 && p.2.equal q.2) = true) xs ys :=
  forall₂_of_stepwise (by simp [equalAlternatives]) (by simp [equalAlternatives])
    (fun _ _ _ _ => by rw [equalAlternatives]) h

/-! ## What comparison says about tags and positions -/

theorem rel_lookup_of_equalAlternatives {xs ys : List (TypeTag × Contents)}
    (h : equalAlternatives xs ys = true) (k : TypeTag) :
    Option.Rel (fun c d => c.equal d = true) (xs.lookup k) (ys.lookup k) := by
  induction forall₂_of_equalAlternatives h with
  | nil => exact .none
  | @cons p q xs ys hpq _ ih =>
      obtain ⟨l, c⟩ := p
      obtain ⟨l', d⟩ := q
      obtain ⟨hl, hcd⟩ := Bool.and_eq_true_iff.mp hpq
      obtain rfl : l = l' := beq_iff_eq.mp hl
      rw [equalAlternatives, Bool.and_eq_true] at h
      rw [lookup_cons_alternative, lookup_cons_alternative]
      by_cases hk : k = l
      · rw [if_pos hk, if_pos hk]
        exact .some hcd
      · rw [if_neg hk, if_neg hk]
        exact ih h.2

theorem tags_eq_of_equal {s t : Schema} (h : s.equal t = true) : s.tags = t.tags := by
  obtain ⟨xs, ls, cs⟩ := s
  rw [Schema.equal, Bool.and_eq_true, Bool.and_eq_true] at h
  have hfst : List.Forall₂ (fun p q => p.1 = q.1) xs t.alternatives :=
    (forall₂_of_equalAlternatives h.1.1).imp fun p q hpq =>
      beq_iff_eq.mp (Bool.and_eq_true_iff.mp hpq).1
  have hmap := (List.forall₂_map_left_iff.mpr (List.forall₂_map_right_iff.mpr hfst))
  rwa [List.forall₂_eq_eq_eq] at hmap

theorem rel_or {α : Type} {r : α → α → Prop} {a b a' b' : Option α}
    (h : Option.Rel r a b) (h' : Option.Rel r a' b') : Option.Rel r (a.or a') (b.or b') := by
  cases h with
  | some h => exact .some h
  | none => exact h'

theorem rel_contents?_of_equal {s t : Schema} (h : s.equal t = true) (k : TypeTag) :
    Option.Rel (fun c d => c.equal d = true) (s.contents? k) (t.contents? k) := by
  obtain ⟨xs, ls, cs⟩ := s
  rw [Schema.equal, Bool.and_eq_true, Bool.and_eq_true] at h
  have hlookup := rel_lookup_of_equalAlternatives h.1.1
  exact rel_or (hlookup k) (hlookup .any)

theorem rel_getElem?_of_equalItems {xs ys : List Schema} (h : equalItems xs ys = true)
    (i : Nat) : Option.Rel (fun s t => s.equal t = true) xs[i]? ys[i]? := by
  induction forall₂_of_equalItems h generalizing i with
  | nil => exact .none
  | cons hxy _ ih =>
      rw [equalItems, Bool.and_eq_true] at h
      cases i with
      | zero => exact .some hxy
      | succ i => exact ih h.2 i

/-- Forms that compare equal have the same length and comparing items at each
    position. -/
theorem TupleForm.fits_eq_of_equal {f g : TupleForm} (h : f.equal g = true) (n : Nat) :
    f.fits n = g.fits n := by
  obtain ⟨items, repeated⟩ := f
  simp only [TupleForm.equal, Bool.and_eq_true, beq_iff_eq] at h
  have hlength := (forall₂_of_equalItems h.1).length_eq
  simp only [TupleForm.fits, hlength, h.2]

theorem TupleForm.rel_itemAt?_of_equal {f g : TupleForm} (h : f.equal g = true) (i : Nat) :
    Option.Rel (fun s t => s.equal t = true) (f.itemAt? i) (g.itemAt? i) := by
  obtain ⟨items, repeated⟩ := f
  simp only [TupleForm.equal, Bool.and_eq_true, beq_iff_eq] at h
  obtain ⟨hitems, hrepeated⟩ := h
  unfold TupleForm.itemAt?
  rw [← hrepeated]
  cases repeated with
  | false => exact rel_getElem?_of_equalItems hitems i
  | true =>
      simp only [if_true, List.head?_eq_getElem?]
      exact rel_getElem?_of_equalItems hitems 0

/-! ## Equal exact schemas accept the same values -/

variable {meanings : Meanings}

theorem equalsLiteral_eq_of_equal {s t : Schema} (hs : s.Exact meanings) (ht : t.Exact meanings)
    (h : s.equal t = true) (v : Value) :
    Inspection.equalsLiteral s v = Inspection.equalsLiteral t v := by
  obtain ⟨xs, ls, cs⟩ := s
  rw [Schema.equal, Bool.and_eq_true, Bool.and_eq_true] at h
  have hlit := h.1.2
  unfold Inspection.equalsLiteral
  cases ls with
  | none =>
      cases hls : t.literals with
      | none => rfl
      | some ms => simp [equalLiterals, hls] at hlit
  | some ls =>
      cases hls : t.literals with
      | none => simp [equalLiterals, hls] at hlit
      | some ms =>
          rw [hls] at hlit
          exact Value.any_equal_congr (hs.literals ls rfl) (ht.literals ms hls) hlit v

theorem constrainsOnly_eq_of_equal {s t : Schema} (h : s.equal t = true) :
    s.constrainsOnly = t.constrainsOnly := by
  obtain ⟨xs, ls, cs⟩ := s
  rw [Schema.equal, Bool.and_eq_true, Bool.and_eq_true] at h
  have hempty : xs.isEmpty = t.alternatives.isEmpty := by
    have hlength := (forall₂_of_equalAlternatives h.1.1).length_eq
    rw [Bool.eq_iff_iff, List.isEmpty_iff_length_eq_zero, List.isEmpty_iff_length_eq_zero, hlength]
  have hnone : ls.isNone = t.literals.isNone := by
    have hlit := h.1.2
    cases ls <;> cases hls : t.literals <;> simp_all [equalLiterals]
  simp only [Schema.constrainsOnly, hempty, hnone]

theorem forall₂_of_equalConstraints {cs ds : List Constraint}
    (h : equalConstraints cs ds = true) : List.Forall₂ (fun c d => c.equal d = true) cs ds :=
  forall₂_of_stepwise (by simp [equalConstraints]) (by simp [equalConstraints])
    (fun _ _ _ _ => by rw [equalConstraints]) h

theorem meets_iff_of_equal {s t : Schema} (hs : s.Exact meanings) (ht : t.Exact meanings)
    (h : s.equal t = true) (v : Value) :
    (∀ c ∈ s.constraints, c.unmet? v = none) ↔ ∀ c ∈ t.constraints, c.unmet? v = none := by
  obtain ⟨xs, ls, cs⟩ := s
  rw [Schema.equal, Bool.and_eq_true, Bool.and_eq_true] at h
  refine forall_mem_iff_of_forall₂ (forall₂_of_equalConstraints h.2) fun c hc d hd hcd => ?_
  exact Constraint.unmet?_eq_none_iff_of_equal (hs.constraints c hc) (ht.constraints d hd) hcd v

/-- The induction hypothesis for the members of a value. -/
abbrev EqualAccept (meanings : Meanings) (w : Value) : Prop :=
  ∀ s t : Schema, s.Everywhere (Schema.Exact meanings) → t.Everywhere (Schema.Exact meanings) →
    s.equal t = true → (UnionAccepts {s} w ↔ UnionAccepts {t} w)

section EqualContents

variable {v : Value} (ihm : ∀ w ∈ v.members, EqualAccept meanings w)
include ihm

theorem formAccepts_iff_of_equal {f g : TupleForm}
    (hf : ∀ e ∈ f.items, e.Everywhere (Schema.Exact meanings))
    (hg : ∀ e ∈ g.items, e.Everywhere (Schema.Exact meanings)) (h : f.equal g = true) :
    FormAccepts f v ↔ FormAccepts g v := by
  unfold FormAccepts
  rw [TupleForm.fits_eq_of_equal h]
  refine and_congr_right fun _ => forall_congr' fun i => forall_congr' fun w => ?_
  have hrel := TupleForm.rel_itemAt?_of_equal h i
  generalize hx : f.itemAt? i = x at hrel
  generalize hy : g.itemAt? i = y at hrel
  cases hrel with
  | none => simp
  | @some d e hde =>
      have hd := hf d (TupleForm.mem_items_of_itemAt? hx)
      have he := hg e (TupleForm.mem_items_of_itemAt? hy)
      constructor
      · rintro hall _ hw ⟨⟩
        exact (ihm w (List.mem_of_getElem? hw) d e hd he hde).mp (hall d hw rfl)
      · rintro hall _ hw ⟨⟩
        exact (ihm w (List.mem_of_getElem? hw) d e hd he hde).mpr (hall e hw rfl)

/-- What compares equal is met by the same members. -/
theorem membersAccepted_iff_of_equal
    (ihp : ∀ p ∈ v.pairs, EqualAccept meanings p.1 ∧ EqualAccept meanings p.2) {c d : Contents}
    (hc : ∀ e ∈ c.parts, e.Everywhere (Schema.Exact meanings))
    (hd : ∀ e ∈ d.parts, e.Everywhere (Schema.Exact meanings)) (h : c.equal d = true) :
    MembersAccepted {c} v ↔ MembersAccepted {d} v := by
  cases c with
  | free =>
      cases d with
      | free => exact Iff.rfl
      | _ => simp [Contents.equal] at h
  | each s =>
      cases d with
      | each t =>
          rw [Contents.equal] at h
          rw [membersAccepted_each, membersAccepted_each]
          exact forall₂_congr fun w hw =>
            ihm w hw s t (hc s List.mem_cons_self) (hd t List.mem_cons_self) h
      | _ => simp [Contents.equal] at h
  | entries k s =>
      cases d with
      | entries l t =>
          rw [Contents.equal, Bool.and_eq_true] at h
          have hs : s ∈ [k, s] := List.mem_cons_of_mem _ List.mem_cons_self
          have ht : t ∈ [l, t] := List.mem_cons_of_mem _ List.mem_cons_self
          rw [membersAccepted_entries, membersAccepted_entries]
          refine and_congr (forall₂_congr fun p hp => ?_) (forall₂_congr fun p hp => ?_)
          · exact (ihp p hp).1 k l (hc k List.mem_cons_self) (hd l List.mem_cons_self) h.1
          · exact (ihp p hp).2 s t (hc s hs) (hd t ht) h.2
      | _ => simp [Contents.equal] at h
  | forms fs =>
      cases d with
      | forms gs =>
          rw [Contents.equal] at h
          rw [membersAccepted_forms, membersAccepted_forms]
          have hitems {hs : List TupleForm} {f : TupleForm} (hf : f ∈ hs) {e : Schema}
              (he : e ∈ f.items) : e ∈ (Contents.forms hs).parts :=
            List.mem_flatMap.mpr ⟨f, hf, he⟩
          have hequal := forall₂_of_equalForms h
          constructor
          · rintro ⟨f, hf, haccepts⟩
            obtain ⟨g, hg, hfg⟩ := exists_mem_right_of_forall₂ hequal hf
            exact ⟨g, hg, (formAccepts_iff_of_equal ihm (fun e he => hc e (hitems hf he))
              (fun e he => hd e (hitems hg he)) hfg).mp haccepts⟩
          · rintro ⟨g, hg, haccepts⟩
            obtain ⟨f, hf, hfg⟩ := exists_mem_right_of_forall₂ (List.Forall₂.flip hequal) hg
            exact ⟨f, hf, (formAccepts_iff_of_equal ihm (fun e he => hc e (hitems hf he))
              (fun e he => hd e (hitems hg he)) hfg).mpr haccepts⟩
      | _ => simp [Contents.equal] at h

end EqualContents

/-- Exact schemas that compare equal accept the same values. -/
theorem unionAccepts_iff_of_equal (v : Value) : EqualAccept meanings v := by
  induction v using Value.induction_parts with
  | step v ihm ihp =>
      intro s t hs ht h
      rw [unionAccepts_singleton_iff, unionAccepts_singleton_iff, tags_eq_of_equal h,
        constrainsOnly_eq_of_equal h, meets_iff_of_equal hs.here ht.here h,
        equalsLiteral_eq_of_equal hs.here ht.here h]
      have hrel := rel_contents?_of_equal h v.tag
      generalize hx : s.contents? v.tag = x at hrel
      generalize hy : t.contents? v.tag = y at hrel
      cases hrel with
      | none => exact Iff.rfl
      | @some c d hcd =>
          have hmembers := membersAccepted_iff_of_equal ihm ihp (hs.of_contents? hx)
            (ht.of_contents? hy) hcd
          simp [hmembers]

end Conform

/-
  Conform.Proofs.Schema.Alternatives

  The alternatives of a schema as a finite map from type tags to what they ask
  of members. Tags stand in ascending order, so each is listed once, and one
  law says what the join of two such maps lists for a tag: what the two sides
  list, joined where both list something (`lookup_joinAlternatives`).
-/

import Conform.Schema.Join

namespace Conform

/-! ## The order of tags -/

namespace TypeTag

theorem eq_of_rank_of_className {a b : TypeTag} (hr : a.rank = b.rank)
    (hc : a.className = b.className) : a = b := by
  unfold rank at hr
  unfold className at hc
  grind

instance : Std.TransOrd TypeTag :=
  inferInstanceAs
    (Std.TransCmp (compareLex (compareOn rank) (compareOn fun a => a.className.toList)))

instance : Std.LawfulEqOrd TypeTag where
  eq_of_compare {a b} h := by
    obtain ⟨hr, hc⟩ := Ordering.then_eq_eq.mp h
    have hrank : a.rank = b.rank := Std.LawfulEqOrd.eq_of_compare hr
    have hname : a.className.toList = b.className.toList := Std.LawfulEqOrd.eq_of_compare hc
    exact eq_of_rank_of_className hrank (String.toList_inj.mp hname)

end TypeTag

/-! ## Ascending alternatives -/

/-- The tags stand in strictly ascending order. -/
def Ascending (alternatives : List (TypeTag × Contents)) : Prop :=
  alternatives.Pairwise fun p q => compare p.1 q.1 = .lt

section Ascending

variable {alternatives : List (TypeTag × Contents)} {tag : TypeTag}

theorem ne_of_compare_lt {k l : TypeTag} (h : compare k l = .lt) : k ≠ l := by
  rintro rfl
  rw [Std.ReflOrd.compare_self] at h
  exact absurd h (by decide)

/-- The first entry decides about its own tag only. -/
theorem lookup_cons_alternative {k : TypeTag} {c : Contents} :
    ((k, c) :: alternatives).lookup tag =
      if tag = k then some c else alternatives.lookup tag := by
  by_cases h : tag = k
  · rw [if_pos h, h, List.lookup_cons_self]
  · have hbeq : (tag == k) = false := by simpa using h
    rw [if_neg h, List.lookup_cons, hbeq]

/-- A tag before all listed ones is not listed. -/
theorem lookup_eq_none_of_lt (h : ∀ p ∈ alternatives, compare tag p.1 = .lt) :
    alternatives.lookup tag = none := by
  rw [List.lookup_eq_none_iff]
  intro p hp
  simpa using ne_of_compare_lt (h p hp)

/-- In ascending alternatives, what is listed for a tag is found. -/
theorem Ascending.lookup_eq_some_iff (h : Ascending alternatives) {c : Contents} :
    alternatives.lookup tag = some c ↔ (tag, c) ∈ alternatives := by
  induction alternatives with
  | nil => simp
  | cons entry rest ih =>
      obtain ⟨k, p⟩ := entry
      obtain ⟨hlt, hrest⟩ := List.pairwise_cons.mp h
      by_cases hk : tag = k
      · subst hk
        have hnot : (tag, c) ∉ rest := fun hmem => ne_of_compare_lt (hlt _ hmem) rfl
        simp [hnot, eq_comm]
      · rw [lookup_cons_alternative, if_neg hk, ih hrest]
        simp [hk]

theorem mem_tags_putAlternative {fresh : Contents} {combine : Contents → Contents}
    {p : TypeTag × Contents} (h : p ∈ putAlternative tag fresh combine alternatives) :
    p.1 = tag ∨ ∃ q ∈ alternatives, q.1 = p.1 := by
  induction alternatives with
  | nil =>
      simp only [putAlternative, List.mem_singleton] at h
      exact Or.inl (by rw [h])
  | cons entry rest ih =>
      obtain ⟨k, c⟩ := entry
      simp only [putAlternative] at h
      cases hcmp : compare tag k with
      | lt =>
          rw [hcmp] at h
          rcases List.mem_cons.mp h with rfl | h
          · exact Or.inl rfl
          · exact Or.inr ⟨p, h, rfl⟩
      | eq =>
          rw [hcmp] at h
          rcases List.mem_cons.mp h with rfl | h
          · exact Or.inr ⟨(k, c), List.mem_cons_self, rfl⟩
          · exact Or.inr ⟨p, List.mem_cons_of_mem _ h, rfl⟩
      | gt =>
          rw [hcmp] at h
          rcases List.mem_cons.mp h with rfl | h
          · exact Or.inr ⟨(k, c), List.mem_cons_self, rfl⟩
          · rcases ih h with h | ⟨q, hq, hqp⟩
            · exact Or.inl h
            · exact Or.inr ⟨q, List.mem_cons_of_mem _ hq, hqp⟩

theorem Ascending.putAlternative (h : Ascending alternatives) (fresh : Contents)
    (combine : Contents → Contents) :
    Ascending (putAlternative tag fresh combine alternatives) := by
  induction alternatives with
  | nil => exact List.pairwise_singleton _ _
  | cons entry rest ih =>
      obtain ⟨k, c⟩ := entry
      obtain ⟨hlt, hrest⟩ := List.pairwise_cons.mp h
      simp only [Conform.putAlternative]
      cases hcmp : compare tag k with
      | lt =>
          refine List.pairwise_cons.mpr ⟨?_, h⟩
          intro q hq
          rcases List.mem_cons.mp hq with rfl | hq
          · exact hcmp
          · exact Std.TransCmp.lt_trans hcmp (hlt q hq)
      | eq => exact List.pairwise_cons.mpr ⟨hlt, hrest⟩
      | gt =>
          refine List.pairwise_cons.mpr ⟨?_, ih hrest⟩
          intro q hq
          rcases mem_tags_putAlternative hq with hq | ⟨r, hr, hrq⟩
          · rw [hq]
            exact Std.OrientedCmp.lt_of_gt hcmp
          · rw [← hrq]
            exact hlt r hr

/-- Writing a tag changes what is listed for that tag only. -/
theorem Ascending.lookup_putAlternative (h : Ascending alternatives) (fresh : Contents)
    (combine : Contents → Contents) (k : TypeTag) :
    (Conform.putAlternative tag fresh combine alternatives).lookup k =
      if k = tag then some ((alternatives.lookup tag).elim fresh combine)
      else alternatives.lookup k := by
  induction alternatives with
  | nil =>
      simp only [Conform.putAlternative]
      rw [lookup_cons_alternative]
      rfl
  | cons entry rest ih =>
      obtain ⟨l, c⟩ := entry
      obtain ⟨hlt, hrest⟩ := List.pairwise_cons.mp h
      simp only [Conform.putAlternative]
      cases hcmp : compare tag l with
      | lt =>
          -- a new tag in front: it is not listed further down
          have hnone : ((l, c) :: rest).lookup tag = none := by
            apply lookup_eq_none_of_lt
            intro q hq
            rcases List.mem_cons.mp hq with rfl | hq
            · exact hcmp
            · exact Std.TransCmp.lt_trans hcmp (hlt q hq)
          rw [hnone, lookup_cons_alternative]
          rfl
      | eq =>
          obtain rfl := Std.LawfulEqOrd.eq_of_compare hcmp
          simp only [lookup_cons_alternative]
          by_cases hk : k = tag
          · simp only [if_pos hk, if_true, Option.elim_some]
          · simp only [if_neg hk]
      | gt =>
          have hne : l ≠ tag := ne_of_compare_lt (Std.OrientedCmp.lt_of_gt hcmp)
          simp only [lookup_cons_alternative, if_neg hne.symm]
          by_cases hl : k = l
          · rw [if_pos hl, if_pos hl, if_neg (hl ▸ hne)]
          · rw [if_neg hl, if_neg hl]
            exact ih hrest

end Ascending

/-! ## What a join asks of members -/

namespace Contents

@[simp] theorem join_free (p : Contents) : p.join .free = .free := rfl

@[simp] theorem free_join (p : Contents) : Contents.join .free p = .free := by
  cases p <;> simp [Contents.join]

@[simp] theorem each_join_each (s t : Schema) :
    (Contents.each s).join (.each t) = .each (s.join t) := rfl

@[simp] theorem entries_join_entries (k v l w : Schema) :
    (Contents.entries k v).join (.entries l w) = .entries (k.join l) (v.join w) := rfl

@[simp] theorem forms_join_forms (fs gs : List TupleForm) :
    (Contents.forms fs).join (.forms gs) = .forms (joinForms fs gs) := rfl

/-- Demands that are not of one kind are given up. -/
theorem join_cases (p q : Contents) :
    p.join q = .free ∨ (∃ d e, p = .each d ∧ q = .each e) ∨
      (∃ k v l w, p = .entries k v ∧ q = .entries l w) ∨
      ∃ fs gs, p = .forms fs ∧ q = .forms gs := by
  cases p <;> cases q <;> simp [Contents.join]

end Contents

/-! ## The forms of a join -/

theorem mem_joinForms_of_mem_left {fs : List TupleForm} (gs : List TupleForm) {f : TupleForm}
    (h : f ∈ fs) : f ∈ joinForms fs gs := by
  unfold joinForms
  induction gs generalizing fs with
  | nil => exact h
  | cons g rest ih =>
      rw [List.foldl_cons]
      apply ih
      split
      · exact h
      · exact List.mem_append_left _ h

theorem mem_or_mem_of_mem_joinForms {fs gs : List TupleForm} {f : TupleForm}
    (h : f ∈ joinForms fs gs) : f ∈ fs ∨ f ∈ gs := by
  unfold joinForms at h
  induction gs generalizing fs with
  | nil => exact Or.inl h
  | cons g rest ih =>
      rw [List.foldl_cons] at h
      rcases ih h with h | h
      · split at h
        · exact Or.inl h
        · rcases List.mem_append.mp h with h | h
          · exact Or.inl h
          · exact Or.inr (List.mem_singleton.mp h ▸ List.mem_cons_self)
      · exact Or.inr (List.mem_cons_of_mem g h)

/-- A form of the right side is kept, or one that compares equal to it is. -/
theorem exists_mem_joinForms_of_mem_right (fs : List TupleForm) {gs : List TupleForm}
    {g : TupleForm} (h : g ∈ gs) : ∃ f ∈ joinForms fs gs, f = g ∨ f.equal g = true := by
  induction gs generalizing fs with
  | nil => exact absurd h List.not_mem_nil
  | cons g' rest ih =>
      rcases List.mem_cons.mp h with rfl | h
      · by_cases hany : fs.any (· == g) = true
        · obtain ⟨f, hf, hfg⟩ := List.any_eq_true.mp hany
          exact ⟨f, mem_joinForms_of_mem_left _ hf, Or.inr hfg⟩
        · refine ⟨g, ?_, Or.inl rfl⟩
          have hlast : g ∈ fs ++ [g] := List.mem_append_right _ List.mem_cons_self
          have hstep : joinForms fs (g :: rest) = joinForms (fs ++ [g]) rest := by
            unfold joinForms
            rw [List.foldl_cons, if_neg hany]
          rw [hstep]
          exact mem_joinForms_of_mem_left rest hlast
      · exact ih _ h

/-! ## The join of two maps -/

theorem Ascending.joinAlternatives {kept : List (TypeTag × Contents)} (h : Ascending kept)
    (more : List (TypeTag × Contents)) : Ascending (joinAlternatives kept more) := by
  induction more generalizing kept with
  | nil => simpa only [Conform.joinAlternatives] using h
  | cons entry rest ih =>
      obtain ⟨tag, c⟩ := entry
      simp only [Conform.joinAlternatives]
      exact ih (h.putAlternative c _)

/-- A join lists for a tag what the two sides list, joined where both do. -/
theorem lookup_joinAlternatives {kept more : List (TypeTag × Contents)} (hk : Ascending kept)
    (hm : Ascending more) (k : TypeTag) :
    (joinAlternatives kept more).lookup k =
      (kept.lookup k).merge Contents.join (more.lookup k) := by
  induction more generalizing kept with
  | nil => simp only [joinAlternatives, List.lookup_nil, Option.merge_none_right]
  | cons entry rest ih =>
      obtain ⟨tag, c⟩ := entry
      obtain ⟨hlt, hrest⟩ := List.pairwise_cons.mp hm
      simp only [joinAlternatives]
      rw [ih (hk.putAlternative c _) hrest, hk.lookup_putAlternative, lookup_cons_alternative]
      by_cases htag : k = tag
      · -- the tag is not listed again further right
        have hnone : rest.lookup k = none := lookup_eq_none_of_lt (htag ▸ hlt)
        rw [if_pos htag, if_pos htag, hnone, htag]
        cases kept.lookup tag with
        | none => rfl
        | some p => rfl
      · rw [if_neg htag, if_neg htag]

theorem Ascending.freeUnderAny {alternatives : List (TypeTag × Contents)}
    (h : Ascending alternatives) : Ascending (freeUnderAny alternatives) := by
  unfold Conform.freeUnderAny
  split
  · exact List.pairwise_map.mpr h
  · exact h

theorem lookup_map_free (alternatives : List (TypeTag × Contents)) (k : TypeTag) :
    (alternatives.map fun (l, _) => (l, Contents.free)).lookup k =
      (alternatives.lookup k).map fun _ => .free := by
  induction alternatives with
  | nil => rfl
  | cons entry rest ih =>
      obtain ⟨l, c⟩ := entry
      rw [List.map_cons, lookup_cons_alternative, lookup_cons_alternative, ih]
      by_cases h : k = l
      · rw [if_pos h, if_pos h, Option.map_some]
      · rw [if_neg h, if_neg h]

theorem lookup_freeUnderAny (alternatives : List (TypeTag × Contents)) (k : TypeTag) :
    (freeUnderAny alternatives).lookup k =
      if (alternatives.lookup .any).isSome then (alternatives.lookup k).map fun _ => .free
      else alternatives.lookup k := by
  unfold freeUnderAny
  split
  · exact lookup_map_free alternatives k
  · rfl

end Conform

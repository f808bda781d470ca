/-
  Conform.Proofs.Schema.Canonical

  What holds of a schema and of every schema inside it. `Everywhere` carries a
  property of one schema through all levels, and `Canonical` is the property
  that the join relies on: tags in ascending order, demands of the kind that
  the tag can have, and no demands at all beside `any`. The join keeps it, and
  `contents?_join` says what a join of canonical schemas asks under a tag.
-/

import Conform.Proofs.Schema.Alternatives

namespace Conform

/-! ## Schemas inside a schema -/

namespace Contents

/-- The schemas that stand directly in what a tag asks. -/
def parts : Contents → List Schema
  | free => []
  | each e => [e]
  | entries k e => [k, e]
  | forms fs => fs.flatMap (·.items)

/-- Whether a tag can ask this of members: one schema for lists and sets, two
    for dictionaries, forms for tuples. -/
def suits : Contents → TypeTag → Bool
  | free, _ => true
  | each _, k => k == .collection .list || k == .collection .set || k == .collection .frozenSet
  | entries _ _, k => k == .dict
  | forms _, k => k == .collection .tuple

end Contents

namespace Schema

/-- The schemas that stand directly inside a schema. -/
def parts (s : Schema) : List Schema := s.alternatives.flatMap (·.2.parts)

/-- A property holds of a schema and of all schemas inside it, at any depth. -/
inductive Everywhere (P : Schema → Prop) : Schema → Prop
  | intro {s : Schema} (here : P s) (inside : ∀ t ∈ s.parts, Everywhere P t) : Everywhere P s

namespace Everywhere

variable {P Q : Schema → Prop} {s : Schema}

theorem here (h : Everywhere P s) : P s := by
  cases h with
  | intro here _ => exact here

theorem inside (h : Everywhere P s) : ∀ t ∈ s.parts, Everywhere P t := by
  cases h with
  | intro _ inside => exact inside

theorem of_contents (h : Everywhere P s) {k : TypeTag} {c : Contents}
    (hc : (k, c) ∈ s.alternatives) : ∀ t ∈ c.parts, Everywhere P t :=
  fun t ht => h.inside t (List.mem_flatMap.mpr ⟨(k, c), hc, ht⟩)

theorem imp (h : Everywhere P s) (hPQ : ∀ t, P t → Q t) : Everywhere Q s := by
  induction h with
  | intro here _ ih => exact .intro (hPQ _ here) ih

theorem and (hP : Everywhere P s) (hQ : Everywhere Q s) :
    Everywhere (fun t => P t ∧ Q t) s := by
  induction hP with
  | intro here _ ih => exact .intro ⟨here, hQ.here⟩ fun t ht => ih t ht (hQ.inside t ht)

end Everywhere

variable {s : Schema}

/-- What is asked under a tag is listed for that tag or for `any`. -/
theorem mem_of_contents? {k : TypeTag} {c : Contents} (h : s.contents? k = some c) :
    (k, c) ∈ s.alternatives ∨ (.any, c) ∈ s.alternatives := by
  have hmem {l : TypeTag} (hl : s.lookup? l = some c) : (l, c) ∈ s.alternatives := by
    obtain ⟨_, _, halts, _⟩ := List.lookup_eq_some_iff.mp hl
    rw [halts]
    simp
  rcases Option.or_eq_some_iff.mp h with h | ⟨_, h⟩
  · exact Or.inl (hmem h)
  · exact Or.inr (hmem h)

theorem Everywhere.of_contents? {P : Schema → Prop} (h : s.Everywhere P) {k : TypeTag}
    {c : Contents} (hc : s.contents? k = some c) : ∀ t ∈ c.parts, Everywhere P t := by
  rcases mem_of_contents? hc with hmem | hmem
  · exact h.of_contents hmem
  · exact h.of_contents hmem

/-! ## Canonical schemas -/

/-- The shape that schemas of declarations have. -/
structure Canonical (s : Schema) : Prop where
  ascending : Ascending s.alternatives
  suited : ∀ p ∈ s.alternatives, p.2.suits p.1 = true
  freeBesideAny : (s.lookup? .any).isSome = true → ∀ p ∈ s.alternatives, p.2 = .free

theorem Canonical.suits_of_contents? (h : s.Canonical) {k : TypeTag} {c : Contents}
    (hc : s.contents? k = some c) : c.suits k = true := by
  rcases mem_of_contents? hc with hmem | hmem
  · exact h.suited _ hmem
  · -- `any` suits nothing but a free tag
    have hany : c.suits .any = true := h.suited _ hmem
    cases c with
    | free => rfl
    | each e => exact absurd hany (by simp [Contents.suits])
    | entries l e => exact absurd hany (by simp [Contents.suits])
    | forms fs => exact absurd hany (by simp [Contents.suits])

end Schema

theorem Contents.suits_join {c : Contents} {k : TypeTag} (hc : c.suits k = true)
    (d : Contents) : (c.join d).suits k = true := by
  rcases Contents.join_cases c d with hfree | ⟨e, e', rfl, rfl⟩ | ⟨l, v, l', v', rfl, rfl⟩ |
    ⟨fs, gs, rfl, rfl⟩
  · rw [hfree]
    rfl
  · rw [Contents.each_join_each]
    exact hc
  · rw [Contents.entries_join_entries]
    exact hc
  · rw [Contents.forms_join_forms]
    exact hc

namespace Schema

variable {a b s : Schema}

theorem lookup?_join (ha : Ascending a.alternatives) (hb : Ascending b.alternatives)
    (k : TypeTag) :
    (a.join b).lookup? k =
      if (a.lookup? .any).isSome || (b.lookup? .any).isSome then
        ((a.lookup? k).merge Contents.join (b.lookup? k)).map fun _ => .free
      else (a.lookup? k).merge Contents.join (b.lookup? k) := by
  obtain ⟨alternatives, literals, constraints⟩ := b
  have hmerge := lookup_joinAlternatives ha hb
  show (freeUnderAny (joinAlternatives a.alternatives alternatives)).lookup k = _
  rw [lookup_freeUnderAny, hmerge, hmerge, Option.isSome_merge]
  rfl

theorem lookup?_join_of_any (ha : Ascending a.alternatives) (hb : Ascending b.alternatives)
    (hany : ((a.lookup? .any).isSome || (b.lookup? .any).isSome) = true) (k : TypeTag) :
    (a.join b).lookup? k =
      ((a.lookup? k).merge Contents.join (b.lookup? k)).map fun _ => .free := by
  rw [lookup?_join ha hb, if_pos hany]

theorem lookup?_join_of_not_any (ha : Ascending a.alternatives) (hb : Ascending b.alternatives)
    (hany : ((a.lookup? .any).isSome || (b.lookup? .any).isSome) = false) (k : TypeTag) :
    (a.join b).lookup? k = (a.lookup? k).merge Contents.join (b.lookup? k) := by
  rw [lookup?_join ha hb, if_neg (by simp [hany])]

/-- A join lists the tags of both sides. -/
theorem isSome_lookup?_join (ha : Ascending a.alternatives) (hb : Ascending b.alternatives)
    (k : TypeTag) :
    ((a.join b).lookup? k).isSome = ((a.lookup? k).isSome || (b.lookup? k).isSome) := by
  rw [lookup?_join ha hb]
  split
  · rw [Option.isSome_map, Option.isSome_merge]
  · rw [Option.isSome_merge]

/-- Beside `any`, nothing is asked under any tag. -/
theorem Canonical.contents?_of_any {s : Schema} (h : s.Canonical)
    (hany : (s.lookup? .any).isSome = true) (k : TypeTag) : s.contents? k = some .free := by
  have hfree {l : TypeTag} {c : Contents} (hc : s.lookup? l = some c) : c = .free :=
    h.freeBesideAny hany (l, c) (h.ascending.lookup_eq_some_iff.mp hc)
  obtain ⟨c, hc⟩ := Option.isSome_iff_exists.mp hany
  unfold contents?
  rw [hc, hfree hc]
  cases hk : s.lookup? k with
  | none => rfl
  | some d => rw [hfree hk, Option.some_or]

theorem contents?_of_not_any {s : Schema} (hany : (s.lookup? .any).isSome = false)
    (k : TypeTag) : s.contents? k = s.lookup? k := by
  unfold contents?
  rw [Option.isSome_eq_false_iff.mp hany |> Option.isNone_iff_eq_none.mp, Option.or_none]

/-- Under every tag, a join asks what the two sides ask, joined where both ask
    something. -/
theorem contents?_join (ha : a.Canonical) (hb : b.Canonical) (k : TypeTag) :
    (a.join b).contents? k = (a.contents? k).merge Contents.join (b.contents? k) := by
  have hsome := isSome_lookup?_join ha.ascending hb.ascending .any
  cases hany : (a.lookup? .any).isSome || (b.lookup? .any).isSome with
  | false =>
      obtain ⟨hna, hnb⟩ := Bool.or_eq_false_iff.mp hany
      rw [contents?_of_not_any (hsome.trans hany), contents?_of_not_any hna,
        contents?_of_not_any hnb]
      exact lookup?_join_of_not_any ha.ascending hb.ascending hany k
  | true =>
      have hright : (a.contents? k).merge Contents.join (b.contents? k) = some .free := by
        rcases Bool.or_eq_true_iff.mp hany with h | h
        · rw [ha.contents?_of_any h]
          cases b.contents? k with
          | none => rfl
          | some d => rw [Option.merge_some_some, Contents.free_join]
        · rw [hb.contents?_of_any h]
          cases a.contents? k with
          | none => rfl
          | some c => rw [Option.merge_some_some, Contents.join_free]
      -- one side admits `any`, so all that the join lists is free
      have hlookup := lookup?_join_of_any ha.ascending hb.ascending hany
      obtain ⟨c, hc⟩ := Option.isSome_iff_exists.mp (hsome.trans hany)
      have hfree : c = .free := by
        rw [hlookup, Option.map_eq_some_iff] at hc
        obtain ⟨_, _, rfl⟩ := hc
        rfl
      rw [hright]
      unfold contents?
      rw [hc, hfree, hlookup k]
      cases (a.lookup? k).merge Contents.join (b.lookup? k) with
      | none => rfl
      | some d => rfl

/-! ## Tags, literals and constraints of a join -/

theorem mem_tags_iff {k : TypeTag} : k ∈ s.tags ↔ (s.lookup? k).isSome = true := by
  unfold tags lookup?
  rw [List.lookup_isSome_iff]
  simp only [List.mem_map, beq_iff_eq]
  constructor
  · rintro ⟨p, hp, rfl⟩
    exact ⟨p, hp, rfl⟩
  · rintro ⟨p, hp, rfl⟩
    exact ⟨p, hp, rfl⟩

theorem mem_tags_join (ha : a.Canonical) (hb : b.Canonical) {k : TypeTag} :
    k ∈ (a.join b).tags ↔ k ∈ a.tags ∨ k ∈ b.tags := by
  rw [mem_tags_iff, mem_tags_iff, mem_tags_iff, isSome_lookup?_join ha.ascending hb.ascending,
    Bool.or_eq_true]

theorem constrainsOnly_iff : s.constrainsOnly = true ↔ (∀ k, k ∉ s.tags) ∧ s.literals = none := by
  unfold constrainsOnly tags
  cases s.alternatives with
  | nil => simp
  | cons p rest =>
      simp only [List.isEmpty_cons, Bool.false_and, Bool.false_eq_true, false_iff, not_and]
      intro hnot
      exact absurd List.mem_cons_self (hnot p.1)

theorem literals_join : (a.join b).literals = joinLiterals a.literals b.literals := by
  obtain ⟨alternatives, literals, constraints⟩ := b
  rfl

theorem constraints_join : (a.join b).constraints = a.constraints ++ b.constraints := by
  obtain ⟨alternatives, literals, constraints⟩ := b
  rfl

theorem constrainsOnly_join (ha : a.Canonical) (hb : b.Canonical) :
    (a.join b).constrainsOnly = true ↔ a.constrainsOnly = true ∧ b.constrainsOnly = true := by
  have hlit : joinLiterals a.literals b.literals = none ↔
      a.literals = none ∧ b.literals = none := by
    cases a.literals <;> cases b.literals <;> simp [joinLiterals]
  simp only [constrainsOnly_iff, mem_tags_join ha hb, literals_join, hlit, not_or, forall_and]
  exact and_and_and_comm

/-! ## The join keeps the shape -/

theorem ascending_join (ha : Ascending a.alternatives) : Ascending (a.join b).alternatives := by
  obtain ⟨alternatives, literals, constraints⟩ := b
  exact (ha.joinAlternatives alternatives).freeUnderAny

/-- What a join lists for a tag is free, or comes from one side, or is joined
    from what both sides list. -/
theorem cases_of_mem_join (ha : a.Canonical) (hb : b.Canonical) {k : TypeTag} {c : Contents}
    (h : (k, c) ∈ (a.join b).alternatives) :
    c = .free ∨ (k, c) ∈ a.alternatives ∨ (k, c) ∈ b.alternatives ∨
      ∃ p q, (k, p) ∈ a.alternatives ∧ (k, q) ∈ b.alternatives ∧ c = p.join q := by
  have hc : (a.join b).lookup? k = some c :=
    (ascending_join ha.ascending).lookup_eq_some_iff.mpr h
  cases hany : (a.lookup? .any).isSome || (b.lookup? .any).isSome with
  | true =>
      rw [lookup?_join_of_any ha.ascending hb.ascending hany, Option.map_eq_some_iff] at hc
      obtain ⟨_, _, rfl⟩ := hc
      exact Or.inl rfl
  | false =>
      rw [lookup?_join_of_not_any ha.ascending hb.ascending hany] at hc
      have hmem {s : Schema} (hs : s.Canonical) {d : Contents} (hd : s.lookup? k = some d) :
          (k, d) ∈ s.alternatives := hs.ascending.lookup_eq_some_iff.mp hd
      cases hp : a.lookup? k with
      | none =>
          rw [hp, Option.merge_none_left] at hc
          exact Or.inr (Or.inr (Or.inl (hmem hb hc)))
      | some p =>
          cases hq : b.lookup? k with
          | none =>
              rw [hp, hq, Option.merge_none_right] at hc
              obtain rfl := Option.some.inj hc
              exact Or.inr (Or.inl (hmem ha hp))
          | some q =>
              rw [hp, hq, Option.merge_some_some] at hc
              obtain rfl := Option.some.inj hc
              exact Or.inr (Or.inr (Or.inr ⟨p, q, hmem ha hp, hmem hb hq, rfl⟩))

theorem Canonical.join (ha : a.Canonical) (hb : b.Canonical) : (a.join b).Canonical where
  ascending := ascending_join ha.ascending
  suited := by
    rintro ⟨k, c⟩ hmem
    rcases cases_of_mem_join ha hb hmem with rfl | h | h | ⟨p, q, hp, hq, rfl⟩
    · rfl
    · exact ha.suited _ h
    · exact hb.suited _ h
    · exact Contents.suits_join (ha.suited _ hp) q
  freeBesideAny := by
    rintro hsome ⟨k, c⟩ hmem
    rw [isSome_lookup?_join ha.ascending hb.ascending] at hsome
    have hc : (Schema.join a b).lookup? k = some c :=
      (ascending_join ha.ascending).lookup_eq_some_iff.mpr hmem
    rw [lookup?_join_of_any ha.ascending hb.ascending hsome, Option.map_eq_some_iff] at hc
    obtain ⟨_, _, rfl⟩ := hc
    rfl

/-! ## Inside a join -/

/-- A schema inside what two contents ask together comes from one of them or is
    the join of one from each. -/
theorem mem_parts_contents_join {p q : Contents} {t : Schema} (h : t ∈ (p.join q).parts) :
    t ∈ p.parts ∨ t ∈ q.parts ∨ ∃ x ∈ p.parts, ∃ y ∈ q.parts, t = x.join y := by
  rcases Contents.join_cases p q with hfree | ⟨d, e, rfl, rfl⟩ | ⟨k, v, l, w, rfl, rfl⟩ |
    ⟨fs, gs, rfl, rfl⟩
  · rw [hfree] at h
    exact absurd h List.not_mem_nil
  · rw [Contents.each_join_each] at h
    exact Or.inr (Or.inr ⟨d, List.mem_cons_self, e, List.mem_cons_self, List.mem_singleton.mp h⟩)
  · rw [Contents.entries_join_entries] at h
    simp only [Contents.parts, List.mem_cons, List.not_mem_nil, or_false] at h
    rcases h with rfl | rfl
    · exact Or.inr (Or.inr ⟨k, List.mem_cons_self, l, List.mem_cons_self, rfl⟩)
    · exact Or.inr (Or.inr ⟨v, List.mem_cons_of_mem _ List.mem_cons_self,
        w, List.mem_cons_of_mem _ List.mem_cons_self, rfl⟩)
  · rw [Contents.forms_join_forms] at h
    obtain ⟨f, hf, ht⟩ := List.mem_flatMap.mp h
    rcases mem_or_mem_of_mem_joinForms hf with hf | hf
    · exact Or.inl (List.mem_flatMap.mpr ⟨f, hf, ht⟩)
    · exact Or.inr (Or.inl (List.mem_flatMap.mpr ⟨f, hf, ht⟩))

/-- What the join of canonical schemas keeps at one level it keeps everywhere. -/
theorem Everywhere.join {P : Schema → Prop}
    (hP : ∀ a b, a.Canonical → b.Canonical → P a → P b → P (a.join b))
    (ca : a.Everywhere Canonical) (cb : b.Everywhere Canonical)
    (ha : a.Everywhere P) (hb : b.Everywhere P) : (a.join b).Everywhere P := by
  induction hb generalizing a with
  | @intro b here inside ih =>
      refine .intro (hP a b ca.here cb.here ha.here here) fun t ht => ?_
      obtain ⟨⟨k, c⟩, hmem, ht⟩ := List.mem_flatMap.mp ht
      have hright {q : Contents} (hq : (k, q) ∈ b.alternatives) {y : Schema}
          (hy : y ∈ q.parts) : y ∈ b.parts := List.mem_flatMap.mpr ⟨(k, q), hq, hy⟩
      rcases cases_of_mem_join ca.here cb.here hmem with rfl | h | h | ⟨p, q, hp, hq, rfl⟩
      · exact absurd ht List.not_mem_nil
      · exact ha.of_contents h t ht
      · exact inside t (hright h ht)
      · rcases mem_parts_contents_join ht with ht | ht | ⟨x, hx, y, hy, rfl⟩
        · exact ha.of_contents hp t ht
        · exact inside t (hright hq ht)
        · exact ih y (hright hq hy) (ca.of_contents hp x hx) (cb.of_contents hq y hy)
            (ha.of_contents hp x hx)

theorem everywhere_canonical_join (ha : a.Everywhere Canonical) (hb : b.Everywhere Canonical) :
    (a.join b).Everywhere Canonical :=
  Everywhere.join (fun _ _ ha hb _ _ => ha.join hb) ha hb ha hb

end Schema

end Conform

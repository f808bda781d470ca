/-
  Conform.Proofs.Union.Inclusion

  How what a union accepts compares with what its members accept, for plain
  canonical schemas. A larger set of schemas accepts more (`UnionAccepts.mono`).
  And a value that does not hand its members to a merged schema, that is any
  value but lists, sets and dictionaries, is accepted by one of the schemas on
  its own (`UnionAccepts.exists_singleton`).
-/

import Conform.Proofs.Schema.Plain
import Conform.Proofs.Union.Rules

namespace Conform

/-- Whether members of a value face the merged demands of all schemas: lists,
    sets and dictionaries. -/
def Value.mergesMembers : Value → Bool
  | collection kind _ => kind != .tuple
  | dict _ => true
  | _ => false

/-- The schemas of a set are canonical and plain throughout. -/
structure PlainSet (S : Set Schema) : Prop where
  canonical : ∀ s ∈ S, s.Everywhere Schema.Canonical
  plain : ∀ s ∈ S, s.Everywhere Schema.Plain

section Inside

variable {S T : Set Schema} {tag : TypeTag} {v : Value}

theorem Contents.mem_parts {c : Contents} {e : Schema}
    (h : e ∈ c.memberPart ∪ c.keyPart ∪ c.valuePart) : e ∈ c.parts := by
  rcases h with (h | h) | h <;> cases c <;>
    simp_all [Contents.memberPart, Contents.keyPart, Contents.valuePart, Contents.parts]

/-- What schemas ask of members is made of schemas inside them. -/
theorem everywhere_of_mem_asked {P : Schema → Prop} {part : Contents → Set Schema}
    (hpart : ∀ c, ∀ e ∈ part c, e ∈ c.parts) (h : ∀ s ∈ S, s.Everywhere P) :
    ∀ e ∈ askedIn part (askedUnder S tag), e.Everywhere P := by
  intro e he
  obtain ⟨c, hc, he⟩ := mem_askedIn.mp he
  obtain ⟨s, hs, hsc⟩ := mem_askedUnder.mp hc
  exact (h s hs).of_contents? hsc e (hpart c e he)

theorem PlainSet.inside (h : PlainSet S) (tag : TypeTag) {part : Contents → Set Schema}
    (hpart : ∀ c, ∀ e ∈ part c, e ∈ c.parts) : PlainSet (askedIn part (askedUnder S tag)) where
  canonical := everywhere_of_mem_asked hpart h.canonical
  plain := everywhere_of_mem_asked hpart h.plain

theorem PlainSet.subset (h : PlainSet T) (hST : S ⊆ T) : PlainSet S where
  canonical s hs := h.canonical s (hST hs)
  plain s hs := h.plain s (hST hs)

theorem PlainSet.meetsAll (h : PlainSet S) : MeetsAll S v := by
  intro s hs c hc
  rw [(h.plain s hs).here.unconstrained] at hc
  exact absurd hc List.not_mem_nil

theorem PlainSet.not_constrainsOnly (h : PlainSet S) (hne : S.Nonempty) :
    ¬ ∀ s ∈ S, s.constrainsOnly = true := by
  obtain ⟨s, hs⟩ := hne
  intro hall
  have hfalse := (h.plain s hs).here.declares
  rw [hall s hs] at hfalse
  cases hfalse

theorem PlainSet.suits (h : PlainSet S) {c : Contents} (hc : c ∈ askedUnder S tag) :
    c.suits tag = true := by
  obtain ⟨s, hs, hsc⟩ := mem_askedUnder.mp hc
  exact (h.canonical s hs).here.suits_of_contents? hsc

/-- Under the tag of a value that a plain literal equals, nothing is asked. -/
theorem PlainSet.free_of_equalsLiteral (hS : PlainSet S) (hT : PlainSet T)
    (hit : ∃ s ∈ S, Inspection.equalsLiteral s v = true) {c : Contents}
    (hc : c ∈ askedUnder T v.tag) : c = .free := by
  obtain ⟨s, hs, hit⟩ := hit
  unfold Inspection.equalsLiteral at hit
  cases hlit : s.literals with
  | none => simp [hlit] at hit
  | some ls =>
      simp only [hlit, List.any_eq_true] at hit
      obtain ⟨l, hl, hequal⟩ := hit
      have hplain := (hS.plain s hs).here.literals ls hlit l hl
      obtain ⟨hcollection, hdict⟩ := Value.tag_of_equal_plain hplain hequal
      have hsuits := hT.suits hc
      cases c with
      | free => rfl
      | each e => simp [Contents.suits, hcollection] at hsuits
      | entries k e => simp [Contents.suits, hdict] at hsuits
      | forms fs => simp [Contents.suits, hcollection] at hsuits

end Inside

/-! ## More schemas accept more -/

theorem askedUnder_mono {S T : Set Schema} (h : S ⊆ T) (tag : TypeTag) :
    askedUnder S tag ⊆ askedUnder T tag :=
  Set.biUnion_subset_biUnion_left h

theorem valueSchemas_nonempty {C : Set Contents} (h : (keySchemas C).Nonempty) :
    (valueSchemas C).Nonempty := by
  obtain ⟨k, hk⟩ := h
  obtain ⟨c, hc, hk⟩ := mem_askedIn.mp hk
  cases c with
  | entries k e => exact ⟨e, mem_askedIn.mpr ⟨_, hc, rfl⟩⟩
  | free => exact absurd hk (Set.notMem_empty _)
  | each e => exact absurd hk (Set.notMem_empty _)
  | forms fs => exact absurd hk (Set.notMem_empty _)

/-- More schemas accept a value whenever fewer of them do. -/
abbrev AcceptedByMore (w : Value) : Prop :=
  ∀ S T : Set Schema, S ⊆ T → S.Nonempty → PlainSet T → UnionAccepts S w → UnionAccepts T w

theorem MembersAccepted.mono {v : Value} (ihm : ∀ w ∈ v.members, AcceptedByMore w)
    (ihp : ∀ p ∈ v.pairs, AcceptedByMore p.1 ∧ AcceptedByMore p.2) {S T : Set Schema}
    (hST : S ⊆ T) (hT : PlainSet T) (h : MembersAccepted (askedUnder S v.tag) v) :
    MembersAccepted (askedUnder T v.tag) v := by
  have hasked := askedUnder_mono hST v.tag
  cases h with
  | free h => exact .free (hasked h)
  | each some h =>
      have hsub := askedIn_mono Contents.memberPart hasked
      have hplain := hT.inside v.tag fun _ _ he => Contents.mem_parts (.inl (.inl he))
      exact .each (some.mono hsub) fun w hw => ihm w hw _ _ hsub some hplain (h w hw)
  | entries some keys values =>
      have hkeys := askedIn_mono Contents.keyPart hasked
      have hvalues := askedIn_mono Contents.valuePart hasked
      have hplainKeys := hT.inside v.tag fun _ _ he => Contents.mem_parts (.inl (.inr he))
      have hplainValues := hT.inside v.tag fun _ _ he => Contents.mem_parts (.inr he)
      refine .entries (some.mono hkeys) (fun p hp => ?_) (fun p hp => ?_)
      · exact (ihp p hp).1 _ _ hkeys some hplainKeys (keys p hp)
      · exact (ihp p hp).2 _ _ hvalues (valueSchemas_nonempty some) hplainValues (values p hp)
  | form f mem fits h =>
      exact .form f (askedIn_mono Contents.formPart hasked mem) fits h

theorem acceptedByMore (v : Value) : AcceptedByMore v := by
  induction v using Value.induction_parts with
  | step v ihm ihp =>
      intro S T hST hne hT h
      have hS : PlainSet S := hT.subset hST
      cases h with
      | none listed =>
          obtain ⟨s, hs, hlisted⟩ := listed
          exact .none ⟨s, hST hs, hlisted⟩
      | refined only _ => exact absurd only (hS.not_constrainsOnly hne)
      | typed members _ => exact .typed (members.mono ihm ihp hST hT) hT.meetsAll
      | literal _ hit _ =>
          -- A schema that is new in `T` may admit the tag of the literal, but asks nothing then.
          rcases (askedUnder T v.tag).eq_empty_or_nonempty with hempty | ⟨c, hc⟩
          · obtain ⟨s, hs, hequal⟩ := hit
            exact .literal hempty ⟨s, hST hs, hequal⟩ hT.meetsAll
          · rw [hS.free_of_equalsLiteral hT hit hc] at hc
            exact .typed (.free hc) hT.meetsAll

/-! ## Outside merged members, one schema is enough -/

/-- Demands on single members suit only the tags of lists and sets. -/
theorem memberSchemas_eq_empty {v : Value} (hv : v.mergesMembers = false) {S : Set Schema}
    (hS : PlainSet S) : memberSchemas (askedUnder S v.tag) = ∅ := by
  refine Set.eq_empty_of_forall_notMem fun e he => ?_
  obtain ⟨c, hc, he⟩ := mem_askedIn.mp he
  have hsuits := hS.suits hc
  cases c with
  | each d =>
      cases v with
      | collection kind _ =>
          cases kind <;> simp_all [Value.mergesMembers, Value.tag, Contents.suits]
      | _ => simp [Value.tag, Contents.suits] at hsuits
  | _ => exact he

/-- Demands on keys suit only the tag of dictionaries. -/
theorem keySchemas_eq_empty {v : Value} (hv : v.mergesMembers = false) {S : Set Schema}
    (hS : PlainSet S) : keySchemas (askedUnder S v.tag) = ∅ := by
  refine Set.eq_empty_of_forall_notMem fun k hk => ?_
  obtain ⟨c, hc, hk⟩ := mem_askedIn.mp hk
  have hsuits := hS.suits hc
  cases c with
  | entries l e =>
      cases v with
      | dict _ => simp [Value.mergesMembers] at hv
      | _ => simp [Value.tag, Contents.suits] at hsuits
  | _ => exact hk

theorem MembersAccepted.exists_singleton {v : Value} (hv : v.mergesMembers = false)
    {S : Set Schema} (hS : PlainSet S) (h : MembersAccepted (askedUnder S v.tag) v) :
    ∃ c ∈ askedUnder S v.tag, MembersAccepted {c} v := by
  cases h with
  | free h => exact ⟨.free, h, membersAccepted_free⟩
  | each some _ => exact absurd (memberSchemas_eq_empty hv hS) some.ne_empty
  | entries some _ _ => exact absurd (keySchemas_eq_empty hv hS) some.ne_empty
  | form f mem fits h =>
      obtain ⟨c, hc, hf⟩ := mem_askedIn.mp mem
      exact ⟨c, hc, .form f (mem_askedIn.mpr ⟨c, Set.mem_singleton c, hf⟩) fits h⟩

/-- A plain union accepts a value whose members are not merged only if one of
    its schemas does. -/
theorem UnionAccepts.exists_singleton {v : Value} (hv : v.mergesMembers = false)
    {S : Set Schema} (hne : S.Nonempty) (hS : PlainSet S) (h : UnionAccepts S v) :
    ∃ s ∈ S, UnionAccepts {s} v := by
  cases h with
  | none listed =>
      obtain ⟨s, hs, hlisted⟩ := listed
      exact ⟨s, hs, .none ⟨s, rfl, hlisted⟩⟩
  | refined only _ => exact absurd only (hS.not_constrainsOnly hne)
  | typed members meets =>
      obtain ⟨c, hc, haccepted⟩ := members.exists_singleton hv hS
      obtain ⟨s, hs, hsc⟩ := mem_askedUnder.mp hc
      refine ⟨s, hs, unionAccepts_singleton_iff.mpr (Or.inr ⟨?_, meets s hs⟩)⟩
      exact Or.inr (Or.inl ⟨c, hsc, haccepted⟩)
  | literal unlisted hit meets =>
      obtain ⟨s, hs, hequal⟩ := hit
      have hempty : askedUnder {s} v.tag = ∅ :=
        Set.subset_empty_iff.mp (unlisted ▸ askedUnder_mono (Set.singleton_subset_iff.mpr hs) _)
      exact ⟨s, hs, .literal hempty ⟨s, rfl, hequal⟩ fun t ht => ht ▸ meets s hs⟩

end Conform

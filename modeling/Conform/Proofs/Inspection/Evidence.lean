/-
  Conform.Proofs.Inspection.Evidence

  What makes a violation true. Its steps lead from a value and a schema to a part
  and the schema that governs it (`Reaches`), it describes these two, and its
  cause holds of them (`CauseHolds`): no tag and no literal accepts the part, no
  form of a tuple has its length, or a predicate is the first that fails.
-/

import Conform.Proofs.Inspection.Acceptance
import Conform.Proofs.Schema.WellFormed

namespace Conform

/-! ## Locations below a location -/

namespace Location

/-- The location some steps further down. -/
def below (l : Location) (steps : List Step) : Location := { l with steps := l.steps ++ steps }

@[simp] theorem below_nil (l : Location) : l.below [] = l := by
  simp [below]

@[simp] theorem below_below (l : Location) (xs ys : List Step) :
    (l.below xs).below ys = l.below (xs ++ ys) := by
  simp [below]

theorem down_eq_below (l : Location) (step : Step) : l.down step = l.below [step] := rfl

@[simp] theorem upTo_below (l : Location) (steps : List Step) :
    (l.below steps).upTo l.depth = l := by
  simp [below, upTo, depth]

@[simp] theorem up_down (l : Location) (step : Step) : (l.down step).up = l := by
  simp [down, up]

end Location

namespace Inspection

/-! ## Parts of a value and the schemas that govern them -/

/-- A step from a value under a schema leads to a member and the schema for it. -/
inductive Governs : Value → Schema → Step → Value → Schema → Prop
  /-- The item of a list at a position. -/
  | listItem {items : List Value} {s e : Schema} {i : Nat} {w : Value}
      (asked : s.contents? (.collection .list) = some (.each e)) (item : items[i]? = some w) :
      Governs (.collection .list items) s (.index i) w e
  /-- A member of a set or frozen set, by its printed form. -/
  | setMember {kind : CollectionKind} {items : List Value} {s e : Schema} {w : Value}
      (unordered : kind.isUnordered = true)
      (asked : s.contents? (.collection kind) = some (.each e)) (member : w ∈ items) :
      Governs (.collection kind items) s (.member w.repr) w e
  /-- The item of a tuple at a position, under a form of the right length. -/
  | tupleItem {items : List Value} {s e : Schema} {fs : List TupleForm} {f : TupleForm} {i : Nat}
      {w : Value} (asked : s.contents? (.collection .tuple) = some (.forms fs)) (form : f ∈ fs)
      (fits : f.fits items.length = true) (item : items[i]? = some w)
      (schema : f.itemAt? i = some e) : Governs (.collection .tuple items) s (.index i) w e
  /-- A key of a dictionary, by its printed form. -/
  | key {entries : List (Value × Value)} {s k e : Schema} {x y : Value}
      (asked : s.contents? .dict = some (.entries k e)) (entry : (x, y) ∈ entries) :
      Governs (.dict entries) s (.key x.repr) x k
  /-- The value under a key of a dictionary, by the printed form of the key. -/
  | entry {entries : List (Value × Value)} {s k e : Schema} {x y : Value}
      (asked : s.contents? .dict = some (.entries k e)) (entry : (x, y) ∈ entries) :
      Governs (.dict entries) s (.entry x.repr) y e

/-- Steps from a value under a schema lead to a part and the schema for it. -/
inductive Reaches : Value → Schema → List Step → Value → Schema → Prop
  | here {v : Value} {s : Schema} : Reaches v s [] v s
  | further {v w x : Value} {s e g : Schema} {step : Step} {steps : List Step}
      (first : Governs v s step w e) (rest : Reaches w e steps x g) :
      Reaches v s (step :: steps) x g

/-! ## Causes -/

/-- How far a declared length is from the one found. -/
def lengthGap (found n : Nat) : Nat := max n found - min n found

/-- Of two lengths, `m` is nearer to the one found, or as near and not longer. -/
def AsNear (found m n : Nat) : Prop :=
  lengthGap found m < lengthGap found n ∨ (lengthGap found m = lengthGap found n ∧ m ≤ n)

/-- A length is declared by a form, and none of the others is preferred to it. -/
structure IsNearest (forms : List TupleForm) (found expected : Nat) : Prop where
  declared : ∃ f ∈ forms, f.items.length = expected
  nearest : ∀ f ∈ forms, AsNear found expected f.items.length

/-- A predicate is false on a value or cannot be evaluated there. -/
inductive Fails (p : Predicate) (w : Value) : UnmetPredicate → Prop
  | isFalse (h : p.evaluate w = .ok false) : Fails p w ⟨p.name, p.expectation, none⟩
  | isFaulty {fault : PredicateFault} (h : p.evaluate w = .error fault) :
      Fails p w ⟨p.name, p.expectation, some fault⟩

/-- The first of several predicates that does not hold of a value. -/
def FirstUnmet (predicates : List Predicate) (w : Value) (unmet : UnmetPredicate) : Prop :=
  ∃ earlier p later, predicates = earlier ++ p :: later ∧
    (∀ q ∈ earlier, q.evaluate w = .ok true) ∧ Fails p w unmet

/-- A schema accepts a value as far as types, members and literals go. -/
def StructureAccepted (e : Schema) (w : Value) : Prop :=
  e.constrainsOnly = true ∨ (∃ c, e.contents? w.tag = some c ∧ MembersAccepted {c} w) ∨
    (e.contents? w.tag = none ∧ equalsLiteral e w = true)

/-- The cause of a violation holds of a value and the schema that governs it. -/
inductive CauseHolds (e : Schema) (w : Value) : ViolationCause → Prop
  | typeMismatch (declares : e.constrainsOnly = false) (tag : w.tag ∉ e.tags)
      (any : .any ∉ e.tags)
      (literals : ∀ ls, e.literals = some ls → ∀ l ∈ ls, l.equal w = false) :
      CauseHolds e w .typeMismatch
  | lengthMismatch {items : List Value} {forms : List TupleForm} {expected : Nat}
      (tuple : w = .collection .tuple items)
      (asked : e.contents? (.collection .tuple) = some (.forms forms))
      (misfit : ∀ f ∈ forms, f.fits items.length = false)
      (nearest : IsNearest forms items.length expected) :
      CauseHolds e w (.lengthMismatch expected items.length)
  | constraintViolation {unmet : UnmetPredicate} (accepted : StructureAccepted e w)
      (first : FirstUnmet (e.constraints.flatMap (·.predicates)) w unmet) :
      CauseHolds e w (.constraintViolation unmet)

/-- A violation says what was found in a value and what its schema expects. -/
structure Describes (d : Violation) (w : Value) (e : Schema) : Prop where
  foundTag : d.foundTag = w.tag
  found : d.found = w.repr
  expectedTags : d.expectedTags = e.tags
  ascending : e.tags.Pairwise fun k l => compare k l = .lt
  expectedLiterals : d.expectedLiterals = e.literals.map (·.map Value.repr)
  cause : CauseHolds e w d.cause

/-- The shape of a schema that makes its violations true. -/
structure Regular (s : Schema) : Prop where
  canonical : s.Canonical
  wellFormed : s.WellFormed

/-- Some steps below, a violation describes a part and the schema for it. -/
def Finds (v : Value) (s : Schema) (steps : List Step) (d : Violation) : Prop :=
  s.Everywhere Regular → ∃ w e, Reaches v s steps w e ∧ Describes d w e

theorem finds_here {s : Schema} {v : Value} {cause : ViolationCause}
    (h : Regular s → CauseHolds s v cause) (l : Location) :
    Finds v s [] (.located l s v cause) := by
  intro hs
  have ascending : s.tags.Pairwise fun k l => compare k l = .lt :=
    List.pairwise_map.mpr hs.here.canonical.ascending
  exact ⟨v, s, .here, rfl, rfl, rfl, ascending, rfl, h hs.here⟩

theorem Finds.below {v w : Value} {s e : Schema} {step : Step} {steps : List Step} {d : Violation}
    (h : Finds w e steps d) {c : Contents} (hc : s.contents? v.tag = some c) (he : e ∈ c.parts)
    (first : Regular s → Governs v s step w e) : Finds v s (step :: steps) d := by
  intro hs
  obtain ⟨x, g, hreaches, hd⟩ := h (hs.of_contents? hc e he)
  exact ⟨x, g, .further (first hs.here) hreaches, hd⟩

/-! ## The first predicate that fails -/

theorem firstUnmet_of_firstUnmet? {w : Value} {ps : List Predicate} {unmet : UnmetPredicate}
    (h : Constraint.firstUnmet? w ps = some unmet) : FirstUnmet ps w unmet := by
  induction ps with
  | nil => cases h
  | cons p rest ih =>
      rw [Constraint.firstUnmet?] at h
      split at h
      next hp =>
        obtain ⟨earlier, q, later, rfl, hearlier, hq⟩ := ih h
        exact ⟨p :: earlier, q, later, rfl, List.forall_mem_cons.mpr ⟨hp, hearlier⟩, hq⟩
      next hp =>
        obtain rfl := Option.some.inj h
        exact ⟨[], p, rest, rfl, by simp, .isFalse hp⟩
      next fault hp =>
        obtain rfl := Option.some.inj h
        exact ⟨[], p, rest, rfl, by simp, .isFaulty hp⟩

/-- Predicates that hold may stand in front, and any predicates behind. -/
theorem FirstUnmet.between {w : Value} {ps : List Predicate} {unmet : UnmetPredicate}
    (h : FirstUnmet ps w unmet) {before : List Predicate}
    (hbefore : ∀ q ∈ before, q.evaluate w = .ok true) (after : List Predicate) :
    FirstUnmet (before ++ (ps ++ after)) w unmet := by
  obtain ⟨earlier, p, later, rfl, hearlier, hp⟩ := h
  refine ⟨before ++ earlier, p, later ++ after, by simp, ?_, hp⟩
  exact List.forall_mem_append.mpr ⟨hbefore, hearlier⟩

/-! ## The nearest length -/

theorem AsNear.refl (found n : Nat) : AsNear found n n := Or.inr ⟨rfl, Nat.le_refl n⟩

theorem AsNear.trans {found k m n : Nat} (h : AsNear found k m) (h' : AsNear found m n) :
    AsNear found k n := by
  unfold AsNear at *
  omega

/-- Keeping the nearer of two lengths along a list ends at the nearest of all. -/
theorem foldl_asNear (found n : Nat) (rest : List Nat) :
    ∃ best ∈ n :: rest, rest.foldl (fun best m =>
        if lengthGap found m < lengthGap found best ||
          (lengthGap found m == lengthGap found best && m < best) then m else best) n = best ∧
      ∀ m ∈ n :: rest, AsNear found best m := by
  induction rest generalizing n with
  | nil => exact ⟨n, List.mem_cons_self, rfl, by simpa using AsNear.refl found n⟩
  | cons k rest ih =>
      rw [List.foldl_cons]
      split
      next hnearer =>
        obtain ⟨best, hmem, hbest, hall⟩ := ih k
        have hkn : AsNear found k n := by
          simp only [Bool.or_eq_true, Bool.and_eq_true, decide_eq_true_eq, beq_iff_eq] at hnearer
          unfold AsNear
          omega
        have hbk := hall k List.mem_cons_self
        exact ⟨best, List.mem_cons_of_mem n hmem, hbest,
          List.forall_mem_cons.mpr ⟨hbk.trans hkn, hall⟩⟩
      next hnearer =>
        obtain ⟨best, hmem, hbest, hall⟩ := ih n
        have hnk : AsNear found n k := by
          simp only [Bool.or_eq_true, Bool.and_eq_true, decide_eq_true_eq, beq_iff_eq] at hnearer
          unfold AsNear
          omega
        obtain ⟨hbn, hrest⟩ := List.forall_mem_cons.mp hall
        refine ⟨best, ?_, hbest, ?_⟩
        · rcases List.mem_cons.mp hmem with rfl | hmem
          · exact List.mem_cons_self
          · exact List.mem_cons_of_mem n (List.mem_cons_of_mem k hmem)
        · exact List.forall_mem_cons.mpr ⟨hbn, List.forall_mem_cons.mpr ⟨hbn.trans hnk, hrest⟩⟩

/-- Where no form fits, all are of fixed length and the nearest length is theirs. -/
theorem isNearest_nearestLength {forms : List TupleForm} {found : Nat} (hne : forms ≠ [])
    (misfit : ∀ f ∈ forms, f.fits found = false) :
    IsNearest forms found (nearestLength forms found) := by
  have hfixed : forms.filter (!·.repeated) = forms := by
    refine List.filter_eq_self.mpr fun f hf => ?_
    have hfits := misfit f hf
    simp only [TupleForm.fits, Bool.or_eq_false_iff] at hfits
    simp [hfits.1]
  cases forms with
  | nil => exact absurd rfl hne
  | cons f rest =>
      obtain ⟨best, hmem, hbest, hall⟩ :=
        foldl_asNear found f.items.length (rest.map (·.items.length))
      have hlength : nearestLength (f :: rest) found = best := by
        unfold nearestLength
        rw [hfixed]
        exact hbest
      rw [hlength]
      constructor
      · simpa [eq_comm] using hmem
      · simpa using hall

/-! ## What is not admitted -/

theorem not_mem_tags_of_contents? {s : Schema} {k : TypeTag} (h : s.contents? k = none) :
    k ∉ s.tags ∧ .any ∉ s.tags := by
  obtain ⟨hk, hany⟩ := Option.or_eq_none_iff.mp h
  rw [Schema.mem_tags_iff, Schema.mem_tags_iff, hk, hany]
  simp

theorem forall_not_equal_of_not_equalsLiteral {s : Schema} {v : Value}
    (h : equalsLiteral s v = false) :
    ∀ ls, s.literals = some ls → ∀ l ∈ ls, l.equal v = false := by
  intro ls hls l hl
  unfold equalsLiteral at h
  simp only [hls, List.any_eq_false] at h
  exact Bool.eq_false_iff.mpr (h l hl)

end Inspection

end Conform

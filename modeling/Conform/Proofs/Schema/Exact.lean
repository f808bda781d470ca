/-
  Conform.Proofs.Schema.Exact

  Predicates and literals compare by host equality, and values are then tested
  by one of them or the other. Where they are exact, this makes no difference:
  predicates that compare equal hold of the same values. A pattern is exact if
  its text determines what it matches, a custom test if its identity does. The
  join keeps schemas exact, and exact declarations have exact schemas.
-/

import Conform.Proofs.Schema.Plain
import Conform.Proofs.Schema.Shape
import Conform.Proofs.Value.Comparison

namespace Conform

/-- What the labels stand for by which predicates are compared: the custom test
    of each identity, and the texts in which the pattern of each text occurs. -/
structure Meanings where
  test : Nat → Value → CustomOutcome
  occurs : String → String → Bool

variable {meanings : Meanings}

namespace Predicate

/-! ## When predicates hold -/

theorem ordered_congr {v bound other : Value} (h : v.compare? bound = v.compare? other)
    (operator : String) (accept : Ordering → Bool) :
    ordered v bound operator accept = .ok true ↔ ordered v other operator accept = .ok true := by
  unfold ordered
  rw [h]
  cases v.compare? other <;> simp

theorem membersAre_eq_ok_true_iff {v : Value} {wanted : Bool} {items : List Value} :
    membersAre v wanted items = .ok true ↔ ∀ x ∈ items, v.contains? x = some wanted := by
  induction items with
  | nil => simp [membersAre]
  | cons x rest ih =>
      rw [membersAre, hasMember, List.forall_mem_cons]
      cases v.contains? x with
      | none => simp
      | some found =>
          by_cases hfound : found = wanted
          · simp [hfound, ih]
          · simp [hfound]

/-! ## Exact parameters -/

/-- The parameters are exact, an item that is looked for is no truth value, and
    a pattern or a custom test does what its text or its identity stands for. -/
def Exact (meanings : Meanings) : Predicate → Prop
  | gt bound | ge bound | lt bound | le bound | eq bound | ne bound => bound.isExact = true
  | includes items | excludes items => ∀ x ∈ items, x.isExact = true ∧ x.tag ≠ .bool
  | pattern p => p.occursIn = meanings.occurs p.source
  | custom test => test.run = meanings.test test.identity
  | minLength _ | maxLength _ => True

theorem membersAre_congr {xs ys : List Value}
    (hxs : ∀ x ∈ xs, x.isExact = true ∧ x.tag ≠ .bool)
    (hys : ∀ y ∈ ys, y.isExact = true ∧ y.tag ≠ .bool) (h : Value.equalAll xs ys = true)
    (v : Value) (wanted : Bool) :
    membersAre v wanted xs = .ok true ↔ membersAre v wanted ys = .ok true := by
  rw [membersAre_eq_ok_true_iff, membersAre_eq_ok_true_iff]
  refine forall_mem_iff_of_forall₂ (Value.equalAll_iff.mp h) fun x hx y hy hxy => ?_
  rw [Value.contains?_congr (hxs x hx).1 (hys y hy).1 hxy (hxs x hx).2 (hys y hy).2]

/-- Exact predicates that compare equal hold of the same values. -/
theorem evaluate_iff_of_equal {p q : Predicate} (hp : p.Exact meanings) (hq : q.Exact meanings)
    (h : p.equal q = true) (v : Value) : p.evaluate v = .ok true ↔ q.evaluate v = .ok true := by
  unfold equal at h
  split at h
  case h_1 p q =>
    have hoccurs : p.occursIn = q.occursIn := by
      rw [show p.occursIn = meanings.occurs p.source from hp,
        show q.occursIn = meanings.occurs q.source from hq, beq_iff_eq.mp h]
    simp only [evaluate, hoccurs]
  case h_2 | h_3 | h_4 | h_5 => exact ordered_congr (Value.compare?_congr hp hq h v) _ _
  case h_6 | h_7 =>
    have hinterchange := Value.interchangeable_of_equal hp hq h
    simp only [evaluate, BEq.beq, hinterchange.right]
  case h_8 xs ys => exact membersAre_congr hp hq h v true
  case h_9 xs ys => exact membersAre_congr hp hq h v false
  case h_10 | h_11 => rw [beq_iff_eq.mp h]
  case h_12 s t =>
    have hrun : s.run = t.run := by
      rw [Bool.and_eq_true, beq_iff_eq, beq_iff_eq] at h
      rw [show s.run = meanings.test s.identity from hp,
        show t.run = meanings.test t.identity from hq, h.2]
    simp only [evaluate, hrun]
  case h_13 => cases h

end Predicate

namespace Constraint

/-- All predicates are exact. -/
def Exact (meanings : Meanings) (c : Constraint) : Prop := ∀ p ∈ c.predicates, p.Exact meanings

/-- Exact constraints that compare equal are met by the same values. -/
theorem unmet?_eq_none_iff_of_equal {c d : Constraint} (hc : c.Exact meanings)
    (hd : d.Exact meanings) (h : c.equal d = true) (v : Value) :
    c.unmet? v = none ↔ d.unmet? v = none := by
  have hequal : List.Forall₂ (fun p q => p.equal q = true) c.predicates d.predicates :=
    forall₂_of_stepwise (by simp [equalChains]) (by simp [equalChains])
      (fun _ _ _ _ => by rw [equalChains]) h
  rw [unmet?_eq_none_iff, unmet?_eq_none_iff]
  refine forall_mem_iff_of_forall₂ hequal fun p hp q hq hpq => ?_
  exact Predicate.evaluate_iff_of_equal (hc p hp) (hd q hq) hpq v

end Constraint

end Conform

namespace Conform.Schema

/-! ## Exact schemas -/

variable {meanings : Meanings} {a b s : Schema}

structure Exact (meanings : Meanings) (s : Schema) : Prop where
  literals : ∀ ls, s.literals = some ls → ∀ l ∈ ls, l.isExact = true
  constraints : ∀ c ∈ s.constraints, c.Exact meanings

theorem Plain.exact (h : s.Plain) : s.Exact meanings where
  literals ls hls l hl := Value.isExact_of_isPlain (h.literals ls hls l hl)
  constraints := by simp [h.unconstrained]

theorem Exact.join (ha : a.Exact meanings) (hb : b.Exact meanings) : (a.join b).Exact meanings where
  literals := forall_mem_literals_join ha.literals hb.literals
  constraints := by
    rw [constraints_join]
    exact List.forall_mem_append.mpr ⟨ha.constraints, hb.constraints⟩

theorem Exact.constrain (hs : s.Exact meanings) {c : Constraint} (hc : c.Exact meanings) :
    (s.constrain c).Exact meanings where
  literals := hs.literals
  constraints := List.forall_mem_append.mpr ⟨hs.constraints, by simpa using hc⟩

end Conform.Schema

namespace Conform.Declaration

/-! ## Exact declarations -/

/-- The literals that a declaration names itself. -/
def ownLiterals : Declaration → List Value
  | literal values => values
  | _ => []

/-- The constraints that a declaration makes itself. -/
def ownConstraints : Declaration → List Constraint
  | constraint c => [c]
  | annotated _ metadata => constraintsOf metadata
  | _ => []

inductive Exact (meanings : Meanings) : Declaration → Prop
  | intro {d : Declaration} (literals : ∀ l ∈ d.ownLiterals, l.isExact = true)
      (constraints : ∀ c ∈ d.ownConstraints, c.Exact meanings)
      (inside : ∀ x ∈ d.operands, Exact meanings x) : Exact meanings d

open Schema

variable {meanings : Meanings} {classes : Option ClassTable} {d : Declaration} {s : Schema}

namespace Exact

theorem literals (h : d.Exact meanings) : ∀ l ∈ d.ownLiterals, l.isExact = true := by
  obtain ⟨literals, _, _⟩ := h
  exact literals

theorem constraints (h : d.Exact meanings) : ∀ c ∈ d.ownConstraints, c.Exact meanings := by
  obtain ⟨_, constraints, _⟩ := h
  exact constraints

theorem inside (h : d.Exact meanings) : ∀ x ∈ d.operands, x.Exact meanings := by
  obtain ⟨_, _, inside⟩ := h
  exact inside

end Exact

theorem exact_ofTag (tag : TypeTag) (c : Contents) : (ofTag tag c).Exact meanings where
  literals _ h := by cases h
  constraints := by simp [ofTag]

theorem compositional_exact :
    Compositional classes fun d s => d.Exact meanings → s.Everywhere (Schema.Exact meanings) where
  tags _ tag tags _ :=
    everywhere_tags (fun k => exact_ofTag k .free) (fun _ _ _ _ => Schema.Exact.join) tag tags
  each _ _ part h :=
    everywhere_ofTag (exact_ofTag _ _)
      (by simpa [Contents.parts] using part (h.inside _ (by simp [operands])))
  entries _ part _ part' h := by
    have hkey := part (h.inside _ (by simp [operands]))
    have hvalue := part' (h.inside _ (by simp [operands]))
    exact everywhere_ofTag (exact_ofTag _ _) (by simp [Contents.parts, hkey, hvalue])
  repeating _ part h := by
    have hmember := part (h.inside _ (by simp [operands]))
    exact everywhere_ofTag (exact_ofTag _ _)
      (by simpa [Contents.parts, TupleForm.repeating] using hmember)
  fixed _ parts h := by
    have hitems := forall_mem_of_forall₂_imp h.inside parts
    exact everywhere_ofTag (exact_ofTag _ _)
      (by simpa [Contents.parts, TupleForm.fixed] using hitems)
  union schemas parts h :=
    Everywhere.foldl_join (fun _ _ _ _ => Schema.Exact.join)
      (everywhere_canonical_of_haveSchemas schemas) (forall_mem_of_forall₂_imp h.inside parts)
  literal {values} _ h := by
    refine everywhere_ofLiterals ⟨?_, by simp [ofLiterals]⟩
    intro ls hls
    obtain rfl : values = ls := Option.some.inj hls
    exact h.literals
  constraint c h := by
    have hliterals : ∀ ls, (ofConstraint c).literals = some ls → ∀ l ∈ ls, l.isExact = true := by
      intro ls hls
      cases hls
    exact everywhere_ofConstraint ⟨hliterals, h.constraints⟩
  annotated _ part h :=
    (part (h.inside _ List.mem_cons_self)).foldl_constrain fun _ c hc hs =>
      hs.constrain (h.constraints c hc)

/-- The schema of an exact declaration is exact throughout. -/
theorem everywhere_exact (h : toSchema classes d = .ok s) (hd : d.Exact meanings) :
    s.Everywhere (Schema.Exact meanings) :=
  compositional_exact.of_toSchema h hd

end Conform.Declaration

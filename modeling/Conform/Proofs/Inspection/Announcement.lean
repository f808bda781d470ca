/-
  Conform.Proofs.Inspection.Announcement

  The events of an inspection. An inspection adds to the events reported before
  it, and all it reports is that the members of some container failed the test
  of tags. In particular it never warns.

  What is needed of an inspection for this is only how it is put together, so
  the induction over values is done once, for any property that the ways of
  building an inspector keep (`Closed`).
-/

import Conform.Inspection.Basic
import Conform.Proofs.Value.Members

namespace Conform

namespace Verdict

/-- The trail that an inspection left. -/
def trail : Verdict → Trail
  | .ok () t => t
  | .error _ t => t

/-- The violation that stopped an inspection. -/
def violation? : Verdict → Option Violation
  | .ok () _ => none
  | .error v _ => some v

end Verdict

namespace Inspection

/-! ## Properties that building inspectors keeps -/

/-- A property of inspectors that every way of building one keeps. -/
structure Closed (P : Inspector Unit → Prop) : Prop where
  pure : P (pure ())
  stop : ∀ s value cause, P (Inspector.stop s value cause)
  seq : ∀ {m n}, P m → P n → P (m >>= fun _ => n)
  below : ∀ {m} step, P m → P (Inspector.below step m)
  tryForms : ∀ {run : TupleForm → Inspector Unit} s value forms count, (∀ f, P (run f)) →
    P (tryForms s value forms count run)
  unlessAdmitted : ∀ {m} e members, P m → P (unlessAdmitted e members m)

namespace Closed

variable {P : Inspector Unit → Prop} (hP : Closed P)
include hP

theorem inspectConstraints (s : Schema) (value : Value) (cs : List Constraint) :
    P (inspectConstraints s value cs) := by
  induction cs with
  | nil => exact hP.pure
  | cons c rest ih =>
      unfold Inspection.inspectConstraints
      cases c.unmet? value with
      | none => exact ih
      | some unmet => exact hP.stop s value _

theorem inspectWith (s : Schema) (value : Value) {members : Contents → Inspector Unit}
    (h : ∀ c, P (members c)) : P (inspectWith s value members) := by
  have htype : P (inspectType s value members) := by
    unfold inspectType
    cases s.contents? value.tag with
    | some c => exact h c
    | none =>
        dsimp only
        split
        · exact hP.pure
        · exact hP.stop s value _
  have hconstraints := hP.inspectConstraints s value s.constraints
  unfold Inspection.inspectWith
  split
  · exact hP.pure
  · split
    · exact hconstraints
    · exact hP.seq htype hconstraints

theorem inspectMembers {items : List Value} (ih : ∀ v ∈ items, ∀ s, P (inspectValue v s))
    (step : Nat → Value → Step) (e : Schema) (i : Nat) : P (inspectMembers step e i items) := by
  induction items generalizing i with
  | nil => exact hP.pure
  | cons v rest rec =>
      have hrest := rec (fun w hw => ih w (List.mem_cons_of_mem v hw)) (i + 1)
      exact hP.seq (hP.below _ (ih v List.mem_cons_self e)) hrest

theorem inspectPositions {items : List Value} (ih : ∀ v ∈ items, ∀ s, P (inspectValue v s))
    (schemas : List Schema) (i : Nat) : P (inspectPositions i items schemas) := by
  induction items generalizing schemas i with
  | nil => exact hP.pure
  | cons v rest rec =>
      cases schemas with
      | nil => exact hP.pure
      | cons e more =>
          have hrest := rec (fun w hw => ih w (List.mem_cons_of_mem v hw)) more (i + 1)
          exact hP.seq (hP.below _ (ih v List.mem_cons_self e)) hrest

theorem inspectKeys {entries : List (Value × Value)}
    (ih : ∀ p ∈ entries, ∀ s, P (inspectValue p.1 s)) (k : Schema) :
    P (inspectKeys k entries) := by
  induction entries with
  | nil => exact hP.pure
  | cons entry rest rec =>
      have hrest := rec fun p hp => ih p (List.mem_cons_of_mem entry hp)
      exact hP.seq (hP.below _ (ih entry List.mem_cons_self k)) hrest

theorem inspectEntries {entries : List (Value × Value)}
    (ih : ∀ p ∈ entries, ∀ s, P (inspectValue p.2 s)) (e : Schema) :
    P (inspectEntries e entries) := by
  induction entries with
  | nil => exact hP.pure
  | cons entry rest rec =>
      have hrest := rec fun p hp => ih p (List.mem_cons_of_mem entry hp)
      exact hP.seq (hP.below _ (ih entry List.mem_cons_self e)) hrest

/-- What building inspectors keeps holds of the inspection of every value. -/
theorem inspectValue (v : Value) : ∀ s, P (inspectValue v s) := by
  induction v using Value.induction_parts with
  | step v hmembers hpairs =>
      intro s
      cases v with
      | collection kind items =>
          have hloop (step : Nat → Value → Step) (e : Schema) :=
            hP.unlessAdmitted e items (hP.inspectMembers hmembers step e 0)
          refine hP.inspectWith s _ fun c => ?_
          cases c with
          | free => exact hP.pure
          | each e => exact hloop (memberStep kind) e
          | entries k e => exact hP.pure
          | forms forms =>
              refine hP.tryForms s _ forms items.length fun f => ?_
              obtain ⟨schemas, repeated⟩ := f
              cases repeated with
              | false => exact hP.inspectPositions hmembers schemas 0
              | true =>
                  cases schemas with
                  | nil => exact hP.pure
                  | cons e more => exact hloop (fun i _ => .index i) e
      | dict entries =>
          refine hP.inspectWith s _ fun c => ?_
          cases c with
          | free => exact hP.pure
          | each e => exact hP.pure
          | entries k e =>
              have hkeys := hP.inspectKeys (fun p hp => (hpairs p hp).1) k
              have hentries := hP.inspectEntries (fun p hp => (hpairs p hp).2) e
              exact hP.seq (hP.unlessAdmitted k _ hkeys) (hP.unlessAdmitted e _ hentries)
          | forms forms => exact hP.tryForms s _ forms 0 fun _ => hP.pure
      | _ =>
          refine hP.inspectWith s _ fun c => ?_
          cases c with
          | forms forms => exact hP.tryForms s _ forms 0 fun _ => hP.pure
          | _ => exact hP.pure

end Closed

/-! ## Events -/

/-- Events follow others, and all of them tell of members that failed the test
    of tags. -/
def Announced (before after : List Event) : Prop :=
  ∃ places : List Location, after = before ++ places.map Event.batchRejected

namespace Announced

variable {es fs gs : List Event}

theorem refl (es : List Event) : Announced es es := ⟨[], (List.append_nil es).symm⟩

theorem trans (h : Announced es fs) (h' : Announced fs gs) : Announced es gs := by
  obtain ⟨ps, rfl⟩ := h
  obtain ⟨qs, rfl⟩ := h'
  exact ⟨ps ++ qs, by simp⟩

theorem append (es : List Event) (place : Location) :
    Announced es (es ++ [.batchRejected place]) := ⟨[place], rfl⟩

end Announced

/-- Whatever an inspector reports is that members failed the test of tags. -/
def Announces (m : Inspector Unit) : Prop :=
  ∀ t, Announced t.events (Verdict.trail (m t)).events

theorem tryFurther_announces {run : TupleForm → Inspector Unit} (h : ∀ f, Announces (run f))
    (depth : Nat) (first : Violation) (forms : List TupleForm) :
    Announces (tryFurther run depth first forms) := by
  induction forms with
  | nil => exact fun t => .refl t.events
  | cons f rest ih =>
      intro t
      have hf := h f (t.upTo depth)
      unfold tryFurther
      cases hrun : run f (t.upTo depth) with
      | ok a u =>
          rw [hrun] at hf
          exact hf
      | error d u =>
          rw [hrun] at hf
          exact hf.trans (ih u)

theorem closed_announces : Closed Announces where
  pure t := .refl t.events
  stop s value cause t := .refl t.events
  seq {m n} hm hn t := by
    have hbind : (m >>= fun _ => n) t = EStateM.bind m (fun _ => n) t := rfl
    have hmt := hm t
    rw [hbind, EStateM.bind]
    cases h : m t with
    | ok a u =>
        rw [h] at hmt
        exact hmt.trans (hn u)
    | error d u =>
        rw [h] at hmt
        exact hmt
  below {m} step hm t := by
    have hmt := hm (t.down step)
    unfold Inspector.below
    cases h : m (t.down step) with
    | ok a u =>
        rw [h] at hmt
        exact hmt
    | error d u =>
        rw [h] at hmt
        exact hmt
  tryForms {run} s value forms count hrun t := by
    unfold tryForms
    cases forms.filter (·.fits count) with
    | nil => exact .refl t.events
    | cons f others =>
        have hf := hrun f t
        dsimp only
        cases h : run f t with
        | ok a u =>
            rw [h] at hf
            exact hf
        | error first u =>
            rw [h] at hf
            exact hf.trans (tryFurther_announces hrun _ first others u)
  unlessAdmitted {m} e members hm t := by
    unfold unlessAdmitted
    split
    · exact hm t
    · split
      · exact .refl t.events
      · exact (Announced.append t.events t.location).trans (hm _)

theorem inspectValue_announces (v : Value) (s : Schema) : Announces (inspectValue v s) :=
  closed_announces.inspectValue v s

end Inspection

end Conform

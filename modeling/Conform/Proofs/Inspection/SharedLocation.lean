/-
  Conform.Proofs.Inspection.SharedLocation

  Nested inspections share one location and move it. A member is left by the
  step that led to it, but only if it was accepted: an inspection that stops
  leaves the location wherever it got to. So whoever goes on after a violation
  has to find the way back, and whoever goes on after a success relies on the
  location being the old one.

  There are two such places: the forms of a tuple, where a form is tried after
  another one stopped, and the loop over the arguments that a parameter takes as
  the rest. That both start in the right place each time is said without looking
  into them: every inspector they run is replaced by one that does something
  else, anything at all, if it is started elsewhere (`Inspector.onlyAt`), and
  nothing changes.
-/

import Conform.Guard.Session
import Conform.Proofs.Inspection.Announcement
import Conform.Proofs.Inspection.Fallback
import Conform.Proofs.Inspection.Tuples

namespace Conform

/-- A location has the root of another one, and begins with its steps. -/
structure Location.Within (l start : Location) : Prop where
  root : l.root = start.root
  steps : start.steps <+: l.steps

theorem Location.within_below (start : Location) (steps : List Step) :
    (start.below steps).Within start where
  root := rfl
  steps := List.prefix_append start.steps steps

/-- What an inspection does to the location at which it starts: nothing if it
    accepts; if it stops, it ends below it and reports a place below it. -/
def Verdict.KeepsTo (start : Location) : Verdict → Prop
  | .ok () t => t.location = start
  | .error d t => t.location.Within start ∧ d.location.Within start

/-- An inspector for one location, and another one for everywhere else. -/
def Inspector.onlyAt (l : Location) (here elsewhere : Inspector Unit) : Inspector Unit := fun t =>
  if t.location = l then here t else elsewhere t

theorem Inspector.onlyAt_of_eq {l : Location} {t : Trail} (h : t.location = l)
    (here elsewhere : Inspector Unit) : onlyAt l here elsewhere t = here t :=
  if_pos h

namespace Inspection

/-! ## Inspectors that come back -/

/-- An inspector that comes back if it accepts, and ends below if it stops. -/
abbrev Keeps (m : Inspector Unit) : Prop := Reports m fun _ _ => True

theorem Keeps.unlessAdmitted {m : Inspector Unit} (h : Keeps m) (e : Schema)
    (members : List Value) : Keeps (unlessAdmitted e members m) := by
  unfold Inspection.unlessAdmitted
  split
  · exact h
  · split
    · exact Reports.pure
    · -- an event is logged, which the location does not show
      constructor
      · intro t t' ht
        exact h.accepted (t.log (.batchRejected t.location)) t' ht
      · intro t d t' ht
        exact h.stopped (t.log (.batchRejected t.location)) d t' ht

theorem closed_keeps : Closed Keeps where
  pure := Reports.pure
  stop _ _ _ := Reports.stop fun _ => trivial
  seq hm hn := hm.seq fun _ => hn
  below _ h := h.below fun _ _ _ => trivial
  tryForms _ _ _ _ h := Reports.tryForms (fun _ _ => trivial) fun f _ _ => h f
  unlessAdmitted e members h := h.unlessAdmitted e members

theorem inspectValue_keeps (v : Value) (s : Schema) : Keeps (inspectValue v s) :=
  closed_keeps.inspectValue v s

/-! ## The forms of a tuple -/

/-- Inspects the members of a tuple along one form. -/
def inspectForm (items : List Value) (f : TupleForm) : Inspector Unit :=
  if f.repeated then
    match f.items with
    | [] => pure ()
    | e :: _ => unlessAdmitted e items (inspectMembers (fun i _ => .index i) e 0 items)
  else inspectPositions 0 items f.items

theorem inspectForm_keeps (items : List Value) (f : TupleForm) : Keeps (inspectForm items f) := by
  have hmembers : ∀ v ∈ items, ∀ s, Keeps (inspectValue v s) := fun v _ => inspectValue_keeps v
  obtain ⟨schemas, repeated⟩ := f
  cases repeated with
  | false => exact closed_keeps.inspectPositions hmembers schemas 0
  | true =>
      cases schemas with
      | nil => exact Reports.pure
      | cons e more =>
          exact (closed_keeps.inspectMembers hmembers (fun i _ => .index i) e 0).unlessAdmitted e _

/-- Where forms are asked for, they are tried, and then the constraints follow. -/
theorem inspectValue_of_forms {kind : CollectionKind} {items : List Value} {s : Schema}
    {forms : List TupleForm} (asked : s.contents? (.collection kind) = some (.forms forms)) :
    inspectValue (.collection kind items) s =
      (tryForms s (.collection kind items) forms items.length (inspectForm items) >>= fun _ =>
        inspectConstraints s (.collection kind items) s.constraints) := by
  have hdeclares := declares_of_contents? asked
  have htag : (Value.collection kind items).tag = .collection kind := rfl
  have hsome : (Value.collection kind items).isNone = false := rfl
  rw [inspectValue]
  simp only [inspectWith, inspectType, hsome, hdeclares, htag, asked, Bool.false_and,
    Bool.false_eq_true, if_false]
  rfl

section Forms

variable {run : TupleForm → Inspector Unit} (h : ∀ f, Keeps (run f))
  (elsewhere : TupleForm → Inspector Unit)

include h

/-- Wherever below the tuple the last form stopped, the next one starts at the tuple. -/
theorem tryFurther_onlyAt (l : Location) (first : Violation) (forms : List TupleForm) (t : Trail)
    (ht : ∃ left, t.location = l.below left) :
    tryFurther (fun f => Inspector.onlyAt l (run f) (elsewhere f)) l.depth first forms t =
      tryFurther run l.depth first forms t := by
  induction forms generalizing t with
  | nil => rfl
  | cons f rest ih =>
      obtain ⟨left, hleft⟩ := ht
      have hback : (t.upTo l.depth).location = l := by
        show t.location.upTo l.depth = l
        rw [hleft, Location.upTo_below]
      simp only [tryFurther, Inspector.onlyAt_of_eq hback]
      cases hrun : run f (t.upTo l.depth) with
      | ok a u => rfl
      | error d u =>
          obtain ⟨further, _, hfurther, _⟩ := (h f).stopped _ d u hrun
          rw [hback] at hfurther
          exact ih u ⟨further, hfurther⟩

theorem tryForms_onlyAt (s : Schema) (value : Value) (forms : List TupleForm) (count : Nat)
    (t : Trail) :
    tryForms s value forms count (fun f => Inspector.onlyAt t.location (run f) (elsewhere f)) t =
      tryForms s value forms count run t := by
  unfold tryForms
  cases forms.filter (·.fits count) with
  | nil => rfl
  | cons f others =>
      simp only [Inspector.onlyAt_of_eq rfl]
      cases hrun : run f t with
      | ok a u => rfl
      | error first u =>
          obtain ⟨left, _, hleft, _⟩ := (h f).stopped t first u hrun
          exact tryFurther_onlyAt h elsewhere t.location first others u ⟨left, hleft⟩

end Forms

/-! ## Members one after the other -/

theorem inspectEach_eq_walk (e : Schema) (members : List (Step × Value)) :
    Guard.inspectEach e members = walkUnder e members := by
  induction members with
  | nil => rfl
  | cons p rest ih =>
      rw [Guard.inspectEach, ih]
      rfl

theorem walk_onlyAt (e : Schema) (members : List (Step × Value))
    (elsewhere : Step × Value → Inspector Unit) (t : Trail) :
    walk (members.map fun p =>
      (p.1, Inspector.onlyAt (t.location.down p.1) (inspectValue p.2 e) (elsewhere p))) t =
      walkUnder e members t := by
  induction members generalizing t with
  | nil => rfl
  | cons p rest ih =>
      have hbelow : Inspector.below p.1
          (Inspector.onlyAt (t.location.down p.1) (inspectValue p.2 e) (elsewhere p)) t =
            Inspector.below p.1 (inspectValue p.2 e) t := by
        have hdown : (t.down p.1).location = t.location.down p.1 := rfl
        simp only [Inspector.below, Inspector.onlyAt_of_eq hdown]
      rw [walkUnder, List.map_cons, List.map_cons, walk, walk, bind_eq, bind_eq, EStateM.bind,
        EStateM.bind, hbelow]
      cases hp : Inspector.below p.1 (inspectValue p.2 e) t with
      | error d u => rfl
      | ok a u =>
          -- the next member starts where this one did
          have hback := (closed_keeps.below p.1 (inspectValue_keeps p.2 e)).accepted t u hp
          rw [← hback]
          exact ih u

end Inspection

/-- An inspection that accepts is back at the location where it started. One
    that stops has gone down from there, and so has the violation it reports.
    Hence all forms of a tuple are tried at the location of the tuple, and all
    members of a loop are inspected one step below the location of the loop:
    whatever would be done elsewhere, it is not done. -/
theorem inspection_keeps_location :
    (∀ (v : Value) (s : Schema) (l : Location), Verdict.KeepsTo l (inspectAt v s l)) ∧
    (∀ (kind : CollectionKind) (items : List Value) (s : Schema) (forms : List TupleForm),
      s.contents? (.collection kind) = some (.forms forms) →
      ∀ (elsewhere : TupleForm → Inspector Unit) (t : Trail),
        Inspection.inspectValue (.collection kind items) s t =
          (Inspection.tryForms s (.collection kind items) forms items.length
              (fun f => Inspector.onlyAt t.location (Inspection.inspectForm items f) (elsewhere f))
            >>= fun _ =>
              Inspection.inspectConstraints s (.collection kind items) s.constraints) t) ∧
    (∀ (s : Schema) (members : List (Step × Value)) (elsewhere : Step × Value → Inspector Unit)
      (t : Trail),
        Guard.inspectEach s members t =
          Inspection.walk (members.map fun p => (p.1, Inspector.onlyAt (t.location.down p.1)
            (Inspection.inspectValue p.2 s) (elsewhere p))) t) := by
  refine ⟨fun v s l => ?_, fun kind items s forms asked elsewhere t => ?_,
    fun s members elsewhere t => ?_⟩
  · have hkeeps := Inspection.inspectValue_keeps v s
    cases h : inspectAt v s l with
    | ok a t => exact hkeeps.accepted (.start l) t h
    | error d t =>
        obtain ⟨left, found, hleft, hfound, _⟩ := hkeeps.stopped (.start l) d t h
        exact ⟨hleft ▸ l.within_below left, hfound ▸ l.within_below found⟩
  · have htried := Inspection.tryForms_onlyAt (Inspection.inspectForm_keeps items) elsewhere s
      (.collection kind items) forms items.length t
    rw [Inspection.inspectValue_of_forms asked, Inspection.bind_eq, Inspection.bind_eq,
      EStateM.bind, EStateM.bind, htried]
  · rw [Inspection.inspectEach_eq_walk, Inspection.walk_onlyAt]

/-- The first form stops at the second member and leaves the location there; the
    second form starts at the tuple again and accepts. -/
theorem inspection_keeps_location_second_form :
    ∃ s f g, s.contents? (.collection .tuple) = some (.forms [f, g]) ∧
      Verdict.trail (Inspection.inspectForm [.int 1, .int 2] f (.start (.ofRoot "x"))) =
        .start ⟨"x", [.index 1]⟩ ∧
      inspectAt (.collection .tuple [.int 1, .int 2]) s (.ofRoot "x") =
        .ok () (.start (.ofRoot "x")) ∧
      ∀ elsewhere : TupleForm → Inspector Unit,
        Inspection.inspectValue (.collection .tuple [.int 1, .int 2]) s (.start (.ofRoot "x")) =
          (Inspection.tryForms s (.collection .tuple [.int 1, .int 2]) [f, g] 2 (fun f =>
              Inspector.onlyAt (.ofRoot "x") (Inspection.inspectForm [.int 1, .int 2] f)
                (elsewhere f)) >>= fun _ =>
            Inspection.inspectConstraints s (.collection .tuple [.int 1, .int 2]) s.constraints)
            (.start (.ofRoot "x")) := by
  refine ⟨.ofTag (.collection .tuple) (.forms [.fixed [.bare .int, .bare .str],
    .fixed [.bare .int, .bare .int]]), _, _, rfl, ?_, ?_, fun elsewhere => ?_⟩
  · with_unfolding_all rfl
  · with_unfolding_all rfl
  · exact inspection_keeps_location.2.1 .tuple _ _ _ rfl elsewhere _

end Conform

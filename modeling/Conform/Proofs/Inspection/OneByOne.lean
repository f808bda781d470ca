/-
  Conform.Proofs.Inspection.OneByOne

  The inspection that never tests members all at once, and the agreement of the
  inspection proper with it: for every value, schema and location both come to
  the same verdict, with the same violation, and leave the same location
  behind. Only the reported events differ.

  The proof compares inspectors that start at one location with different
  events (`Agree`). Every way to build an inspector respects the comparison, so
  the one step that is not routine is `Agree.unlessAdmitted`: when the tags of
  all members are admitted by a schema that tags decide, the walk over the
  members accepts each of them and comes back to where it started.
-/

import Conform.Inspection.Basic
import Conform.Proofs.Value.Members

namespace Conform

namespace Inspection

/-! ## Members one by one -/

mutual

/-- Inspects a value against a schema, always member by member. -/
def inspectPlainly : Value → Schema → Inspector Unit
  | .collection kind items, s =>
      inspectWith s (.collection kind items) fun
        | .free => pure ()
        | .each e => plainMembers (memberStep kind) e 0 items
        | .entries _ _ => pure ()
        | .forms forms =>
            tryForms s (.collection kind items) forms items.length fun f =>
              if f.repeated then
                match f.items with
                | [] => pure ()
                | e :: _ => plainMembers (fun i _ => .index i) e 0 items
              else plainPositions 0 items f.items
  | .dict entries, s =>
      inspectWith s (.dict entries) fun
        | .free => pure ()
        | .each _ => pure ()
        | .entries k e => do
            plainKeys k entries
            plainEntries e entries
        | .forms forms => tryForms s (.dict entries) forms 0 fun _ => pure ()
  | value, s =>
      inspectWith s value fun
        | .forms forms => tryForms s value forms 0 fun _ => pure ()
        | _ => pure ()

/-- Inspects members against one schema, numbering them from `i`. -/
def plainMembers (step : Nat → Value → Step) (e : Schema) (i : Nat) :
    List Value → Inspector Unit
  | [] => pure ()
  | v :: rest => do
      Inspector.below (step i v) (inspectPlainly v e)
      plainMembers step e (i + 1) rest

/-- Inspects members position by position, numbering them from `i`. -/
def plainPositions (i : Nat) : List Value → List Schema → Inspector Unit
  | v :: rest, e :: more => do
      Inspector.below (.index i) (inspectPlainly v e)
      plainPositions (i + 1) rest more
  | _, _ => pure ()

/-- Inspects the keys of entries. -/
def plainKeys (k : Schema) : List (Value × Value) → Inspector Unit
  | [] => pure ()
  | (key, _) :: rest => do
      Inspector.below (.key key.repr) (inspectPlainly key k)
      plainKeys k rest

/-- Inspects the values of entries. -/
def plainEntries (e : Schema) : List (Value × Value) → Inspector Unit
  | [] => pure ()
  | (key, value) :: rest => do
      Inspector.below (.entry key.repr) (inspectPlainly value e)
      plainEntries e rest

end

/-- Inspects the members of a tuple along one form. -/
def plainForm (items : List Value) (f : TupleForm) : Inspector Unit :=
  if f.repeated then
    match f.items with
    | [] => pure ()
    | e :: _ => plainMembers (fun i _ => .index i) e 0 items
  else plainPositions 0 items f.items

end Inspection

/-- The verdict of the inspection that goes member by member. -/
def inspectPlainlyAt (value : Value) (s : Schema) (location : Location) : Verdict :=
  Inspection.inspectPlainly value s (.start location)

/-- A verdict without the events that were reported on the way. -/
def Verdict.withoutEvents : Verdict → EStateM.Result Violation Location Unit
  | .ok () t => .ok () t.location
  | .error v t => .error v t.location

namespace Inspection

/-! ## Walks along steps -/

/-- Runs inspectors one after the other, each one step down. -/
def walk : List (Step × Inspector Unit) → Inspector Unit
  | [] => pure ()
  | (step, member) :: rest => do
      Inspector.below step member
      walk rest

/-- The walk over values under one schema. -/
def walkUnder (e : Schema) (ps : List (Step × Value)) : Inspector Unit :=
  walk (ps.map fun p => (p.1, inspectValue p.2 e))

/-- The same walk, with every value inspected member by member. -/
def walkPlainly (e : Schema) (ps : List (Step × Value)) : Inspector Unit :=
  walk (ps.map fun p => (p.1, inspectPlainly p.2 e))

/-- Whatever goes through a list step by step is a walk. -/
theorem eq_walk {α : Type} {f : List α → Inspector Unit} {step : α → Step}
    {member : α → Inspector Unit} (hnil : f [] = pure ())
    (hcons : ∀ a rest, f (a :: rest) = Inspector.below (step a) (member a) >>= fun _ => f rest)
    (l : List α) : f l = walk (l.map fun a => (step a, member a)) := by
  induction l with
  | nil => exact hnil
  | cons a rest ih =>
      rw [hcons, ih]
      rfl

section Walks

variable (step : Nat → Value → Step) (e : Schema) (i : Nat) (items : List Value)
  (entries : List (Value × Value))

theorem inspectMembers_eq_walk : inspectMembers step e i items =
    walkUnder e ((items.zipIdx i).map fun p => (step p.2 p.1, p.1)) := by
  induction items generalizing i with
  | nil => rfl
  | cons v rest ih =>
      rw [inspectMembers, ih]
      rfl

theorem plainMembers_eq_walk : plainMembers step e i items =
    walkPlainly e ((items.zipIdx i).map fun p => (step p.2 p.1, p.1)) := by
  induction items generalizing i with
  | nil => rfl
  | cons v rest ih =>
      rw [plainMembers, ih]
      rfl

theorem inspectKeys_eq_walk :
    inspectKeys e entries = walkUnder e (entries.map fun p => (.key p.1.repr, p.1)) := by
  rw [walkUnder, List.map_map]
  exact eq_walk rfl (fun _ _ => rfl) entries

theorem plainKeys_eq_walk :
    plainKeys e entries = walkPlainly e (entries.map fun p => (.key p.1.repr, p.1)) := by
  rw [walkPlainly, List.map_map]
  exact eq_walk rfl (fun _ _ => rfl) entries

theorem inspectEntries_eq_walk :
    inspectEntries e entries = walkUnder e (entries.map fun p => (.entry p.1.repr, p.2)) := by
  rw [walkUnder, List.map_map]
  exact eq_walk rfl (fun _ _ => rfl) entries

theorem plainEntries_eq_walk :
    plainEntries e entries = walkPlainly e (entries.map fun p => (.entry p.1.repr, p.2)) := by
  rw [walkPlainly, List.map_map]
  exact eq_walk rfl (fun _ _ => rfl) entries

end Walks

/-! ## Agreement up to events -/

/-- Started at one location, two inspectors come to the same verdict and leave
    the same location, whatever events were reported before. -/
def Agree (m n : Inspector Unit) : Prop :=
  ∀ t u : Trail, t.location = u.location →
    Verdict.withoutEvents (m t) = Verdict.withoutEvents (n u)

namespace Agree

variable {m n m' n' : Inspector Unit}

theorem pure : Agree (pure ()) (pure ()) := by
  intro t u h
  exact congrArg (EStateM.Result.ok ()) h

theorem stop (s : Schema) (value : Value) (cause : ViolationCause) :
    Agree (Inspector.stop s value cause) (Inspector.stop s value cause) := by
  intro t u h
  simp only [Inspector.stop, Verdict.withoutEvents, h]

/-- What equal verdicts without events say about the verdicts themselves. -/
theorem cases (h : Agree m n) {t u : Trail} (htu : t.location = u.location) :
    (∃ t' u', m t = .ok () t' ∧ n u = .ok () u' ∧ t'.location = u'.location) ∨
      ∃ v t' u', m t = .error v t' ∧ n u = .error v u' ∧ t'.location = u'.location := by
  have key := h t u htu
  cases hm : m t with
  | ok a t' =>
      cases hn : n u with
      | ok b u' =>
          rw [hm, hn] at key
          exact Or.inl ⟨t', u', rfl, rfl, by simpa [Verdict.withoutEvents] using key⟩
      | error w u' =>
          rw [hm, hn] at key
          simp [Verdict.withoutEvents] at key
  | error v t' =>
      cases hn : n u with
      | ok b u' =>
          rw [hm, hn] at key
          simp [Verdict.withoutEvents] at key
      | error w u' =>
          rw [hm, hn] at key
          simp only [Verdict.withoutEvents, EStateM.Result.error.injEq] at key
          obtain ⟨rfl, hl⟩ := key
          exact Or.inr ⟨v, t', u', rfl, rfl, hl⟩

theorem seq (h : Agree m n) (h' : Agree m' n') :
    Agree (m >>= fun _ => m') (n >>= fun _ => n') := by
  intro t u htu
  show Verdict.withoutEvents (EStateM.bind m (fun _ => m') t) =
    Verdict.withoutEvents (EStateM.bind n (fun _ => n') u)
  rcases h.cases htu with ⟨t', u', hm, hn, hl⟩ | ⟨v, t', u', hm, hn, hl⟩
  · simp only [EStateM.bind, hm, hn]
    exact h' t' u' hl
  · simp only [EStateM.bind, hm, hn, Verdict.withoutEvents, hl]

theorem below (step : Step) (h : Agree m n) :
    Agree (Inspector.below step m) (Inspector.below step n) := by
  intro t u htu
  have hdown : (t.down step).location = (u.down step).location := by
    simp only [Trail.down, htu]
  rcases h.cases hdown with ⟨t', u', hm, hn, hl⟩ | ⟨v, t', u', hm, hn, hl⟩
  · simp only [Inspector.below, hm, hn, Verdict.withoutEvents, Trail.up, hl]
  · simp only [Inspector.below, hm, hn, Verdict.withoutEvents, hl]

theorem tryFurther {run run' : TupleForm → Inspector Unit} (depth : Nat) (first : Violation)
    (forms : List TupleForm) (h : ∀ f, Agree (run f) (run' f)) :
    Agree (tryFurther run depth first forms) (tryFurther run' depth first forms) := by
  induction forms with
  | nil =>
      intro t u htu
      simp only [Inspection.tryFurther, Verdict.withoutEvents, htu]
  | cons f rest ih =>
      intro t u htu
      have hup : (t.upTo depth).location = (u.upTo depth).location := by
        simp only [Trail.upTo, htu]
      rcases (h f).cases hup with ⟨t', u', hm, hn, hl⟩ | ⟨v, t', u', hm, hn, hl⟩
      · simp only [Inspection.tryFurther, hm, hn, Verdict.withoutEvents, hl]
      · simp only [Inspection.tryFurther, hm, hn]
        exact ih t' u' hl

theorem tryForms {run run' : TupleForm → Inspector Unit} (s : Schema) (value : Value)
    (forms : List TupleForm) (count : Nat) (h : ∀ f, Agree (run f) (run' f)) :
    Agree (tryForms s value forms count run) (tryForms s value forms count run') := by
  intro t u htu
  cases hf : forms.filter (·.fits count) with
  | nil =>
      simp only [Inspection.tryForms, hf]
      exact Agree.stop s value _ t u htu
  | cons f others =>
      rcases (h f).cases htu with ⟨t', u', hm, hn, hl⟩ | ⟨v, t', u', hm, hn, hl⟩
      · simp only [Inspection.tryForms, hf, hm, hn, Verdict.withoutEvents, hl]
      · simp only [Inspection.tryForms, hf, hm, hn, htu]
        exact Agree.tryFurther _ v others h t' u' hl

theorem inspectConstraints (s : Schema) (value : Value) (cs : List Constraint) :
    Agree (inspectConstraints s value cs) (inspectConstraints s value cs) := by
  induction cs with
  | nil => exact Agree.pure
  | cons c rest ih =>
      cases h : c.unmet? value with
      | none =>
          simp only [Inspection.inspectConstraints, h]
          exact ih
      | some unmet =>
          simp only [Inspection.inspectConstraints, h]
          exact Agree.stop s value _

theorem inspectType {members members' : Contents → Inspector Unit} (s : Schema) (value : Value)
    (h : ∀ c, Agree (members c) (members' c)) :
    Agree (inspectType s value members) (inspectType s value members') := by
  unfold Inspection.inspectType
  cases s.contents? value.tag with
  | some contents => exact h contents
  | none =>
      by_cases hl : equalsLiteral s value = true
      · simp only [hl, if_true]
        exact Agree.pure
      · simp only [hl]
        exact Agree.stop s value _

theorem inspectWith {members members' : Contents → Inspector Unit} (s : Schema) (value : Value)
    (h : ∀ c, Agree (members c) (members' c)) :
    Agree (inspectWith s value members) (inspectWith s value members') := by
  unfold Inspection.inspectWith
  split
  · exact Agree.pure
  · split
    · exact Agree.inspectConstraints s value s.constraints
    · exact (Agree.inspectType s value h).seq (Agree.inspectConstraints s value s.constraints)

/-- The test of all members at once agrees with an inspection of each that comes
    back unchanged whenever the test succeeds. -/
theorem unlessAdmitted {e : Schema} {members : List Value} (h : Agree m n)
    (hall : e.decidedByTag = true → (∀ v ∈ members, e.admits v.tag = true) →
      ∀ u, n u = .ok () u) :
    Agree (unlessAdmitted e members m) n := by
  intro t u htu
  unfold Inspection.unlessAdmitted
  by_cases hd : e.decidedByTag = true
  · by_cases ha : (members.all fun v => e.admits v.tag) = true
    · rw [hall hd (List.all_eq_true.mp ha) u]
      simp only [hd, ha, Bool.not_true, Bool.false_eq_true, if_false, if_true,
        Verdict.withoutEvents, htu]
    · simp only [hd, ha, Bool.not_true, Bool.false_eq_true, if_false]
      exact h _ u htu
  · simp only [hd, Bool.not_false, if_true]
    exact h t u htu

end Agree

/-! ## Members that tags decide -/

theorem lookup?_of_decidedByTag {s : Schema} (hd : s.decidedByTag = true) {tag : TypeTag}
    {c : Contents} (h : s.lookup? tag = some c) : c = .free := by
  obtain ⟨_, _, halts, _⟩ := List.lookup_eq_some_iff.mp h
  simp only [Schema.decidedByTag, Bool.and_eq_true, List.all_eq_true] at hd
  have hfree : c.isFree = true := hd.2 (tag, c) (by simp [halts])
  cases c with
  | free => rfl
  | each e => simp [Contents.isFree] at hfree
  | entries k e => simp [Contents.isFree] at hfree
  | forms fs => simp [Contents.isFree] at hfree

/-- A schema that tags decide asks nothing of the values it admits. -/
theorem contents?_of_decidedByTag {s : Schema} (hd : s.decidedByTag = true) {tag : TypeTag}
    (ha : s.admits tag = true) : s.contents? tag = some .free := by
  unfold Schema.contents?
  cases h : s.lookup? tag with
  | some c =>
      rw [lookup?_of_decidedByTag hd h]
      rfl
  | none =>
      cases h' : s.lookup? .any with
      | some c =>
          rw [lookup?_of_decidedByTag hd h']
          rfl
      | none => simp [Schema.admits, h, h'] at ha

theorem constraints_of_decidedByTag {s : Schema} (hd : s.decidedByTag = true) :
    s.constraints = [] := by
  simp only [Schema.decidedByTag, Bool.and_eq_true, List.isEmpty_iff] at hd
  exact hd.1.2

theorem inspectWith_of_admitted {s : Schema} {value : Value} (hd : s.decidedByTag = true)
    (ha : s.admits value.tag = true) {members : Contents → Inspector Unit}
    (hfree : members .free = pure ()) (t : Trail) :
    inspectWith s value members t = .ok () t := by
  unfold inspectWith inspectType
  rw [contents?_of_decidedByTag hd ha, constraints_of_decidedByTag hd]
  split
  · rfl
  · split
    · rfl
    · show EStateM.bind (members .free) (fun _ => inspectConstraints s value []) t = .ok () t
      rw [hfree]
      rfl

theorem inspectPlainly_of_admitted {e : Schema} {v : Value} (hd : e.decidedByTag = true)
    (ha : e.admits v.tag = true) (t : Trail) : inspectPlainly v e t = .ok () t := by
  cases v <;> exact inspectWith_of_admitted hd ha rfl t

/-- Stepping down and back up leaves the trail as it was. -/
theorem up_down (t : Trail) (step : Step) : (t.down step).up = t := by
  simp [Trail.down, Trail.up, Location.down, Location.up]

theorem below_of_unchanged {m : Inspector Unit} (h : ∀ t, m t = .ok () t) (step : Step)
    (t : Trail) : Inspector.below step m t = .ok () t := by
  simp only [Inspector.below, h, up_down]

theorem seq_of_unchanged {m n : Inspector Unit} (hm : ∀ t, m t = .ok () t)
    (hn : ∀ t, n t = .ok () t) (t : Trail) : (m >>= fun _ => n) t = .ok () t := by
  show EStateM.bind m (fun _ => n) t = .ok () t
  simp only [EStateM.bind, hm, hn]

theorem walkPlainly_of_admitted {e : Schema} (hd : e.decidedByTag = true) {α : Type} {l : List α}
    {member : α → Value} (ha : ∀ a ∈ l, e.admits (member a).tag = true) (step : α → Step)
    (t : Trail) : walkPlainly e (l.map fun a => (step a, member a)) t = .ok () t := by
  induction l generalizing t with
  | nil => rfl
  | cons a rest ih =>
      obtain ⟨hfirst, hrest⟩ := List.forall_mem_cons.mp ha
      have hpassed := below_of_unchanged (inspectPlainly_of_admitted hd hfirst) (step a)
      exact seq_of_unchanged hpassed (ih hrest) t

/-! ## The walk over the members of a value -/

/-- The inspection of a value agrees with the one that goes member by member. -/
abbrev Plain (v : Value) : Prop := ∀ s : Schema, Agree (inspectValue v s) (inspectPlainly v s)

theorem walkUnder_agree {α : Type} {l : List α} {member : α → Value}
    (ih : ∀ a ∈ l, Plain (member a)) (step : α → Step) (e : Schema) :
    Agree (walkUnder e (l.map fun a => (step a, member a)))
      (walkPlainly e (l.map fun a => (step a, member a))) := by
  induction l with
  | nil => exact Agree.pure
  | cons a rest rec =>
      obtain ⟨ha, hrest⟩ := List.forall_mem_cons.mp ih
      exact ((ha e).below (step a)).seq (rec hrest)

/-- The walk over members that are first tested all at once. -/
theorem unlessAdmitted_walk_agree {α : Type} {l : List α} {member : α → Value}
    (ih : ∀ a ∈ l, Plain (member a)) (step : α → Step) (e : Schema) :
    Agree (unlessAdmitted e (l.map member) (walkUnder e (l.map fun a => (step a, member a))))
      (walkPlainly e (l.map fun a => (step a, member a))) :=
  (walkUnder_agree ih step e).unlessAdmitted fun hd ha =>
    walkPlainly_of_admitted hd (fun a h => ha (member a) (List.mem_map_of_mem h)) step

theorem inspectPositions_agree {items : List Value} (ih : ∀ v ∈ items, Plain v)
    (schemas : List Schema) (i : Nat) :
    Agree (inspectPositions i items schemas) (plainPositions i items schemas) := by
  induction items generalizing schemas i with
  | nil => exact Agree.pure
  | cons v rest rec =>
      cases schemas with
      | nil => exact Agree.pure
      | cons e more =>
          have hv := ih v List.mem_cons_self e
          have hrest := rec (fun w hw => ih w (List.mem_cons_of_mem v hw)) more (i + 1)
          exact (hv.below (.index i)).seq hrest

theorem inspectValue_agree_collection {kind : CollectionKind} {items : List Value}
    (ih : ∀ v ∈ items, Plain v) : Plain (.collection kind items) := by
  intro s
  have hloop (step : Nat → Value → Step) (e : Schema) :
      Agree (unlessAdmitted e items (inspectMembers step e 0 items))
        (plainMembers step e 0 items) := by
    have hnumbered : ∀ p ∈ items.zipIdx, Plain p.1 :=
      fun p hp => ih p.1 (List.fst_mem_of_mem_zipIdx hp)
    have hwalk := unlessAdmitted_walk_agree hnumbered (fun p => step p.2 p.1) e
    rwa [List.zipIdx_map_fst, ← inspectMembers_eq_walk, ← plainMembers_eq_walk] at hwalk
  refine Agree.inspectWith s _ fun c => ?_
  cases c with
  | free => exact Agree.pure
  | each e => exact hloop (memberStep kind) e
  | entries k e => exact Agree.pure
  | forms forms =>
      refine Agree.tryForms s _ forms items.length fun f => ?_
      obtain ⟨schemas, repeated⟩ := f
      cases repeated with
      | false => exact inspectPositions_agree ih schemas 0
      | true =>
          cases schemas with
          | nil => exact Agree.pure
          | cons e more => exact hloop (fun i _ => .index i) e

theorem inspectValue_agree_dict {entries : List (Value × Value)}
    (ih : ∀ p ∈ entries, Plain p.1 ∧ Plain p.2) : Plain (.dict entries) := by
  intro s
  refine Agree.inspectWith s _ fun c => ?_
  cases c with
  | free => exact Agree.pure
  | each e => exact Agree.pure
  | entries k e =>
      dsimp only
      rw [inspectKeys_eq_walk, inspectEntries_eq_walk, plainKeys_eq_walk, plainEntries_eq_walk]
      exact (unlessAdmitted_walk_agree (fun p hp => (ih p hp).1) _ k).seq
        (unlessAdmitted_walk_agree (fun p hp => (ih p hp).2) _ e)
  | forms forms => exact Agree.tryForms s _ forms 0 fun _ => Agree.pure

theorem inspectValue_agree (v : Value) : Plain v := by
  induction v using Value.induction_parts with
  | step v hmembers hpairs =>
      cases v with
      | collection kind items => exact inspectValue_agree_collection hmembers
      | dict entries => exact inspectValue_agree_dict hpairs
      | _ =>
          intro s
          refine Agree.inspectWith s _ fun c => ?_
          cases c with
          | forms forms => exact Agree.tryForms s _ forms 0 fun _ => Agree.pure
          | _ => exact Agree.pure

end Inspection

/-- Testing members all at once changes neither the verdict of an inspection
    nor the violation it reports nor the location it leaves behind. -/
theorem inspectAt_withoutEvents (value : Value) (s : Schema) (location : Location) :
    (inspectAt value s location).withoutEvents =
      (inspectPlainlyAt value s location).withoutEvents :=
  Inspection.inspectValue_agree value s (.start location) (.start location) rfl

end Conform

/-
  Conform.Proofs.Inspection.Acceptance

  Which values pass an inspection. Whether one does, depends on the value and
  the schema alone and not on where the inspection starts, and the rules for a
  single schema say which ones do (`passes_iff`).

  `Decides` ties an inspector to a proposition, one lemma for each way to build
  an inspector; the induction is then over the value. It runs over the walk
  that goes member by member, which agrees with the inspection proper.
-/

import Conform.Proofs.Inspection.OneByOne
import Conform.Proofs.Union.Rules

namespace Conform

/-- Whether a value passes the inspection at a root. -/
def passes (value : Value) (s : Schema) (root : String) : Bool :=
  match inspect value s root with
  | .ok _ _ => true
  | .error _ _ => false

namespace Inspection

/-! ## Inspectors that decide a proposition -/

/-- An inspector accepts exactly if a proposition holds, wherever it starts. -/
def Decides (m : Inspector Unit) (p : Prop) : Prop :=
  ∀ t, (∃ t', m t = .ok () t') ↔ p

namespace Decides

variable {m n : Inspector Unit} {p q : Prop}

theorem congr (h : Decides m p) (hpq : p ↔ q) : Decides m q :=
  fun t => (h t).trans hpq

theorem pure : Decides (pure ()) True :=
  fun t => ⟨fun _ => trivial, fun _ => ⟨t, rfl⟩⟩

theorem stop (s : Schema) (value : Value) (cause : ViolationCause) :
    Decides (Inspector.stop s value cause) False := by
  intro t
  simp [Inspector.stop]

theorem seq (hm : Decides m p) (hn : Decides n q) :
    Decides (m >>= fun _ => n) (p ∧ q) := by
  intro t
  show (∃ t', EStateM.bind m (fun _ => n) t = .ok () t') ↔ p ∧ q
  rw [← hm t]
  cases h : m t with
  | ok a t' =>
      simp only [EStateM.bind, h, hn t']
      exact ⟨fun hq => ⟨⟨t', rfl⟩, hq⟩, fun hq => hq.2⟩
  | error v t' => simp [EStateM.bind, h]

theorem below (step : Step) (h : Decides m p) : Decides (Inspector.below step m) p := by
  intro t
  rw [← h (t.down step)]
  cases hm : m (t.down step) with
  | ok a t' => simp [Inspector.below, hm]
  | error v t' => simp [Inspector.below, hm]

theorem tryFurther {run : TupleForm → Inspector Unit} {p : TupleForm → Prop}
    (h : ∀ f, Decides (run f) (p f)) (depth : Nat) (first : Violation)
    (forms : List TupleForm) :
    Decides (tryFurther run depth first forms) (∃ f ∈ forms, p f) := by
  induction forms with
  | nil =>
      intro t
      simp [Inspection.tryFurther]
  | cons f rest ih =>
      intro t
      have hf := h f (t.upTo depth)
      cases hrun : run f (t.upTo depth) with
      | ok a t' =>
          have hp : p f := hf.mp ⟨t', hrun⟩
          simp [Inspection.tryFurther, hrun, hp]
      | error v t' =>
          have hp : ¬ p f := fun hp => by simpa [hrun] using hf.mpr hp
          simp only [Inspection.tryFurther, hrun, ih t']
          simp [hp]

theorem tryForms {run : TupleForm → Inspector Unit} {p : TupleForm → Prop}
    (h : ∀ f, Decides (run f) (p f)) (s : Schema) (value : Value) (forms : List TupleForm)
    (count : Nat) :
    Decides (tryForms s value forms count run) (∃ f ∈ forms, f.fits count = true ∧ p f) := by
  intro t
  have hfilter : (∃ f ∈ forms, f.fits count = true ∧ p f) ↔
      ∃ f ∈ forms.filter (·.fits count), p f := by
    simp [and_assoc]
  rw [hfilter]
  cases hforms : forms.filter (·.fits count) with
  | nil => simp [Inspection.tryForms, hforms, Inspector.stop]
  | cons f others =>
      have hf := h f t
      cases hrun : run f t with
      | ok a t' =>
          have hp : p f := hf.mp ⟨t', hrun⟩
          simp [Inspection.tryForms, hforms, hrun, hp]
      | error v t' =>
          have hp : ¬ p f := fun hp => by simpa [hrun] using hf.mpr hp
          have hothers := tryFurther h t.location.depth v others t'
          simp only [Inspection.tryForms, hforms, hrun, hothers]
          simp [hp]

theorem inspectConstraints (s : Schema) (value : Value) (cs : List Constraint) :
    Decides (inspectConstraints s value cs) (∀ c ∈ cs, c.unmet? value = none) := by
  induction cs with
  | nil => exact Decides.pure.congr (by simp)
  | cons c rest ih =>
      cases h : c.unmet? value with
      | none =>
          simp only [Inspection.inspectConstraints, h]
          exact ih.congr (by simp [h])
      | some unmet =>
          simp only [Inspection.inspectConstraints, h]
          exact (Decides.stop s value _).congr (by simp [h])

theorem inspectType {members : Contents → Inspector Unit} {p : Contents → Prop}
    (h : ∀ c, Decides (members c) (p c)) (s : Schema) (value : Value) :
    Decides (inspectType s value members)
      ((∃ c, s.contents? value.tag = some c ∧ p c) ∨
        (s.contents? value.tag = none ∧ equalsLiteral s value = true)) := by
  unfold Inspection.inspectType
  cases s.contents? value.tag with
  | some c => exact (h c).congr (by simp)
  | none =>
      by_cases hl : equalsLiteral s value = true
      · simp only [hl, if_true]
        exact Decides.pure.congr (by simp)
      · simp only [hl]
        exact (Decides.stop s value _).congr (by simp)

theorem inspectWith {members : Contents → Inspector Unit} {p : Contents → Prop}
    (h : ∀ c, Decides (members c) (p c)) (s : Schema) (value : Value) :
    Decides (inspectWith s value members)
      ((value = .none ∧ .noneType ∈ s.tags) ∨
        ((s.constrainsOnly = true ∨ (∃ c, s.contents? value.tag = some c ∧ p c) ∨
          (s.contents? value.tag = none ∧ equalsLiteral s value = true)) ∧
          ∀ c ∈ s.constraints, c.unmet? value = none)) := by
  have hnone : (value.isNone && s.tags.contains .noneType) = true ↔
      value = .none ∧ .noneType ∈ s.tags := by
    cases value <;> simp [Value.isNone]
  unfold Inspection.inspectWith
  split
  next hn => exact Decides.pure.congr (by simp [hnone.mp hn])
  next hn =>
    rw [hnone] at hn
    split
    next ho =>
      exact (Decides.inspectConstraints s value s.constraints).congr (by simp [hn, ho])
    next ho =>
      have hdecides := (Decides.inspectType h s value).seq
        (Decides.inspectConstraints s value s.constraints)
      exact hdecides.congr (by simp [hn, ho])

end Decides

/-! ## The members of a value -/

/-- Inspects what is asked of the members of a value, member by member. -/
def plainContents (s : Schema) : Value → Contents → Inspector Unit
  | .collection kind items, c => match c with
      | .free => pure ()
      | .each e => plainMembers (memberStep kind) e 0 items
      | .entries _ _ => pure ()
      | .forms forms =>
          tryForms s (.collection kind items) forms items.length fun f =>
            if f.repeated then
              match f.items with
              | [] => pure ()
              | e :: _ => plainMembers (fun i _ => .index i) e 0 items
            else plainPositions 0 items f.items
  | .dict entries, c => match c with
      | .free => pure ()
      | .each _ => pure ()
      | .entries k e => do
          plainKeys k entries
          plainEntries e entries
      | .forms forms => tryForms s (.dict entries) forms 0 fun _ => pure ()
  | v, c => match c with
      | .forms forms => tryForms s v forms 0 fun _ => pure ()
      | _ => pure ()

theorem inspectPlainly_eq (v : Value) (s : Schema) :
    inspectPlainly v s = inspectWith s v (plainContents s v) := by
  cases v <;> exact congrArg (inspectWith s _) (funext fun c => by cases c <;> rfl)

/-- The walk over a value decides the rules for a single schema. -/
abbrev Decided (v : Value) : Prop := ∀ s : Schema, Decides (inspectPlainly v s) (UnionAccepts {s} v)

theorem walkPlainly_decides {α : Type} {l : List α} {member : α → Value}
    (ih : ∀ a ∈ l, Decided (member a)) (step : α → Step) (e : Schema) :
    Decides (walkPlainly e (l.map fun a => (step a, member a)))
      (∀ a ∈ l, UnionAccepts {e} (member a)) := by
  induction l with
  | nil => exact Decides.pure.congr (by simp)
  | cons a rest rec =>
      obtain ⟨ha, hrest⟩ := List.forall_mem_cons.mp ih
      exact (((ha e).below (step a)).seq (rec hrest)).congr (by simp)

theorem plainMembers_decides {items : List Value} (ih : ∀ v ∈ items, Decided v)
    (step : Nat → Value → Step) (e : Schema) (i : Nat) :
    Decides (plainMembers step e i items) (∀ v ∈ items, UnionAccepts {e} v) := by
  rw [plainMembers_eq_walk]
  have hnumbered : ∀ p ∈ items.zipIdx i, Decided p.1 :=
    fun p hp => ih p.1 (List.fst_mem_of_mem_zipIdx hp)
  refine (walkPlainly_decides hnumbered (fun p => step p.2 p.1) e).congr ?_
  rw [← List.forall_mem_map (f := Prod.fst), List.zipIdx_map_fst]

theorem plainPositions_decides {items : List Value} (ih : ∀ v ∈ items, Decided v)
    (schemas : List Schema) (i : Nat) :
    Decides (plainPositions i items schemas)
      (∀ (j : Nat) v e, items[j]? = some v → schemas[j]? = some e → UnionAccepts {e} v) := by
  induction items generalizing schemas i with
  | nil => exact Decides.pure.congr (by simp)
  | cons v rest rec =>
      cases schemas with
      | nil => exact Decides.pure.congr (by simp)
      | cons e more =>
          have hv := (ih v List.mem_cons_self e).below (.index i)
          have hrest := rec (fun w hw => ih w (List.mem_cons_of_mem v hw)) more (i + 1)
          refine (hv.seq hrest).congr ⟨?_, ?_⟩
          · rintro ⟨hhead, htail⟩ j w d hw hd
            cases j with
            | zero =>
                simp only [List.getElem?_cons_zero, Option.some.injEq] at hw hd
                rw [← hw, ← hd]
                exact hhead
            | succ j =>
                rw [List.getElem?_cons_succ] at hw hd
                exact htail j w d hw hd
          · intro hall
            refine ⟨hall 0 v e rfl rfl, fun j w d hw hd => hall (j + 1) w d ?_ ?_⟩
            · rw [List.getElem?_cons_succ, hw]
            · rw [List.getElem?_cons_succ, hd]

/-- Deciding what is asked of members decides the rules. -/
theorem inspectWith_decides {v : Value} {members : Contents → Inspector Unit}
    (h : ∀ c, Decides (members c) (MembersAccepted {c} v)) (s : Schema) :
    Decides (inspectWith s v members) (UnionAccepts {s} v) :=
  (Decides.inspectWith h s v).congr unionAccepts_singleton_iff.symm

/-- A value without members fits the forms that are of length zero. -/
theorem tryForms_decides_of_no_members {v : Value} (hv : v.members = []) (s : Schema)
    (forms : List TupleForm) :
    Decides (tryForms s v forms 0 fun _ => pure ()) (MembersAccepted {.forms forms} v) := by
  refine (Decides.tryForms (fun _ => Decides.pure) s v forms 0).congr ?_
  rw [membersAccepted_forms]
  simp [FormAccepts, hv]

/-- The walk along one form decides what the form asks of each position. -/
theorem form_decides {items : List Value} (ih : ∀ v ∈ items, Decided v) (f : TupleForm) :
    Decides (plainForm items f)
      (∀ j v e, items[j]? = some v → f.itemAt? j = some e → UnionAccepts {e} v) := by
  obtain ⟨schemas, repeated⟩ := f
  cases repeated with
  | false => exact plainPositions_decides ih schemas 0
  | true =>
      cases schemas with
      | nil => exact Decides.pure.congr (by simp [TupleForm.itemAt?])
      | cons e more =>
          refine (plainMembers_decides ih (fun i _ => .index i) e 0).congr ⟨?_, ?_⟩
          · intro hall j v d hv hd
            obtain rfl : e = d := by simpa [TupleForm.itemAt?] using hd
            exact hall v (List.mem_of_getElem? hv)
          · intro hall v hv
            obtain ⟨j, hj⟩ := List.mem_iff_getElem?.mp hv
            exact hall j v e hj rfl

theorem plainContents_decides_collection {kind : CollectionKind} {items : List Value}
    (ih : ∀ v ∈ items, Decided v) (s : Schema) (c : Contents) :
    Decides (plainContents s (.collection kind items) c)
      (MembersAccepted {c} (.collection kind items)) := by
  cases c with
  | free => exact Decides.pure.congr (by simp)
  | each e =>
      rw [membersAccepted_each]
      exact plainMembers_decides ih (memberStep kind) e 0
  | entries k e => exact Decides.pure.congr (by simp [membersAccepted_entries])
  | forms forms =>
      rw [membersAccepted_forms]
      exact Decides.tryForms (form_decides ih) s _ forms items.length

theorem plainContents_decides_dict {entries : List (Value × Value)}
    (ih : ∀ p ∈ entries, Decided p.1 ∧ Decided p.2) (s : Schema) (c : Contents) :
    Decides (plainContents s (.dict entries) c) (MembersAccepted {c} (.dict entries)) := by
  cases c with
  | free => exact Decides.pure.congr (by simp)
  | each e => exact Decides.pure.congr (by simp [membersAccepted_each])
  | entries k e =>
      rw [membersAccepted_entries]
      simp only [plainContents, plainKeys_eq_walk, plainEntries_eq_walk]
      exact (walkPlainly_decides (fun p hp => (ih p hp).1) _ k).seq
        (walkPlainly_decides (fun p hp => (ih p hp).2) _ e)
  | forms forms => exact tryForms_decides_of_no_members rfl s forms

/-- What is asked of members is decided if the walk over each member decides. -/
theorem plainContents_decides {v : Value} (hmembers : ∀ w ∈ v.members, Decided w)
    (hpairs : ∀ p ∈ v.pairs, Decided p.1 ∧ Decided p.2) (s : Schema) (c : Contents) :
    Decides (plainContents s v c) (MembersAccepted {c} v) := by
  cases v with
  | collection kind items => exact plainContents_decides_collection hmembers s c
  | dict entries => exact plainContents_decides_dict hpairs s c
  | _ =>
      cases c with
      | free => exact Decides.pure.congr (by simp)
      | each e => exact Decides.pure.congr (by simp [membersAccepted_each, Value.members,
          Value.elements?])
      | entries k e => exact Decides.pure.congr (by simp [membersAccepted_entries,
          Value.pairs, Value.entries?])
      | forms forms => exact tryForms_decides_of_no_members rfl s forms

theorem inspectPlainly_decides (v : Value) : Decided v := by
  induction v using Value.induction_parts with
  | step v hmembers hpairs =>
      intro s
      rw [inspectPlainly_eq]
      exact inspectWith_decides (plainContents_decides hmembers hpairs s) s

theorem inspectValue_decides (v : Value) (s : Schema) :
    Decides (inspectValue v s) (UnionAccepts {s} v) := by
  intro t
  rw [← inspectPlainly_decides v s t]
  rcases (inspectValue_agree v s).cases rfl with ⟨t', u', hm, hn, _⟩ | ⟨_, t', u', hm, hn, _⟩
  · exact ⟨fun _ => ⟨u', hn⟩, fun _ => ⟨t', hm⟩⟩
  · constructor
    · rintro ⟨_, hok⟩
      cases hm.symm.trans hok
    · rintro ⟨_, hok⟩
      cases hn.symm.trans hok

end Inspection

/-- A value passes an inspection exactly if the rules for the schema accept it,
    whatever the root. -/
theorem passes_iff {v : Value} {s : Schema} {root : String} :
    passes v s root = true ↔ UnionAccepts {s} v := by
  rw [← Inspection.inspectValue_decides v s (.start (.ofRoot root))]
  unfold passes inspect inspectAt
  cases Inspection.inspectValue v s (.start (.ofRoot root)) with
  | ok a t => simp
  | error e t => simp

end Conform

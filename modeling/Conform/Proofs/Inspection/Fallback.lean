/-
  Conform.Proofs.Inspection.Fallback

  What the event of a failed test of tags announces. Under the schema of a
  declaration in which no tuple has alternative forms, an inspection reports it
  at most once, only when it goes on to stop, and what stops it is the type of
  one of the members that the event speaks of.

  The event is reported before the member at fault is looked for, so two things
  are needed: that there is one (`Mismatches.walk`), because a schema that tags
  decide and that declares something refuses every tag it does not list; and
  that nothing runs after it, for which inspectors are compared by what they
  add to the events (`Telling`). Alternative forms are the one place where an
  inspection goes on after a member was refused.
-/

import Conform.Proofs.Inspection.OneByOne
import Conform.Proofs.Schema.WellFormed

namespace Conform

/-- Whatever is asked of a tuple is asked in one form. -/
def Schema.SingleForm (s : Schema) : Prop :=
  ∀ k fs, (k, .forms fs) ∈ s.alternatives → ∃ f, fs = [f]

theorem Schema.singleForm_ofTag {tag : TypeTag} {c : Contents}
    (h : ∀ fs, c = .forms fs → ∃ f, fs = [f]) : (ofTag tag c).SingleForm := by
  intro k fs hmem
  have hpair : (k, Contents.forms fs) = (tag, c) := List.mem_singleton.mp hmem
  exact h fs (congrArg Prod.snd hpair).symm

namespace Inspection

/-! ## Inspectors that tell of their mismatches only -/

/-- An inspector reports nothing when it accepts. When it stops it may have
    reported one event, and then some member at the place of that event has the
    wrong type. -/
structure Telling (m : Inspector Unit) : Prop where
  accepted : ∀ t t', m t = .ok () t' → t'.events = t.events
  stopped : ∀ t d t', m t = .error d t' → t'.events = t.events ∨
    ∃ place step, t'.events = t.events ++ [.batchRejected place] ∧
      d.cause = .typeMismatch ∧ d.location = place.down step

/-- An inspector reports nothing and stops at the type of a member. -/
def Mismatches (m : Inspector Unit) : Prop :=
  ∀ t, ∃ d step t', m t = .error d t' ∧ t'.events = t.events ∧
    d.cause = .typeMismatch ∧ d.location = t.location.down step

theorem bind_eq (m n : Inspector Unit) (t : Trail) :
    (m >>= fun _ => n) t = EStateM.bind m (fun _ => n) t := rfl

namespace Telling

variable {m n : Inspector Unit}

theorem pure : Telling (pure ()) where
  accepted t t' ht := by
    cases ht
    rfl
  stopped t d t' ht := by cases ht

theorem stop (s : Schema) (value : Value) (cause : ViolationCause) :
    Telling (Inspector.stop s value cause) where
  accepted t t' ht := by cases ht
  stopped t d t' ht := by
    cases ht
    exact Or.inl rfl

/-- What runs second finds the events as they were at the start. -/
theorem seq (hm : Telling m) (hn : Telling n) : Telling (m >>= fun _ => n) where
  accepted t t' ht := by
    rw [bind_eq, EStateM.bind] at ht
    cases hmt : m t with
    | ok a u =>
        rw [hmt] at ht
        rw [hn.accepted u t' ht, hm.accepted t u hmt]
    | error d u => simp [hmt] at ht
  stopped t d t' ht := by
    rw [bind_eq, EStateM.bind] at ht
    cases hmt : m t with
    | ok a u =>
        rw [hmt] at ht
        rw [← hm.accepted t u hmt]
        exact hn.stopped u d t' ht
    | error e u =>
        rw [hmt] at ht
        cases ht
        exact hm.stopped t d t' hmt

theorem below (step : Step) (hm : Telling m) : Telling (Inspector.below step m) where
  accepted t t' ht := by
    unfold Inspector.below at ht
    cases hmt : m (t.down step) with
    | ok a u =>
        rw [hmt] at ht
        cases ht
        exact hm.accepted (t.down step) u hmt
    | error d u => simp [hmt] at ht
  stopped t d t' ht := by
    unfold Inspector.below at ht
    cases hmt : m (t.down step) with
    | ok a u => simp [hmt] at ht
    | error e u =>
        rw [hmt] at ht
        cases ht
        exact hm.stopped (t.down step) d t' hmt

/-- With one form there is nothing to try after a failure. -/
theorem tryForms {run : TupleForm → Inspector Unit} (s : Schema) (value : Value) (f : TupleForm)
    (count : Nat) (h : Telling (run f)) : Telling (tryForms s value [f] count run) := by
  cases hfits : f.fits count with
  | false =>
      have hstop : Inspection.tryForms s value [f] count run =
          Inspector.stop s value (.lengthMismatch (nearestLength [f] count) count) := by
        funext t
        simp [Inspection.tryForms, hfits]
      rw [hstop]
      exact Telling.stop s value _
  | true =>
      have hrun : Inspection.tryForms s value [f] count run = run f := by
        funext t
        simp only [Inspection.tryForms, List.filter_cons, hfits, if_true, List.filter_nil,
          Inspection.tryFurther]
        cases run f t with
        | ok a u => rfl
        | error d u => rfl
      rw [hrun]
      exact h

theorem inspectConstraints (s : Schema) (value : Value) (cs : List Constraint) :
    Telling (inspectConstraints s value cs) := by
  induction cs with
  | nil => exact Telling.pure
  | cons c rest ih =>
      unfold Inspection.inspectConstraints
      cases c.unmet? value with
      | none => exact ih
      | some unmet => exact Telling.stop s value _

theorem inspectWith {s : Schema} {value : Value} {members : Contents → Inspector Unit}
    (h : ∀ c, s.contents? value.tag = some c → Telling (members c)) :
    Telling (inspectWith s value members) := by
  have htype : Telling (inspectType s value members) := by
    unfold inspectType
    cases hc : s.contents? value.tag with
    | some c => exact h c hc
    | none =>
        dsimp only
        split
        · exact Telling.pure
        · exact Telling.stop s value _
  have hconstraints := Telling.inspectConstraints s value s.constraints
  unfold Inspection.inspectWith
  split
  · exact Telling.pure
  · split
    · exact hconstraints
    · exact htype.seq hconstraints

/-- The event of a failed test is followed by the mismatch that it announces. -/
theorem unlessAdmitted {e : Schema} {members : List Value} (hm : Telling m)
    (hrefused : e.decidedByTag = true → (∃ v ∈ members, e.admits v.tag = false) → Mismatches m) :
    Telling (unlessAdmitted e members m) := by
  cases hd : e.decidedByTag with
  | false =>
      have hplain : Inspection.unlessAdmitted e members m = m := by
        funext t
        simp [Inspection.unlessAdmitted, hd]
      rw [hplain]
      exact hm
  | true =>
      cases hall : members.all fun v => e.admits v.tag with
      | true =>
          have hnothing : Inspection.unlessAdmitted e members m = Pure.pure () := by
            funext t
            simp only [Inspection.unlessAdmitted, hd, hall]
            rfl
          rw [hnothing]
          exact Telling.pure
      | false =>
          have hsome : ∃ v ∈ members, e.admits v.tag = false := by
            simpa [List.all_eq_false] using hall
          have hlogged (t : Trail) : Inspection.unlessAdmitted e members m t =
              m (t.log (.batchRejected t.location)) := by
            simp [Inspection.unlessAdmitted, hd, hall]
          -- the log carries the place at which the members are then inspected
          have hfails (t : Trail) := hrefused hd hsome (t.log (.batchRejected t.location))
          constructor
          · intro t t' ht
            obtain ⟨d, step, u, hu, _⟩ := hfails t
            rw [hlogged, hu] at ht
            cases ht
          · intro t d t' ht
            obtain ⟨d', step, u, hu, hevents, hcause, hlocation⟩ := hfails t
            rw [hlogged, hu] at ht
            cases ht
            exact Or.inr ⟨t.location, step, hevents, hcause, hlocation⟩

end Telling

/-! ## Members one after the other -/

theorem Telling.walk {ps : List (Step × Inspector Unit)} (h : ∀ p ∈ ps, Telling p.2) :
    Telling (walk ps) := by
  induction ps with
  | nil => exact Telling.pure
  | cons p rest ih =>
      obtain ⟨hp, hrest⟩ := List.forall_mem_cons.mp h
      exact (hp.below p.1).seq (ih hrest)

theorem inspectPositions_eq_walk (i : Nat) (items : List Value) (schemas : List Schema) :
    inspectPositions i items schemas =
      walk (((items.zip schemas).zipIdx i).map fun p =>
        (.index p.2, inspectValue p.1.1 p.1.2)) := by
  induction items generalizing i schemas with
  | nil => rfl
  | cons v rest ih =>
      cases schemas with
      | nil => rfl
      | cons e more =>
          rw [inspectPositions, ih]
          rfl

/-! ## A failed test of tags -/

theorem inspectValue_of_admitted {e : Schema} {v : Value} (hd : e.decidedByTag = true)
    (ha : e.admits v.tag = true) (t : Trail) : inspectValue v e t = .ok () t := by
  cases v <;> exact inspectWith_of_admitted hd ha rfl t

section Refused

variable {e : Schema} (hdeclares : e.Declares) (hd : e.decidedByTag = true)
include hdeclares hd

/-- A schema that tags decide lists some tag, as it has nothing else to declare. -/
theorem constrainsOnly_of_decidedByTag : e.constrainsOnly = false := by
  simp only [Schema.decidedByTag, Bool.and_eq_true, Option.isNone_iff_eq_none] at hd
  obtain ⟨⟨hliterals, hconstraints⟩, _⟩ := hd
  rcases hdeclares with htags | ⟨ls, hls, _⟩ | hcs
  · have hsome : e.alternatives ≠ [] := fun h => htags (by rw [Schema.tags, h]; rfl)
    simp [Schema.constrainsOnly, hsome]
  · rw [hliterals] at hls
    cases hls
  · exact absurd (List.isEmpty_iff.mp hconstraints) hcs

theorem inspectWith_of_refused {v : Value} (ha : e.admits v.tag = false)
    (members : Contents → Inspector Unit) :
    inspectWith e v members = Inspector.stop e v .typeMismatch := by
  have honly := constrainsOnly_of_decidedByTag hdeclares hd
  simp only [Schema.admits, Bool.or_eq_false_iff, Option.isSome_eq_false_iff,
    Option.isNone_iff_eq_none] at ha
  -- where the tag of none is listed, none is admitted
  have hnone : (v.isNone && e.tags.contains .noneType) = false := by
    cases v with
    | none =>
        have hlookup : e.alternatives.lookup TypeTag.noneType = none := ha.1
        have habsent : TypeTag.noneType ∉ e.tags := by
          intro hmem
          obtain ⟨p, hp, hkey⟩ := List.mem_map.mp hmem
          have hno := List.lookup_eq_none_iff.mp hlookup p hp
          simp [hkey] at hno
        simpa [Value.isNone] using habsent
    | _ => rfl
  have hcontents : e.contents? v.tag = none := by
    rw [Schema.contents?, ha.1, ha.2]
    rfl
  have hliterals : equalsLiteral e v = false := by
    simp only [Schema.decidedByTag, Bool.and_eq_true, Option.isNone_iff_eq_none] at hd
    simp [equalsLiteral, hd.1.1]
  funext t
  rw [inspectWith, hnone, honly]
  simp only [Bool.false_eq_true, if_false, inspectType, hcontents, hliterals]
  rfl

theorem inspectValue_of_refused {v : Value} (ha : e.admits v.tag = false) :
    inspectValue v e = Inspector.stop e v .typeMismatch := by
  cases v <;> exact inspectWith_of_refused hdeclares hd ha _

/-- The members before the first one at fault are passed over, and that one
    stops the walk. -/
theorem Mismatches.walk {ps : List (Step × Value)}
    (h : ∃ v ∈ ps.map (·.2), e.admits v.tag = false) : Mismatches (walkUnder e ps) := by
  induction ps with
  | nil => simp at h
  | cons p rest ih =>
      intro t
      have hfirst : walkUnder e (p :: rest) t =
          EStateM.bind (Inspector.below p.1 (inspectValue p.2 e))
            (fun _ => walkUnder e rest) t := rfl
      cases ha : e.admits p.2.tag with
      | true =>
          have hpassed := below_of_unchanged (inspectValue_of_admitted hd ha) p.1 t
          have hrest : ∃ v ∈ rest.map (·.2), e.admits v.tag = false := by
            obtain ⟨v, hv, hrefused⟩ := h
            rcases List.mem_cons.mp hv with rfl | hv
            · rw [ha] at hrefused
              cases hrefused
            · exact ⟨v, hv, hrefused⟩
          obtain ⟨d, step, t', hfails, hrestOfIt⟩ := ih hrest t
          refine ⟨d, step, t', ?_, hrestOfIt⟩
          rw [hfirst, EStateM.bind, hpassed]
          exact hfails
      | false =>
          have hstops : Inspector.below p.1 (inspectValue p.2 e) t =
              .error (.located (t.down p.1).location e p.2 .typeMismatch) (t.down p.1) := by
            rw [inspectValue_of_refused hdeclares hd ha]
            rfl
          refine ⟨.located (t.down p.1).location e p.2 .typeMismatch, p.1, t.down p.1, ?_, rfl, rfl,
            rfl⟩
          rw [hfirst, EStateM.bind, hstops]

end Refused

theorem Telling.unlessAdmitted_walk {e : Schema} (hdeclares : e.Declares)
    {ps : List (Step × Value)} {members : List Value} (hmembers : ps.map (·.2) = members)
    (h : ∀ v ∈ members, Telling (inspectValue v e)) :
    Telling (Inspection.unlessAdmitted e members (walkUnder e ps)) := by
  subst hmembers
  refine (Telling.walk ?_).unlessAdmitted fun hd hrefused => Mismatches.walk hdeclares hd hrefused
  intro q hq
  obtain ⟨p, hp, rfl⟩ := List.mem_map.mp hq
  exact h p.2 (List.mem_map.mpr ⟨p, hp, rfl⟩)

/-! ## Values with their members -/

/-- One level of a schema declares something and asks for tuples in one form. -/
def Tame (s : Schema) : Prop := s.Declares ∧ s.SingleForm

/-- The inspection of a value tells of its mismatches under tame schemas. -/
abbrev TellingThroughout (v : Value) : Prop :=
  ∀ s : Schema, s.Everywhere Tame → Telling (inspectValue v s)

theorem singleForm_of_contents? {s : Schema} (h : s.SingleForm) {k : TypeTag}
    {fs : List TupleForm} (hc : s.contents? k = some (.forms fs)) : ∃ f, fs = [f] := by
  rcases Schema.mem_of_contents? hc with hmem | hmem
  · exact h _ fs hmem
  · exact h _ fs hmem

theorem inspectMembers_telling {items : List Value} (ih : ∀ v ∈ items, TellingThroughout v)
    {e : Schema} (he : e.Everywhere Tame) (step : Nat → Value → Step) :
    Telling (unlessAdmitted e items (inspectMembers step e 0 items)) := by
  rw [inspectMembers_eq_walk]
  refine Telling.unlessAdmitted_walk he.here.1 ?_ fun v hv => ih v hv e he
  rw [List.map_map]
  exact List.zipIdx_map_fst 0 items

theorem inspectPositions_telling {items : List Value} (ih : ∀ v ∈ items, TellingThroughout v)
    {schemas : List Schema} (h : ∀ e ∈ schemas, e.Everywhere Tame) :
    Telling (inspectPositions 0 items schemas) := by
  rw [inspectPositions_eq_walk]
  refine Telling.walk fun p hp => ?_
  obtain ⟨⟨⟨v, e⟩, i⟩, hmem, rfl⟩ := List.mem_map.mp hp
  have hzip := List.of_mem_zip (List.fst_mem_of_mem_zipIdx hmem)
  exact ih v hzip.1 e (h e hzip.2)

theorem inspectValue_telling_collection {kind : CollectionKind} {items : List Value}
    (ih : ∀ v ∈ items, TellingThroughout v) : TellingThroughout (.collection kind items) := by
  intro s hs
  refine Telling.inspectWith fun c hc => ?_
  have hparts := hs.of_contents? hc
  cases c with
  | free => exact Telling.pure
  | each e => exact inspectMembers_telling ih (hparts e List.mem_cons_self) (memberStep kind)
  | entries k e => exact Telling.pure
  | forms forms =>
      obtain ⟨f, rfl⟩ := singleForm_of_contents? hs.here.2 hc
      refine Telling.tryForms s _ f items.length ?_
      have hitems : ∀ e ∈ f.items, e.Everywhere Tame := fun e he =>
        hparts e (List.mem_flatMap.mpr ⟨f, List.mem_cons_self, he⟩)
      obtain ⟨schemas, repeated⟩ := f
      cases repeated with
      | false => exact inspectPositions_telling ih hitems
      | true =>
          cases schemas with
          | nil => exact Telling.pure
          | cons e more =>
              exact inspectMembers_telling ih (hitems e List.mem_cons_self) fun i _ => .index i

theorem inspectValue_telling_dict {entries : List (Value × Value)}
    (ih : ∀ p ∈ entries, TellingThroughout p.1 ∧ TellingThroughout p.2) :
    TellingThroughout (.dict entries) := by
  intro s hs
  refine Telling.inspectWith fun c hc => ?_
  have hparts := hs.of_contents? hc
  cases c with
  | free => exact Telling.pure
  | each e => exact Telling.pure
  | entries k e =>
      have hk := hparts k List.mem_cons_self
      have he := hparts e (List.mem_cons_of_mem k List.mem_cons_self)
      have hkeys : Telling (unlessAdmitted k (entries.map (·.1)) (inspectKeys k entries)) := by
        rw [inspectKeys_eq_walk]
        refine Telling.unlessAdmitted_walk hk.here.1 (by rw [List.map_map]; rfl) fun v hv => ?_
        obtain ⟨p, hp, rfl⟩ := List.mem_map.mp hv
        exact (ih p hp).1 k hk
      have hvalues : Telling (unlessAdmitted e (entries.map (·.2)) (inspectEntries e entries)) := by
        rw [inspectEntries_eq_walk]
        refine Telling.unlessAdmitted_walk he.here.1 (by rw [List.map_map]; rfl) fun v hv => ?_
        obtain ⟨p, hp, rfl⟩ := List.mem_map.mp hv
        exact (ih p hp).2 e he
      exact hkeys.seq hvalues
  | forms forms =>
      obtain ⟨f, rfl⟩ := singleForm_of_contents? hs.here.2 hc
      exact Telling.tryForms s _ f 0 Telling.pure

theorem inspectValue_telling (v : Value) : TellingThroughout v := by
  induction v using Value.induction_parts with
  | step v hmembers hpairs =>
      cases v with
      | collection kind items => exact inspectValue_telling_collection hmembers
      | dict entries => exact inspectValue_telling_dict hpairs
      | _ =>
          intro s hs
          refine Telling.inspectWith fun c hc => ?_
          cases c with
          | forms forms =>
              obtain ⟨f, rfl⟩ := singleForm_of_contents? hs.here.2 hc
              exact Telling.tryForms s _ f 0 Telling.pure
          | _ => exact Telling.pure

end Inspection

/-- Under the schema of a declaration in which tuples have one form each, an
    inspection that accepts reports nothing, and one that stops has reported at
    most that the members of one container failed the test of tags. Then it
    stopped at the type of one of these members. -/
theorem inspect_announces_mismatch (classes : Option ClassTable) (decl : Declaration) (s : Schema)
    (hs : Declaration.toSchema classes decl = .ok s) (hforms : s.Everywhere Schema.SingleForm)
    (value : Value) (root : String) :
    (∀ t, inspect value s root = .ok () t → t.events = []) ∧
    ∀ v t, inspect value s root = .error v t →
      t.events = [] ∨ ∃ place step, t.events = [.batchRejected place] ∧
        v.cause = .typeMismatch ∧ v.location = place.down step := by
  have hdeclares : s.Everywhere Schema.Declares :=
    (Declaration.compositional_wellFormed.of_toSchema hs).imp fun _ h => h.declares
  have htame : s.Everywhere Inspection.Tame := (hdeclares.and hforms).imp fun _ h => h
  have htelling := Inspection.inspectValue_telling value s htame
  exact ⟨fun t ht => htelling.accepted _ t ht, fun v t ht => htelling.stopped _ v t ht⟩

/-- The second list of a repeated tuple, found under a key, has a member of the
    wrong type; the keys and the first list pass their tests. -/
theorem inspect_announces_mismatch_nested :
    ∃ s v t, Declaration.toSchema none
        (.container .dict [.concrete .str, .tupleOf (.container .list [.concrete .int])]) = .ok s ∧
      s.Everywhere Schema.SingleForm ∧
      inspect (.dict [(.str "k", .collection .tuple [.collection .list [.int 1],
        .collection .list [.int 2, .none]])]) s "a" = .error v t ∧
      t.events = [.batchRejected ⟨"a", [.entry "'k'", .index 1]⟩] ∧
      (t.events = [] ∨ ∃ place step, t.events = [.batchRejected place] ∧
        v.cause = .typeMismatch ∧ v.location = place.down step) := by
  have hint : (Schema.bare .int).Everywhere Schema.SingleForm :=
    Schema.everywhere_bare (Schema.singleForm_ofTag fun _ h => by cases h)
  have hstr : (Schema.bare .str).Everywhere Schema.SingleForm :=
    Schema.everywhere_bare (Schema.singleForm_ofTag fun _ h => by cases h)
  have hlist : (Schema.ofTag (.collection .list) (.each (.bare .int))).Everywhere
      Schema.SingleForm :=
    Schema.everywhere_ofTag (Schema.singleForm_ofTag fun _ h => by cases h)
      (by simpa [Contents.parts] using hint)
  have htuple : (Schema.ofTag (.collection .tuple) (.forms [.repeating
      (.ofTag (.collection .list) (.each (.bare .int)))])).Everywhere Schema.SingleForm :=
    Schema.everywhere_ofTag (Schema.singleForm_ofTag fun fs h => ⟨_, (Contents.forms.inj h).symm⟩)
      (by simpa [Contents.parts, TupleForm.repeating] using hlist)
  have hdict : (Schema.ofTag .dict (.entries (.bare .str) (.ofTag (.collection .tuple)
      (.forms [.repeating (.ofTag (.collection .list) (.each (.bare .int)))])))).Everywhere
      Schema.SingleForm :=
    Schema.everywhere_ofTag (Schema.singleForm_ofTag fun _ h => by cases h)
      (by simp [Contents.parts, hstr, htuple])
  refine ⟨_, .located ⟨"a", [.entry "'k'", .index 1, .index 1]⟩ (.bare .int) .none .typeMismatch,
    ⟨⟨"a", [.entry "'k'", .index 1, .index 1]⟩, [.batchRejected ⟨"a", [.entry "'k'", .index 1]⟩]⟩,
    rfl, hdict, ?_⟩
  refine (fun hstopped => ⟨hstopped, rfl, (inspect_announces_mismatch none
    (.container .dict [.concrete .str, .tupleOf (.container .list [.concrete .int])]) _ rfl hdict
    _ "a").2 _ _ hstopped⟩) ?_
  with_unfolding_all rfl

end Conform

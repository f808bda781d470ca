/-
  Conform.Proofs.Inspection.Report

  A stopped inspection reports a true violation: the location leads to a part of
  the value and the schema that governs it, and the violation describes these two.

  The location is one stack that all nested inspections share, so the invariant
  has two halves (`Reports`). An inspector that accepts leaves the location as it
  found it; one that stops leaves it somewhere below. The second half is what
  lets a further tuple form start again at the depth of the tuple. Both halves
  hold for every schema; that the violation is a true one needs the shape that
  schemas of declarations have.
-/

import Conform.Proofs.Inspection.Evidence

namespace Conform

namespace Inspection

/-! ## Inspectors that report -/

/-- An inspector comes back to where it started when it accepts, and reports
    something about a place below when it stops. -/
structure Reports (m : Inspector Unit) (Q : List Step → Violation → Prop) : Prop where
  accepted : ∀ t t', m t = .ok () t' → t'.location = t.location
  stopped : ∀ t d t', m t = .error d t' → ∃ left found, t'.location = t.location.below left ∧
    d.location = t.location.below found ∧ Q found d

/-- Without a form that fits, the nearest declared length is told. -/
theorem tryForms_of_misfit {s : Schema} {value : Value} {forms : List TupleForm} {count : Nat}
    {run : TupleForm → Inspector Unit} (h : ∀ f ∈ forms, f.fits count = false) :
    tryForms s value forms count run =
      Inspector.stop s value (.lengthMismatch (nearestLength forms count) count) := by
  have hnone : forms.filter (·.fits count) = [] := by
    rw [List.filter_eq_nil_iff]
    exact fun f hf => Bool.eq_false_iff.mp (h f hf)
  funext t
  simp only [tryForms, hnone]

namespace Reports

variable {m n : Inspector Unit} {P Q : List Step → Violation → Prop}

theorem imp (h : Reports m P) (hPQ : ∀ steps d, P steps d → Q steps d) : Reports m Q where
  accepted := h.accepted
  stopped t d t' ht := by
    obtain ⟨left, found, hleft, hfound, hP⟩ := h.stopped t d t' ht
    exact ⟨left, found, hleft, hfound, hPQ found d hP⟩

theorem pure : Reports (pure ()) Q where
  accepted t t' ht := by
    cases ht
    rfl
  stopped t d t' ht := by cases ht

theorem stop {s : Schema} {value : Value} {cause : ViolationCause}
    (h : ∀ l, Q [] (.located l s value cause)) : Reports (Inspector.stop s value cause) Q where
  accepted t t' ht := by cases ht
  stopped t d t' ht := by
    cases ht
    exact ⟨[], [], (t.location.below_nil).symm, (t.location.below_nil).symm, h t.location⟩

/-- The second inspector starts where the first one did, and only if that one accepts. -/
theorem seq (hm : Reports m Q) (hn : (∃ t t', m t = .ok () t') → Reports n Q) :
    Reports (m >>= fun _ => n) Q := by
  have hbind (t : Trail) : (m >>= fun _ => n) t = EStateM.bind m (fun _ => n) t := rfl
  constructor
  · intro t t' ht
    rw [hbind, EStateM.bind] at ht
    cases hmt : m t with
    | ok a u =>
        rw [hmt] at ht
        rw [(hn ⟨t, u, hmt⟩).accepted u t' ht, hm.accepted t u hmt]
    | error d u => simp [hmt] at ht
  · intro t d t' ht
    rw [hbind, EStateM.bind] at ht
    cases hmt : m t with
    | ok a u =>
        rw [hmt] at ht
        rw [← hm.accepted t u hmt]
        exact (hn ⟨t, u, hmt⟩).stopped u d t' ht
    | error e u =>
        rw [hmt] at ht
        cases ht
        exact hm.stopped t d t' hmt

theorem below {step : Step} (h : Reports m P) (hPQ : ∀ steps d, P steps d → Q (step :: steps) d) :
    Reports (Inspector.below step m) Q := by
  constructor
  · intro t t' ht
    unfold Inspector.below at ht
    cases hm : m (t.down step) with
    | ok a u =>
        simp only [hm, EStateM.Result.ok.injEq, true_and] at ht
        have hu := h.accepted _ u hm
        rw [← ht]
        show u.location.up = t.location
        rw [hu]
        exact Location.up_down t.location step
    | error d u => simp [hm] at ht
  · intro t d t' ht
    unfold Inspector.below at ht
    cases hm : m (t.down step) with
    | ok a u => simp [hm] at ht
    | error e u =>
        simp only [hm, EStateM.Result.error.injEq] at ht
        obtain ⟨rfl, rfl⟩ := ht
        obtain ⟨left, found, hleft, hfound, hP⟩ := h.stopped _ e u hm
        -- one step down and then further is further by one step
        have hdown (steps : List Step) :
            (t.down step).location.below steps = t.location.below (step :: steps) := by
          simp [Trail.down, Location.down_eq_below]
        exact ⟨step :: left, step :: found, by rw [hleft, hdown], by rw [hfound, hdown],
          hPQ found e hP⟩

/-- Further forms end at the depth of the tuple or below, and never change the
    violation of the first form. -/
theorem tryFurther {run : TupleForm → Inspector Unit} {forms : List TupleForm}
    (h : ∀ f ∈ forms, Reports (run f) P) (l : Location) (first : Violation) :
    ∀ t, (∃ left, t.location = l.below left) →
      (∀ t', tryFurther run l.depth first forms t = .ok () t' → t'.location = l) ∧
        ∀ d t', tryFurther run l.depth first forms t = .error d t' →
          d = first ∧ ∃ left, t'.location = l.below left := by
  induction forms with
  | nil =>
      intro t hleft
      constructor
      · intro t' ht
        cases ht
      · intro d t' ht
        cases ht
        exact ⟨rfl, hleft⟩
  | cons f rest ih =>
      rintro t ⟨left, hleft⟩
      have hback : (t.upTo l.depth).location = l := by
        show t.location.upTo l.depth = l
        rw [hleft, Location.upTo_below]
      have hf := h f List.mem_cons_self
      simp only [Inspection.tryFurther]
      cases hrun : run f (t.upTo l.depth) with
      | ok a u =>
          constructor
          · intro t' ht
            cases ht
            rw [hf.accepted _ _ hrun, hback]
          · intro d t' ht
            cases ht
      | error e u =>
          obtain ⟨further, _, hfurther, _⟩ := hf.stopped _ e u hrun
          rw [hback] at hfurther
          exact ih (fun g hg => h g (List.mem_cons_of_mem f hg)) u ⟨further, hfurther⟩

theorem tryForms {run : TupleForm → Inspector Unit} {s : Schema} {value : Value}
    {forms : List TupleForm} {count : Nat}
    (misfit : (∀ f ∈ forms, f.fits count = false) →
      ∀ l, Q [] (.located l s value (.lengthMismatch (nearestLength forms count) count)))
    (h : ∀ f ∈ forms, f.fits count = true → Reports (run f) Q) :
    Reports (tryForms s value forms count run) Q := by
  have hfitting (f : TupleForm) (hf : f ∈ forms.filter (·.fits count)) : Reports (run f) Q :=
    h f (List.mem_filter.mp hf).1 (List.mem_filter.mp hf).2
  cases hforms : forms.filter (·.fits count) with
  | nil =>
      have hnone : ∀ f ∈ forms, f.fits count = false := by
        simpa [List.filter_eq_nil_iff] using hforms
      rw [tryForms_of_misfit hnone]
      exact Reports.stop (misfit hnone)
  | cons f others =>
      rw [hforms] at hfitting
      have hf := hfitting f List.mem_cons_self
      have hothers (first : Violation) (t : Trail) :=
        tryFurther (fun g hg => hfitting g (List.mem_cons_of_mem f hg)) t.location first
      constructor
      · intro t t' ht
        simp only [Inspection.tryForms, hforms] at ht
        cases hrun : run f t with
        | ok a u =>
            rw [hrun] at ht
            cases ht
            exact hf.accepted t t' hrun
        | error first u =>
            rw [hrun] at ht
            obtain ⟨left, _, hleft, _⟩ := hf.stopped t first u hrun
            exact (hothers first t u ⟨left, hleft⟩).1 t' ht
      · intro t d t' ht
        simp only [Inspection.tryForms, hforms] at ht
        cases hrun : run f t with
        | ok a u =>
            rw [hrun] at ht
            cases ht
        | error first u =>
            rw [hrun] at ht
            obtain ⟨left, found, hleft, hfound, hQ⟩ := hf.stopped t first u hrun
            obtain ⟨rfl, further, hfurther⟩ := (hothers first t u ⟨left, hleft⟩).2 d t' ht
            exact ⟨further, found, hfurther, hfound, hQ⟩

/-! ## One value -/

/-- The constraints from some point on, when the ones before hold. -/
theorem inspectConstraints {s : Schema} {value : Value} (accepted : StructureAccepted s value)
    {earlier rest : List Constraint} (split : s.constraints = earlier ++ rest)
    (met : ∀ b ∈ earlier, b.unmet? value = none) :
    Reports (inspectConstraints s value rest) (Finds value s) := by
  induction rest generalizing earlier with
  | nil => exact Reports.pure
  | cons c rest ih =>
      cases h : c.unmet? value with
      | none =>
          simp only [Inspection.inspectConstraints, h]
          have split' : s.constraints = (earlier ++ [c]) ++ rest := by simp [split]
          exact ih split' (List.forall_mem_append.mpr ⟨met, by simpa using h⟩)
      | some unmet =>
          simp only [Inspection.inspectConstraints, h]
          have hbefore : ∀ q ∈ earlier.flatMap (·.predicates), q.evaluate value = .ok true := by
            intro q hq
            obtain ⟨b, hb, hq⟩ := List.mem_flatMap.mp hq
            exact Constraint.unmet?_eq_none_iff.mp (met b hb) q hq
          have hfirst := (firstUnmet_of_firstUnmet? h).between hbefore
            (rest.flatMap (·.predicates))
          rw [← List.flatMap_cons, ← List.flatMap_append, ← split] at hfirst
          exact Reports.stop (finds_here fun _ => .constraintViolation accepted hfirst)

theorem inspectType {s : Schema} {value : Value} {members : Contents → Inspector Unit}
    (declares : s.constrainsOnly = false)
    (h : ∀ c, s.contents? value.tag = some c → Reports (members c) (Finds value s)) :
    Reports (inspectType s value members) (Finds value s) := by
  unfold Inspection.inspectType
  cases hc : s.contents? value.tag with
  | some c => exact h c hc
  | none =>
      by_cases hl : equalsLiteral s value = true
      · simp only [hl, if_true]
        exact Reports.pure
      · simp only [hl]
        refine Reports.stop (finds_here fun _ => .typeMismatch declares ?_ ?_ ?_)
        · exact (not_mem_tags_of_contents? hc).1
        · exact (not_mem_tags_of_contents? hc).2
        · exact forall_not_equal_of_not_equalsLiteral (by simpa using hl)

/-- A value reports faithfully if its members do. That the constraints are
    reached says that types and members are accepted. -/
theorem inspectWith {s : Schema} {value : Value} {members : Contents → Inspector Unit}
    (hdecides : ∀ c, Decides (members c) (MembersAccepted {c} value))
    (h : ∀ c, s.contents? value.tag = some c → Reports (members c) (Finds value s)) :
    Reports (inspectWith s value members) (Finds value s) := by
  have hconstraints (accepted : StructureAccepted s value) :
      Reports (Inspection.inspectConstraints s value s.constraints) (Finds value s) :=
    inspectConstraints accepted (List.nil_append _).symm (by simp)
  unfold Inspection.inspectWith
  split
  · exact Reports.pure
  · split
    next honly => exact hconstraints (Or.inl honly)
    next honly =>
      refine (inspectType (by simpa using honly) h).seq ?_
      rintro ⟨t, t', ht⟩
      exact hconstraints (Or.inr ((Decides.inspectType hdecides s value t).mp ⟨t', ht⟩))

end Reports

/-! ## The members of a value -/

/-- The walk over a value reports faithfully under every schema. -/
abbrev Faithful (v : Value) : Prop := ∀ s : Schema, Reports (inspectPlainly v s) (Finds v s)

theorem walkPlainly_reports {α : Type} {l : List α} {member : α → Value}
    (ih : ∀ a ∈ l, Faithful (member a)) (step : α → Step) (e : Schema) :
    Reports (walkPlainly e (l.map fun a => (step a, member a))) fun steps d =>
      ∃ a ∈ l, ∃ rest, steps = step a :: rest ∧ Finds (member a) e rest d := by
  induction l with
  | nil => exact Reports.pure
  | cons a more rec =>
      obtain ⟨ha, hmore⟩ := List.forall_mem_cons.mp ih
      refine ((ha e).below fun steps d hd => ⟨a, List.mem_cons_self, steps, rfl, hd⟩).seq
        fun _ => (rec hmore).imp ?_
      rintro _ d ⟨b, hb, rest, rfl, hd⟩
      exact ⟨b, List.mem_cons_of_mem _ hb, rest, rfl, hd⟩

theorem plainMembers_reports {items : List Value} (ih : ∀ v ∈ items, Faithful v)
    (step : Nat → Value → Step) (e : Schema) :
    Reports (plainMembers step e 0 items) fun steps d =>
      ∃ (j : Nat) (w : Value) (rest : List Step), items[j]? = some w ∧ steps = step j w :: rest ∧
        Finds w e rest d := by
  rw [plainMembers_eq_walk]
  have hnumbered : ∀ p ∈ items.zipIdx, Faithful p.1 :=
    fun p hp => ih p.1 (List.fst_mem_of_mem_zipIdx hp)
  refine (walkPlainly_reports hnumbered (fun p => step p.2 p.1) e).imp ?_
  rintro _ d ⟨p, hp, rest, rfl, hd⟩
  exact ⟨p.2, p.1, rest, List.mem_zipIdx_iff_getElem?.mp hp, rfl, hd⟩

theorem plainPositions_reports {items : List Value} (ih : ∀ v ∈ items, Faithful v)
    (schemas : List Schema) (i : Nat) :
    Reports (plainPositions i items schemas) fun steps d =>
      ∃ (j : Nat) (w : Value) (e : Schema) (rest : List Step), items[j]? = some w ∧
        schemas[j]? = some e ∧ steps = .index (i + j) :: rest ∧ Finds w e rest d := by
  induction items generalizing schemas i with
  | nil => exact Reports.pure
  | cons v more rec =>
      cases schemas with
      | nil => exact Reports.pure
      | cons e others =>
          have hv := ih v List.mem_cons_self e
          have hmore := rec (fun w hw => ih w (List.mem_cons_of_mem v hw)) others (i + 1)
          refine (hv.below fun steps d hd => ⟨0, v, e, steps, rfl, rfl, rfl, hd⟩).seq
            fun _ => hmore.imp ?_
          rintro _ d ⟨j, w, g, rest, hw, hg, rfl, hd⟩
          exact ⟨j + 1, w, g, rest, by rw [List.getElem?_cons_succ, hw],
            by rw [List.getElem?_cons_succ, hg], by rw [Nat.succ_add_eq_add_succ], hd⟩

/-- The walk along one form reports what is found at one of its positions. -/
theorem form_reports {items : List Value} (ih : ∀ v ∈ items, Faithful v) (f : TupleForm) :
    Reports (plainForm items f)
      fun steps d => ∃ (i : Nat) (w : Value) (e : Schema) (rest : List Step), items[i]? = some w ∧
        f.itemAt? i = some e ∧ steps = .index i :: rest ∧ Finds w e rest d := by
  obtain ⟨schemas, repeated⟩ := f
  cases repeated with
  | false =>
      refine (plainPositions_reports ih schemas 0).imp ?_
      rintro _ d ⟨j, w, e, rest, hw, he, rfl, hd⟩
      exact ⟨j, w, e, rest, hw, he, by rw [Nat.zero_add], hd⟩
  | true =>
      cases schemas with
      | nil => exact Reports.pure
      | cons e more =>
          refine (plainMembers_reports ih (fun i _ => .index i) e).imp ?_
          rintro _ d ⟨j, w, rest, hw, rfl, hd⟩
          exact ⟨j, w, e, rest, hw, rfl, rfl, hd⟩

/-- A regular schema asks for forms under the tag of tuples only, and lists some. -/
theorem Regular.forms {s : Schema} (h : Regular s) {k : TypeTag} {forms : List TupleForm}
    (hc : s.contents? k = some (.forms forms)) : k = .collection .tuple ∧ forms ≠ [] := by
  have hsuits := h.canonical.suits_of_contents? hc
  refine ⟨by simpa [Contents.suits] using hsuits, ?_⟩
  rcases Schema.mem_of_contents? hc with hmem | hmem
  · exact (h.wellFormed.forms _ _ hmem).2.nonempty
  · exact (h.wellFormed.forms _ _ hmem).2.nonempty

/-- A value without members is no tuple that a regular schema asks forms of,
    or the empty one. -/
theorem tryForms_reports_of_no_members {v : Value} (hv : ∀ items, v ≠ .collection .tuple items)
    {s : Schema} {forms : List TupleForm} (asked : s.contents? v.tag = some (.forms forms)) :
    Reports (tryForms s v forms 0 fun _ => pure ()) (Finds v s) := by
  refine Reports.tryForms (fun misfit => finds_here fun hs => ?_) fun _ _ _ => Reports.pure
  have htag := (hs.forms asked).1
  cases v <;> simp_all [Value.tag]

theorem plainContents_reports_collection {kind : CollectionKind} {items : List Value}
    (ih : ∀ v ∈ items, Faithful v) {s : Schema} {c : Contents}
    (hc : s.contents? (.collection kind) = some c) :
    Reports (plainContents s (.collection kind items) c) (Finds (.collection kind items) s) := by
  cases c with
  | free => exact Reports.pure
  | each e =>
      refine (plainMembers_reports ih (memberStep kind) e).imp ?_
      rintro _ d ⟨i, w, rest, hw, rfl, hd⟩
      refine hd.below hc List.mem_cons_self fun hs => ?_
      have hsuits := hs.canonical.suits_of_contents? hc
      cases kind with
      | list => exact .listItem hc hw
      | tuple => simp [Contents.suits] at hsuits
      | set => exact .setMember rfl hc (List.mem_of_getElem? hw)
      | frozenSet => exact .setMember rfl hc (List.mem_of_getElem? hw)
  | entries k e => exact Reports.pure
  | forms forms =>
      refine Reports.tryForms (fun misfit => finds_here fun hs => ?_) fun f hf fits => ?_
      · obtain ⟨htag, hne⟩ := hs.forms hc
        obtain rfl : kind = .tuple := by simpa using htag
        exact .lengthMismatch rfl hc misfit (isNearest_nearestLength hne misfit)
      · refine (form_reports ih f).imp ?_
        rintro _ d ⟨i, w, e, rest, hw, he, rfl, hd⟩
        have hpart : e ∈ (Contents.forms forms).parts :=
          List.mem_flatMap.mpr ⟨f, hf, TupleForm.mem_items_of_itemAt? he⟩
        refine hd.below hc hpart fun hs => ?_
        obtain rfl : kind = .tuple := by simpa using (hs.forms hc).1
        exact .tupleItem hc hf fits hw he

theorem plainContents_reports_dict {entries : List (Value × Value)}
    (ih : ∀ p ∈ entries, Faithful p.1 ∧ Faithful p.2) {s : Schema} {c : Contents}
    (hc : s.contents? .dict = some c) :
    Reports (plainContents s (.dict entries) c) (Finds (.dict entries) s) := by
  cases c with
  | free => exact Reports.pure
  | each e => exact Reports.pure
  | entries k e =>
      simp only [plainContents, plainKeys_eq_walk, plainEntries_eq_walk]
      have hkeys := walkPlainly_reports (fun p hp => (ih p hp).1) (fun p => .key p.1.repr) k
      have hentries := walkPlainly_reports (fun p hp => (ih p hp).2) (fun p => .entry p.1.repr) e
      refine (hkeys.imp ?_).seq fun _ => hentries.imp ?_
      · rintro _ d ⟨⟨x, y⟩, hp, rest, rfl, hd⟩
        exact hd.below hc List.mem_cons_self fun _ => .key hc hp
      · rintro _ d ⟨⟨x, y⟩, hp, rest, rfl, hd⟩
        have hpart : e ∈ (Contents.entries k e).parts := List.mem_cons_of_mem k List.mem_cons_self
        exact hd.below hc hpart fun _ => .entry hc hp
  | forms forms => exact tryForms_reports_of_no_members (by simp) hc

/-- The walk over any value reports faithfully under every schema. -/
theorem inspectPlainly_reports (v : Value) : Faithful v := by
  induction v using Value.induction_parts with
  | step v hmembers hpairs =>
      intro s
      rw [inspectPlainly_eq]
      refine Reports.inspectWith (plainContents_decides ?_ ?_ s) fun c hc => ?_
      · exact fun w _ => inspectPlainly_decides w
      · exact fun p _ => ⟨inspectPlainly_decides p.1, inspectPlainly_decides p.2⟩
      cases v with
      | collection kind items => exact plainContents_reports_collection hmembers hc
      | dict entries => exact plainContents_reports_dict hpairs hc
      | _ =>
          cases c with
          | forms forms => exact tryForms_reports_of_no_members (by simp) hc
          | _ => exact Reports.pure

/-- An inspection reports what the walk member by member reports. -/
theorem inspectValue_reports (v : Value) (s : Schema) : Reports (inspectValue v s) (Finds v s) := by
  have hplain := inspectPlainly_reports v s
  constructor
  · intro t t' ht
    rcases (inspectValue_agree v s).cases rfl with ⟨x, y, hx, hy, hxy⟩ | ⟨d, x, y, hx, _, _⟩
    · cases hx.symm.trans ht
      rw [hxy, hplain.accepted t y hy]
    · cases hx.symm.trans ht
  · intro t d t' ht
    rcases (inspectValue_agree v s).cases rfl with ⟨x, y, hx, _, _⟩ | ⟨e, x, y, hx, hy, hxy⟩
    · cases hx.symm.trans ht
    · cases hx.symm.trans ht
      rw [hxy]
      exact hplain.stopped t d y hy

end Inspection

/-- A violation found under the schema of a declaration is true: its location
    leads on from the start to a part of the value and the schema that governs
    it, and it describes these two. -/
theorem inspectAt_truthful (classes : Option ClassTable) (decl : Declaration) (s : Schema)
    (hs : Declaration.toSchema classes decl = .ok s) (v : Value) (l : Location) (d : Violation)
    (t : Trail) (h : inspectAt v s l = .error d t) :
    ∃ steps w e, d.location = l.below steps ∧ Inspection.Reaches v s steps w e ∧
      Inspection.Describes d w e := by
  have hregular : s.Everywhere Inspection.Regular :=
    ((Declaration.everywhere_canonical hs).and
      (Declaration.compositional_wellFormed.of_toSchema hs)).imp fun _ h => ⟨h.1, h.2⟩
  obtain ⟨_, steps, _, hsteps, hfinds⟩ :=
    (Inspection.inspectValue_reports v s).stopped (.start l) d t h
  obtain ⟨w, e, hreaches, hdescribes⟩ := hfinds hregular
  exact ⟨steps, w, e, hsteps, hreaches, hdescribes⟩

/-- The violation of the first form stands, while the location is left where the
    second form failed. -/
theorem inspectAt_truthful_first_form :
    ∃ s, Declaration.toSchema none
        (.union [.container .tuple [.concrete .int, .container .list [.concrete .str]],
          .tupleOf (.concrete .str)]) = .ok s ∧
      inspectAt (.collection .tuple [.int 1, .collection .list [.str "a", .none]]) s
          ⟨"x", [.index 3]⟩ =
        .error (.located ⟨"x", [.index 3, .index 1, .index 1]⟩ (.bare .str) .none .typeMismatch)
          ⟨⟨"x", [.index 3, .index 0]⟩,
            [.batchRejected ⟨"x", [.index 3, .index 1]⟩, .batchRejected ⟨"x", [.index 3]⟩]⟩ ∧
      ∃ steps w e, ⟨"x", [.index 3, .index 1, .index 1]⟩ = Location.below ⟨"x", [.index 3]⟩ steps ∧
        Inspection.Reaches (.collection .tuple [.int 1, .collection .list [.str "a", .none]]) s
          steps w e ∧
        Inspection.Describes
          (.located ⟨"x", [.index 3, .index 1, .index 1]⟩ (.bare .str) .none .typeMismatch)
          w e := by
  refine ⟨_, rfl, ?_⟩
  refine (fun hstopped => ⟨hstopped, inspectAt_truthful none
    (.union [.container .tuple [.concrete .int, .container .list [.concrete .str]],
      .tupleOf (.concrete .str)]) _ rfl _ _ _ _ hstopped⟩) ?_
  with_unfolding_all rfl

end Conform

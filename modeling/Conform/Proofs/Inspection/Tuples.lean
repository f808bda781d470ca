/-
  Conform.Proofs.Inspection.Tuples

  Tuples under several forms. The forms are tried in order on one location that
  they share, and a form that fails leaves it somewhere below. What comes of it
  does not show this: a tuple passes if one of the forms that fit accepts it,
  without a form that fits the nearest length is told, and otherwise the
  violation is the one that the first form that fits reports on its own. The
  constraints of the schema are asked last.
-/

import Conform.Proofs.Inspection.Report

namespace Conform

/-- The schema without its own constraints; those of its parts stay. -/
def Schema.unconstrained (s : Schema) : Schema := { s with constraints := [] }

namespace Inspection

/-- A value passes the inspection for a schema, wherever it is inspected. -/
def Passes (w : Value) (e : Schema) : Prop := ∀ l, ∃ t, inspectAt w e l = .ok () t

/-- A form accepts the members of a tuple: a repeated form each of them, by its
    one schema, and another form position by position. -/
inductive FormPasses (items : List Value) : TupleForm → Prop
  | repeating {e : Schema} (each : ∀ w ∈ items, Passes w e) : FormPasses items (.repeating e)
  | fixed {es : List Schema} (positions : List.Forall₂ Passes items es) :
      FormPasses items (.fixed es)

/-! ## Trying forms -/

section Trying

variable {s : Schema} {value : Value} {forms : List TupleForm} {count : Nat}
  {run : TupleForm → Inspector Unit}

/-- Further forms never change the violation of the first one. -/
theorem tryFurther_stopped {depth : Nat} {first d : Violation} {t t' : Trail}
    (h : tryFurther run depth first forms t = .error d t') : d = first := by
  induction forms generalizing t with
  | nil =>
      cases h
      rfl
  | cons f rest ih =>
      unfold tryFurther at h
      cases hrun : run f (t.upTo depth) with
      | ok a u => simp [hrun] at h
      | error e u =>
          simp only [hrun] at h
          exact ih h

/-- A form that fits alone is the only one that is tried. -/
theorem tryForms_singleton {f : TupleForm} (h : f.fits count = true) :
    tryForms s value [f] count run = run f := by
  funext t
  have hfits : [f].filter (·.fits count) = [f] := by simp [h]
  simp only [tryForms, hfits]
  cases hrun : run f t with
  | ok a u => rfl
  | error d u => rfl

/-- The violation that ends the trying is that of the first form that fits. -/
theorem tryForms_stopped {d : Violation} {t t' : Trail} {g : TupleForm} (hg : g ∈ forms)
    (hfits : g.fits count = true) (h : tryForms s value forms count run t = .error d t') :
    ∃ f u, forms.find? (·.fits count) = some f ∧ run f t = .error d u := by
  cases hforms : forms.filter (·.fits count) with
  | nil =>
      have hmem : g ∈ forms.filter (·.fits count) := List.mem_filter.mpr ⟨hg, hfits⟩
      rw [hforms] at hmem
      cases hmem
  | cons f others =>
      have hfirst : forms.find? (·.fits count) = some f := by
        rw [← List.head?_filter, hforms, List.head?_cons]
      simp only [tryForms, hforms] at h
      cases hrun : run f t with
      | ok a u => simp [hrun] at h
      | error first u =>
          -- the other forms that fit are tried in vain
          simp only [hrun] at h
          rw [tryFurther_stopped h]
          exact ⟨f, u, hfirst, hrun⟩

end Trying

/-! ## The inspection of a tuple -/

section Tuple

variable {s : Schema} {forms : List TupleForm} {items : List Value}

theorem declares_of_contents? {k : TypeTag} {c : Contents} (h : s.contents? k = some c) :
    s.constrainsOnly = false := by
  unfold Schema.constrainsOnly
  cases halternatives : s.alternatives with
  | nil => simp [Schema.contents?, Schema.lookup?, halternatives] at h
  | cons a rest => rfl

/-- A tuple is tried under the forms, and if one accepts it the constraints follow. -/
theorem inspectPlainly_tuple (asked : s.contents? (.collection .tuple) = some (.forms forms)) :
    inspectPlainly (.collection .tuple items) s =
      (tryForms s (.collection .tuple items) forms items.length (plainForm items) >>= fun _ =>
        inspectConstraints s (.collection .tuple items) s.constraints) := by
  have hdeclares := declares_of_contents? asked
  have htag : (Value.collection .tuple items).tag = .collection .tuple := rfl
  have hsome : (Value.collection .tuple items).isNone = false := rfl
  rw [inspectPlainly_eq]
  simp only [inspectWith, inspectType, hsome, hdeclares, htag, asked, Bool.false_and,
    Bool.false_eq_true, if_false]
  rfl

/-- Under one form that fits, and without constraints, a tuple is walked along this form. -/
theorem inspectPlainly_form {f : TupleForm} (hfits : f.fits items.length = true) :
    inspectPlainly (.collection .tuple items) (.ofTag (.collection .tuple) (.forms [f])) =
      plainForm items f := by
  have asked : (Schema.ofTag (.collection .tuple) (.forms [f])).contents? (.collection .tuple) =
      some (.forms [f]) := rfl
  rw [inspectPlainly_tuple asked, tryForms_singleton hfits]
  funext t
  show EStateM.bind (plainForm items f) (fun _ => pure ()) t = plainForm items f t
  unfold EStateM.bind
  cases plainForm items f t with
  | ok a u => rfl
  | error d u => rfl

/-! ## Which tuples pass -/

theorem passes_iff_unionAccepts {w : Value} {e : Schema} : Passes w e ↔ UnionAccepts {e} w := by
  constructor
  · intro h
    exact (inspectValue_decides w e (.start (.ofRoot ""))).mp (h (.ofRoot ""))
  · intro h l
    exact (inspectValue_decides w e (.start l)).mpr h

/-- Members that pass position by position, by their places. -/
theorem forall₂_passes_iff {es : List Schema} :
    List.Forall₂ Passes items es ↔ es.length = items.length ∧
      ∀ (i : Nat) w e, items[i]? = some w → es[i]? = some e → UnionAccepts {e} w := by
  rw [List.forall₂_iff_get]
  constructor
  · rintro ⟨hlength, hpasses⟩
    refine ⟨hlength.symm, fun i w e hw he => ?_⟩
    obtain ⟨hi, rfl⟩ := List.getElem?_eq_some_iff.mp hw
    obtain ⟨hj, rfl⟩ := List.getElem?_eq_some_iff.mp he
    exact passes_iff_unionAccepts.mp (hpasses i hi hj)
  · rintro ⟨hlength, haccepts⟩
    refine ⟨hlength.symm, fun i hi hj => passes_iff_unionAccepts.mpr ?_⟩
    exact haccepts i _ _ (List.getElem?_eq_getElem hi) (List.getElem?_eq_getElem hj)

theorem formPasses_iff {f : TupleForm} (hrepeated : f.repeated = true → ∃ e, f.items = [e]) :
    FormPasses items f ↔ FormAccepts f (.collection .tuple items) := by
  obtain ⟨es, repeated⟩ := f
  cases repeated with
  | false =>
      have hfixed : FormPasses items ⟨es, false⟩ ↔ List.Forall₂ Passes items es := by
        constructor
        · rintro ⟨⟩
          assumption
        · exact .fixed
      rw [hfixed, forall₂_passes_iff]
      simp [FormAccepts, TupleForm.fits, TupleForm.itemAt?]
  | true =>
      obtain ⟨e, rfl⟩ := hrepeated rfl
      have heach : FormPasses items ⟨[e], true⟩ ↔ ∀ w ∈ items, Passes w e := by
        constructor
        · rintro ⟨⟩
          assumption
        · exact .repeating
      rw [heach]
      simp only [passes_iff_unionAccepts, List.mem_iff_getElem?, forall_exists_index]
      rw [forall_comm]
      simp [FormAccepts, TupleForm.fits, TupleForm.itemAt?]

theorem exists_formPasses_iff (h : ∀ f ∈ forms, f.repeated = true → ∃ e, f.items = [e])
    (items : List Value) :
    (∃ f ∈ forms, FormPasses items f) ↔
      ∃ f ∈ forms, FormAccepts f (.collection .tuple items) :=
  exists_congr fun f => and_congr_right fun hf => formPasses_iff (h f hf)

/-- A tuple is accepted if a form accepts it and it meets the constraints. -/
theorem exists_inspectAt_tuple_iff (asked : s.contents? (.collection .tuple) = some (.forms forms))
    (l : Location) :
    (∃ t, inspectAt (.collection .tuple items) s l = .ok () t) ↔
      (∃ f ∈ forms, FormAccepts f (.collection .tuple items)) ∧
        ∀ c ∈ s.constraints, c.unmet? (.collection .tuple items) = none := by
  have hdeclares := declares_of_contents? asked
  have hdecides := inspectValue_decides (.collection .tuple items) s (.start l)
  rw [unionAccepts_singleton_iff] at hdecides
  unfold inspectAt
  rw [hdecides]
  simp [hdeclares, Value.tag, asked, membersAccepted_forms]

/-- The inspection stops with the violation that the walk member by member finds. -/
theorem inspectAt_stopped {v : Value} {l : Location} {d : Violation} {u : Trail}
    (h : inspectPlainly v s (.start l) = .error d u) : ∃ t, inspectAt v s l = .error d t := by
  rcases (inspectValue_agree v s).cases (t := .start l) (u := .start l) rfl with
    ⟨_, _, _, hok, _⟩ | ⟨e, t, _, ht, he, _⟩
  · cases hok.symm.trans h
  · cases he.symm.trans h
    exact ⟨t, ht⟩

/-- If no form accepts a tuple that one of them fits, the violation is the one
    that the first form that fits reports on its own. -/
theorem inspectAt_tuple_first (asked : s.contents? (.collection .tuple) = some (.forms forms))
    {g : TupleForm} (hg : g ∈ forms) (hfits : g.fits items.length = true) (l : Location)
    (hfails : ¬ ∃ f ∈ forms, FormAccepts f (.collection .tuple items)) :
    ∃ f d t t', forms.find? (·.fits items.length) = some f ∧
      inspectAt (.collection .tuple items) s l = .error d t ∧
      inspectAt (.collection .tuple items) (.ofTag (.collection .tuple) (.forms [f])) l =
        .error d t' := by
  have hdecides : (∃ t, tryForms s (.collection .tuple items) forms items.length (plainForm items)
      (.start l) = .ok () t) ↔ ∃ f ∈ forms, FormAccepts f (.collection .tuple items) :=
    Decides.tryForms (form_decides fun v _ => inspectPlainly_decides v) s _ forms _ (.start l)
  cases htry : tryForms s (.collection .tuple items) forms items.length (plainForm items)
      (.start l) with
  | ok a u => exact absurd (hdecides.mp ⟨u, htry⟩) hfails
  | error d u =>
      obtain ⟨f, x, hfirst, hrun⟩ := tryForms_stopped hg hfits htry
      -- a tuple that fails all forms does not come to the constraints
      have hall : inspectPlainly (.collection .tuple items) s (.start l) = .error d u := by
        rw [inspectPlainly_tuple asked]
        show EStateM.bind _ _ (Trail.start l) = _
        rw [EStateM.bind, htry]
      have halone : inspectPlainly (.collection .tuple items)
          (.ofTag (.collection .tuple) (.forms [f])) (.start l) = .error d x := by
        have hfits' : f.fits items.length = true := by simpa using List.find?_some hfirst
        rw [inspectPlainly_form hfits']
        exact hrun
      obtain ⟨t, ht⟩ := inspectAt_stopped hall
      obtain ⟨t', ht'⟩ := inspectAt_stopped halone
      exact ⟨f, d, t, t', hfirst, ht, ht'⟩

/-- Without a form that fits, the nearest declared length is told. -/
theorem inspectAt_tuple_misfit (asked : s.contents? (.collection .tuple) = some (.forms forms))
    (misfit : ∀ f ∈ forms, f.fits items.length = false) (l : Location) :
    ∃ t, inspectAt (.collection .tuple items) s l =
      .error (.located l s (.collection .tuple items)
        (.lengthMismatch (nearestLength forms items.length) items.length)) t := by
  apply inspectAt_stopped (u := .start l)
  rw [inspectPlainly_tuple asked, tryForms_of_misfit misfit]
  rfl

/-- The schemas of declarations are regular, and so are all their parts. -/
theorem everywhere_regular {classes : Option ClassTable} {decl : Declaration} {s : Schema}
    (hs : Declaration.toSchema classes decl = .ok s) : s.Everywhere Regular :=
  ((Declaration.everywhere_canonical hs).and
    (Declaration.compositional_wellFormed.of_toSchema hs)).imp fun _ h => ⟨h.1, h.2⟩

/-- With a form that fits, no length is told at the place of the tuple. -/
theorem cause_ne_lengthMismatch (hs : s.Everywhere Regular)
    (asked : s.contents? (.collection .tuple) = some (.forms forms)) {g : TupleForm}
    (hg : g ∈ forms) (hfits : g.fits items.length = true) {l : Location} {d : Violation} {t : Trail}
    (h : inspectAt (.collection .tuple items) s l = .error d t) (hl : d.location = l)
    (expected found : Nat) : d.cause ≠ .lengthMismatch expected found := by
  intro hcause
  obtain ⟨_, steps, _, hsteps, hfinds⟩ := (inspectValue_reports _ s).stopped (.start l) d t h
  obtain ⟨w, e, hreaches, hdescribes⟩ := hfinds hs
  -- no step leads on, so the tuple itself is described
  obtain rfl : steps = [] := by
    have hsteps' := congrArg Location.steps (hl.symm.trans hsteps)
    simpa [Location.below, Trail.start] using hsteps'
  cases hreaches with
  | here =>
      have hholds := hdescribes.cause
      rw [hcause] at hholds
      cases hholds with
      | lengthMismatch tuple asked' misfit nearest =>
          cases tuple
          cases asked'.symm.trans asked
          exact absurd hfits (Bool.eq_false_iff.mp (misfit g hg))

end Tuple

end Inspection

/-- A tuple under the forms of a declaration. If none of them fits, the nearest
    declared length is told, which is another one. If one fits, no length is
    told at the place of the tuple, and unless a form accepts the tuple the
    violation is the one that the first form that fits reports on its own. The
    forms decide about the tuple apart from the constraints, and these about a
    tuple that a form accepts. -/
theorem inspectAt_tuple_alternatives (classes : Option ClassTable) (decl : Declaration) (s : Schema)
    (hs : Declaration.toSchema classes decl = .ok s) (forms : List TupleForm)
    (asked : s.contents? (.collection .tuple) = some (.forms forms)) (items : List Value)
    (l : Location) :
    ((∀ f ∈ forms, f.fits items.length = false) →
      ∃ expected t, Inspection.IsNearest forms items.length expected ∧ expected ≠ items.length ∧
        inspectAt (.collection .tuple items) s l =
          .error (.located l s (.collection .tuple items)
            (.lengthMismatch expected items.length)) t) ∧
    ((∃ f ∈ forms, f.fits items.length = true) →
      (∀ d t, inspectAt (.collection .tuple items) s l = .error d t → d.location = l →
        ∀ expected found, d.cause ≠ .lengthMismatch expected found) ∧
      ((¬ ∃ f ∈ forms, Inspection.FormPasses items f) →
        ∃ f d t t', forms.find? (·.fits items.length) = some f ∧
          inspectAt (.collection .tuple items) s l = .error d t ∧
          inspectAt (.collection .tuple items) (.ofTag (.collection .tuple) (.forms [f])) l =
            .error d t')) ∧
    ((∃ t, inspectAt (.collection .tuple items) s.unconstrained l = .ok () t) ↔
      ∃ f ∈ forms, Inspection.FormPasses items f) ∧
    ((∃ t, inspectAt (.collection .tuple items) s.unconstrained l = .ok () t) →
      ((∃ t, inspectAt (.collection .tuple items) s l = .ok () t) ↔
        ∀ c ∈ s.constraints, c.unmet? (.collection .tuple items) = none)) := by
  have hregular : s.Everywhere Inspection.Regular := Inspection.everywhere_regular hs
  have hne : forms ≠ [] := (hregular.here.forms asked).2
  have hrepeated : ∀ f ∈ forms, f.repeated = true → ∃ e, f.items = [e] := by
    rcases Schema.mem_of_contents? asked with hmem | hmem
    · exact (hregular.here.wellFormed.forms _ _ hmem).2.repeated
    · exact (hregular.here.wellFormed.forms _ _ hmem).2.repeated
  have hpasses := Inspection.exists_formPasses_iff hrepeated items
  have hstructure :
      (∃ t, inspectAt (.collection .tuple items) s.unconstrained l = .ok () t) ↔
        ∃ f ∈ forms, Inspection.FormPasses items f := by
    rw [Inspection.exists_inspectAt_tuple_iff (s := s.unconstrained) asked l, hpasses]
    simp [Schema.unconstrained]
  refine ⟨?_, ?_, hstructure, ?_⟩
  · intro misfit
    obtain ⟨t, ht⟩ := Inspection.inspectAt_tuple_misfit asked misfit l
    have hnearest := Inspection.isNearest_nearestLength hne misfit
    refine ⟨_, t, hnearest, ?_, ht⟩
    -- a form of the length found would fit
    intro hequal
    obtain ⟨f, hf, hlength⟩ := hnearest.declared
    have hmisfit := misfit f hf
    simp [TupleForm.fits, hlength, hequal] at hmisfit
  · rintro ⟨g, hg, hfits⟩
    refine ⟨?_, ?_⟩
    · intro d t ht hl
      exact Inspection.cause_ne_lengthMismatch hregular asked hg hfits ht hl
    · intro hfails
      exact Inspection.inspectAt_tuple_first asked hg hfits l (hpasses.not.mp hfails)
  · intro hstructural
    rw [Inspection.exists_inspectAt_tuple_iff asked l, ← hpasses]
    exact and_iff_right (hstructure.mp hstructural)

/-- Of three forms two fit a pair. Both fail, at different members, and the
    violation is that of the earlier one. -/
theorem inspectAt_tuple_alternatives_pair :
    Declaration.toSchema none
        (.union [.container .tuple [.concrete .int],
          .container .tuple [.concrete .int, .concrete .str], .tupleOf (.concrete .str)]) =
      .ok (.ofTag (.collection .tuple)
        (.forms [.fixed [.bare .int], .fixed [.bare .int, .bare .str], .repeating (.bare .str)])) ∧
    ∃ d t t',
      inspectAt (.collection .tuple [.int 1, .none])
        (.ofTag (.collection .tuple)
          (.forms [.fixed [.bare .int], .fixed [.bare .int, .bare .str], .repeating (.bare .str)]))
        ⟨"x", [.index 3]⟩ = .error d t ∧
      inspectAt (.collection .tuple [.int 1, .none])
        (.ofTag (.collection .tuple) (.forms [.fixed [.bare .int, .bare .str]]))
        ⟨"x", [.index 3]⟩ = .error d t' := by
  have hs : Declaration.toSchema none
      (.union [.container .tuple [.concrete .int],
        .container .tuple [.concrete .int, .concrete .str], .tupleOf (.concrete .str)]) =
      .ok (.ofTag (.collection .tuple)
        (.forms [.fixed [.bare .int], .fixed [.bare .int, .bare .str],
          .repeating (.bare .str)])) := by
    with_unfolding_all rfl
  refine ⟨hs, ?_⟩
  obtain ⟨_, hfitting, hstructure, _⟩ := inspectAt_tuple_alternatives none _ _ hs
    [.fixed [.bare .int], .fixed [.bare .int, .bare .str], .repeating (.bare .str)] rfl
    [.int 1, .none] ⟨"x", [.index 3]⟩
  obtain ⟨_, hfirst⟩ := hfitting ⟨.fixed [.bare .int, .bare .str], by simp, rfl⟩
  have hstopped : inspectAt (.collection .tuple [.int 1, .none])
      (Schema.ofTag (.collection .tuple) (.forms [.fixed [.bare .int],
        .fixed [.bare .int, .bare .str], .repeating (.bare .str)])).unconstrained
      ⟨"x", [.index 3]⟩ =
        .error (.located ⟨"x", [.index 3, .index 1]⟩ (.bare .str) .none .typeMismatch)
          ⟨⟨"x", [.index 3, .index 0]⟩, [.batchRejected ⟨"x", [.index 3]⟩]⟩ := by
    with_unfolding_all rfl
  rw [hstopped] at hstructure
  obtain ⟨f, d, t, t', hf, hall, halone⟩ := hfirst (hstructure.not.mp (by simp))
  cases hf
  exact ⟨d, t, t', hall, halone⟩

end Conform

/-
  Conform.Proofs.Schema.OfDeclaration

  What schemas of declarations look like. `Compositional` lists the ways in
  which a schema is put together from the schemas of the parts of a
  declaration; a relation that all of them keep holds between every declaration
  and its schema. Canonical shape, plainness and plain tuples follow by it.
-/

import Conform.Proofs.Schema.Plain
import Conform.Schema.OfDeclaration
import Mathlib.Data.List.Forall2

namespace Conform

/-! ## Results of the parts -/

theorem bind_eq_ok_iff {ε α β : Type} {x : Except ε α} {f : α → Except ε β} {b : β} :
    (x >>= f) = .ok b ↔ ∃ a, x = .ok a ∧ f a = .ok b := by
  cases x with
  | error e => simp [bind, Except.bind]
  | ok a => simp [bind, Except.bind]

namespace Declaration

variable {classes : Option ClassTable}

/-- The schemas of several declarations, one for each. -/
abbrev HaveSchemas (classes : Option ClassTable) : List Declaration → List Schema → Prop :=
  List.Forall₂ fun d s => toSchema classes d = .ok s

theorem allSchemas_eq_ok_iff {ds : List Declaration} {ss : List Schema} :
    allSchemas (schemasOf classes ds) = .ok ss ↔ HaveSchemas classes ds ss := by
  induction ds generalizing ss with
  | nil =>
      cases ss with
      | nil => simp [schemasOf, allSchemas]
      | cons s ss => simp [schemasOf, allSchemas]
  | cons d ds ih =>
      simp only [schemasOf, allSchemas, bind_eq_ok_iff, ih, pure, Except.pure, Except.ok.injEq,
        List.forall₂_cons_left_iff]
      constructor
      · rintro ⟨s, hs, more, hmore, rfl⟩
        exact ⟨s, more, hs, hmore, rfl⟩
      · rintro ⟨s, more, hs, hmore, rfl⟩
        exact ⟨s, hs, more, hmore, rfl⟩

theorem joinOnto_eq_ok_iff {ds : List Declaration} {joined u : Schema} :
    joinOnto joined (schemasOf classes ds) = .ok u ↔
      ∃ ss, HaveSchemas classes ds ss ∧ u = ss.foldl Schema.join joined := by
  induction ds generalizing joined with
  | nil => simp [schemasOf, joinOnto, eq_comm]
  | cons d ds ih =>
      simp only [schemasOf, joinOnto, bind_eq_ok_iff, ih, List.forall₂_cons_left_iff]
      constructor
      · rintro ⟨s, hs, more, hmore, rfl⟩
        exact ⟨s :: more, ⟨s, more, hs, hmore, rfl⟩, rfl⟩
      · rintro ⟨_, ⟨s, more, hs, hmore, rfl⟩, rfl⟩
        exact ⟨s, hs, more, hmore, rfl⟩

/-- The schema of a union joins the schemas of its members from left to right. -/
theorem toSchema_union_eq_ok_iff {ds : List Declaration} {u : Schema} :
    toSchema classes (.union ds) = .ok u ↔
      ∃ s ss, HaveSchemas classes ds (s :: ss) ∧ u = ss.foldl Schema.join s := by
  cases ds with
  | nil => simp [toSchema, schemasOf, joinAll]
  | cons d ds =>
      simp only [toSchema, schemasOf, joinAll, bind_eq_ok_iff, joinOnto_eq_ok_iff,
        List.forall₂_cons]
      constructor
      · rintro ⟨s, hs, ss, hss, rfl⟩
        exact ⟨s, ss, ⟨hs, hss⟩, rfl⟩
      · rintro ⟨s, ss, ⟨hs, hss⟩, rfl⟩
        exact ⟨s, hs, ss, hss, rfl⟩

/-! ## Containers -/

theorem containerContents_member_eq_ok {kind : Container} {args : List Declaration}
    {c : Contents} (hkind : kind = .list ∨ kind = .set ∨ kind = .frozenSet)
    (h : containerContents kind args (schemasOf classes args) = .ok c) :
    ∃ d e, args = [d] ∧ toSchema classes d = .ok e ∧ c = .each e := by
  have hcases : ∃ d, args = [d] := by
    cases args with
    | nil => rcases hkind with rfl | rfl | rfl <;> simp [containerContents, schemasOf] at h
    | cons d rest =>
        cases rest with
        | nil => exact ⟨d, rfl⟩
        | cons d' rest =>
            rcases hkind with rfl | rfl | rfl <;> simp [containerContents, schemasOf] at h
  obtain ⟨d, rfl⟩ := hcases
  have hbind : (toSchema classes d >>= fun e => Except.ok (Contents.each e)) = .ok c := by
    rcases hkind with rfl | rfl | rfl <;> exact h
  obtain ⟨e, he, hc⟩ := bind_eq_ok_iff.mp hbind
  exact ⟨d, e, rfl, he, (Except.ok.inj hc).symm⟩

theorem containerContents_dict_eq_ok {args : List Declaration} {c : Contents}
    (h : containerContents .dict args (schemasOf classes args) = .ok c) :
    ∃ d d' k e, args = [d, d'] ∧ toSchema classes d = .ok k ∧ toSchema classes d' = .ok e ∧
      c = .entries k e := by
  have hcases : ∃ d d', args = [d, d'] := by
    match args with
    | [] => simp [containerContents, schemasOf] at h
    | [_] => simp [containerContents, schemasOf] at h
    | [d, d'] => exact ⟨d, d', rfl⟩
    | _ :: _ :: _ :: _ => simp [containerContents, schemasOf] at h
  obtain ⟨d, d', rfl⟩ := hcases
  simp only [containerContents, schemasOf, bind_eq_ok_iff] at h
  obtain ⟨k, hk, e, he, hc⟩ := h
  exact ⟨d, d', k, e, rfl, hk, he, (Except.ok.inj hc).symm⟩

theorem tupleForm_eq_ok {args : List Declaration} {f : TupleForm}
    (h : tupleForm args (schemasOf classes args) = .ok f) :
    (∃ d e, args = [d, .ellipsis] ∧ toSchema classes d = .ok e ∧ f = .repeating e) ∨
      ∃ items, HaveSchemas classes args items ∧ f = .fixed items := by
  unfold tupleForm at h
  split at h
  next _ _ d r _ hparts =>
    split at h
    · cases h
    · obtain ⟨e, he, hf⟩ := bind_eq_ok_iff.mp h
      simp only [schemasOf, List.cons.injEq] at hparts
      exact Or.inl ⟨d, e, rfl, hparts.1.trans he, (Except.ok.inj hf).symm⟩
  next =>
    split at h
    · cases h
    · obtain ⟨items, hitems, hf⟩ := bind_eq_ok_iff.mp h
      exact Or.inr ⟨items, allSchemas_eq_ok_iff.mp hitems, (Except.ok.inj hf).symm⟩

theorem tupleForm_repeating {d : Declaration} {e : Schema} (h : toSchema classes d = .ok e) :
    tupleForm [d, .ellipsis] (schemasOf classes [d, .ellipsis]) = .ok (.repeating e) := by
  cases d with
  | ellipsis => cases h
  | _ =>
      simp only [tupleForm, schemasOf, h]
      rfl

theorem toSchema_tupleOf {d : Declaration} {e : Schema} (h : toSchema classes d = .ok e) :
    toSchema classes (tupleOf d) = .ok (.ofTag (.collection .tuple) (.forms [.repeating e])) := by
  simp only [tupleOf, toSchema, containerContents, tupleForm_repeating h]
  rfl

theorem toSchema_dict {k d : Declaration} {key e : Schema} (hk : toSchema classes k = .ok key)
    (hd : toSchema classes d = .ok e) :
    toSchema classes (container .dict [k, d]) = .ok (.ofTag .dict (.entries key e)) := by
  simp only [toSchema, containerContents, schemasOf, hk, hd]
  rfl

end Declaration

/-! ## Tags -/

theorem Schema.bareUnion_cons (tag : TypeTag) (tags : List TypeTag) :
    bareUnion (tag :: tags) = tags.foldl (fun s k => s.join (bare k)) (bare tag) := by
  have hfirst : empty.join (bare tag) = bare tag := by
    simp only [join, bare, ofTag, empty, joinAlternatives, putAlternative, freeUnderAny,
      joinLiterals, List.nil_append, List.map_cons, List.map_nil, ite_self]
  rw [bareUnion, List.foldl_cons, hfirst]

theorem ClassTable.mem_expand_of_mem_seen {t : ClassTable} {seen stack : List String}
    {name : String} (h : name ∈ seen) : name ∈ t.expand seen stack := by
  fun_induction expand t seen stack with
  | case1 seen => exact h
  | case2 seen first stack _ ih => exact ih h
  | case3 seen first stack _ ih => exact ih (List.mem_append_left _ h)

theorem ClassTable.mem_family? {t : ClassTable} {name : String} {names : List String}
    (h : t.family? name = some names) : name ∈ names := by
  unfold family? at h
  split at h
  · obtain rfl := Option.some.inj h
    rw [expand, if_neg List.not_mem_nil]
    exact mem_expand_of_mem_seen (by simp)
  · cases h

namespace Declaration

variable {classes : Option ClassTable}

/-- The schema of a family lists at least one tag. -/
theorem familySchema_eq_ok {name : String} {s : Schema}
    (h : familySchema classes name = .ok s) : ∃ tag tags, s = .bareUnion (tag :: tags) := by
  unfold familySchema at h
  cases classes with
  | none => exact ⟨_, _, (Except.ok.inj h).symm⟩
  | some table =>
      cases hnames : table.family? name with
      | none => simp [hnames] at h
      | some names =>
          simp only [hnames] at h
          cases names with
          | nil => exact absurd (ClassTable.mem_family? hnames) List.not_mem_nil
          | cons first rest => exact ⟨_, _, (Except.ok.inj h).symm⟩

theorem namedSchema_eq_ok {name : String} {s : Schema}
    (h : namedSchema classes name = .ok s) : s = .bare (.instanceOf name) := by
  unfold namedSchema at h
  split at h
  · exact (Except.ok.inj h).symm
  · cases h

/-! ## Induction along the schema of a declaration -/

/-- The declarations whose schemas go into the schema of a declaration. -/
def operands : Declaration → List Declaration
  | container _ args => args
  | union members => members
  | annotated base _ => [base]
  | _ => []

theorem sizeOf_lt_of_mem_operands {d x : Declaration} (h : x ∈ d.operands) :
    sizeOf x < sizeOf d := by
  cases d with
  | container kind args =>
      have hx := List.sizeOf_lt_of_mem (show x ∈ args from h)
      simp only [container.sizeOf_spec]
      omega
  | union members =>
      have hx := List.sizeOf_lt_of_mem (show x ∈ members from h)
      simp only [union.sizeOf_spec]
      omega
  | annotated base metadata =>
      obtain rfl : x = base := List.mem_singleton.mp h
      simp only [annotated.sizeOf_spec]
      omega
  | _ => exact absurd h List.not_mem_nil

theorem induction_operands {motive : Declaration → Prop}
    (step : ∀ d, (∀ x ∈ d.operands, motive x) → motive d) (d : Declaration) : motive d :=
  step d fun x h =>
    have := sizeOf_lt_of_mem_operands h
    induction_operands step x
termination_by sizeOf d

theorem forall₂_of_haveSchemas {R : Declaration → Schema → Prop} {ds : List Declaration}
    {ss : List Schema} (ih : ∀ x ∈ ds, ∀ t, toSchema classes x = .ok t → R x t)
    (h : HaveSchemas classes ds ss) : List.Forall₂ R ds ss := by
  have hboth := (List.forall₂_and_left ds ss).mpr ⟨ih, h⟩
  exact hboth.imp fun d s hds => hds.1 s hds.2

theorem forall_mem_of_forall₂ {P : Schema → Prop} {ds : List Declaration} {ss : List Schema}
    (h : List.Forall₂ (fun _ s => P s) ds ss) : ∀ s ∈ ss, P s := by
  induction h with
  | nil => exact fun _ hs => absurd hs List.not_mem_nil
  | cons here _ ih => exact List.forall_mem_cons.mpr ⟨here, ih⟩

theorem forall_mem_of_forall₂_imp {Q : Declaration → Prop} {P : Schema → Prop}
    {ds : List Declaration} {ss : List Schema} (hQ : ∀ d ∈ ds, Q d)
    (h : List.Forall₂ (fun d s => Q d → P s) ds ss) : ∀ s ∈ ss, P s := by
  have hboth := (List.forall₂_and_left ds ss).mpr ⟨hQ, h⟩
  exact forall_mem_of_forall₂ (hboth.imp fun d s hds => hds.2 hds.1)

/-- A relation between declarations and schemas that holds for a declaration
    when it holds for the parts, in each way to put a schema together. -/
structure Compositional (classes : Option ClassTable) (R : Declaration → Schema → Prop) :
    Prop where
  tags (d : Declaration) (tag : TypeTag) (tags : List TypeTag) :
    R d (tags.foldl (fun s k => s.join (.bare k)) (.bare tag))
  each {kind : Container} {d : Declaration} {e : Schema}
    (suits : (Contents.each e).suits kind.tag = true) (schema : toSchema classes d = .ok e)
    (part : R d e) : R (.container kind [d]) (.ofTag kind.tag (.each e))
  entries {d d' : Declaration} {k e : Schema} (schema : toSchema classes d = .ok k)
    (part : R d k) (schema' : toSchema classes d' = .ok e) (part' : R d' e) :
    R (.container .dict [d, d']) (.ofTag .dict (.entries k e))
  repeating {d : Declaration} {e : Schema} (schema : toSchema classes d = .ok e)
    (part : R d e) :
    R (.container .tuple [d, .ellipsis]) (.ofTag (.collection .tuple) (.forms [.repeating e]))
  fixed {args : List Declaration} {items : List Schema}
    (schemas : HaveSchemas classes args items) (parts : List.Forall₂ R args items) :
    R (.container .tuple args) (.ofTag (.collection .tuple) (.forms [.fixed items]))
  union {members : List Declaration} {s : Schema} {ss : List Schema}
    (schemas : HaveSchemas classes members (s :: ss)) (parts : List.Forall₂ R members (s :: ss)) :
    R (.union members) (ss.foldl Schema.join s)
  literal {values : List Value} (nonempty : values ≠ []) :
    R (.literal values) (.ofLiterals values)
  constraint (c : Constraint) : R (.constraint c) (.ofConstraint c)
  annotated {base : Declaration} {metadata : List Declaration} {s : Schema}
    (schema : toSchema classes base = .ok s) (part : R base s) :
    R (.annotated base metadata) ((constraintsOf metadata).foldl Schema.constrain s)

theorem Compositional.of_container {R : Declaration → Schema → Prop}
    (hR : Compositional classes R) {kind : Container} {args : List Declaration} {s : Schema}
    (ih : ∀ x ∈ args, ∀ t, toSchema classes x = .ok t → R x t)
    (h : toSchema classes (.container kind args) = .ok s) : R (.container kind args) s := by
  rw [toSchema, bind_eq_ok_iff] at h
  obtain ⟨c, hc, hs⟩ := h
  obtain rfl : Schema.ofTag kind.tag c = s := Except.ok.inj hs
  have hmember (hkind : kind = .list ∨ kind = .set ∨ kind = .frozenSet) :
      R (.container kind args) (.ofTag kind.tag c) := by
    obtain ⟨d, e, rfl, he, rfl⟩ := containerContents_member_eq_ok hkind hc
    refine hR.each ?_ he (ih d List.mem_cons_self e he)
    rcases hkind with rfl | rfl | rfl <;> rfl
  cases kind with
  | list => exact hmember (Or.inl rfl)
  | set => exact hmember (Or.inr (Or.inl rfl))
  | frozenSet => exact hmember (Or.inr (Or.inr rfl))
  | dict =>
      obtain ⟨d, d', k, e, rfl, hk, he, rfl⟩ := containerContents_dict_eq_ok hc
      have hd' : d' ∈ [d, d'] := List.mem_cons_of_mem _ List.mem_cons_self
      exact hR.entries hk (ih d List.mem_cons_self k hk) he (ih d' hd' e he)
  | tuple =>
      rw [containerContents, bind_eq_ok_iff] at hc
      obtain ⟨f, hf, hforms⟩ := hc
      obtain rfl : Contents.forms [f] = c := Except.ok.inj hforms
      rcases tupleForm_eq_ok hf with ⟨d, e, rfl, he, rfl⟩ | ⟨items, hitems, rfl⟩
      · exact hR.repeating he (ih d List.mem_cons_self e he)
      · exact hR.fixed hitems (forall₂_of_haveSchemas ih hitems)

/-- What every way to put a schema together keeps holds between a declaration
    and its schema. -/
theorem Compositional.of_toSchema {R : Declaration → Schema → Prop}
    (hR : Compositional classes R) {d : Declaration} {s : Schema}
    (h : toSchema classes d = .ok s) : R d s := by
  induction d using induction_operands generalizing s with
  | step d ih =>
      cases d with
      | none => exact Except.ok.inj h ▸ hR.tags _ .noneType []
      | any => exact Except.ok.inj h ▸ hR.tags _ .any []
      | sized =>
          obtain rfl := Except.ok.inj h
          rw [TypeTag.measurable, Schema.bareUnion_cons]
          exact hR.tags _ _ _
      | callable =>
          obtain rfl := Except.ok.inj h
          rw [TypeTag.invocable, Schema.bareUnion_cons]
          exact hR.tags _ _ _
      | ellipsis => cases h
      | concrete tag => exact Except.ok.inj h ▸ hR.tags _ tag []
      | classNamed name => exact Except.ok.inj h ▸ hR.tags _ (.instanceOf name) []
      | named name =>
          obtain rfl := namedSchema_eq_ok h
          exact hR.tags _ (.instanceOf name) []
      | typeOf name => exact Except.ok.inj h ▸ hR.tags _ (.classOf name) []
      | family name =>
          obtain ⟨tag, tags, rfl⟩ := familySchema_eq_ok h
          rw [Schema.bareUnion_cons]
          exact hR.tags _ tag tags
      | container kind args => exact hR.of_container (fun x hx t => ih x hx) h
      | union members =>
          obtain ⟨first, rest, hschemas, rfl⟩ := toSchema_union_eq_ok_iff.mp h
          exact hR.union hschemas (forall₂_of_haveSchemas (fun x hx t => ih x hx) hschemas)
      | literal values =>
          rw [toSchema] at h
          split at h
          · cases h
          next hne =>
            obtain rfl := Except.ok.inj h
            exact hR.literal fun hnil => hne (by rw [hnil]; rfl)
      | constraint c => exact Except.ok.inj h ▸ hR.constraint c
      | annotated base metadata =>
          rw [toSchema, bind_eq_ok_iff] at h
          obtain ⟨t, ht, hs⟩ := h
          obtain rfl := Except.ok.inj hs
          exact hR.annotated ht (ih base List.mem_cons_self ht)

end Declaration

end Conform

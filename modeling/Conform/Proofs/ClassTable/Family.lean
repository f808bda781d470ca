/-
  Conform.Proofs.ClassTable.Family

  The family of a class is what the recursive depth-first traversal lists, and
  holds the class and all that derive from it (`family_exact`).

  The table works off a stack and asks only when a class is taken from it
  whether it was met before. The traversal of the specification has no stack:
  it goes through the direct subclasses as the bases declare them, each once,
  and finishes one before it begins the next. What ties the two is that a stack
  of two parts is worked off part by part, and that a class which is on the
  stack again is skipped.
-/

import Conform.Proofs.ClassTable.Registration
import Conform.Proofs.Union.Laws
import Mathlib.Logic.Function.Iterate

namespace Conform.ClassTable

/-! ## The recursive traversal -/

/-- The classes that list a class among their bases, in registration order. -/
def subclasses (t : ClassTable) (c : String) : List String :=
  (t.bases.filter (·.2.contains c)).map (·.1)

/-- The traversal of several classes, one after the other: what was listed
    before, the classes, and what is listed afterwards. -/
inductive Visits (t : ClassTable) : List String → List String → List String → Prop
  | done {seen} : Visits t seen [] seen
  /-- A class that was met before is skipped. -/
  | skip {seen c rest listed} : c ∈ seen → Visits t seen rest listed →
      Visits t seen (c :: rest) listed
  /-- Another one is listed, then all below it, then the rest. -/
  | enter {seen c rest below listed} : c ∉ seen →
      Visits t (seen ++ [c]) (t.subclasses c) below → Visits t below rest listed →
      Visits t seen (c :: rest) listed

variable {t : ClassTable} {seen stack : List String} {c d : String}

namespace Visits

variable {xs ys listed other : List String}

theorem unique (h : Visits t seen xs listed) (h' : Visits t seen xs other) : listed = other := by
  induction h generalizing other with
  | done =>
      cases h'
      rfl
  | skip hc _ ih =>
      cases h' with
      | skip _ hrest => exact ih hrest
      | enter hnot _ _ => exact absurd hc hnot
  | enter hnot _ _ ihbelow ihrest =>
      cases h' with
      | skip hc _ => exact absurd hc hnot
      | enter _ hbelow hrest =>
          rw [ihbelow hbelow] at ihrest
          exact ihrest hrest

/-- A traversal passes through its first part before the second. -/
theorem of_append (h : Visits t seen (xs ++ ys) listed) :
    ∃ middle, Visits t seen xs middle ∧ Visits t middle ys listed := by
  induction xs generalizing seen with
  | nil => exact ⟨seen, .done, h⟩
  | cons x rest ih =>
      cases h with
      | skip hx hrest =>
          obtain ⟨middle, hfirst, hsecond⟩ := ih hrest
          exact ⟨middle, .skip hx hfirst, hsecond⟩
      | enter hx hbelow hrest =>
          obtain ⟨middle, hfirst, hsecond⟩ := ih hrest
          exact ⟨middle, .enter hx hbelow hfirst, hsecond⟩

theorem subset (h : Visits t seen xs listed) : seen ⊆ listed := by
  induction h with
  | done => exact List.Subset.refl _
  | skip _ _ ih => exact ih
  | enter _ _ _ ihbelow ihrest =>
      exact fun x hx => ihrest (ihbelow (List.mem_append_left _ hx))

/-- A class that comes several times in a row is visited once. -/
theorem of_replicate {n : Nat} {x : String}
    (h : Visits t seen (List.replicate (n + 1) x ++ xs) listed) :
    Visits t seen (x :: xs) listed := by
  induction n generalizing seen with
  | zero => exact h
  | succ n ih =>
      cases h with
      | skip hx hrest => exact ih hrest
      | @enter _ _ _ below _ hx hbelow hrest =>
          -- when the rest begins, the class has been met
          have hmet : x ∈ below := hbelow.subset (by simp)
          cases ih hrest with
          | skip _ hlater => exact .enter hx hbelow hlater
          | enter hnot _ _ => exact absurd hmet hnot

/-- How often a class lists a base does not matter. -/
theorem of_repeated {rows : List (String × List String)} {b : String}
    (h : Visits t seen (rows.flatMap fun row => List.replicate (row.2.count b) row.1) listed) :
    Visits t seen ((rows.filter (·.2.contains b)).map (·.1)) listed := by
  induction rows generalizing seen with
  | nil => exact h
  | cons row rest ih =>
      rw [List.flatMap_cons] at h
      by_cases hb : b ∈ row.2
      · have hcount : row.2.count b = row.2.count b - 1 + 1 := by
          have := List.count_pos_iff.mpr hb
          omega
        rw [hcount] at h
        rw [List.filter_cons_of_pos (by simpa using hb), List.map_cons]
        cases of_replicate h with
        | skip hmet hrest => exact .skip hmet (ih hrest)
        | enter hnew hbelow hrest => exact .enter hnew hbelow (ih hrest)
      · rw [List.count_eq_zero.mpr hb, List.replicate_zero, List.nil_append] at h
        rw [List.filter_cons_of_neg (by simpa using hb)]
        exact ih h

end Visits

/-- Working off a stack is a traversal of it. -/
theorem Sound.visits_expand (ht : Sound t) (seen stack : List String) :
    Visits t seen stack (t.expand seen stack) := by
  fun_induction expand t seen stack with
  | case1 seen => exact .done
  | case2 seen c stack hc ih => exact .skip hc ih
  | case3 seen c stack hc ih =>
      obtain ⟨below, hbelow, hrest⟩ := ih.of_append
      rw [ht.childrenInverse c] at hbelow
      exact .enter hc hbelow.of_repeated hrest

/-! ## What is listed -/

theorem prefix_expand (t : ClassTable) (seen stack : List String) :
    seen <+: t.expand seen stack := by
  fun_induction expand t seen stack with
  | case1 seen => exact List.prefix_rfl
  | case2 seen c stack hc ih => exact ih
  | case3 seen c stack hc ih => exact (List.prefix_append seen [c]).trans ih

theorem head?_expand (t : ClassTable) (c : String) : (t.expand [] [c]).head? = some c := by
  have hfirst : [c] <+: t.expand [] [c] := by
    rw [expand, if_neg List.not_mem_nil]
    exact prefix_expand t [c] (t.childrenOf c ++ [])
  obtain ⟨rest, hrest⟩ := hfirst
  rw [← hrest]
  rfl

theorem nodup_expand (h : seen.Nodup) : (t.expand seen stack).Nodup := by
  fun_induction expand t seen stack with
  | case1 seen => exact h
  | case2 seen c stack hc ih => exact ih h
  | case3 seen c stack hc ih =>
      apply ih
      rw [List.nodup_append]
      refine ⟨h, List.nodup_singleton c, fun x hx y hy => ?_⟩
      rw [List.mem_singleton.mp hy]
      rintro rfl
      exact hc hx

/-- What holds of the stack and passes on to subclasses holds of all that is
    listed. -/
theorem forall_mem_expand {P : String → Prop} (passes : ∀ c, P c → ∀ d ∈ t.childrenOf c, P d)
    (hseen : ∀ c ∈ seen, P c) (hstack : ∀ c ∈ stack, P c) : ∀ c ∈ t.expand seen stack, P c := by
  fun_induction expand t seen stack with
  | case1 seen => exact hseen
  | case2 seen c stack hc ih => exact ih hseen (List.forall_mem_cons.mp hstack).2
  | case3 seen c stack hc ih =>
      obtain ⟨hfirst, hrest⟩ := List.forall_mem_cons.mp hstack
      refine ih ?_ ?_
      · exact List.forall_mem_append.mpr ⟨hseen, by simpa using hfirst⟩
      · exact List.forall_mem_append.mpr ⟨passes c hfirst, hrest⟩

/-- The subclasses of what was listed are listed or wait on the stack. -/
def Covered (t : ClassTable) (seen stack : List String) : Prop :=
  ∀ c ∈ seen, ∀ d ∈ t.childrenOf c, d ∈ seen ∨ d ∈ stack

/-- In the end nothing waits, so with a class its subclasses are listed. -/
theorem Covered.expand (h : Covered t seen stack) : Covered t (t.expand seen stack) [] := by
  fun_induction ClassTable.expand t seen stack with
  | case1 seen => exact h
  | case2 seen c stack hc ih =>
      apply ih
      intro x hx y hy
      rcases h x hx y hy with hy | hy
      · exact Or.inl hy
      · rcases List.mem_cons.mp hy with rfl | hy
        · exact Or.inl hc
        · exact Or.inr hy
  | case3 seen c stack hc ih =>
      apply ih
      intro x hx y hy
      rcases List.mem_append.mp hx with hx | hx
      · rcases h x hx y hy with hy | hy
        · exact Or.inl (List.mem_append_left _ hy)
        · rcases List.mem_cons.mp hy with rfl | hy
          · exact Or.inl (by simp)
          · exact Or.inr (List.mem_append_right _ hy)
      · -- the subclasses of the new class have gone on the stack
        rw [List.mem_singleton.mp hx] at hy
        exact Or.inr (List.mem_append_left _ hy)

theorem Sound.lookup_eq_some_iff (ht : Sound t) {bs : List String} :
    t.bases.lookup c = some bs ↔ (c, bs) ∈ t.bases := by
  rw [List.lookup_eq_some_iff]
  constructor
  · rintro ⟨earlier, later, hrows, _⟩
    rw [hrows]
    simp
  · intro hmem
    obtain ⟨earlier, later, hrows⟩ := List.append_of_mem hmem
    refine ⟨earlier, later, hrows, fun row hrow => ?_⟩
    -- another row of the same name would stand before this one
    have hdistinct := ht.namesDistinct
    rw [hrows, List.map_append, List.map_cons] at hdistinct
    have hne := (List.nodup_append.mp hdistinct).2.2 row.1 (List.mem_map_of_mem hrow) c
      List.mem_cons_self
    simpa using fun heq : c = row.1 => hne heq.symm

theorem Sound.mem_childrenOf_iff (ht : Sound t) : d ∈ t.childrenOf c ↔ t.DerivesFrom d c := by
  have hrow : d ∈ t.childrenOf c ↔ ∃ bs, (d, bs) ∈ t.bases ∧ c ∈ bs := by
    rw [ht.childrenInverse c, List.mem_flatMap]
    simp only [List.mem_replicate, ne_eq, List.count_eq_zero, not_not]
    constructor
    · rintro ⟨⟨_, bs⟩, hmem, hc, rfl⟩
      exact ⟨bs, hmem, hc⟩
    · rintro ⟨bs, hmem, hc⟩
      exact ⟨(d, bs), hmem, hc, rfl⟩
  rw [hrow, DerivesFrom, basesOf, namesOf]
  simp only [← ht.lookup_eq_some_iff]
  cases t.bases.lookup d <;> simp

/-- A class is listed exactly if it is the first one or derives from it. -/
theorem Sound.mem_expand_iff (ht : Sound t) :
    d ∈ t.expand [] [c] ↔ Relation.ReflTransGen t.DerivesFrom d c := by
  constructor
  · refine fun hd =>
      forall_mem_expand (P := (Relation.ReflTransGen t.DerivesFrom · c)) ?_ ?_ ?_ d hd
    · intro b hb e he
      exact Relation.ReflTransGen.head (ht.mem_childrenOf_iff.mp he) hb
    · simp
    · simpa using Relation.ReflTransGen.refl
  · have hcovered : Covered t (t.expand [] [c]) [] := Covered.expand (by simp [Covered])
    intro h
    induction h using Relation.ReflTransGen.head_induction_on with
    | refl => exact List.mem_of_head? (head?_expand t c)
    | head hderives _ ih =>
        have hlisted := hcovered _ ih _ (ht.mem_childrenOf_iff.mpr hderives)
        simpa using hlisted

/-! ## The loop -/

/-- One turn of the loop: what is listed so far, and the stack. -/
def turn (t : ClassTable) : List String × List String → List String × List String
  | (seen, []) => (seen, [])
  | (seen, c :: stack) =>
      if c ∈ seen then (seen, stack) else (seen ++ [c], t.childrenOf c ++ stack)

/-- The stack is empty after as many turns as there are classes on it and
    names still listed for classes that were not met. -/
theorem iterate_turn {n : Nat} (h : pending t.children seen + stack.length ≤ n) :
    t.turn^[n] (seen, stack) = (t.expand seen stack, []) := by
  fun_induction expand t seen stack generalizing n with
  | case1 seen => exact Function.iterate_fixed rfl n
  | case2 seen c stack hc ih =>
      rw [List.length_cons] at h
      obtain ⟨m, rfl⟩ : ∃ m, n = m + 1 := ⟨n - 1, by omega⟩
      rw [Function.iterate_succ_apply, turn, if_pos hc]
      exact ih (by omega)
  | case3 seen c stack hc ih =>
      rw [List.length_cons] at h
      obtain ⟨m, rfl⟩ : ∃ m, n = m + 1 := ⟨n - 1, by omega⟩
      rw [Function.iterate_succ_apply, turn, if_neg hc]
      have hpending := pending_append_add_le t.children seen c hc
      apply ih
      rw [List.length_append, childrenOf]
      omega

end Conform.ClassTable

/-! ## The schema of a family -/

namespace Conform

namespace Schema

theorem contents?_bare {k tag : TypeTag} {c : Contents} :
    (bare k).contents? tag = some c ↔ (tag = k ∨ k = .any) ∧ c = .free := by
  have hlookup (l : TypeTag) : (bare k).lookup? l = if l = k then some .free else none := by
    by_cases h : l = k
    · simp [lookup?, bare, ofTag, h]
    · have hne : (l == k) = false := by simpa using h
      simp [lookup?, bare, ofTag, List.lookup_cons, h, hne]
  rw [contents?, hlookup, hlookup]
  by_cases htag : tag = k
  · simp [htag, eq_comm]
  · by_cases hany : k = .any
    · rw [if_neg htag, if_pos hany.symm]
      simp [hany, eq_comm]
    · simp [htag, hany, Ne.symm hany]

/-- Tags that ask nothing of members accept the values that carry one of them. -/
theorem unionAccepts_bareUnion {tag : TypeTag} {tags : List TypeTag} {v : Value}
    (hany : .any ∉ tag :: tags) :
    UnionAccepts {bareUnion (tag :: tags)} v ↔ v.tag ∈ tag :: tags := by
  have hjoinable : ∀ s ∈ bare tag :: tags.map bare, s.Everywhere Joinable := by
    rw [← List.map_cons, List.forall_mem_map]
    intro k _
    exact everywhere_bare ⟨canonical_ofTag rfl, tuplesPlain_ofTag (by simp)⟩
  have hset : UnionAccepts {bareUnion (tag :: tags)} v ↔
      UnionAccepts {s | ∃ k ∈ tag :: tags, bare k = s} v := by
    rw [bareUnion_cons, ← List.foldl_map, ← insert_empty_eq,
      unionAccepts_insert_foldl_join hjoinable, Set.union_empty]
    simp only [← List.map_cons, List.mem_map]
  have hasked {c : Contents} : c ∈ askedUnder {s | ∃ k ∈ tag :: tags, bare k = s} v.tag ↔
      v.tag ∈ tag :: tags ∧ c = .free := by
    rw [mem_askedUnder]
    constructor
    · rintro ⟨_, ⟨k, hk, rfl⟩, hc⟩
      obtain ⟨rfl | rfl, hfree⟩ := contents?_bare.mp hc
      · exact ⟨hk, hfree⟩
      · exact absurd hk hany
    · rintro ⟨hv, hfree⟩
      exact ⟨bare v.tag, ⟨v.tag, hv, rfl⟩, contents?_bare.mpr ⟨Or.inl rfl, hfree⟩⟩
  rw [hset]
  constructor
  · intro h
    cases h with
    | none listed =>
        obtain ⟨_, ⟨k, hk, rfl⟩, hnone⟩ := listed
        obtain rfl : TypeTag.noneType = k := List.mem_singleton.mp hnone
        exact hk
    | refined only _ => cases only _ ⟨tag, List.mem_cons_self, rfl⟩
    | typed members _ =>
        by_contra hv
        rw [Set.eq_empty_of_forall_notMem fun c hc => hv (hasked.mp hc).1] at members
        exact not_membersAccepted_empty members
    | literal _ hit _ =>
        obtain ⟨_, ⟨k, _, rfl⟩, hequal⟩ := hit
        cases hequal
  · intro h
    refine .typed (.free (hasked.mpr ⟨h, rfl⟩)) ?_
    rintro _ ⟨k, _, rfl⟩ c hc
    cases hc

end Schema

namespace Declaration

/-- The instances of the listed classes pass for a family, and nothing else. -/
theorem accepts_family_iff {t : ClassTable} {c : String} {names : List String} {v : Value}
    {root : String} (h : t.family? c = some names) :
    Accepts (some t) (.family c) v root ↔ ∃ d ∈ names, v = .object d := by
  have hschema : toSchema (some t) (.family c) = .ok (.bareUnion (names.map .instanceOf)) := by
    simp only [toSchema, familySchema, h]
  rw [accepts_iff hschema]
  cases names with
  | nil => exact absurd (ClassTable.mem_family? h) List.not_mem_nil
  | cons first rest =>
      rw [List.map_cons, Schema.unionAccepts_bareUnion (by simp), ← List.map_cons, List.mem_map]
      refine exists_congr fun d => and_congr_right fun _ => ?_
      cases v <;> simp [Value.tag, eq_comm]

end Declaration

namespace ClassTable

theorem family?_eq_none_iff {t : ClassTable} {c : String} :
    t.family? c = none ↔ t.contains c = false := by
  unfold family?
  cases t.contains c <;> simp

/-- After any registrations in a new table: a class has a family exactly if it
    is registered. The loop that lists the family ends, after a turn for the
    class and at most one for each listed subclass. The family begins with the
    class, names each class once, consists of the class and of those that reach
    it through their bases, and is what the recursive traversal lists. Of all
    values, the declaration of the family accepts their instances. -/
theorem family_exact (rs : List (String × List String)) (c : String) :
    ((registered rs).family? c = none ↔ (registered rs).contains c = false) ∧
    ((registered rs).contains c = true → ∃ names,
      (registered rs).family? c = some names ∧
      (registered rs).turn^[pending (registered rs).children [] + 1] ([], [c]) = (names, []) ∧
      names.head? = some c ∧
      names.Nodup ∧
      (∀ d, d ∈ names ↔ Relation.ReflTransGen (registered rs).DerivesFrom d c) ∧
      (∀ listed, Visits (registered rs) [] [c] listed ↔ listed = names) ∧
      Declaration.HasSchema (some (registered rs)) (.family c) ∧
      ∀ v root, Declaration.Accepts (some (registered rs)) (.family c) v root ↔
        ∃ d, Relation.ReflTransGen (registered rs).DerivesFrom d c ∧ v = .object d) := by
  have hsound : Sound (registered rs) := sound_empty.attemptAll rs
  refine ⟨family?_eq_none_iff, fun hc => ?_⟩
  have hfamily : (registered rs).family? c = some ((registered rs).expand [] [c]) := by
    rw [family?, if_pos hc]
  have hvisits := hsound.visits_expand [] [c]
  refine ⟨_, hfamily, iterate_turn (Nat.le_refl _), head?_expand _ c, nodup_expand List.nodup_nil,
    fun d => hsound.mem_expand_iff, fun listed => ⟨fun h => h.unique hvisits, fun h => h ▸ hvisits⟩,
    ?_, fun v root => ?_⟩
  · exact ⟨_, by rw [Declaration.toSchema, Declaration.familySchema, hfamily]⟩
  · rw [Declaration.accepts_family_iff hfamily]
    simp only [hsound.mem_expand_iff]

/-- A diamond with a base that is listed twice; of two ways to a class the one
    that is reached first counts, and refused registrations leave no trace. -/
theorem family_exact_diamond :
    let t : ClassTable := registered [("A", []), ("B", ["A", "A"]), ("int", []), ("C", ["A"]),
      ("D", ["C", "B"]), ("E", ["F"])]
    t.contains "A" = true ∧ t.family? "A" = some ["A", "B", "D", "C"] ∧
      ∀ d root, Declaration.Accepts (some t) (.family "A") (.object d) root ↔
        d ∈ ["A", "B", "D", "C"] := by
  intro t
  have hc : t.contains "A" = true := by decide +kernel
  obtain ⟨names, hfamily, hturns, _, _, hmem, _, _, haccepts⟩ := (family_exact _ "A").2 hc
  have hnames : t.turn^[pending t.children [] + 1] ([], ["A"]) = (["A", "B", "D", "C"], []) := by
    decide +kernel
  obtain rfl : names = ["A", "B", "D", "C"] := congrArg Prod.fst (hturns.symm.trans hnames)
  refine ⟨hc, hfamily, fun d root => ?_⟩
  rw [haccepts, hmem]
  simp

end ClassTable

end Conform

/-
  Conform.Proofs.ClassTable.Registration

  What a run of registrations leaves in a class table, whichever of them are
  refused. The bases column holds the registrations that succeeded, in order;
  the children column is its inverse; bases are registered before the classes
  that list them, so inheritance has no cycles.

  A registration works on the table in place and has three ways to be refused,
  so two things are shown of each: a refusal comes before the first change, and
  a success adds one row to the bases column and one name to the children
  column for each time a base is listed. Everything else follows from these two
  by induction on the run.
-/

import Conform.ClassTable
import Mathlib.Data.List.Nodup
import Mathlib.Logic.Relation

namespace Conform.ClassTable

/-! ## One registration -/

/-- A class can be registered: its name is free and its bases are known. -/
structure Admissible (t : ClassTable) (name : String) (bases : List String) : Prop where
  notReserved : TypeTag.ofTypeName? name = none
  isNew : t.contains name = false
  basesKnown : ∀ b ∈ bases, t.contains b = true

/-- The table with one more class. -/
def adding (t : ClassTable) (name : String) (bases : List String) : ClassTable where
  bases := t.bases ++ [(name, bases)]
  children := bases.foldl (fun column base => appendName column base name) t.children

theorem listUnder_eq (name : String) (bases : List String) (t : ClassTable) :
    listUnder name bases t = .ok () { t with
      children := bases.foldl (fun column base => appendName column base name) t.children } := by
  induction bases generalizing t with
  | nil => rfl
  | cons base rest ih => exact ih _

/-- What is asked before the table is changed. -/
theorem enrol_eq (name : String) (bases : List String) (t : ClassTable) :
    enrol name bases t =
      (if (TypeTag.ofTypeName? name).isSome then throw (.reservedName name)
      else if t.contains name then throw (.duplicateClass name)
      else match bases.find? (!t.contains ·) with
        | some missing => throw (.unknownBase name missing)
        | none => listUnder name bases >>= fun _ =>
            modify fun t => { t with bases := t.bases ++ [(name, bases)] } : Change) t := rfl

theorem enrol_of_admissible {t : ClassTable} {name : String} {bases : List String}
    (h : Admissible t name bases) : enrol name bases t = .ok () (t.adding name bases) := by
  have hknown : bases.find? (!t.contains ·) = none := by
    rw [List.find?_eq_none]
    intro b hb
    simp [h.basesKnown b hb]
  rw [enrol_eq, if_neg (by simp [h.notReserved]), if_neg (by simp [h.isNew]), hknown]
  simp only [bind, EStateM.bind, listUnder_eq]
  rfl

/-- A registration that is refused is refused before it changes anything. -/
theorem enrol_of_not_admissible {t : ClassTable} {name : String} {bases : List String}
    (h : ¬ Admissible t name bases) : ∃ e, enrol name bases t = .error e t := by
  rw [enrol_eq]
  by_cases hreserved : (TypeTag.ofTypeName? name).isSome = true
  · rw [if_pos hreserved]
    exact ⟨.reservedName name, rfl⟩
  rw [if_neg hreserved]
  by_cases hnew : t.contains name = true
  · rw [if_pos hnew]
    exact ⟨.duplicateClass name, rfl⟩
  rw [if_neg hnew]
  -- only a missing base is left
  cases hmissing : bases.find? (!t.contains ·) with
  | some missing => exact ⟨.unknownBase name missing, rfl⟩
  | none =>
      have hknown : ∀ b ∈ bases, t.contains b = true := by
        intro b hb
        simpa using List.find?_eq_none.mp hmissing b hb
      exact absurd ⟨by simpa using hreserved, by simpa using hnew, hknown⟩ h

theorem register_eq_ok_iff {t t' : ClassTable} {name : String} {bases : List String} :
    t.register name bases = .ok t' ↔ Admissible t name bases ∧ t' = t.adding name bases := by
  by_cases h : Admissible t name bases
  · simp [register, enrol_of_admissible h, h, eq_comm]
  · obtain ⟨e, he⟩ := enrol_of_not_admissible h
    simp [register, he, h]

/-! ## The two columns -/

/-- A class lists another one among its bases. -/
def DerivesFrom (t : ClassTable) (c b : String) : Prop := b ∈ t.basesOf c

/-- What holds of a table between registrations. -/
structure Sound (t : ClassTable) : Prop where
  /-- Every class has one row of bases. -/
  namesDistinct : (t.bases.map (·.1)).Nodup
  /-- The rows of the bases of a class stand before its own. -/
  basesEarlier : ∀ earlier c bs later, t.bases = earlier ++ (c, bs) :: later →
    ∀ b ∈ bs, b ∈ earlier.map (·.1)
  /-- The subclasses of a class are the classes that list it, in the order of
      their rows and each as often as it does. -/
  childrenInverse : ∀ b, t.childrenOf b =
    t.bases.flatMap fun row => List.replicate (row.2.count b) row.1
  /-- A class without subclasses has no row of subclasses. -/
  childrenListed : ∀ b names, t.children.lookup b = some names → names ≠ []
  /-- No class has the name of a standard type. -/
  namesFree : ∀ name, t.contains name = true → TypeTag.ofTypeName? name = none

theorem contains_iff {t : ClassTable} {name : String} :
    t.contains name = true ↔ name ∈ t.bases.map (·.1) := by
  simp [contains]

theorem lookup_appendName (column : List (String × List String)) (name added b : String) :
    (appendName column name added).lookup b =
      if b = name then some (namesOf column b ++ [added]) else column.lookup b := by
  have hother {n : String} (h : ¬ b = n) : (b == n) = false := by simpa using h
  induction column with
  | nil =>
      by_cases h : b = name
      · simp [appendName, namesOf, h]
      · simp [appendName, List.lookup_cons, h, hother h]
  | cons row rest ih =>
      obtain ⟨n, names⟩ := row
      by_cases hn : n = name
      · -- the row that takes the name
        subst hn
        by_cases h : b = n
        · simp [appendName, namesOf, h]
        · simp [appendName, List.lookup_cons, h, hother h]
      · by_cases hb : b = n
        · subst hb
          simp [appendName, hn]
        · simpa [appendName, namesOf, List.lookup_cons, hn, hother hb] using ih

theorem namesOf_appendName (column : List (String × List String)) (name added b : String) :
    namesOf (appendName column name added) b =
      namesOf column b ++ if b = name then [added] else [] := by
  by_cases h : b = name <;> simp [namesOf, lookup_appendName, h]

/-- Listing a class under its bases adds it to each as often as it is listed. -/
theorem namesOf_foldl_appendName (name : String) (bases : List String)
    (column : List (String × List String)) (b : String) :
    namesOf (bases.foldl (fun column base => appendName column base name) column) b =
      namesOf column b ++ List.replicate (bases.count b) name := by
  induction bases generalizing column with
  | nil => simp
  | cons base rest ih =>
      rw [List.foldl_cons, ih, namesOf_appendName]
      by_cases h : b = base
      · subst h
        simp [List.replicate_succ]
      · have hcount : (base :: rest).count b = rest.count b := List.count_cons_of_ne (Ne.symm h)
        simp [h, hcount]

theorem lookup_foldl_appendName_ne_nil (name : String) (bases : List String)
    (column : List (String × List String))
    (h : ∀ b names, column.lookup b = some names → names ≠ []) :
    ∀ b names, (bases.foldl (fun column base => appendName column base name) column).lookup b =
      some names → names ≠ [] := by
  induction bases generalizing column with
  | nil => exact h
  | cons base rest ih =>
      rw [List.foldl_cons]
      apply ih
      intro b names hnames
      rw [lookup_appendName] at hnames
      split at hnames
      · cases hnames
        simp
      · exact h b names hnames

theorem sound_empty : Sound empty where
  namesDistinct := List.nodup_nil
  basesEarlier earlier c bs later h := by simp [empty] at h
  childrenInverse b := rfl
  childrenListed b names h := by simp [empty] at h
  namesFree name h := by simp [empty, contains] at h

/-- Adding an admissible class keeps a table sound. -/
theorem Sound.adding {t : ClassTable} {name : String} {bases : List String} (ht : Sound t)
    (h : Admissible t name bases) : Sound (t.adding name bases) where
  namesDistinct := by
    have hnew : name ∉ t.bases.map (·.1) := by
      rw [← contains_iff, h.isNew]
      simp
    simp only [ClassTable.adding, List.map_append, List.map_cons, List.map_nil]
    exact List.nodup_append.mpr ⟨ht.namesDistinct, List.nodup_singleton name, by
      intro a ha b hb
      rw [List.mem_singleton.mp hb]
      rintro rfl
      exact hnew ha⟩
  basesEarlier := by
    intro earlier c bs later hsplit b hb
    simp only [ClassTable.adding] at hsplit
    rcases List.eq_nil_or_concat later with rfl | ⟨rows, last, rfl⟩
    · -- the row of the new class itself
      obtain ⟨hrows, hrow⟩ := List.append_inj' hsplit rfl
      cases hrow
      rw [← hrows, ← contains_iff]
      exact h.basesKnown b hb
    · rw [List.concat_eq_append, ← List.cons_append, ← List.append_assoc] at hsplit
      obtain ⟨hrows, _⟩ := List.append_inj' hsplit rfl
      exact ht.basesEarlier earlier c bs rows hrows b hb
  childrenInverse b := by
    rw [childrenOf, ClassTable.adding, namesOf_foldl_appendName, ← childrenOf, ht.childrenInverse b]
    simp
  childrenListed := lookup_foldl_appendName_ne_nil name bases t.children ht.childrenListed
  namesFree n hn := by
    rw [contains_iff] at hn
    simp only [ClassTable.adding, List.map_append, List.map_cons, List.map_nil, List.mem_append,
      List.mem_singleton] at hn
    rcases hn with hn | rfl
    · exact ht.namesFree n (contains_iff.mpr hn)
    · exact h.notReserved

/-- A base has an earlier row than the class that lists it. -/
theorem Sound.idxOf_lt {t : ClassTable} (ht : Sound t) {c b : String} (h : t.DerivesFrom c b) :
    (t.bases.map (·.1)).idxOf b < (t.bases.map (·.1)).idxOf c := by
  unfold DerivesFrom basesOf namesOf at h
  cases hc : t.bases.lookup c with
  | none => simp [hc] at h
  | some bs =>
      rw [hc, Option.getD_some] at h
      obtain ⟨earlier, later, hrows, hfirst⟩ := List.lookup_eq_some_iff.mp hc
      have hb := ht.basesEarlier earlier c bs later hrows b h
      have hcfirst : c ∉ earlier.map (·.1) := by
        intro hmem
        obtain ⟨row, hrow, rfl⟩ := List.mem_map.mp hmem
        simpa using hfirst row hrow
      rw [hrows, List.map_append, List.idxOf_append_of_mem hb, List.idxOf_append_of_notMem hcfirst]
      have := List.idxOf_lt_length_of_mem hb
      omega

theorem Sound.acyclic {t : ClassTable} (ht : Sound t) (c : String) :
    ¬ Relation.TransGen t.DerivesFrom c c := by
  have hearlier : ∀ b, Relation.TransGen t.DerivesFrom c b →
      (t.bases.map (·.1)).idxOf b < (t.bases.map (·.1)).idxOf c := by
    intro b h
    induction h with
    | single h => exact ht.idxOf_lt h
    | tail _ h ih => exact Nat.lt_trans (ht.idxOf_lt h) ih
  intro h
  exact Nat.lt_irrefl _ (hearlier c h)

/-! ## Runs -/

/-- What a registration leaves behind, whether or not it succeeds. -/
def attempt (t : ClassTable) (r : String × List String) : ClassTable :=
  match enrol r.1 r.2 t with
  | .ok () t' => t'
  | .error _ t' => t'

/-- What several registrations leave behind, one after the other. -/
def attemptAll (t : ClassTable) (rs : List (String × List String)) : ClassTable :=
  rs.foldl attempt t

/-- Those of several registrations that succeed, one after the other. -/
def succeeding (t : ClassTable) : List (String × List String) → List (String × List String)
  | [] => []
  | r :: rest =>
      if (t.register r.1 r.2).isOk then r :: succeeding (t.attempt r) rest
      else succeeding (t.attempt r) rest

theorem attempt_cases (t : ClassTable) (r : String × List String) :
    (Admissible t r.1 r.2 ∧ (t.register r.1 r.2).isOk = true ∧ t.attempt r = t.adding r.1 r.2) ∨
      (¬ Admissible t r.1 r.2 ∧ (t.register r.1 r.2).isOk = false ∧ t.attempt r = t) := by
  by_cases h : Admissible t r.1 r.2
  · exact Or.inl ⟨h, by simp [register, enrol_of_admissible h, Except.isOk, Except.toBool],
      by simp [attempt, enrol_of_admissible h]⟩
  · obtain ⟨e, he⟩ := enrol_of_not_admissible h
    exact Or.inr ⟨h, by simp [register, he, Except.isOk, Except.toBool], by simp [attempt, he]⟩

/-- One registration keeps a table sound. -/
theorem Sound.attempt {t : ClassTable} (ht : Sound t) (r : String × List String) :
    Sound (t.attempt r) := by
  rcases attempt_cases t r with ⟨h, _, hleft⟩ | ⟨_, _, hleft⟩
  · rw [hleft]
    exact ht.adding h
  · rw [hleft]
    exact ht

theorem Sound.attemptAll {t : ClassTable} (ht : Sound t) (rs : List (String × List String)) :
    Sound (t.attemptAll rs) := by
  induction rs generalizing t with
  | nil => exact ht
  | cons r rest ih => exact ih (ht.attempt r)

theorem bases_attemptAll (t : ClassTable) (rs : List (String × List String)) :
    (t.attemptAll rs).bases = t.bases ++ succeeding t rs := by
  induction rs generalizing t with
  | nil => exact (List.append_nil _).symm
  | cons r rest ih =>
      have hrest : (t.attemptAll (r :: rest)).bases =
          (t.attempt r).bases ++ succeeding (t.attempt r) rest := ih (t.attempt r)
      rcases attempt_cases t r with ⟨_, hok, hleft⟩ | ⟨_, hok, hleft⟩
      · rw [hrest, succeeding, if_pos hok, hleft]
        simp [adding]
      · rw [hrest, succeeding, if_neg (by simp [hok]), hleft]

/-- A new table after registrations. -/
def registered (rs : List (String × List String)) : ClassTable := empty.attemptAll rs

/-- After any registrations in a new table, refused ones included: the table is
    sound and without cycles, its rows of bases are the registrations that
    succeeded, a further registration succeeds exactly if it is admissible, and
    one that fails leaves both columns as they are. -/
theorem registrations_consistent (rs : List (String × List String)) :
    Sound (registered rs) ∧
    (∀ c, ¬ Relation.TransGen (registered rs).DerivesFrom c c) ∧
    (registered rs).bases = succeeding empty rs ∧
    (registered rs).size = (succeeding empty rs).length ∧
    (∀ name bases, (∃ t, (registered rs).register name bases = .ok t) ↔
      Admissible (registered rs) name bases) ∧
    ∀ name bases e t, enrol name bases (registered rs) = .error e t →
      t.bases = (registered rs).bases ∧ t.children = (registered rs).children := by
  have hsound : Sound (registered rs) := sound_empty.attemptAll rs
  have hrows : (registered rs).bases = succeeding empty rs := bases_attemptAll empty rs
  refine ⟨hsound, hsound.acyclic, hrows, congrArg List.length hrows, ?_, ?_⟩
  · intro name bases
    simp [register_eq_ok_iff]
  · intro name bases e t he
    by_cases h : Admissible (registered rs) name bases
    · rw [enrol_of_admissible h] at he
      cases he
    · obtain ⟨e', he'⟩ := enrol_of_not_admissible h
      rw [he'] at he
      cases he
      exact ⟨rfl, rfl⟩

end Conform.ClassTable

/-
  Conform.Proofs.Value.Equivalence

  Host equality is an equivalence relation on exact values, the values without
  doubles whose sets and dictionaries repeat nothing. Such sets and dictionaries
  are what building them makes, whatever the items and entries they are built
  from repeat.

  Sets compare a length and look for each member of one side on the other only.
  That this is symmetric is a matter of counting, and of what equality does to
  the members: since equal exact values stand for each other in every
  comparison, symmetry and transitivity are both read off that.
-/

import Conform.Proofs.Value.Exact
import Conform.Value.Comparison
import Mathlib.Data.List.Perm.Subperm

namespace Conform

/-- A value without doubles and repetitions. -/
abbrev ExactValue := {v : Value // v.isExact = true}

namespace Value

variable {x y z : Value}

theorem equal_symm (hx : x.isExact = true) (hy : y.isExact = true) (h : equal x y = true) :
    equal y x = true := by
  rw [← (interchangeable_of_equal hx hy h).left]
  exact equal_self hx

theorem equal_comm (hx : x.isExact = true) (hy : y.isExact = true) : equal x y = equal y x := by
  rw [Bool.eq_iff_iff]
  exact ⟨equal_symm hx hy, equal_symm hy hx⟩

theorem equal_trans (hx : x.isExact = true) (hy : y.isExact = true) (hxy : equal x y = true)
    (hyz : equal y z = true) : equal x z = true := by
  rw [(interchangeable_of_equal hx hy hxy).left]
  exact hyz

/-- A truth value equals its number and no other integer. -/
theorem equal_bool_int_iff (b : Bool) (n : Int64) :
    equal (bool b) (int n) = true ↔ n = if b then 1 else 0 := by
  constructor
  · intro h
    have hnumber := numeric?_of_equal rfl rfl h
    simpa [numeric?] using hnumber
  · rintro rfl
    have hsame : Interchangeable (bool b) (int (if b then 1 else 0)) :=
      interchangeable_of_numeric rfl rfl
    rw [hsame.left]
    exact equal_self rfl

/-! ## Building sets -/

/-- Keeping the first of equal items adds no others and leaves no two equal. -/
theorem foldl_distinct (items : List Value) {kept : List Value}
    (h : kept.Pairwise fun x y => equal x y = false) :
    ((items.foldl (fun kept x => if kept.any (· == x) then kept else kept ++ [x]) kept).Pairwise
        fun x y => equal x y = false) ∧
      ∀ v ∈ items.foldl (fun kept x => if kept.any (· == x) then kept else kept ++ [x]) kept,
        v ∈ kept ∨ v ∈ items := by
  induction items generalizing kept with
  | nil => exact ⟨h, fun v hv => Or.inl hv⟩
  | cons x rest ih =>
      rw [List.foldl_cons]
      by_cases hmet : (kept.any (· == x)) = true
      · -- an item that equals a kept one changes nothing
        rw [if_pos hmet]
        obtain ⟨hpairwise, hmem⟩ := ih h
        exact ⟨hpairwise, fun v hv => (hmem v hv).imp_right (List.mem_cons_of_mem x)⟩
      · rw [if_neg hmet]
        have hnew : ∀ k ∈ kept, equal k x = false := by
          intro k hk
          have hnone := List.any_eq_false.mp (Bool.eq_false_iff.mpr hmet) k hk
          exact Bool.eq_false_iff.mpr hnone
        have hlonger : (kept ++ [x]).Pairwise fun x y => equal x y = false := by
          rw [List.pairwise_append]
          refine ⟨h, List.pairwise_singleton _ x, fun k hk y hy => ?_⟩
          rw [List.mem_singleton.mp hy]
          exact hnew k hk
        obtain ⟨hpairwise, hmem⟩ := ih hlonger
        refine ⟨hpairwise, fun v hv => ?_⟩
        rcases hmem v hv with hv | hv
        · rcases List.mem_append.mp hv with hv | hv
          · exact Or.inl hv
          · exact Or.inr (List.mem_cons.mpr (Or.inl (List.mem_singleton.mp hv)))
        · exact Or.inr (List.mem_cons_of_mem x hv)

/-- A collection of items, of which equal ones are kept once, is exact. -/
theorem isExact_distinct {items : List Value} (h : ∀ v ∈ items, v.isExact = true)
    (kind : CollectionKind) : (collection kind (distinct items)).isExact = true := by
  obtain ⟨hpairwise, hmem⟩ := foldl_distinct items List.Pairwise.nil
  refine isExact_collection.mpr ⟨fun v hv => ?_, fun _ => hpairwise⟩
  rcases hmem v hv with hv | hv
  · cases hv
  · exact h v hv

/-! ## Building dictionaries -/

section Entries

variable {entries : List (Value × Value)} {key value : Value}

/-- A key that is not there yet goes to the end. -/
theorem putEntry_of_new (h : ∀ e ∈ entries, (e.1 == key) = false) :
    putEntry entries key value = entries ++ [(key, value)] := by
  induction entries with
  | nil => rfl
  | cons e rest ih =>
      obtain ⟨hfirst, hrest⟩ := List.forall_mem_cons.mp h
      rw [putEntry, if_neg (Bool.eq_false_iff.mp hfirst), ih hrest]
      rfl

/-- A key that is there stays, and nothing but its value changes. -/
theorem putEntry_of_met (value : Value) (h : ∃ e ∈ entries, (e.1 == key) = true) :
    ∃ before e after, entries = before ++ e :: after ∧ (e.1 == key) = true ∧
      putEntry entries key value = before ++ (e.1, value) :: after := by
  induction entries with
  | nil => simp at h
  | cons e rest ih =>
      by_cases hfirst : (e.1 == key) = true
      · exact ⟨[], e, rest, rfl, hfirst, by rw [putEntry, if_pos hfirst]; rfl⟩
      · obtain ⟨f, hf, hkey⟩ := h
        have hrest : ∃ e ∈ rest, (e.1 == key) = true := by
          rcases List.mem_cons.mp hf with rfl | hf
          · exact absurd hkey hfirst
          · exact ⟨f, hf, hkey⟩
        obtain ⟨before, g, after, hentries, hg, hput⟩ := ih hrest
        refine ⟨e :: before, g, after, by rw [hentries]; rfl, hg, ?_⟩
        rw [putEntry, if_neg hfirst, hput]
        rfl

/-- Writing an entry of exact values keeps a dictionary exact. -/
theorem isExact_putEntry (h : (dict entries).isExact = true) (hkey : key.isExact = true)
    (hvalue : value.isExact = true) : (dict (putEntry entries key value)).isExact = true := by
  obtain ⟨hexact, hpairwise⟩ := isExact_dict.mp h
  by_cases hmet : ∃ e ∈ entries, (e.1 == key) = true
  · obtain ⟨before, e, after, rfl, -, hput⟩ := putEntry_of_met value hmet
    rw [hput, isExact_dict]
    constructor
    · simp only [List.forall_mem_append, List.forall_mem_cons] at hexact ⊢
      exact ⟨hexact.1, ⟨hexact.2.1.1, hvalue⟩, hexact.2.2⟩
    · -- the keys are the same as before
      rw [← List.pairwise_map (f := Prod.fst) (R := fun k l => equal k l = false)] at hpairwise ⊢
      simpa using hpairwise
  · have hnew : ∀ e ∈ entries, (e.1 == key) = false := by
      intro e he
      exact Bool.eq_false_iff.mpr fun hequal => hmet ⟨e, he, hequal⟩
    rw [putEntry_of_new hnew, isExact_dict]
    constructor
    · rw [List.forall_mem_append]
      exact ⟨hexact, by simpa using ⟨hkey, hvalue⟩⟩
    · rw [List.pairwise_append]
      refine ⟨hpairwise, List.pairwise_singleton _ _, fun e he f hf => ?_⟩
      rw [List.mem_singleton.mp hf]
      exact hnew e he

theorem isExact_foldl_putEntry {written : List (Value × Value)}
    (h : (dict written).isExact = true)
    (hentries : ∀ e ∈ entries, e.1.isExact = true ∧ e.2.isExact = true) :
    (dict (entries.foldl (fun acc e => putEntry acc e.1 e.2) written)).isExact = true := by
  induction entries generalizing written with
  | nil => exact h
  | cons e rest ih =>
      obtain ⟨⟨hkey, hvalue⟩, hrest⟩ := List.forall_mem_cons.mp hentries
      exact ih (isExact_putEntry h hkey hvalue) hrest

/-- Entries whose keys are all unequal are kept as they are. -/
theorem foldl_putEntry_of_distinct {written : List (Value × Value)}
    (h : (written ++ entries).Pairwise fun e f => (e.1 == f.1) = false) :
    entries.foldl (fun acc e => putEntry acc e.1 e.2) written = written ++ entries := by
  induction entries generalizing written with
  | nil => simp
  | cons e rest ih =>
      have hnew : ∀ f ∈ written, (f.1 == e.1) = false := by
        intro f hf
        exact (List.pairwise_append.mp h).2.2 f hf e List.mem_cons_self
      have hshift : written ++ e :: rest = written ++ [(e.1, e.2)] ++ rest := by simp
      rw [List.foldl_cons, putEntry_of_new hnew, hshift]
      rw [hshift] at h
      exact ih h

theorem dictOf_of_distinct (h : entries.Pairwise fun e f => (e.1 == f.1) = false) :
    dictOf entries = dict entries := by
  rw [dictOf, foldl_putEntry_of_distinct (by simpa using h), List.nil_append]

end Entries

/-! ## Sets and dictionaries as what they hold -/

section Inclusion

/-- Unequal exact keys that are all met by keys of other items are no more than
    these. -/
theorem length_le_of_met {α : Type} (key : α → Value) {xs ys : List α}
    (exact : ∀ x ∈ xs, (key x).isExact = true)
    (unequal : xs.Pairwise fun x x' => equal (key x) (key x') = false)
    (met : ∀ x ∈ xs, ∃ y ∈ ys, Interchangeable (key x) (key y)) : xs.length ≤ ys.length := by
  -- the items that are met with are different ones, as many as there are keys
  choose partner hpartner using met
  have hdifferent : (xs.attach.map fun x => partner x.val x.property).Nodup := by
    have hattach : xs.attach.Pairwise fun x x' => equal (key x.val) (key x'.val) = false := by
      rw [← List.pairwise_map (f := Subtype.val) (R := fun x x' => equal (key x) (key x') = false)]
      simpa using unequal
    refine List.pairwise_map.mpr (hattach.imp fun {x x'} hne hsame => ?_)
    have hequal : equal (key x.val) (key x'.val) = true := by
      rw [(hpartner x.val x.property).2.left, hsame, ← (hpartner x'.val x'.property).2.left]
      exact equal_self (exact x'.val x'.property)
    rw [hne] at hequal
    cases hequal
  have hsubset : (xs.attach.map fun x => partner x.val x.property) ⊆ ys := by
    intro y hy
    obtain ⟨x, _, rfl⟩ := List.mem_map.mp hy
    exact (hpartner x.val x.property).1
  simpa using (hdifferent.subperm hsubset).length_le

variable {k l : CollectionKind} {xs ys : List Value} {es fs : List (Value × Value)}

/-- Sets, frozen or not, are equal when each has the members of the other. -/
theorem equal_sets_iff (hk : k.isUnordered = true) (hl : l.isUnordered = true)
    (hx : (collection k xs).isExact = true) (hy : (collection l ys).isExact = true) :
    equal (collection k xs) (collection l ys) = true ↔
      (∀ x ∈ xs, ∃ y ∈ ys, equal x y = true) ∧ ∀ y ∈ ys, ∃ x ∈ xs, equal x y = true := by
  obtain ⟨hxs, hxdistinct⟩ := isExact_collection.mp hx
  obtain ⟨hys, hydistinct⟩ := isExact_collection.mp hy
  constructor
  · intro h
    constructor
    · intro x hx
      obtain ⟨y, hy, hyx⟩ := ((equal_unordered_iff hk hl).mp h).2 x hx
      exact ⟨y, hy, equal_symm (hys y hy) (hxs x hx) hyx⟩
    · -- the other inclusion is the one that the symmetric comparison makes
      exact ((equal_unordered_iff hl hk).mp (equal_symm hx hy h)).2
  · rintro ⟨hleft, hright⟩
    refine (equal_unordered_iff hk hl).mpr ⟨Nat.le_antisymm ?_ ?_, fun x hx => ?_⟩
    · refine length_le_of_met id hxs (hxdistinct hk) fun x hx => ?_
      obtain ⟨y, hy, hxy⟩ := hleft x hx
      exact ⟨y, hy, interchangeable_of_equal (hxs x hx) (hys y hy) hxy⟩
    · refine length_le_of_met id hys (hydistinct hl) fun y hy => ?_
      obtain ⟨x, hx, hxy⟩ := hright y hy
      exact ⟨x, hx, (interchangeable_of_equal (hxs x hx) (hys y hy) hxy).symm⟩
    · obtain ⟨y, hy, hxy⟩ := hleft x hx
      exact ⟨y, hy, equal_symm (hxs x hx) (hys y hy) hxy⟩

/-- Dictionaries are equal when each has the entries of the other. -/
theorem equal_dicts_iff (he : (dict es).isExact = true) (hf : (dict fs).isExact = true) :
    equal (dict es) (dict fs) = true ↔
      (∀ e ∈ es, ∃ f ∈ fs, equal e.1 f.1 = true ∧ equal e.2 f.2 = true) ∧
        ∀ f ∈ fs, ∃ e ∈ es, equal e.1 f.1 = true ∧ equal e.2 f.2 = true := by
  obtain ⟨hes, hedistinct⟩ := isExact_dict.mp he
  obtain ⟨hfs, hfdistinct⟩ := isExact_dict.mp hf
  constructor
  · intro h
    refine ⟨(equal_dict_iff.mp h).2, fun f hf' => ?_⟩
    obtain ⟨e, he', hkey, hvalue⟩ := (equal_dict_iff.mp (equal_symm he hf h)).2 f hf'
    exact ⟨e, he', equal_symm (hfs f hf').1 (hes e he').1 hkey,
      equal_symm (hfs f hf').2 (hes e he').2 hvalue⟩
  · rintro ⟨hleft, hright⟩
    refine equal_dict_iff.mpr ⟨Nat.le_antisymm ?_ ?_, hleft⟩
    · refine length_le_of_met Prod.fst (fun e he => (hes e he).1) hedistinct fun e he => ?_
      obtain ⟨f, hf, hkey, _⟩ := hleft e he
      exact ⟨f, hf, interchangeable_of_equal (hes e he).1 (hfs f hf).1 hkey⟩
    · refine length_le_of_met Prod.fst (fun f hf => (hfs f hf).1) hfdistinct fun f hf => ?_
      obtain ⟨e, he, hkey, _⟩ := hright f hf
      exact ⟨e, he, (interchangeable_of_equal (hes e he).1 (hfs f hf).1 hkey).symm⟩

end Inclusion

/-! ## Equality -/

/-- On exact values, host equality is reflexive, symmetric and transitive; sets,
    frozen sets and dictionaries built from exact values are exact. The relation
    goes across kinds: a truth value equals its number, byte strings are equal by
    content, sets by members and dictionaries by entries. -/
theorem equal_equivalence :
    Equivalence (fun x y : ExactValue => (x.val == y.val) = true) ∧
    (∀ items : List ExactValue, (setOf (items.map (·.val))).isExact = true ∧
      (frozenSetOf (items.map (·.val))).isExact = true) ∧
    (∀ entries : List (ExactValue × ExactValue),
      (dictOf (entries.map fun e => (e.1.val, e.2.val))).isExact = true) ∧
    (∀ b n, (bool b == int n) = true ↔ n = if b then 1 else 0) ∧
    (∀ k l data other, (binary k data == binary l other) = true ↔ data = other) ∧
    (∀ k l xs ys, k.isUnordered = true → l.isUnordered = true →
      (collection k xs).isExact = true → (collection l ys).isExact = true →
      ((collection k xs == collection l ys) = true ↔
        (∀ x ∈ xs, ∃ y ∈ ys, (x == y) = true) ∧ ∀ y ∈ ys, ∃ x ∈ xs, (x == y) = true)) ∧
    ∀ es fs, (dict es).isExact = true → (dict fs).isExact = true →
      ((dict es == dict fs) = true ↔
        (∀ e ∈ es, ∃ f ∈ fs, (e.1 == f.1) = true ∧ (e.2 == f.2) = true) ∧
          ∀ f ∈ fs, ∃ e ∈ es, (e.1 == f.1) = true ∧ (e.2 == f.2) = true) := by
  refine ⟨⟨fun x => ?_, fun {x y} h => ?_, fun {x y z} hxy hyz => ?_⟩, fun items => ?_,
    fun entries => ?_, equal_bool_int_iff, fun k l data other => ?_,
    fun k l xs ys hk hl hx hy => equal_sets_iff hk hl hx hy,
    fun es fs he hf => equal_dicts_iff he hf⟩
  · exact equal_self x.property
  · exact equal_symm x.property y.property h
  · exact equal_trans x.property y.property hxy hyz
  · have hitems : ∀ v ∈ items.map (·.val), v.isExact = true := by
      rw [List.forall_mem_map]
      exact fun x _ => x.property
    exact ⟨isExact_distinct hitems .set, isExact_distinct hitems .frozenSet⟩
  · refine isExact_foldl_putEntry rfl ?_
    rw [List.forall_mem_map]
    exact fun e _ => ⟨e.1.property, e.2.property⟩
  · rw [show (binary k data == binary l other) = (data == other) by simp [(· == ·), equal],
      beq_iff_eq]

/-- A set of the truth value and a frozen set equals a frozen set of the number
    and a set, in both directions. -/
theorem equal_equivalence_nested :
    let x : Value := collection .set [.bool true, .collection .frozenSet [.binary .bytes [97]]]
    let y : Value := collection .frozenSet [.collection .set [.binary .memoryView [97]], .int 1]
    x.isExact = true ∧ y.isExact = true ∧ (x == y) = true ∧ (y == x) = true := by
  intro x y
  have hx : x.isExact = true := by cbv
  have hy : y.isExact = true := by cbv
  obtain ⟨hequivalence, _, _, hbool, hbinary, hsets, _⟩ := equal_equivalence
  have hnumber : (bool true == int 1) = true := (hbool true 1).mpr rfl
  have hinner : (collection .frozenSet [.binary .bytes [97]] ==
      collection .set [.binary .memoryView [97]]) = true := by
    refine (hsets .frozenSet .set _ _ rfl rfl (by cbv) (by cbv)).mpr ?_
    simpa using (hbinary .bytes .memoryView [97] [97]).mpr rfl
  have hxy : (x == y) = true := by
    refine (hsets .set .frozenSet _ _ rfl rfl hx hy).mpr ?_
    simp [hnumber, hinner]
  exact ⟨hx, hy, hxy, hequivalence.symm (x := ⟨x, hx⟩) (y := ⟨y, hy⟩) hxy⟩

end Value

end Conform

/-
  Conform.Proofs.Value.Exact

  Host equality is not transitive: an integer is rounded before it is compared
  with a double, so that two different integers can equal the same one. Nor is
  it symmetric on sets and dictionaries that repeat a member or a key. Without
  doubles and repetitions it is exact: equal values can stand for each other in
  every comparison, with whatever value (`interchangeable_of_equal`).
-/

import Conform.Proofs.Value.Members
import Conform.Value.Comparison
import Mathlib.Data.List.Forall2

namespace Conform

/-! ## Lists compared position by position -/

/-- A comparison of lists that goes along both compares every position. -/
theorem forall₂_of_stepwise {α : Type} {r : α → α → Bool} {f : List α → List α → Bool}
    (left : ∀ x xs, f (x :: xs) [] = false) (right : ∀ y ys, f [] (y :: ys) = false)
    (step : ∀ x xs y ys, f (x :: xs) (y :: ys) = (r x y && f xs ys)) {xs ys : List α}
    (h : f xs ys = true) : List.Forall₂ (fun x y => r x y = true) xs ys := by
  induction xs generalizing ys with
  | nil =>
      cases ys with
      | nil => exact .nil
      | cons y ys => simp [right] at h
  | cons x xs ih =>
      cases ys with
      | nil => simp [left] at h
      | cons y ys =>
          rw [step, Bool.and_eq_true] at h
          exact .cons h.1 (ih h.2)

theorem forall₂_imp_of_mem {α β : Type} {r r' : α → β → Prop} {xs : List α} {ys : List β}
    (h : List.Forall₂ r xs ys) (imp : ∀ x ∈ xs, ∀ y ∈ ys, r x y → r' x y) :
    List.Forall₂ r' xs ys := by
  induction h with
  | nil => exact .nil
  | @cons x y xs ys hxy _ ih =>
      refine .cons (imp x List.mem_cons_self y List.mem_cons_self hxy) (ih fun x' hx' y' hy' => ?_)
      exact imp x' (List.mem_cons_of_mem x hx') y' (List.mem_cons_of_mem y hy')

theorem forall_mem_iff_of_forall₂ {α β : Type} {r : α → β → Prop} {xs : List α} {ys : List β}
    (h : List.Forall₂ r xs ys) {P : α → Prop} {Q : β → Prop}
    (agree : ∀ x ∈ xs, ∀ y ∈ ys, r x y → (P x ↔ Q y)) :
    (∀ x ∈ xs, P x) ↔ ∀ y ∈ ys, Q y := by
  have hall := forall₂_imp_of_mem h agree
  clear h agree
  induction hall with
  | nil => simp
  | cons hxy _ ih =>
      rw [List.forall_mem_cons, List.forall_mem_cons]
      exact and_congr hxy ih

namespace Value

/-! ## Exact values -/

mutual

/-- No double at any depth, and no set or dictionary with members or keys that
    equal each other. -/
def isExact : Value → Bool
  | float _ => false
  | collection kind items =>
      allExact items &&
        (!kind.isUnordered || decide (items.Pairwise fun x y => equal x y = false))
  | dict entries =>
      allEntriesExact entries && decide (entries.Pairwise fun e f => equal e.1 f.1 = false)
  | _ => true

def allExact : List Value → Bool
  | [] => true
  | v :: rest => v.isExact && allExact rest

def allEntriesExact : List (Value × Value) → Bool
  | [] => true
  | (k, v) :: rest => k.isExact && v.isExact && allEntriesExact rest

end

theorem allExact_iff {vs : List Value} : allExact vs = true ↔ ∀ v ∈ vs, v.isExact = true := by
  induction vs with
  | nil => simp [allExact]
  | cons v rest ih => simp [allExact, ih]

theorem allEntriesExact_iff {es : List (Value × Value)} :
    allEntriesExact es = true ↔ ∀ e ∈ es, e.1.isExact = true ∧ e.2.isExact = true := by
  induction es with
  | nil => simp [allEntriesExact]
  | cons e rest ih => simp [allEntriesExact, ih]

theorem isExact_collection {kind : CollectionKind} {items : List Value} :
    (collection kind items).isExact = true ↔
      (∀ v ∈ items, v.isExact = true) ∧
        (kind.isUnordered = true → items.Pairwise fun x y => equal x y = false) := by
  rw [isExact, Bool.and_eq_true, allExact_iff, Bool.or_eq_true, decide_eq_true_iff,
    Bool.not_eq_true']
  cases kind.isUnordered <;> simp

theorem isExact_dict {entries : List (Value × Value)} :
    (dict entries).isExact = true ↔
      (∀ e ∈ entries, e.1.isExact = true ∧ e.2.isExact = true) ∧
        entries.Pairwise fun e f => equal e.1 f.1 = false := by
  rw [isExact, Bool.and_eq_true, allEntriesExact_iff, decide_eq_true_iff]

/-! ## Values that stand for each other -/

/-- No comparison tells the two values apart, on either side. -/
def Interchangeable (x y : Value) : Prop :=
  ∀ v, equal x v = equal y v ∧ equal v x = equal v y

namespace Interchangeable

variable {x y : Value}

theorem refl (x : Value) : Interchangeable x x := fun _ => ⟨rfl, rfl⟩

theorem symm (h : Interchangeable x y) : Interchangeable y x :=
  fun v => ⟨(h v).1.symm, (h v).2.symm⟩

theorem left (h : Interchangeable x y) (v : Value) : equal x v = equal y v := (h v).1

theorem right (h : Interchangeable x y) (v : Value) : equal v x = equal v y := (h v).2

end Interchangeable

/-- The number of a value decides what it equals. -/
theorem equal_of_numeric {l : Value} {m : Numeric} (h : l.numeric? = some m) (v : Value) :
    equal l v = v.numeric?.any fun n => m.compare? n == some .eq := by
  cases l <;> simp [numeric?] at h <;> subst h <;> cases v <;> simp [equal, numeric?]

theorem equal_of_numeric_right {l : Value} {m : Numeric} (h : l.numeric? = some m) (v : Value) :
    equal v l = v.numeric?.any fun n => n.compare? m == some .eq := by
  cases l <;> simp [numeric?] at h <;> subst h <;> cases v <;> simp [equal, numeric?]

theorem interchangeable_of_numeric {x y : Value} {m : Numeric} (hx : x.numeric? = some m)
    (hy : y.numeric? = some m) : Interchangeable x y := by
  intro v
  rw [equal_of_numeric hx, equal_of_numeric hy, equal_of_numeric_right hx,
    equal_of_numeric_right hy]
  exact ⟨rfl, rfl⟩

theorem interchangeable_binary (kind other : BinaryKind) (data : List UInt8) :
    Interchangeable (binary kind data) (binary other data) := by
  intro v
  cases v <;> simp [equal, numeric?]

theorem interchangeable_range {r s : IntRange} (h : r.sameElements s = true) :
    Interchangeable (range r) (range s) := by
  intro v
  cases v with
  | range t =>
      simp only [equal, IntRange.sameElements] at h ⊢
      grind
  | _ => simp [equal, numeric?]

/-! ## Matched members -/

/-- As many items on both sides, and each one related to one of the other side. -/
structure Matched {α β : Type} (r : α → β → Prop) (xs : List α) (ys : List β) : Prop where
  length_eq : xs.length = ys.length
  covers : ∀ x ∈ xs, ∃ y ∈ ys, r x y
  covered : ∀ y ∈ ys, ∃ x ∈ xs, r x y

namespace Matched

variable {α β : Type} {r : α → β → Prop} {xs : List α} {ys : List β}

theorem forall_iff (h : Matched r xs ys) {P : α → Prop} {Q : β → Prop}
    (agree : ∀ x y, r x y → (P x ↔ Q y)) : (∀ x ∈ xs, P x) ↔ ∀ y ∈ ys, Q y := by
  constructor
  · intro hall y hy
    obtain ⟨x, hx, hxy⟩ := h.covered y hy
    exact (agree x y hxy).mp (hall x hx)
  · intro hall x hx
    obtain ⟨y, hy, hxy⟩ := h.covers x hx
    exact (agree x y hxy).mpr (hall y hy)

theorem exists_iff (h : Matched r xs ys) {P : α → Prop} {Q : β → Prop}
    (agree : ∀ x y, r x y → (P x ↔ Q y)) : (∃ x ∈ xs, P x) ↔ ∃ y ∈ ys, Q y := by
  constructor
  · rintro ⟨x, hx, hP⟩
    obtain ⟨y, hy, hxy⟩ := h.covers x hx
    exact ⟨y, hy, (agree x y hxy).mp hP⟩
  · rintro ⟨y, hy, hQ⟩
    obtain ⟨x, hx, hxy⟩ := h.covered y hy
    exact ⟨x, hx, (agree x y hxy).mpr hQ⟩

/-- Where no two items are related to the same one, as many items meet all of
    the other side. -/
theorem of_distinct (length_eq : xs.length = ys.length)
    (distinct : xs.Pairwise fun x x' => ∀ y, r x y → ¬ r x' y)
    (covers : ∀ x ∈ xs, ∃ y ∈ ys, r x y) : Matched r xs ys := by
  refine ⟨length_eq, covers, ?_⟩
  induction xs generalizing ys with
  | nil =>
      have hnil : ys = [] := List.length_eq_zero_iff.mp length_eq.symm
      simp [hnil]
  | cons x xs ih =>
      obtain ⟨hx, hxs⟩ := List.pairwise_cons.mp distinct
      obtain ⟨y, hy, hxy⟩ := covers x List.mem_cons_self
      obtain ⟨before, after, rfl⟩ := List.append_of_mem hy
      -- the item that meets `x` is set aside; it is of no use to the others
      have hlen : xs.length = (before ++ after).length := by
        simp only [List.length_cons, List.length_append] at length_eq ⊢
        omega
      have hcovers : ∀ x' ∈ xs, ∃ y' ∈ before ++ after, r x' y' := by
        intro x' hx'
        obtain ⟨y', hy', hxy'⟩ := covers x' (List.mem_cons_of_mem x hx')
        have hne : y' ≠ y := by
          rintro rfl
          exact hx x' hx' y' hxy hxy'
        refine ⟨y', ?_, hxy'⟩
        simpa [hne] using hy'
      intro z hz
      have hcases : z = y ∨ z ∈ before ++ after := by simpa [or_left_comm] using hz
      rcases hcases with rfl | hz
      · exact ⟨x, List.mem_cons_self, hxy⟩
      · obtain ⟨x', hx', hr⟩ := ih hlen hxs hcovers z hz
        exact ⟨x', List.mem_cons_of_mem x hx', hr⟩

end Matched

/-! ## Containers of interchangeable parts -/

theorem equalAll_iff {xs ys : List Value} :
    equalAll xs ys = true ↔ List.Forall₂ (fun x y => equal x y = true) xs ys := by
  induction xs generalizing ys with
  | nil => cases ys <;> simp [equalAll]
  | cons x xs ih => cases ys <;> simp [equalAll, ih]

theorem equal_ordered_iff {k l : CollectionKind} {xs ys : List Value}
    (hk : k.isUnordered = false) :
    equal (collection k xs) (collection l ys) = true ↔
      k = l ∧ List.Forall₂ (fun x y => equal x y = true) xs ys := by
  simp [equal, hk, equalAll_iff]

theorem equal_unordered_iff {k l : CollectionKind} {xs ys : List Value}
    (hk : k.isUnordered = true) (hl : l.isUnordered = true) :
    equal (collection k xs) (collection l ys) = true ↔
      xs.length = ys.length ∧ ∀ x ∈ xs, ∃ y ∈ ys, equal y x = true := by
  simp [equal_unordered hk hl]

theorem equal_dict_iff {es fs : List (Value × Value)} :
    equal (dict es) (dict fs) = true ↔
      es.length = fs.length ∧
        ∀ e ∈ es, ∃ f ∈ fs, equal e.1 f.1 = true ∧ equal e.2 f.2 = true := by
  simp only [equal_dict, Bool.and_eq_true, beq_iff_eq, List.all_eq_true, List.any_eq_true]

theorem equalAll_congr {xs ys : List Value} (h : List.Forall₂ Interchangeable xs ys)
    (zs : List Value) :
    equalAll xs zs = equalAll ys zs ∧ equalAll zs xs = equalAll zs ys := by
  induction h generalizing zs with
  | nil => exact ⟨rfl, rfl⟩
  | cons hxy _ ih =>
      cases zs with
      | nil => simp [equalAll]
      | cons z zs => simp only [equalAll, hxy.left z, hxy.right z, (ih zs).1, (ih zs).2, and_self]

theorem interchangeable_ordered {kind : CollectionKind} {xs ys : List Value}
    (hkind : kind.isUnordered = false) (h : List.Forall₂ Interchangeable xs ys) :
    Interchangeable (collection kind xs) (collection kind ys) := by
  intro v
  cases v with
  | collection other zs =>
      simp [equal, hkind, (equalAll_congr h zs).1, (equalAll_congr h zs).2]
  | _ => simp [equal, numeric?]

/-- An ordered collection never equals a set. -/
theorem equal_ordered_unordered {kind other : CollectionKind} {xs ys : List Value}
    (h : kind.isUnordered ≠ other.isUnordered) :
    equal (collection kind xs) (collection other ys) = false := by
  have hkinds : kind ≠ other := fun heq => h (by rw [heq])
  rw [equal]
  cases hk : kind.isUnordered <;> cases ho : other.isUnordered <;> simp_all

theorem interchangeable_unordered {k l : CollectionKind} {xs ys : List Value}
    (hk : k.isUnordered = true) (hl : l.isUnordered = true) (h : Matched Interchangeable xs ys) :
    Interchangeable (collection k xs) (collection l ys) := by
  intro v
  cases v with
  | collection m zs =>
      cases hm : m.isUnordered with
      | false =>
          rw [equal_ordered_unordered (by simp [hk, hm]),
            equal_ordered_unordered (by simp [hl, hm]),
            equal_ordered_unordered (by simp [hk, hm]),
            equal_ordered_unordered (by simp [hl, hm])]
          exact ⟨rfl, rfl⟩
      | true =>
          have hall : (∀ x ∈ xs, ∃ z ∈ zs, equal z x = true) ↔
              ∀ y ∈ ys, ∃ z ∈ zs, equal z y = true :=
            h.forall_iff fun x y hxy => by simp only [hxy.right]
          have hany (z : Value) : (∃ x ∈ xs, equal x z = true) ↔ ∃ y ∈ ys, equal y z = true :=
            h.exists_iff fun x y hxy => by rw [hxy.left]
          constructor
          · rw [Bool.eq_iff_iff, equal_unordered_iff hk hm, equal_unordered_iff hl hm, h.length_eq,
              hall]
          · rw [Bool.eq_iff_iff, equal_unordered_iff hm hk, equal_unordered_iff hm hl, h.length_eq]
            simp only [hany]
  | _ => simp [equal, numeric?]

/-- Entries with interchangeable keys and interchangeable values. -/
def EntriesInterchangeable (e f : Value × Value) : Prop :=
  Interchangeable e.1 f.1 ∧ Interchangeable e.2 f.2

theorem interchangeable_dict {es fs : List (Value × Value)}
    (h : Matched EntriesInterchangeable es fs) : Interchangeable (dict es) (dict fs) := by
  intro v
  cases v with
  | dict gs =>
      have hall : (∀ e ∈ es, ∃ g ∈ gs, equal e.1 g.1 = true ∧ equal e.2 g.2 = true) ↔
          ∀ f ∈ fs, ∃ g ∈ gs, equal f.1 g.1 = true ∧ equal f.2 g.2 = true :=
        h.forall_iff fun e f hef => by simp only [hef.1.left, hef.2.left]
      have hany (g : Value × Value) :
          (∃ e ∈ es, equal g.1 e.1 = true ∧ equal g.2 e.2 = true) ↔
            ∃ f ∈ fs, equal g.1 f.1 = true ∧ equal g.2 f.2 = true :=
        h.exists_iff fun e f hef => by rw [hef.1.right, hef.2.right]
      constructor
      · rw [Bool.eq_iff_iff, equal_dict_iff, equal_dict_iff, h.length_eq, hall]
      · rw [Bool.eq_iff_iff, equal_dict_iff, equal_dict_iff, h.length_eq]
        simp only [hany]
  | _ => simp [equal, numeric?]

/-! ## Equal exact values -/

theorem equal_self {x : Value} (hx : x.isExact = true) : equal x x = true := by
  induction x using induction_parts with
  | step x ihm ihp =>
      cases x with
      | float x => cases hx
      | collection kind items =>
          obtain ⟨hitems, _⟩ := isExact_collection.mp hx
          have hself : ∀ v ∈ items, equal v v = true := fun v hv => ihm v hv (hitems v hv)
          cases hkind : kind.isUnordered with
          | true =>
              exact (equal_unordered_iff hkind hkind).mpr ⟨rfl, fun v hv => ⟨v, hv, hself v hv⟩⟩
          | false => exact (equal_ordered_iff hkind).mpr ⟨rfl, List.forall₂_same.mpr hself⟩
      | dict entries =>
          obtain ⟨hentries, _⟩ := isExact_dict.mp hx
          refine equal_dict_iff.mpr ⟨rfl, fun e he => ⟨e, he, ?_, ?_⟩⟩
          · exact (ihp e he).1 (hentries e he).1
          · exact (ihp e he).2 (hentries e he).2
      | range r => simp [equal, IntRange.sameElements]
      | _ => simp [equal, numeric?, Numeric.compare?]

/-- Items with unequal exact keys are not interchangeable with the same value. -/
theorem distinct_of_unequal {α : Type} {key : α → Value} {xs : List α}
    (exact : ∀ x ∈ xs, (key x).isExact = true)
    (unequal : xs.Pairwise fun x x' => equal (key x) (key x') = false) :
    xs.Pairwise fun x x' => ∀ y, Interchangeable (key x) y → ¬ Interchangeable (key x') y := by
  refine unequal.imp_of_mem fun {x x'} _ hx' hne y hxy hxy' => ?_
  -- both keys could be replaced by `y`, hence one by the other
  have hequal : equal (key x) (key x') = true := by
    rw [hxy.left, ← hxy'.left]
    exact equal_self (exact x' hx')
  rw [hne] at hequal
  cases hequal

/-- An exact value that equals an integer has its number. -/
theorem numeric?_of_equal {x y : Value} {n : Int64} (hx : x.numeric? = some (.int n))
    (hy : y.isExact = true) (h : equal x y = true) : y.numeric? = some (.int n) := by
  rw [equal_of_numeric hx, Option.any_eq_true] at h
  obtain ⟨m, hm, hcompare⟩ := h
  cases m with
  | float z => cases y <;> simp [numeric?, isExact] at hm hy
  | int m =>
      simp only [Numeric.compare?, beq_iff_eq, Option.some.injEq] at hcompare
      have hnm : n = m := Int64.toInt_inj.mp (Std.LawfulEqOrd.eq_of_compare hcompare)
      rw [hm, hnm]

section EqualParts

variable {k l : CollectionKind} {xs ys : List Value} {es fs : List (Value × Value)}

theorem interchangeable_of_equal_ordered (hk : k.isUnordered = false)
    (ih : ∀ x ∈ xs, ∀ y ∈ ys, equal x y = true → Interchangeable x y)
    (h : equal (collection k xs) (collection l ys) = true) :
    Interchangeable (collection k xs) (collection l ys) := by
  obtain ⟨rfl, hall⟩ := (equal_ordered_iff hk).mp h
  exact interchangeable_ordered hk (forall₂_imp_of_mem hall ih)

theorem interchangeable_of_equal_unordered (hk : k.isUnordered = true)
    (hx : (collection k xs).isExact = true)
    (ih : ∀ x ∈ xs, ∀ y ∈ ys, equal y x = true → Interchangeable x y)
    (h : equal (collection k xs) (collection l ys) = true) :
    Interchangeable (collection k xs) (collection l ys) := by
  have hl : l.isUnordered = true := by
    by_contra hl
    rw [equal_ordered_unordered (by simp [hk, hl])] at h
    cases h
  obtain ⟨hxs, hdistinct⟩ := isExact_collection.mp hx
  obtain ⟨hlen, hall⟩ := (equal_unordered_iff hk hl).mp h
  refine interchangeable_unordered hk hl (.of_distinct hlen ?_ fun x hxs' => ?_)
  · exact distinct_of_unequal hxs (hdistinct hk)
  · obtain ⟨y, hy, hyx⟩ := hall x hxs'
    exact ⟨y, hy, ih x hxs' y hy hyx⟩

theorem interchangeable_of_equal_dict (hx : (dict es).isExact = true)
    (ih : ∀ e ∈ es, ∀ f ∈ fs, equal e.1 f.1 = true → equal e.2 f.2 = true →
      EntriesInterchangeable e f)
    (h : equal (dict es) (dict fs) = true) : Interchangeable (dict es) (dict fs) := by
  obtain ⟨hes, hdistinct⟩ := isExact_dict.mp hx
  obtain ⟨hlen, hall⟩ := equal_dict_iff.mp h
  refine interchangeable_dict (.of_distinct hlen ?_ fun e he => ?_)
  · have hkeys := distinct_of_unequal (fun e he => (hes e he).1) hdistinct
    exact hkeys.imp fun hne f hef hef' => hne f.1 hef.1 hef'.1
  · obtain ⟨f, hf, hkey, hvalue⟩ := hall e he
    exact ⟨f, hf, ih e he f hf hkey hvalue⟩

end EqualParts

/-- Exact values that are equal stand for each other in every comparison. -/
theorem interchangeable_of_equal {x y : Value} (hx : x.isExact = true) (hy : y.isExact = true)
    (h : equal x y = true) : Interchangeable x y := by
  -- by the size of both operands, since comparing sets swaps them
  induction hn : sizeOf x + sizeOf y using Nat.strongRecOn generalizing x y with
  | ind n ih =>
      subst hn
      cases x with
      | float x => cases hx
      | bool b => exact interchangeable_of_numeric rfl (numeric?_of_equal rfl hy h)
      | int n => exact interchangeable_of_numeric rfl (numeric?_of_equal rfl hy h)
      | collection k xs =>
          cases y with
          | collection l ys =>
              have hxs := (isExact_collection.mp hx).1
              have hys := (isExact_collection.mp hy).1
              have hsmaller : ∀ v ∈ xs, ∀ w ∈ ys,
                  sizeOf v + sizeOf w < sizeOf (collection k xs) + sizeOf (collection l ys) := by
                intro v hv w hw
                exact Nat.add_lt_add (sizeOf_lt_of_mem_members hv) (sizeOf_lt_of_mem_members hw)
              cases hk : k.isUnordered with
              | false =>
                  exact interchangeable_of_equal_ordered hk (fun v hv w hw hvw =>
                    ih _ (hsmaller v hv w hw) (hxs v hv) (hys w hw) hvw rfl) h
              | true =>
                  -- a member on the right is compared with the one on the left
                  refine interchangeable_of_equal_unordered hk hx (fun v hv w hw hwv => ?_) h
                  have hlt := hsmaller v hv w hw
                  rw [Nat.add_comm] at hlt
                  exact (ih _ hlt (hys w hw) (hxs v hv) hwv rfl).symm
          | _ => simp [equal, numeric?] at h
      | dict es =>
          cases y with
          | dict fs =>
              have hes := (isExact_dict.mp hx).1
              have hfs := (isExact_dict.mp hy).1
              refine interchangeable_of_equal_dict hx (fun e he f hf hkey hvalue => ?_) h
              obtain ⟨hek, hev⟩ := sizeOf_lt_of_mem_pairs (v := dict es) he
              obtain ⟨hfk, hfv⟩ := sizeOf_lt_of_mem_pairs (v := dict fs) hf
              exact ⟨ih _ (Nat.add_lt_add hek hfk) (hes e he).1 (hfs f hf).1 hkey rfl,
                ih _ (Nat.add_lt_add hev hfv) (hes e he).2 (hfs f hf).2 hvalue rfl⟩
          | _ => simp [equal, numeric?] at h
      | range r =>
          cases y with
          | range s => exact interchangeable_range (by simpa [equal] using h)
          | _ => simp [equal, numeric?] at h
      | binary kind data =>
          cases y with
          | binary other data' =>
              obtain rfl : data = data' := by simpa [equal] using h
              exact interchangeable_binary kind other data
          | _ => simp [equal, numeric?] at h
      | none => cases y <;> simp [equal, numeric?] at h; exact .refl _
      | str s => cases y <;> simp [equal, numeric?] at h; exact h ▸ .refl _
      | object c => cases y <;> simp [equal, numeric?] at h; exact h ▸ .refl _
      | classRef c => cases y <;> simp [equal, numeric?] at h; exact h ▸ .refl _
      | callable kind name =>
          cases y <;> simp [equal, numeric?] at h
          obtain ⟨rfl, rfl⟩ := h
          exact .refl _

/-- Position by position equal lists of exact values hold the same values up to
    equality. -/
theorem any_equal_congr {xs ys : List Value} (hx : ∀ x ∈ xs, x.isExact = true)
    (hy : ∀ y ∈ ys, y.isExact = true) (h : equalAll xs ys = true) (v : Value) :
    xs.any (equal · v) = ys.any (equal · v) := by
  have hall := forall₂_imp_of_mem (equalAll_iff.mp h) fun x hxs y hys =>
    interchangeable_of_equal (hx x hxs) (hy y hys)
  clear hx hy h
  induction hall with
  | nil => rfl
  | cons hxy _ ih => rw [List.any_cons, List.any_cons, hxy.left, ih]

end Value

end Conform

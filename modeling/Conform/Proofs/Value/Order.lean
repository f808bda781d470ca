/-
  Conform.Proofs.Value.Order

  The host's order is a partial order on exact values, and it goes together
  with host equality: values that compare as equal are equal, equal values
  compare as equal or not at all, and they compare alike with all others.

  Sequences are ordered by their first unequal pair, which need not be ordered
  itself. So each law passes from the members to the sequence together with
  what equality does to the members in front of that pair. `ComparesAs` lists
  the ways in which two values can be ordered; the laws are read off it.
-/

import Conform.Proofs.Value.Comparison
import Conform.Proofs.Value.Equivalence

namespace Conform.Value

variable {a b c : Value} {o : Ordering}

/-! ## Ordered pairs -/

/-- Two values are ordered, and in this way. -/
inductive ComparesAs : Value → Value → Ordering → Prop
  | numbers {a b : Value} {m n : Int64} (left : a.numeric? = some (.int m))
      (right : b.numeric? = some (.int n)) : ComparesAs a b (compare m.toInt n.toInt)
  | texts (s t : String) : ComparesAs (str s) (str t) (compare s.toList t.toList)
  /-- Byte strings are ordered by content, whatever their kinds. -/
  | bytes (k l : BinaryKind) (x y : List UInt8) :
      ComparesAs (binary k x) (binary l y) (compare x y)
  /-- Two lists, or two tuples. -/
  | items {kind : CollectionKind} {xs ys : List Value} {o : Ordering}
      (sequence : kind.isUnordered = false) (decided : compareItems xs ys = some o) :
      ComparesAs (collection kind xs) (collection kind ys) o

theorem compareItems_cons (x y : Value) (xs ys : List Value) :
    compareItems (x :: xs) (y :: ys) =
      if equal x y = true then compareItems xs ys else compare? x y := by
  rw [compareItems]
  rfl

theorem exists_int_of_numeric? (ha : a.isExact = true) {m : Numeric}
    (h : a.numeric? = some m) : ∃ n, m = .int n := by
  cases m with
  | int n => exact ⟨n, rfl⟩
  | float x => cases a <;> simp [numeric?, isExact] at h ha

theorem comparesAs_of_compare? (ha : a.isExact = true) (hb : b.isExact = true)
    (h : compare? a b = some o) : ComparesAs a b o := by
  rw [compare?.eq_def] at h
  split at h
  · exact Option.some.inj h ▸ .texts _ _
  · exact Option.some.inj h ▸ .bytes _ _ _ _
  · exact .items rfl h
  · exact .items rfl h
  · split at h
    next m n hm hn =>
      obtain ⟨i, rfl⟩ := exists_int_of_numeric? ha hm
      obtain ⟨j, rfl⟩ := exists_int_of_numeric? hb hn
      exact Option.some.inj h ▸ .numbers hm hn
    next => cases h

theorem ComparesAs.compare?_eq (h : ComparesAs a b o) : compare? a b = some o := by
  cases h with
  | numbers left right => rw [compare?_of_numeric right, left]; rfl
  | texts s t => simp [compare?]
  | bytes k l x y => simp [compare?]
  | @items kind xs ys o sequence decided =>
      cases kind <;> simp_all [compare?, CollectionKind.isUnordered]

/-! ## Turning a comparison around -/

theorem compareItems_swap {xs ys : List Value} (hxs : ∀ x ∈ xs, x.isExact = true)
    (hys : ∀ y ∈ ys, y.isExact = true)
    (members : ∀ x ∈ xs, ∀ y ∈ ys, ∀ o, compare? x y = some o → compare? y x = some o.swap)
    (h : compareItems xs ys = some o) : compareItems ys xs = some o.swap := by
  induction xs generalizing ys with
  | nil => cases ys <;> cases h <;> rfl
  | cons x xs ih =>
      cases ys with
      | nil =>
          cases h
          rfl
      | cons y ys =>
          obtain ⟨hx, hxs⟩ := List.forall_mem_cons.mp hxs
          obtain ⟨hy, hys⟩ := List.forall_mem_cons.mp hys
          rw [compareItems_cons] at h ⊢
          rw [equal_comm hy hx]
          split at h
          next heq =>
            rw [if_pos heq]
            apply ih hxs hys _ h
            intro x' hx' y' hy'
            exact members x' (List.mem_cons_of_mem x hx') y' (List.mem_cons_of_mem y hy')
          next hne =>
            rw [if_neg hne]
            exact members x List.mem_cons_self y List.mem_cons_self o h

theorem compare?_some_swap (ha : a.isExact = true) (hb : b.isExact = true)
    (h : compare? a b = some o) : compare? b a = some o.swap := by
  induction a using induction_parts generalizing b o with
  | step a ihm _ =>
      cases comparesAs_of_compare? ha hb h with
      | numbers left right =>
          rw [← Std.OrientedCmp.eq_swap]
          exact (ComparesAs.numbers right left).compare?_eq
      | texts s t =>
          rw [← Std.OrientedCmp.eq_swap]
          exact (ComparesAs.texts t s).compare?_eq
      | bytes k l x y =>
          rw [← Std.OrientedCmp.eq_swap]
          exact (ComparesAs.bytes l k y x).compare?_eq
      | items sequence decided =>
          have hxs := (isExact_collection.mp ha).1
          have hys := (isExact_collection.mp hb).1
          refine (ComparesAs.items sequence (compareItems_swap hxs hys ?_ decided)).compare?_eq
          exact fun x hx y hy _ hxy => ihm x hx (hxs x hx) (hys y hy) hxy

/-- Exchanging the sides turns the order around. -/
theorem compare?_swap (ha : a.isExact = true) (hb : b.isExact = true) :
    compare? b a = (compare? a b).map .swap := by
  ext o
  rw [Option.map_eq_some_iff]
  constructor
  · intro h
    exact ⟨o.swap, compare?_some_swap hb ha h, Ordering.swap_swap⟩
  · rintro ⟨o, h, rfl⟩
    exact compare?_some_swap ha hb h

/-- Equal exact values compare alike, on the left side as well. -/
theorem compare?_congr_left (ha : a.isExact = true) (hb : b.isExact = true)
    (hc : c.isExact = true) (h : equal a b = true) : compare? a c = compare? b c := by
  rw [compare?_swap hc ha, compare?_swap hc hb, compare?_congr ha hb h]

/-! ## Order and equality -/

theorem forall₂_equal_of_compareItems_eq {xs ys : List Value}
    (members : ∀ x ∈ xs, ∀ y ∈ ys, compare? x y = some .eq → equal x y = true)
    (h : compareItems xs ys = some .eq) : List.Forall₂ (fun x y => equal x y = true) xs ys := by
  induction xs generalizing ys with
  | nil =>
      cases ys with
      | nil => exact .nil
      | cons y ys => cases h
  | cons x xs ih =>
      cases ys with
      | nil => cases h
      | cons y ys =>
          rw [compareItems_cons] at h
          split at h
          next heq =>
            refine .cons heq (ih ?_ h)
            intro x' hx' y' hy'
            exact members x' (List.mem_cons_of_mem x hx') y' (List.mem_cons_of_mem y hy')
          next hne => exact absurd (members x List.mem_cons_self y List.mem_cons_self h) hne

theorem equal_of_compare?_eq (ha : a.isExact = true) (hb : b.isExact = true)
    (h : compare? a b = some .eq) : equal a b = true := by
  induction a using induction_parts generalizing b with
  | step a ihm _ =>
      generalize ho : Ordering.eq = o at h
      cases comparesAs_of_compare? ha hb h with
      | numbers left right =>
          rw [equal_of_numeric left, right]
          simp [Numeric.compare?, ← ho]
      | texts s t =>
          have hst := Std.LawfulEqOrd.eq_of_compare ho.symm
          simp [equal, String.toList_inj.mp hst]
      | bytes k l x y =>
          have hxy := Std.LawfulEqOrd.eq_of_compare ho.symm
          simp [equal, hxy]
      | items sequence decided =>
          subst ho
          have hxs := (isExact_collection.mp ha).1
          have hys := (isExact_collection.mp hb).1
          refine (equal_ordered_iff sequence).mpr ⟨rfl, forall₂_equal_of_compareItems_eq ?_ decided⟩
          exact fun x hx y hy hxy => ihm x hx (hxs x hx) (hys y hy) hxy

theorem compareItems_self {xs : List Value} (hxs : ∀ x ∈ xs, x.isExact = true) :
    compareItems xs xs = some .eq := by
  induction xs with
  | nil => rfl
  | cons x xs ih =>
      obtain ⟨hx, hxs⟩ := List.forall_mem_cons.mp hxs
      rw [compareItems_cons, if_pos (equal_self hx), ih hxs]

/-- If a value is ordered against itself, then as equal. -/
theorem eq_of_compare?_self (ha : a.isExact = true) (h : compare? a a = some o) : o = .eq := by
  cases comparesAs_of_compare? ha ha h with
  | numbers left right =>
      cases left.symm.trans right
      exact Std.ReflCmp.compare_self
  | texts s t => exact Std.ReflCmp.compare_self
  | bytes k l x y => exact Std.ReflCmp.compare_self
  | items sequence decided =>
      rw [compareItems_self (isExact_collection.mp ha).1] at decided
      exact (Option.some.inj decided).symm

theorem eq_of_equal_of_compare? (ha : a.isExact = true) (hb : b.isExact = true)
    (h : equal a b = true) (hcompare : compare? a b = some o) : o = .eq := by
  rw [← compare?_congr ha hb h] at hcompare
  exact eq_of_compare?_self ha hcompare

theorem equal_eq_false_of_lt (ha : a.isExact = true) (hb : b.isExact = true)
    (h : compare? a b = some .lt) : equal a b = false := by
  rw [Bool.eq_false_iff]
  intro hequal
  cases eq_of_equal_of_compare? ha hb hequal h

/-! ## Transitivity -/

theorem compareItems_cons_eq_lt_iff {x y : Value} {xs ys : List Value} :
    compareItems (x :: xs) (y :: ys) = some .lt ↔
      (equal x y = true ∧ compareItems xs ys = some .lt) ∨
        (equal x y = false ∧ compare? x y = some .lt) := by
  rw [compareItems_cons]
  cases h : equal x y <;> simp

theorem compareItems_lt_trans {xs ys zs : List Value} (hxs : ∀ x ∈ xs, x.isExact = true)
    (hys : ∀ y ∈ ys, y.isExact = true) (hzs : ∀ z ∈ zs, z.isExact = true)
    (members : ∀ x ∈ xs, ∀ y ∈ ys, ∀ z ∈ zs,
      compare? x y = some .lt → compare? y z = some .lt → compare? x z = some .lt)
    (hxy : compareItems xs ys = some .lt) (hyz : compareItems ys zs = some .lt) :
    compareItems xs zs = some .lt := by
  induction xs generalizing ys zs with
  | nil =>
      -- only the empty sequence comes before all others
      cases zs with
      | nil => cases ys <;> cases hyz
      | cons z zs => rfl
  | cons x xs ih =>
      cases ys with
      | nil => cases hxy
      | cons y ys =>
          cases zs with
          | nil => cases hyz
          | cons z zs =>
              obtain ⟨hx, hxs⟩ := List.forall_mem_cons.mp hxs
              obtain ⟨hy, hys⟩ := List.forall_mem_cons.mp hys
              obtain ⟨hz, hzs⟩ := List.forall_mem_cons.mp hzs
              rw [compareItems_cons_eq_lt_iff] at hxy hyz ⊢
              rcases hxy with ⟨exy, hxy⟩ | ⟨_, hxy⟩
              · rcases hyz with ⟨eyz, hyz⟩ | ⟨nyz, hyz⟩
                · refine Or.inl ⟨equal_trans hx hy exy eyz, ih hxs hys hzs ?_ hxy hyz⟩
                  intro x' hx' y' hy' z' hz'
                  exact members x' (List.mem_cons_of_mem x hx') y' (List.mem_cons_of_mem y hy') z'
                    (List.mem_cons_of_mem z hz')
                · -- `x` takes the place of `y`
                  rw [← (interchangeable_of_equal hx hy exy).left] at nyz
                  rw [← compare?_congr_left hx hy hz exy] at hyz
                  exact Or.inr ⟨nyz, hyz⟩
              · have hxz : compare? x z = some .lt := by
                  rcases hyz with ⟨eyz, _⟩ | ⟨_, hyz⟩
                  · rwa [← compare?_congr hy hz eyz]
                  · exact members x List.mem_cons_self y List.mem_cons_self z List.mem_cons_self
                      hxy hyz
                exact Or.inr ⟨equal_eq_false_of_lt hx hz hxz, hxz⟩

/-- What is less than a lesser value is ordered against the greater one too, and
    less. -/
theorem compare?_lt_trans (ha : a.isExact = true) (hb : b.isExact = true) (hc : c.isExact = true)
    (hab : compare? a b = some .lt) (hbc : compare? b c = some .lt) :
    compare? a c = some .lt := by
  induction a using induction_parts generalizing b c with
  | step a ihm _ =>
      generalize ho : Ordering.lt = o at hab
      generalize ho' : Ordering.lt = o' at hbc
      -- The middle value stands in both pairs, so that both are ordered in the same way.
      cases comparesAs_of_compare? ha hb hab with
      | numbers left middle =>
          cases comparesAs_of_compare? hb hc hbc with
          | numbers middle' right =>
              cases middle.symm.trans middle'
              rw [(ComparesAs.numbers left right).compare?_eq]
              exact congrArg some ((Std.TransCmp.lt_trans ho.symm ho'.symm).trans ho)
          | _ => cases middle
      | texts s t =>
          cases comparesAs_of_compare? hb hc hbc with
          | numbers middle _ => cases middle
          | texts _ u =>
              rw [(ComparesAs.texts s u).compare?_eq]
              exact congrArg some ((Std.TransCmp.lt_trans ho.symm ho'.symm).trans ho)
      | bytes k l x y =>
          cases comparesAs_of_compare? hb hc hbc with
          | numbers middle _ => cases middle
          | bytes _ m _ z =>
              rw [(ComparesAs.bytes k m x z).compare?_eq]
              exact congrArg some ((Std.TransCmp.lt_trans ho.symm ho'.symm).trans ho)
      | items sequence hxy =>
          cases comparesAs_of_compare? hb hc hbc with
          | numbers middle _ => cases middle
          | items _ hyz =>
              subst ho ho'
              have hxs := (isExact_collection.mp ha).1
              have hys := (isExact_collection.mp hb).1
              have hzs := (isExact_collection.mp hc).1
              refine (ComparesAs.items sequence
                (compareItems_lt_trans hxs hys hzs ?_ hxy hyz)).compare?_eq
              exact fun x hx y hy z hz => ihm x hx (hxs x hx) (hys y hy) (hzs z hz)

/-! ## The order -/

/-- On exact values the order is a strict partial order that goes together with
    equality: exchanging the sides turns it around, what compares as equal is
    equal and what is equal compares as equal or not at all, less is transitive,
    and equal values compare alike with every value. -/
theorem compare?_partial_order (a b c a' : ExactValue) :
    compare? b.val a.val = (compare? a.val b.val).map .swap ∧
      (compare? a.val b.val = some .eq → (a.val == b.val) = true) ∧
      ((a.val == b.val) = true →
        compare? a.val b.val = some .eq ∨ compare? a.val b.val = Option.none) ∧
      (compare? a.val b.val = some .lt → compare? b.val c.val = some .lt →
        compare? a.val c.val = some .lt) ∧
      ((a.val == a'.val) = true → compare? a.val b.val = compare? a'.val b.val) := by
  obtain ⟨a, ha⟩ := a
  obtain ⟨b, hb⟩ := b
  obtain ⟨c, hc⟩ := c
  obtain ⟨a', ha'⟩ := a'
  refine ⟨compare?_swap ha hb, equal_of_compare?_eq ha hb, fun hequal => ?_,
    compare?_lt_trans ha hb hc, compare?_congr_left ha ha' hb⟩
  cases h : compare? a b with
  | none => exact Or.inr rfl
  | some o => exact Or.inl (congrArg some (eq_of_equal_of_compare? ha hb hequal h))

/-- Lists of truth values and numbers: the first two are equal and come before
    the third, and that one before the fourth, which ends in a value without
    order. -/
theorem compare?_partial_order_lists :
    let a : Value := collection .list [.bool true, .int 0]
    let a' : Value := collection .list [.int 1, .bool false]
    let b : Value := collection .list [.int 1, .bool true]
    let c : Value := collection .list [.bool true, .int 1, .none]
    (a == a') = true ∧ compare? a b = some .lt ∧ compare? b c = some .lt ∧
      compare? a' b = some .lt ∧ compare? a c = some .lt := by
  intro a a' b c
  have hequal : (a == a') = true := by decide +kernel
  have hab : compare? a b = some .lt := by decide +kernel
  have hbc : compare? b c = some .lt := by decide +kernel
  obtain ⟨_, _, _, htrans, hcongr⟩ := compare?_partial_order ⟨a, by decide⟩ ⟨b, by decide⟩
    ⟨c, by decide⟩ ⟨a', by decide⟩
  exact ⟨hequal, hab, hbc, (hcongr hequal).symm.trans hab, htrans hab hbc⟩

end Conform.Value

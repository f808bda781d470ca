/-
  Conform.Proofs.Value.Comparison

  Ordering and membership tests do not tell equal exact values apart either,
  with one exception: in a byte string one may look for the number 1 but not
  for the truth value that equals it.
-/

import Conform.Proofs.Value.Exact
import Conform.Value.Comparison

namespace Conform.Value

theorem numeric?_congr {x y : Value} (hx : x.isExact = true) (hy : y.isExact = true)
    (h : equal x y = true) : x.numeric? = y.numeric? := by
  cases hn : x.numeric? with
  | none =>
      cases hm : y.numeric? with
      | none => rfl
      | some m =>
          rw [equal_of_numeric_right hm, hn] at h
          cases h
  | some n =>
      cases n with
      | float z => cases x <;> simp [numeric?, isExact] at hn hx
      | int n => rw [numeric?_of_equal hn hy h]

/-! ## Order -/

theorem compare?_of_numeric {x : Value} {m : Numeric} (h : x.numeric? = some m) (v : Value) :
    compare? v x = v.numeric?.bind fun n => n.compare? m := by
  rw [compare?.eq_def]
  split
  case h_5 =>
    rw [h]
    cases v.numeric? <;> rfl
  all_goals cases h

/-- Whether a value cannot be ordered against any other. -/
def neverOrdered : Value → Bool
  | none | range _ | dict _ | object _ | classRef _ | callable _ _ => true
  | collection kind _ => kind.isUnordered
  | _ => false

theorem compare?_of_neverOrdered {x : Value} (h : x.neverOrdered = true) (v : Value) :
    compare? v x = Option.none := by
  rw [compare?.eq_def]
  split
  case h_5 =>
    have hnumber : x.numeric? = Option.none := by cases x <;> simp_all [neverOrdered, numeric?]
    rw [hnumber]
    cases v.numeric? <;> rfl
  all_goals cases h

theorem compareItems_congr {xs ys : List Value}
    (h : List.Forall₂ (fun x y => Interchangeable x y ∧ ∀ v, compare? v x = compare? v y) xs ys)
    (vs : List Value) : compareItems vs xs = compareItems vs ys := by
  induction h generalizing vs with
  | nil => rfl
  | cons hxy _ ih =>
      cases vs with
      | nil => simp [compareItems]
      | cons v vs =>
          have hequal := hxy.1.right v
          simp only [compareItems, BEq.beq, hequal, hxy.2 v, ih vs]

theorem compare?_ordered_congr {kind : CollectionKind} {xs ys : List Value}
    (h : ∀ vs, compareItems vs xs = compareItems vs ys) (v : Value) :
    compare? v (collection kind xs) = compare? v (collection kind ys) := by
  rw [compare?.eq_def, compare?.eq_def v]
  cases v with
  | collection other vs => cases kind <;> cases other <;> simp [h, numeric?]
  | _ => simp [numeric?]

theorem neverOrdered_of_equal {x y : Value} (h : equal x y = true)
    (hx : x.neverOrdered = true) : y.neverOrdered = true := by
  cases x with
  | collection k xs =>
      cases y with
      | collection l ys =>
          by_contra hl
          have hkinds : k.isUnordered ≠ l.isUnordered := fun heq => hl (heq.symm.trans hx)
          rw [equal_ordered_unordered hkinds] at h
          cases h
      | _ => simp [equal, numeric?] at h
  | bool | int | float | str | binary => cases hx
  | _ => cases y <;> simp_all [equal, numeric?, neverOrdered]

/-- Equal exact values compare alike with every value. -/
theorem compare?_congr {x y : Value} (hx : x.isExact = true) (hy : y.isExact = true)
    (h : equal x y = true) (v : Value) : compare? v x = compare? v y := by
  induction x using induction_parts generalizing y v with
  | step x ihm _ =>
      -- what no order reaches is left out at once
      cases hnever : x.neverOrdered with
      | true =>
          rw [compare?_of_neverOrdered hnever,
            compare?_of_neverOrdered (neverOrdered_of_equal h hnever)]
      | false =>
          cases x with
          | float z => cases hx
          | bool b => rw [compare?_of_numeric rfl, compare?_of_numeric (numeric?_of_equal rfl hy h)]
          | int n => rw [compare?_of_numeric rfl, compare?_of_numeric (numeric?_of_equal rfl hy h)]
          | str s =>
              cases y <;> simp [equal, numeric?] at h
              rw [h]
          | binary kind data =>
              cases y <;> simp [equal, numeric?] at h
              rw [h, compare?.eq_def, compare?.eq_def v]
              cases v <;> simp [numeric?]
          | collection k xs =>
              cases y with
              | collection l ys =>
                  obtain ⟨rfl, hall⟩ := (equal_ordered_iff hnever).mp h
                  have hxs := (isExact_collection.mp hx).1
                  have hys := (isExact_collection.mp hy).1
                  refine compare?_ordered_congr (compareItems_congr ?_) v
                  refine forall₂_imp_of_mem hall fun w hw z hz hwz => ⟨?_, fun u => ?_⟩
                  · exact interchangeable_of_equal (hxs w hw) (hys z hz) hwz
                  · exact ihm w hw (hxs w hw) (hys z hz) hwz u
              | _ => simp [equal, numeric?] at h
          | _ => cases hnever

/-! ## Membership -/

/-- Equal exact items that are no truth values are found in the same values. -/
theorem contains?_congr {x y : Value} (hx : x.isExact = true) (hy : y.isExact = true)
    (h : equal x y = true) (hxb : x.tag ≠ .bool) (hyb : y.tag ≠ .bool) (v : Value) :
    contains? v x = contains? v y := by
  have hinterchange := interchangeable_of_equal hx hy h
  cases v with
  | collection kind items => simp [contains?, BEq.beq, hinterchange.right]
  | dict entries => simp [contains?, BEq.beq, hinterchange.right]
  | range r => simp [contains?, inRange, numeric?_congr hx hy h]
  | str hay =>
      cases x with
      | str s =>
          cases y <;> simp [equal, numeric?] at h
          rw [h]
      | _ =>
          cases y with
          | str t => simp [equal, numeric?] at h
          | _ => rfl
  | binary kind hay =>
      cases x with
      | float z => cases hx
      | bool b => exact absurd rfl hxb
      | int n =>
          have hn := numeric?_of_equal rfl hy h
          cases y <;> simp_all [contains?, tag, numeric?, isExact]
      | binary kind' data =>
          cases y <;> simp [equal, numeric?] at h
          simp [contains?, h]
      | _ =>
          cases y with
          | int n => simp [equal, numeric?] at h
          | binary kind' data => simp [equal, numeric?] at h
          | _ => rfl
  | _ => simp [contains?]

end Conform.Value

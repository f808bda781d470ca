/-
  Conform.Proofs.Value.Range

  Ranges of integers are the sequences that they stand for. `elements` walks
  from the start by the step until the end is reached or passed; length,
  membership and equality, which are computed from the three bounds alone, are
  those of this sequence, for all bounds and both directions.

  The computations are also stated in signed words of 128 bits, operation by
  operation, where a result that does not fit and a division by zero give
  nothing. They always give something, the same as in unbounded integers.
-/

import Conform.Value.Comparison
import Mathlib.Tactic.Ring

namespace Conform

namespace IntRange

/-- Whether a number stands before the end, seen in the direction of the step. -/
def before (stop step n : Int) : Prop := (0 < step ∧ n < stop) ∨ (step < 0 ∧ stop < n)

instance (stop step n : Int) : Decidable (before stop step n) :=
  inferInstanceAs (Decidable (_ ∨ _))

/-- `n`, `n + step`, `n + 2 * step` and so on, up to the last one before the end. -/
def elementsFrom (stop step n : Int) : List Int :=
  if before stop step n then n :: elementsFrom stop step (n + step) else []
termination_by if 0 < step then (stop - n).toNat else (n - stop).toNat
decreasing_by
  rename_i h
  unfold before at h
  split <;> omega

/-- The integers that a range denotes, in order. -/
def elements (r : IntRange) : List Int := elementsFrom r.stop.toInt r.step.toInt r.start.toInt

variable {stop step n : Int}

theorem elementsFrom_of_not_before (h : ¬ before stop step n) : elementsFrom stop step n = [] := by
  rw [elementsFrom, if_neg h]

theorem length_elementsFrom (h : before stop step n) :
    (elementsFrom stop step n).length = ((stop - n).natAbs - 1) / step.natAbs + 1 := by
  fun_induction elementsFrom stop step n with
  | case1 n _ ih =>
      rw [List.length_cons]
      unfold before at h
      by_cases hnext : before stop step (n + step)
      · -- the gap to the end is shorter by one step
        rw [ih hnext]
        unfold before at hnext
        have hgap : (stop - (n + step)).natAbs - 1 = (stop - n).natAbs - 1 - step.natAbs := by omega
        rw [hgap, ← Nat.div_eq_sub_div (by omega) (by omega)]
      · rw [elementsFrom_of_not_before hnext]
        unfold before at hnext
        rw [Nat.div_eq_of_lt (by omega)]
        rfl
  | case2 n hend => exact absurd h hend

theorem elementsFrom_eq_map (stop step n : Int) :
    elementsFrom stop step n =
      (List.range (elementsFrom stop step n).length).map fun i : Nat => n + i * step := by
  fun_induction elementsFrom stop step n with
  | case1 n h ih =>
      rw [List.length_cons, List.range_succ_eq_map, List.map_cons, List.map_map]
      congr 1
      · simp
      · conv_lhs => rw [ih]
        refine List.map_congr_left fun i _ => ?_
        simp only [Function.comp_apply, Nat.cast_succ]
        ring
  | case2 n h => rfl

/-! ## Length -/

theorem length_elementsFrom_le (stop step n : Int) :
    (elementsFrom stop step n).length ≤ (stop - n).natAbs := by
  by_cases h : before stop step n
  · rw [length_elementsFrom h]
    have hquotient := Nat.div_le_self ((stop - n).natAbs - 1) step.natAbs
    unfold before at h
    omega
  · rw [elementsFrom_of_not_before h]
    exact Nat.zero_le _

theorem length_elements_le (r : IntRange) : r.elements.length ≤ sizeLimit := by
  have hspan := length_elementsFrom_le r.stop.toInt r.step.toInt r.start.toInt
  have := r.start.le_toInt
  have := r.start.toInt_lt
  have := r.stop.le_toInt
  have := r.stop.toInt_lt
  unfold elements sizeLimit
  omega

theorem count_eq_length (r : IntRange) : r.count = r.elements.length := by
  unfold count elements
  generalize r.start.toInt = start, r.stop.toInt = stop, r.step.toInt = step
  dsimp only
  split
  next hup =>
    have hspan : ((stop - start).natAbs - 1 : Nat) = stop - start - 1 := by omega
    have hstep : (step.natAbs : Int) = step := by omega
    rw [length_elementsFrom (Or.inl hup), Nat.cast_succ, Int.natCast_ediv, hspan, hstep]
  next hup =>
    split
    next hdown =>
      have hspan : ((stop - start).natAbs - 1 : Nat) = start - stop - 1 := by omega
      have hstep : (step.natAbs : Int) = -step := by omega
      rw [length_elementsFrom (Or.inr hdown), Nat.cast_succ, Int.natCast_ediv, hspan, hstep]
    next hdown =>
      rw [elementsFrom_of_not_before (not_or.mpr ⟨hup, hdown⟩)]
      rfl

theorem size_eq_length (r : IntRange) : r.size = r.elements.length := by
  unfold size
  rw [count_eq_length, Int.toNat_natCast]
  exact Nat.min_eq_left r.length_elements_le

/-! ## Membership -/

theorem exists_steps_iff_of_pos {m : Int} (hstep : 0 < step) :
    (∃ i : Nat, m = n + i * step) ↔ n ≤ m ∧ step ∣ m - n := by
  constructor
  · rintro ⟨i, rfl⟩
    have hmoved := Int.mul_nonneg (Int.natCast_nonneg i) hstep.le
    exact ⟨by omega, i, by ring⟩
  · rintro ⟨hle, k, hk⟩
    have hcount : 0 ≤ k := by
      refine Int.nonneg_of_mul_nonneg_right ?_ hstep
      omega
    refine ⟨k.toNat, ?_⟩
    rw [Int.toNat_of_nonneg hcount, Int.mul_comm]
    omega

/-- Going down from one number to another is going up the other way. -/
theorem exists_steps_iff_of_neg {m : Int} (hstep : step < 0) :
    (∃ i : Nat, m = n + i * step) ↔ m ≤ n ∧ step ∣ m - n := by
  have hturn (i : Nat) : m = n + i * step ↔ n = m + i * -step := by
    rw [Int.mul_neg]
    omega
  simp only [hturn]
  rw [exists_steps_iff_of_pos (Int.neg_pos_of_neg hstep), Int.neg_dvd, ← Int.dvd_neg, Int.neg_sub]

theorem mem_elementsFrom_iff {m : Int} :
    m ∈ elementsFrom stop step n ↔ before stop step m ∧ ∃ i : Nat, m = n + i * step := by
  fun_induction elementsFrom stop step n with
  | case1 n h ih =>
      rw [List.mem_cons, ih]
      constructor
      · rintro (rfl | ⟨hm, i, rfl⟩)
        · exact ⟨h, 0, by simp⟩
        · exact ⟨hm, i + 1, by push_cast; ring⟩
      · rintro ⟨hm, i, rfl⟩
        cases i with
        | zero => exact Or.inl (by simp)
        | succ i => exact Or.inr ⟨hm, i, by push_cast; ring⟩
  | case2 n hend =>
      -- what is reached from a number past the end is past the end as well
      refine iff_of_false List.not_mem_nil fun ⟨hm, hsteps⟩ => hend ?_
      rcases hm with ⟨hup, hm⟩ | ⟨hdown, hm⟩
      · have hle := ((exists_steps_iff_of_pos hup).mp hsteps).1
        exact Or.inl ⟨hup, by omega⟩
      · have hle := ((exists_steps_iff_of_neg hdown).mp hsteps).1
        exact Or.inr ⟨hdown, by omega⟩

theorem contains_iff_mem (r : IntRange) (n : Int) : r.contains n = true ↔ n ∈ r.elements := by
  unfold contains elements
  rw [mem_elementsFrom_iff]
  generalize r.start.toInt = start, r.stop.toInt = stop, r.step.toInt = step
  simp only [Bool.and_eq_true, decide_eq_true_iff, bne_iff_ne, beq_iff_eq, before]
  rw [← Int.dvd_iff_emod_eq_zero]
  rcases Int.lt_trichotomy step 0 with hdown | rfl | hup
  · rw [exists_steps_iff_of_neg hdown, if_neg (by omega)]
    grind
  · simp
  · rw [exists_steps_iff_of_pos hup, if_pos hup]
    grind

/-! ## Equality -/

theorem elements_eq_map (r : IntRange) :
    r.elements = (List.range r.size).map fun i : Nat => r.start.toInt + i * r.step.toInt := by
  rw [size_eq_length]
  exact elementsFrom_eq_map _ _ _

theorem sameElements_iff (r s : IntRange) :
    r.sameElements s = true ↔ r.elements = s.elements := by
  unfold sameElements
  simp only [Bool.and_eq_true, Bool.or_eq_true, beq_iff_eq, decide_eq_true_iff]
  constructor
  · rintro ⟨⟨hsize, hstart⟩, hstep⟩
    rw [elements_eq_map, elements_eq_map, ← hsize]
    refine List.map_congr_left fun i hi => ?_
    have hi' := List.mem_range.mp hi
    rw [hstart.resolve_left (by omega)]
    cases i with
    | zero => simp
    | succ i => rw [hstep.resolve_left (by omega)]
  · intro h
    have hsize : r.size = s.size := by rw [size_eq_length, size_eq_length, h]
    -- the first element gives the start, the second one the step
    have hget (i : Nat) (hi : i < r.size) :
        r.start.toInt + i * r.step.toInt = s.start.toInt + i * s.step.toInt := by
      have hat := congrArg (·[i]?) h
      rw [elements_eq_map, elements_eq_map, ← hsize] at hat
      simpa [hi] using hat
    have hstart : r.size = 0 ∨ r.start = s.start := by
      refine (Nat.eq_zero_or_pos r.size).imp_right fun hpos => Int64.toInt_inj.mp ?_
      simpa using hget 0 hpos
    refine ⟨⟨hsize, hstart⟩, ?_⟩
    refine (Nat.lt_or_ge 1 r.size).symm.imp_right fun hmore => Int64.toInt_inj.mp ?_
    have hsecond := hget 1 hmore
    rw [hstart.resolve_left (by omega)] at hsecond
    omega

/-! ## In words -/

/-- An integer as a signed word of 128 bits, if it fits into one. -/
def wide? (n : Int) : Option Int := if -2 ^ 127 ≤ n ∧ n < 2 ^ 127 then some n else none

/-- The quotient of two wide words, towards zero. -/
def wideDiv? (a b : Int) : Option Int := if b = 0 then none else wide? (a.tdiv b)

/-- The remainder of two wide words, where they have a quotient. -/
def wideRem? (a b : Int) : Option Int := (wideDiv? a b).map fun _ => a.tmod b

/-- The number of elements, computed in wide words throughout. -/
def wideCount? (r : IntRange) : Option Int :=
  let start := r.start.toInt
  let stop := r.stop.toInt
  let step := r.step.toInt
  if 0 < step ∧ start < stop then do
    let span ← wide? (stop - start)
    let last ← wide? (span - 1)
    let steps ← wideDiv? last step
    wide? (steps + 1)
  else if step < 0 ∧ stop < start then do
    let span ← wide? (start - stop)
    let last ← wide? (span - 1)
    let stride ← wide? (-step)
    let steps ← wideDiv? last stride
    wide? (steps + 1)
  else some 0

/-- Whether an integer is an element, computed in wide words throughout. -/
def wideContains? (r : IntRange) (n : Int) : Option Bool :=
  let start := r.start.toInt
  let stop := r.stop.toInt
  let step := r.step.toInt
  let inBounds := if 0 < step then start ≤ n ∧ n < stop else stop < n ∧ n ≤ start
  if inBounds ∧ step ≠ 0 then do
    let offset ← wide? (n - start)
    let rest ← wideRem? offset step
    return rest == 0
  else some false

theorem wide?_eq_some {n : Int} (h : n.natAbs < 2 ^ 127) : wide? n = some n :=
  if_pos (by omega)

theorem wideDiv?_eq_some {a b : Int} (ha : a.natAbs < 2 ^ 127) (hb : b ≠ 0) :
    wideDiv? a b = some (a.tdiv b) := by
  have hquotient : (a.tdiv b).natAbs < 2 ^ 127 := by
    rw [Int.natAbs_tdiv]
    exact Nat.lt_of_le_of_lt (Nat.div_le_self _ _) ha
  rw [wideDiv?, if_neg hb, wide?_eq_some hquotient]

/-- Both directions end with a division and one addition. -/
theorem wideDiv?_add_one {last stride : Int} (hlast : 0 ≤ last) (hfits : last < 2 ^ 64)
    (hstride : 0 < stride) :
    (wideDiv? last stride >>= fun steps => wide? (steps + 1)) = some (last / stride + 1) := by
  have hle := Int.ediv_le_self stride hlast
  have hnonneg := Int.ediv_nonneg hlast hstride.le
  rw [wideDiv?_eq_some (by omega) (by omega), Int.tdiv_eq_ediv_of_nonneg hlast]
  exact wide?_eq_some (by omega)

theorem wideCount?_eq_some (r : IntRange) : r.wideCount? = some r.count := by
  have hstart := And.intro r.start.le_toInt r.start.toInt_lt
  have hstop := And.intro r.stop.le_toInt r.stop.toInt_lt
  have hstep := And.intro r.step.le_toInt r.step.toInt_lt
  unfold wideCount? count
  generalize r.start.toInt = start, r.stop.toInt = stop, r.step.toInt = step at *
  dsimp only
  split
  next hup =>
    rw [wide?_eq_some (by omega), Option.bind_eq_bind, Option.bind_some, wide?_eq_some (by omega),
      Option.bind_some]
    exact wideDiv?_add_one (by omega) (by omega) hup.1
  next =>
    split
    next hdown =>
      rw [wide?_eq_some (by omega), Option.bind_eq_bind, Option.bind_some,
        wide?_eq_some (by omega), Option.bind_some, wide?_eq_some (by omega), Option.bind_some]
      exact wideDiv?_add_one (by omega) (by omega) (by omega)
    next => rfl

theorem wideContains?_eq_some (r : IntRange) (n : Int) :
    r.wideContains? n = some (r.contains n) := by
  have hstart := And.intro r.start.le_toInt r.start.toInt_lt
  have hstop := And.intro r.stop.le_toInt r.stop.toInt_lt
  unfold wideContains? contains
  generalize r.start.toInt = start, r.stop.toInt = stop, r.step.toInt = step at *
  dsimp only
  by_cases hguard : (if 0 < step then start ≤ n ∧ n < stop else stop < n ∧ n ≤ start) ∧ step ≠ 0
  · -- within the bounds, the offset is no longer than the span of the range
    have hspan : (n - start).natAbs < 2 ^ 127 := by
      have hin := hguard.1
      split at hin <;> omega
    have hrest : ((n - start).tmod step == 0) = ((n - start) % step == 0) := by
      rw [Bool.eq_iff_iff, beq_iff_eq, beq_iff_eq, ← Int.dvd_iff_tmod_eq_zero,
        Int.dvd_iff_emod_eq_zero]
    rw [if_pos hguard, wide?_eq_some hspan, Option.bind_eq_bind, Option.bind_some, wideRem?,
      wideDiv?_eq_some hspan hguard.2]
    simp [hguard, hrest]
  · rw [if_neg hguard]
    have hfalse : (decide (if 0 < step then start ≤ n ∧ n < stop else stop < n ∧ n ≤ start) &&
        step != 0) = false := by
      rw [Bool.eq_false_iff, ne_eq, Bool.and_eq_true, decide_eq_true_iff, bne_iff_ne]
      exact hguard
    rw [hfalse, Bool.false_and]

end IntRange

/-- The length of a range is that of its elements and never capped, it contains
    exactly its elements, two ranges are equal if they have the same elements,
    and nothing that is computed on the way leaves the wide words. -/
theorem range_exact_at_limits (r s : IntRange) (n : Int64) :
    (Value.range r).size? = some r.elements.length ∧
      (r.count = r.elements.length ∧ r.count ≤ IntRange.sizeLimit) ∧
      ((Value.range r).contains? (.int n) = some true ↔ n.toInt ∈ r.elements) ∧
      ((Value.range r == Value.range s) = true ↔ r.elements = s.elements) ∧
      r.wideCount? = some r.count ∧ ∀ m, r.wideContains? m = some (r.contains m) := by
  have hlimit := r.length_elements_le
  refine ⟨?_, ⟨r.count_eq_length, ?_⟩, ?_, ?_, r.wideCount?_eq_some, r.wideContains?_eq_some⟩
  · rw [← r.size_eq_length]
    rfl
  · rw [r.count_eq_length]
    exact Int.ofNat_le.mpr hlimit
  · rw [← r.contains_iff_mem]
    simp [Value.contains?, Value.inRange, Value.numeric?]
  · rw [← r.sameElements_iff s]
    simp [BEq.beq, Value.equal]

example : (⟨Int64.minValue, Int64.maxValue, 1⟩ : IntRange).wideCount? = some (2 ^ 64 - 1) := by
  decide

example : (⟨Int64.maxValue, Int64.minValue, Int64.minValue⟩ : IntRange).wideCount? = some 2 := by
  decide

end Conform

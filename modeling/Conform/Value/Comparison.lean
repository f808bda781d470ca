/-
  Conform.Value.Comparison

  How the host compares values. Equality is not structural: numbers compare
  across truth values, integers and doubles, byte strings by content, sets and
  dictionaries without regard to order, ranges as sequences. Order is partial:
  numbers, texts, byte strings, lists and tuples are ordered among themselves,
  and nothing else is ordered. Membership and the building of sets and
  dictionaries rest on equality.

  The recursion of equality goes into both operands at once and swaps them below
  a set, so it is measured by the size of both; `equal_unordered` and
  `equal_dict` state the two cases without the membership proofs that this
  needs.
-/

import Conform.Number.Nearest
import Conform.Value.Basic

namespace Conform.Value

/-! ## Equality -/

mutual

/-- Host equality of two values. -/
def equal (a b : Value) : Bool :=
  match a, b with
  | .none, .none => true
  | .str s, .str t => s == t
  | .binary _ x, .binary _ y => x == y
  | .range r, .range s => r.sameElements s
  | .collection k xs, .collection l ys =>
      if k.isUnordered && l.isUnordered then
        -- each member of the left set is met by one of the right set
        xs.length == ys.length &&
          xs.attach.all fun ⟨x, _⟩ => ys.attach.any fun ⟨y, _⟩ => equal y x
      else k == l && equalAll xs ys
  | .dict es, .dict fs =>
      es.length == fs.length && es.attach.all fun ⟨e, _⟩ =>
        fs.attach.any fun ⟨f, _⟩ => equal e.1 f.1 && equal e.2 f.2
  | .object c, .object d => c == d
  | .classRef c, .classRef d => c == d
  | .callable k m, .callable l n => k == l && m == n
  | a, b =>
      match a.numeric?, b.numeric? with
      | some m, some n => m.compare? n == some .eq
      | _, _ => false
termination_by sizeOf a + sizeOf b
decreasing_by
  · have hx := List.sizeOf_lt_of_mem ‹x ∈ xs›
    have hy := List.sizeOf_lt_of_mem ‹y ∈ ys›
    simp only [Value.collection.sizeOf_spec]
    omega
  · simp only [Value.collection.sizeOf_spec]
    omega
  all_goals
    obtain ⟨k, v⟩ := e
    obtain ⟨l, w⟩ := f
    have he := List.sizeOf_lt_of_mem ‹(k, v) ∈ es›
    have hf := List.sizeOf_lt_of_mem ‹(l, w) ∈ fs›
    simp only [Value.dict.sizeOf_spec, Prod.mk.sizeOf_spec] at *
    omega

/-- Equality of two sequences, position by position. -/
def equalAll (xs ys : List Value) : Bool :=
  match xs, ys with
  | [], [] => true
  | x :: xs, y :: ys => equal x y && equalAll xs ys
  | _, _ => false
termination_by sizeOf xs + sizeOf ys

end

instance : BEq Value := ⟨equal⟩

/-- A test of all attached members that ignores the attachment. -/
theorem all_attach_val {α : Type} (xs : List α) (p : α → Bool) :
    (xs.attach.all fun x => p x.val) = xs.all p := by
  rw [Bool.eq_iff_iff]
  simp

/-- A test of some attached member that ignores the attachment. -/
theorem any_attach_val {α : Type} (xs : List α) (p : α → Bool) :
    (xs.attach.any fun x => p x.val) = xs.any p := by
  rw [Bool.eq_iff_iff]
  simp

/-- Sets and frozen sets are equal when they have as many members and each one
    on the left is met by one on the right. -/
theorem equal_unordered {k l : CollectionKind} {xs ys : List Value}
    (hk : k.isUnordered = true) (hl : l.isUnordered = true) :
    equal (.collection k xs) (.collection l ys) =
      (xs.length == ys.length && xs.all fun x => ys.any fun y => equal y x) := by
  have inner (x : Value) := any_attach_val ys fun y => equal y x
  rw [equal]
  simp only [hk, hl, Bool.and_self, if_true, inner]
  rw [all_attach_val xs fun x => ys.any fun y => equal y x]

/-- Dictionaries are equal when they have as many entries and each one on the
    left is met by one on the right. -/
theorem equal_dict {es fs : List (Value × Value)} :
    equal (.dict es) (.dict fs) =
      (es.length == fs.length &&
        es.all fun e => fs.any fun f => equal e.1 f.1 && equal e.2 f.2) := by
  have inner (e : Value × Value) :=
    any_attach_val fs fun f => equal e.1 f.1 && equal e.2 f.2
  rw [equal]
  simp only [inner]
  rw [all_attach_val es fun e => fs.any fun f => equal e.1 f.1 && equal e.2 f.2]

/-! ## Order -/

mutual

/-- The order of two values, or `none` when they cannot be ordered. -/
def compare? : Value → Value → Option Ordering
  | .str s, .str t => some (compare s.toList t.toList)
  | .binary _ x, .binary _ y => some (compare x y)
  | .collection .list xs, .collection .list ys => compareItems xs ys
  | .collection .tuple xs, .collection .tuple ys => compareItems xs ys
  | a, b =>
      match a.numeric?, b.numeric? with
      | some m, some n => m.compare? n
      | _, _ => Option.none

/-- The first pair of unequal items decides; without one, the length does. -/
def compareItems : List Value → List Value → Option Ordering
  | [], [] => some .eq
  | [], _ :: _ => some .lt
  | _ :: _, [] => some .gt
  | x :: xs, y :: ys => if x == y then compareItems xs ys else compare? x y

end

/-! ## Membership -/

/-- Whether `needle` stands somewhere in `hay` without gaps. -/
def occursIn {α : Type} [BEq α] (needle : List α) : List α → Bool
  | [] => needle.isEmpty
  | c :: rest => needle.isPrefixOf (c :: rest) || occursIn needle rest

/-- Membership in a range. A double is an element when it is whole and its
    integer is. -/
def inRange (r : IntRange) (item : Value) : Bool :=
  match item.numeric? with
  | some (.int n) => r.contains n.toInt
  | some (.float x) =>
      match (Dyadic.ofFloat? x).bind Dyadic.toInt? with
      | some n => r.contains n
      | Option.none => false
  | Option.none => false

/-- Whether `item` is in `value`; `none` when the test has no meaning for the
    two types. -/
def contains? (value item : Value) : Option Bool :=
  match value with
  | .str hay =>
      match item with
      | .str needle => some (occursIn needle.toList hay.toList)
      | _ => Option.none
  | .binary _ hay =>
      match item with
      | .int n => some (hay.any fun b => (b.toNat : Int) == n.toInt)
      | .binary _ needle => some (occursIn needle hay)
      | _ => Option.none
  | .range r => some (inRange r item)
  | .collection _ items => some (items.any (· == item))
  | .dict entries => some (entries.any (·.1 == item))
  | _ => Option.none

/-! ## Sets and dictionaries from lists -/

/-- The first of each group of equal items, in order. -/
def distinct (items : List Value) : List Value :=
  items.foldl (fun kept x => if kept.any (· == x) then kept else kept ++ [x]) []

/-- The set of the given items. -/
def setOf (items : List Value) : Value := .collection .set (distinct items)

/-- The frozen set of the given items. -/
def frozenSetOf (items : List Value) : Value := .collection .frozenSet (distinct items)

/-- Writes an entry: an equal key keeps its place and takes the new value, a
    new key goes to the end. -/
def putEntry (entries : List (Value × Value)) (key value : Value) : List (Value × Value) :=
  match entries with
  | [] => [(key, value)]
  | (k, v) :: rest =>
      if k == key then (k, value) :: rest else (k, v) :: putEntry rest key value

/-- The dictionary of the given entries, written one after the other. -/
def dictOf (entries : List (Value × Value)) : Value :=
  .dict (entries.foldl (fun acc e => putEntry acc e.1 e.2) [])

/-- The range from `start` to below `stop` by ones. -/
def rangeOf (start stop : Int64) : Value := .range ⟨start, stop, 1⟩

end Conform.Value

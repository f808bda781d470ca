/-
  Conform.Proofs.Value.Build

  What sets and dictionaries hold, told from the lists they are built from. A
  set keeps the first of equal items and a dictionary the first of equal keys,
  in order, each key with the value that was written last. Two sets are equal
  exactly if their lists have the same items up to equality, and two
  dictionaries if they answer every key alike.

  Building looks for an item among those that are kept only. That this finds
  what stands anywhere before it (`any_firstOccurrences`) takes transitivity,
  hence exact values.
-/

import Conform.Proofs.Value.Equivalence
import Mathlib.Data.List.Induction

namespace Conform.Value

/-! ## First occurrences -/

section FirstOccurrences

variable {α : Type} {key : α → Value} {items : List α}

/-- The items whose key equals that of no earlier item, in order. -/
def firstOccurrences (key : α → Value) (items : List α) : List α :=
  (items.zipIdx.filter fun p => !(items.take p.2).any fun x => key x == key p.1).map (·.1)

theorem firstOccurrences_append_singleton (key : α → Value) (items : List α) (x : α) :
    firstOccurrences key (items ++ [x]) =
      firstOccurrences key items ++ if items.any (fun y => key y == key x) then [] else [x] := by
  have hbefore : (items.zipIdx.filter fun p =>
        !((items ++ [x]).take p.2).any fun y => key y == key p.1) =
      items.zipIdx.filter fun p => !(items.take p.2).any fun y => key y == key p.1 := by
    refine List.filter_congr fun p hp => ?_
    rw [List.take_append_of_le_length (Nat.le_of_lt (List.snd_lt_of_mem_zipIdx hp))]
  unfold firstOccurrences
  rw [List.zipIdx_append, List.filter_append, List.map_append, hbefore]
  congr 1
  cases h : items.any (fun y => key y == key x) <;> simp [h]

theorem mem_of_mem_firstOccurrences {x : α} (h : x ∈ firstOccurrences key items) : x ∈ items := by
  obtain ⟨p, hp, rfl⟩ := List.mem_map.mp h
  exact List.fst_mem_of_mem_zipIdx (List.mem_filter.mp hp).1

theorem pairwise_firstOccurrences (key : α → Value) (items : List α) :
    (firstOccurrences key items).Pairwise fun x y => equal (key x) (key y) = false := by
  induction items using List.reverseRecOn with
  | nil => exact List.Pairwise.nil
  | append_singleton items last ih =>
      rw [firstOccurrences_append_singleton]
      cases hmet : items.any (fun y => key y == key last) with
      | true => rwa [if_pos rfl, List.append_nil]
      | false =>
          rw [if_neg Bool.false_ne_true, List.pairwise_append]
          refine ⟨ih, List.pairwise_singleton _ _, fun x hx y hy => ?_⟩
          rw [List.mem_singleton.mp hy]
          exact Bool.eq_false_iff.mpr
            (List.any_eq_false.mp hmet x (mem_of_mem_firstOccurrences hx))

/-- Every item equals one that is kept. -/
theorem exists_mem_firstOccurrences (key : α → Value)
    (hitems : ∀ x ∈ items, (key x).isExact = true) {x : α} (hx : x ∈ items) :
    ∃ y ∈ firstOccurrences key items, equal (key y) (key x) = true := by
  induction items using List.reverseRecOn generalizing x with
  | nil => cases hx
  | append_singleton items last ih =>
      have hexact : ∀ y ∈ items, (key y).isExact = true :=
        fun y hy => hitems y (List.mem_append_left _ hy)
      rw [firstOccurrences_append_singleton]
      rcases List.mem_append.mp hx with hx | hx
      · obtain ⟨y, hy, hyx⟩ := ih hexact hx
        exact ⟨y, List.mem_append_left _ hy, hyx⟩
      · obtain rfl := List.mem_singleton.mp hx
        cases hmet : items.any (fun y => key y == key x) with
        | true =>
            -- an earlier item equals it, and equals one that is kept
            obtain ⟨z, hz, hzx⟩ := List.any_eq_true.mp hmet
            obtain ⟨y, hy, hyz⟩ := ih hexact hz
            have hyexact := hexact y (mem_of_mem_firstOccurrences hy)
            exact ⟨y, List.mem_append_left _ hy, equal_trans hyexact (hexact z hz) hyz hzx⟩
        | false =>
            have hself := equal_self (hitems x (List.mem_append_right _ List.mem_cons_self))
            exact ⟨x, List.mem_append_right _ List.mem_cons_self, hself⟩

/-- Among the items that are kept, the same values are met as among all. -/
theorem any_firstOccurrences (key : α → Value) (hitems : ∀ x ∈ items, (key x).isExact = true)
    (v : Value) :
    (firstOccurrences key items).any (fun x => key x == v) = items.any fun x => key x == v := by
  rw [Bool.eq_iff_iff, List.any_eq_true, List.any_eq_true]
  constructor
  · rintro ⟨x, hx, hequal⟩
    exact ⟨x, mem_of_mem_firstOccurrences hx, hequal⟩
  · rintro ⟨x, hx, hequal⟩
    obtain ⟨y, hy, hyx⟩ := exists_mem_firstOccurrences key hitems hx
    have hyexact := hitems y (mem_of_mem_firstOccurrences hy)
    exact ⟨y, hy, equal_trans hyexact (hitems x hx) hyx hequal⟩

end FirstOccurrences

/-! ## Sets -/

section Sets

variable {xs ys : List Value}

theorem distinct_append_singleton (items : List Value) (x : Value) :
    distinct (items ++ [x]) =
      if (distinct items).any (· == x) then distinct items else distinct items ++ [x] := by
  unfold distinct
  rw [List.foldl_append]
  rfl

theorem distinct_eq_firstOccurrences (h : ∀ x ∈ xs, x.isExact = true) :
    distinct xs = firstOccurrences id xs := by
  induction xs using List.reverseRecOn with
  | nil => rfl
  | append_singleton xs x ih =>
      have hxs : ∀ y ∈ xs, y.isExact = true := fun y hy => h y (List.mem_append_left _ hy)
      have hany := any_firstOccurrences id hxs x
      simp only [id] at hany
      rw [distinct_append_singleton, firstOccurrences_append_singleton, ih hxs, hany]
      simp only [id]
      split
      next => rw [List.append_nil]
      next => rfl

/-- One set is covered by another exactly if its list is covered by the list of
    the other. -/
theorem distinct_covered_iff (hxs : ∀ x ∈ xs, x.isExact = true)
    (hys : ∀ y ∈ ys, y.isExact = true) :
    (∀ x ∈ distinct xs, ∃ y ∈ distinct ys, equal x y = true) ↔
      ∀ x ∈ xs, ∃ y ∈ ys, equal x y = true := by
  rw [distinct_eq_firstOccurrences hxs, distinct_eq_firstOccurrences hys]
  constructor
  · intro h x hx
    obtain ⟨k, hk, hkx⟩ := exists_mem_firstOccurrences id hxs hx
    obtain ⟨y, hy, hky⟩ := h k hk
    have hkexact := hxs k (mem_of_mem_firstOccurrences hk)
    have hxk := equal_symm hkexact (hxs x hx) hkx
    exact ⟨y, mem_of_mem_firstOccurrences hy, equal_trans (hxs x hx) hkexact hxk hky⟩
  · intro h x hx
    have hx' := mem_of_mem_firstOccurrences hx
    obtain ⟨y, hy, hxy⟩ := h x hx'
    obtain ⟨k, hk, hky⟩ := exists_mem_firstOccurrences id hys hy
    have hkexact := hys k (mem_of_mem_firstOccurrences hk)
    have hyk := equal_symm hkexact (hys y hy) hky
    exact ⟨k, hk, equal_trans (hxs x hx') (hys y hy) hxy hyk⟩

/-- Sets built from two lists are equal if the lists have the same items up to
    equality, whatever the kinds. -/
theorem equal_distinct_iff {k l : CollectionKind} (hk : k.isUnordered = true)
    (hl : l.isUnordered = true) (hxs : ∀ x ∈ xs, x.isExact = true)
    (hys : ∀ y ∈ ys, y.isExact = true) :
    equal (collection k (distinct xs)) (collection l (distinct ys)) = true ↔
      (∀ x ∈ xs, ∃ y ∈ ys, equal x y = true) ∧ ∀ y ∈ ys, ∃ x ∈ xs, equal y x = true := by
  have hx := isExact_distinct hxs k
  have hy := isExact_distinct hys l
  have hback : (∀ y ∈ distinct ys, ∃ x ∈ distinct xs, equal x y = true) ↔
      ∀ y ∈ distinct ys, ∃ x ∈ distinct xs, equal y x = true := by
    refine forall₂_congr fun y hy' => exists_congr fun x => and_congr_right fun hx' => ?_
    rw [equal_comm ((isExact_collection.mp hx).1 x hx') ((isExact_collection.mp hy).1 y hy')]
  rw [equal_sets_iff hk hl hx hy, hback, distinct_covered_iff hxs hys, distinct_covered_iff hys hxs]

end Sets

/-! ## Dictionaries -/

section Dictionaries

/-- The value of the last entry with an equal key. -/
def lastValue? (entries : List (Value × Value)) (key : Value) : Option Value :=
  (entries.reverse.find? (·.1 == key)).map (·.2)

theorem lastValue?_append_singleton (written : List (Value × Value)) (e : Value × Value)
    (key : Value) : lastValue? (written ++ [e]) key =
      if e.1 == key then some e.2 else lastValue? written key := by
  unfold lastValue?
  rw [List.reverse_append, List.reverse_singleton, List.singleton_append, List.find?_cons]
  cases e.1 == key <;> rfl

theorem map_fst_putEntry (entries : List (Value × Value)) (key value : Value) :
    (putEntry entries key value).map (·.1) =
      entries.map (·.1) ++ if entries.any (·.1 == key) then [] else [key] := by
  induction entries with
  | nil => rfl
  | cons e rest ih =>
      rw [putEntry, List.any_cons]
      by_cases hmet : (e.1 == key) = true
      · rw [if_pos hmet, hmet, Bool.true_or, if_pos rfl, List.append_nil]
        rfl
      · rw [if_neg hmet, Bool.eq_false_iff.mpr hmet, Bool.false_or, List.map_cons, ih]
        rfl

/-- The entry for a key has the value that is written, and the entries for other
    keys are as they were. -/
theorem mem_putEntry {entries : List (Value × Value)} {key value : Value}
    (hentries : ∀ e ∈ entries, e.1.isExact = true)
    (hpairwise : entries.Pairwise fun e f => equal e.1 f.1 = false) (hkey : key.isExact = true)
    {e : Value × Value} (he : e ∈ putEntry entries key value) :
    ((key == e.1) = true ∧ e.2 = value) ∨ ((key == e.1) = false ∧ e ∈ entries) := by
  induction entries with
  | nil =>
      obtain rfl := List.mem_singleton.mp he
      exact Or.inl ⟨equal_self hkey, rfl⟩
  | cons first rest ih =>
      obtain ⟨hfirst, hrest⟩ := List.forall_mem_cons.mp hentries
      obtain ⟨hunequal, hpairwise⟩ := List.pairwise_cons.mp hpairwise
      rw [putEntry] at he
      split at he
      next hmet =>
        have hsame := interchangeable_of_equal hfirst hkey hmet
        rcases List.mem_cons.mp he with rfl | he
        · exact Or.inl ⟨equal_symm hfirst hkey hmet, rfl⟩
        · -- the key is unequal to the keys that the one it equals is unequal to
          have hother := (hsame.left e.1).symm.trans (hunequal e he)
          exact Or.inr ⟨hother, List.mem_cons_of_mem first he⟩
      next hnew =>
        rcases List.mem_cons.mp he with rfl | he
        · have hother := (equal_comm hkey hfirst).trans (Bool.eq_false_iff.mpr hnew)
          exact Or.inr ⟨hother, List.mem_cons_self⟩
        · exact (ih hrest hpairwise he).imp_right fun h => ⟨h.1, List.mem_cons_of_mem first h.2⟩

/-- What a dictionary holds of the entries that were written into it, with exact
    keys: the first of equal keys, in order, each with the value that came last. -/
structure HoldsWritten (written kept : List (Value × Value)) : Prop where
  exactKeys : ∀ e ∈ written, e.1.isExact = true
  keys : kept.map (·.1) = (firstOccurrences (·.1) written).map (·.1)
  values : ∀ e ∈ kept, lastValue? written e.1 = some e.2

namespace HoldsWritten

variable {written kept : List (Value × Value)} {key value : Value}

theorem nil : HoldsWritten [] [] where
  exactKeys _ he := absurd he List.not_mem_nil
  keys := rfl
  values _ he := absurd he List.not_mem_nil

theorem isExact_key (h : HoldsWritten written kept) {e : Value × Value} (he : e ∈ kept) :
    e.1.isExact = true := by
  have hkey : e.1 ∈ (firstOccurrences (·.1) written).map (·.1) := by
    rw [← h.keys]
    exact List.mem_map_of_mem he
  obtain ⟨f, hf, hsame⟩ := List.mem_map.mp hkey
  rw [← hsame]
  exact h.exactKeys f (mem_of_mem_firstOccurrences hf)

theorem pairwise (h : HoldsWritten written kept) :
    kept.Pairwise fun e f => equal e.1 f.1 = false := by
  have hfirst := pairwise_firstOccurrences (·.1) written
  rw [← List.pairwise_map (f := Prod.fst) (R := fun k l => equal k l = false)] at hfirst ⊢
  rwa [h.keys]

theorem any_keys (h : HoldsWritten written kept) (key : Value) :
    kept.any (·.1 == key) = written.any (·.1 == key) := by
  have hany := any_firstOccurrences Prod.fst h.exactKeys key
  have hmap := congrArg (List.any · (· == key)) h.keys
  simpa [List.any_map, Function.comp_def, hany] using hmap

/-- One more entry is written. -/
theorem putEntry (h : HoldsWritten written kept) (hkey : key.isExact = true) (value : Value) :
    HoldsWritten (written ++ [(key, value)]) (putEntry kept key value) where
  exactKeys := by
    rw [List.forall_mem_append]
    exact ⟨h.exactKeys, List.forall_mem_singleton.mpr hkey⟩
  keys := by
    rw [map_fst_putEntry, firstOccurrences_append_singleton, List.map_append, h.keys,
      h.any_keys key]
    cases written.any (·.1 == key) <;> rfl
  values e he := by
    rw [lastValue?_append_singleton]
    rcases mem_putEntry (fun f hf => h.isExact_key hf) h.pairwise hkey he with
      ⟨hequal, hlast⟩ | ⟨hother, hbefore⟩
    · rw [if_pos hequal, hlast]
    · rw [if_neg (Bool.eq_false_iff.mp hother), h.values e hbefore]

theorem foldl_putEntry (h : HoldsWritten written kept) {entries : List (Value × Value)}
    (hentries : ∀ e ∈ entries, e.1.isExact = true) :
    HoldsWritten (written ++ entries)
      (entries.foldl (fun acc e => Value.putEntry acc e.1 e.2) kept) := by
  induction entries generalizing written kept with
  | nil => simpa using h
  | cons e rest ih =>
      obtain ⟨hkey, hrest⟩ := List.forall_mem_cons.mp hentries
      rw [List.foldl_cons, List.append_cons]
      exact ih (h.putEntry hkey e.2) hrest

/-- A key is answered by the entry that is kept for it. -/
theorem lastValue?_eq_some_iff (h : HoldsWritten written kept) (hkey : key.isExact = true)
    {v : Value} :
    lastValue? written key = some v ↔ ∃ e ∈ kept, equal e.1 key = true ∧ e.2 = v := by
  have hvalue {e : Value × Value} (he : e ∈ kept) (hequal : equal e.1 key = true) :
      lastValue? written key = some e.2 := by
    have hexact := h.isExact_key he
    have hsame : (fun f : Value × Value => f.1 == key) = fun f => f.1 == e.1 :=
      funext fun f => ((interchangeable_of_equal hexact hkey hequal).right f.1).symm
    rw [← h.values e he, lastValue?, hsame]
    rfl
  constructor
  · intro hlast
    -- an entry was written under the key, so one is kept for it
    have hany : kept.any (·.1 == key) = true := by
      rw [h.any_keys, List.any_eq_true]
      obtain ⟨e, he, _⟩ := Option.map_eq_some_iff.mp hlast
      have hequal := List.find?_some he
      exact ⟨e, List.mem_reverse.mp (List.mem_of_find?_eq_some he), hequal⟩
    obtain ⟨e, he, hequal⟩ := List.any_eq_true.mp hany
    exact ⟨e, he, hequal, Option.some.inj ((hvalue he hequal).symm.trans hlast)⟩
  · rintro ⟨e, he, hequal, rfl⟩
    exact hvalue he hequal

end HoldsWritten

variable {es fs kept others : List (Value × Value)}

theorem holdsWritten_dictOf (h : ∀ e ∈ es, e.1.isExact = true) :
    ∃ kept, dictOf es = dict kept ∧ HoldsWritten es kept :=
  ⟨_, rfl, HoldsWritten.nil.foldl_putEntry h⟩

/-- Each entry of one dictionary is met by one of another exactly if each key
    that one answers is answered by the other, with related values. -/
theorem HoldsWritten.covered_iff (h : HoldsWritten es kept) (g : HoldsWritten fs others)
    (r : Value → Value → Prop) :
    (∀ e ∈ kept, ∃ f ∈ others, equal e.1 f.1 = true ∧ r e.2 f.2) ↔
      ∀ key, key.isExact = true → ∀ v, lastValue? es key = some v →
        ∃ w, lastValue? fs key = some w ∧ r v w := by
  constructor
  · intro hcovered key hkey v hv
    obtain ⟨e, he, hekey, rfl⟩ := (h.lastValue?_eq_some_iff hkey).mp hv
    obtain ⟨f, hf, hkeys, hvalues⟩ := hcovered e he
    have hfe := equal_symm (h.isExact_key he) (g.isExact_key hf) hkeys
    have hfkey := equal_trans (g.isExact_key hf) (h.isExact_key he) hfe hekey
    exact ⟨f.2, (g.lastValue?_eq_some_iff hkey).mpr ⟨f, hf, hfkey, rfl⟩, hvalues⟩
  · intro hanswers e he
    have hekey := h.isExact_key he
    obtain ⟨w, hw, hvalues⟩ := hanswers e.1 hekey e.2 (h.values e he)
    obtain ⟨f, hf, hkeys, rfl⟩ := (g.lastValue?_eq_some_iff hekey).mp hw
    exact ⟨f, hf, equal_symm (g.isExact_key hf) hekey hkeys, hvalues⟩

theorem rel_iff_covers {α β : Type} {r : α → β → Prop} {a : Option α} {b : Option β} :
    Option.Rel r a b ↔
      (∀ x, a = some x → ∃ y, b = some y ∧ r x y) ∧ ∀ y, b = some y → ∃ x, a = some x ∧ r x y := by
  cases a <;> cases b <;> simp [Option.rel_some_some]

/-- Dictionaries built from two lists of entries are equal if every key is
    answered alike. -/
theorem equal_dictOf_iff (hes : ∀ e ∈ es, e.1.isExact = true ∧ e.2.isExact = true)
    (hfs : ∀ f ∈ fs, f.1.isExact = true ∧ f.2.isExact = true) :
    equal (dictOf es) (dictOf fs) = true ↔
      ∀ key, key.isExact = true →
        Option.Rel (fun v w => equal v w = true) (lastValue? es key) (lastValue? fs key) := by
  have hexact : (dictOf es).isExact = true := isExact_foldl_putEntry rfl hes
  have gexact : (dictOf fs).isExact = true := isExact_foldl_putEntry rfl hfs
  obtain ⟨kept, hkept, h⟩ := holdsWritten_dictOf fun e he => (hes e he).1
  obtain ⟨others, hothers, g⟩ := holdsWritten_dictOf fun f hf => (hfs f hf).1
  rw [hkept] at hexact
  rw [hothers] at gexact
  have hback : (∀ f ∈ others, ∃ e ∈ kept, equal e.1 f.1 = true ∧ equal e.2 f.2 = true) ↔
      ∀ f ∈ others, ∃ e ∈ kept, equal f.1 e.1 = true ∧ equal e.2 f.2 = true := by
    refine forall₂_congr fun f hf => exists_congr fun e => and_congr_right fun he => ?_
    rw [equal_comm (h.isExact_key he) (g.isExact_key hf)]
  rw [hkept, hothers, equal_dicts_iff hexact gexact, hback,
    h.covered_iff g fun v w => equal v w = true, g.covered_iff h fun w v => equal v w = true]
  simp only [rel_iff_covers]
  exact ⟨fun ⟨hleft, hright⟩ key hkey => ⟨hleft key hkey, hright key hkey⟩,
    fun hall => ⟨fun key hkey => (hall key hkey).1, fun key hkey => (hall key hkey).2⟩⟩

end Dictionaries

/-! ## Builders -/

/-- Building is canonical up to equality. A set, frozen or not, keeps exactly the
    first of equal items, and two of them are equal if each list has the items of
    the other. A dictionary keeps the first of equal keys, each with the value of
    the last entry for it, and two of them are equal if every key is absent from
    both lists of entries or has equal last values in both. -/
theorem builders_canonical (xs ys : List Value) (es fs : List (Value × Value))
    (hxs : ∀ x ∈ xs, x.isExact = true) (hys : ∀ y ∈ ys, y.isExact = true)
    (hes : ∀ e ∈ es, e.1.isExact = true ∧ e.2.isExact = true)
    (hfs : ∀ f ∈ fs, f.1.isExact = true ∧ f.2.isExact = true) :
    (setOf xs = collection .set (firstOccurrences id xs) ∧
      frozenSetOf xs = collection .frozenSet (firstOccurrences id xs) ∧
      (firstOccurrences id xs).Pairwise fun x y => (x == y) = false) ∧
    (∀ build ∈ [setOf, frozenSetOf], ∀ build' ∈ [setOf, frozenSetOf],
      ((build xs == build' ys) = true ↔
        (∀ x ∈ xs, ∃ y ∈ ys, (x == y) = true) ∧ ∀ y ∈ ys, ∃ x ∈ xs, (y == x) = true)) ∧
    (∃ kept, dictOf es = dict kept ∧ (kept.Pairwise fun e f => (e.1 == f.1) = false) ∧
      kept.map (·.1) = (firstOccurrences (·.1) es).map (·.1) ∧
      ∀ e ∈ kept, lastValue? es e.1 = some e.2) ∧
    ((dictOf es == dictOf fs) = true ↔
      ∀ key, key.isExact = true →
        Option.Rel (fun v w => (v == w) = true) (lastValue? es key) (lastValue? fs key)) := by
  have hfirst := distinct_eq_firstOccurrences hxs
  refine ⟨⟨?_, ?_, pairwise_firstOccurrences id xs⟩, fun build hbuild build' hbuild' => ?_, ?_,
    equal_dictOf_iff hes hfs⟩
  · rw [setOf, hfirst]
  · rw [frozenSetOf, hfirst]
  · have hkind {make : List Value → Value} (hmake : make ∈ [setOf, frozenSetOf]) :
        ∃ kind, kind.isUnordered = true ∧
          ∀ items, make items = collection kind (distinct items) := by
      rcases List.mem_pair.mp hmake with rfl | rfl
      · exact ⟨.set, rfl, fun _ => rfl⟩
      · exact ⟨.frozenSet, rfl, fun _ => rfl⟩
    obtain ⟨k, hk, hmade⟩ := hkind hbuild
    obtain ⟨l, hl, hmade'⟩ := hkind hbuild'
    rw [hmade, hmade']
    exact equal_distinct_iff hk hl hxs hys
  · obtain ⟨kept, hkept, h⟩ := holdsWritten_dictOf fun e he => (hes e he).1
    exact ⟨kept, hkept, h.pairwise, h.keys, h.values⟩

/-- A truth value and its number are one item of a set and one key of a
    dictionary. -/
theorem builders_canonical_mixed :
    let xs : List Value := [.bool true, .int 1, .binary .bytes [97]]
    let ys : List Value := [.binary .byteArray [97], .int 1]
    let es : List (Value × Value) := [(.int 1, .str "a"), (.none, .int 0), (.bool true, .int 5)]
    let fs : List (Value × Value) := [(.none, .bool false), (.bool true, .int 5)]
    (∃ items, setOf xs = collection .set items ∧ items.length = 2) ∧
      (setOf xs == frozenSetOf ys) = true ∧
      (∃ kept, dictOf es = dict kept ∧ kept.length = 2) ∧ (dictOf es == dictOf fs) = true ∧
      Option.Rel (fun v w => (v == w) = true) (lastValue? es (.int 1))
        (lastValue? fs (.int 1)) := by
  intro xs ys es fs
  obtain ⟨⟨hset, _, _⟩, hsets, ⟨kept, hkept, _, hkeys, _⟩, hdicts⟩ := builders_canonical xs ys es fs
    (by simp [xs, isExact]) (by simp [ys, isExact]) (by simp [es, isExact])
    (by simp [fs, isExact])
  have hmet : (setOf xs == frozenSetOf ys) = true :=
    (hsets setOf (by simp) frozenSetOf (by simp)).mpr (by decide +kernel)
  have hequal : (dictOf es == dictOf fs) = true := by decide +kernel
  have hlength : kept.length = (firstOccurrences Prod.fst es).length := by
    simpa using congrArg List.length hkeys
  exact ⟨⟨_, hset, by decide +kernel⟩, hmet, ⟨kept, hkept, hlength.trans (by decide +kernel)⟩,
    hequal, hdicts.mp hequal (.int 1) rfl⟩

end Conform.Value

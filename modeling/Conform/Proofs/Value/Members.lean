/-
  Conform.Proofs.Value.Members

  The direct parts of a value, as lists that are empty where a value has no
  such parts, and the induction that goes from the parts of a value to the
  value.
-/

import Conform.Value.Basic

namespace Conform.Value

/-- The members of a collection; other values have none. -/
def members (v : Value) : List Value := v.elements?.getD []

/-- The entries of a dictionary; other values have none. -/
def pairs (v : Value) : List (Value × Value) := v.entries?.getD []

@[simp] theorem members_collection (kind : CollectionKind) (items : List Value) :
    (collection kind items).members = items := rfl

@[simp] theorem members_dict (entries : List (Value × Value)) :
    (dict entries).members = [] := rfl

@[simp] theorem pairs_collection (kind : CollectionKind) (items : List Value) :
    (collection kind items).pairs = [] := rfl

@[simp] theorem pairs_dict (entries : List (Value × Value)) :
    (dict entries).pairs = entries := rfl

theorem sizeOf_lt_of_mem_members {v w : Value} (h : w ∈ v.members) : sizeOf w < sizeOf v := by
  cases v with
  | collection kind items =>
      have hw := List.sizeOf_lt_of_mem (show w ∈ items from h)
      simp only [collection.sizeOf_spec]
      omega
  | _ => exact absurd h List.not_mem_nil

theorem sizeOf_lt_of_mem_pairs {v : Value} {p : Value × Value} (h : p ∈ v.pairs) :
    sizeOf p.1 < sizeOf v ∧ sizeOf p.2 < sizeOf v := by
  cases v with
  | dict entries =>
      obtain ⟨k, w⟩ := p
      have hp := List.sizeOf_lt_of_mem (show (k, w) ∈ entries from h)
      simp only [dict.sizeOf_spec, Prod.mk.sizeOf_spec] at hp ⊢
      omega
  | _ => exact absurd h List.not_mem_nil

/-- What passes from the members and entries of a value to the value holds of
    every value. -/
theorem induction_parts {motive : Value → Prop}
    (step : ∀ v : Value, (∀ w ∈ v.members, motive w) →
      (∀ p ∈ v.pairs, motive p.1 ∧ motive p.2) → motive v) (v : Value) : motive v :=
  step v
    (fun w h =>
      have := sizeOf_lt_of_mem_members h
      induction_parts step w)
    (fun p h =>
      have := sizeOf_lt_of_mem_pairs h
      ⟨induction_parts step p.1, induction_parts step p.2⟩)
termination_by sizeOf v
decreasing_by all_goals omega

end Conform.Value

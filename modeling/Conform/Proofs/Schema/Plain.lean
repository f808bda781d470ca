/-
  Conform.Proofs.Schema.Plain

  Schemas without constraints and with plain literals only, and schemas whose
  tuple forms are made of such schemas. The join keeps both properties. A plain
  literal has no parts and is no double; it is exact, and what it equals has no
  members.
-/

import Conform.Proofs.Schema.Canonical
import Conform.Proofs.Value.Exact

namespace Conform.Value

/-! ## Plain literals -/

/-- Whether a value is none, a truth value, an integer, a string or a byte
    string. -/
def isPlain : Value → Bool
  | none | bool _ | int _ | str _ | binary _ _ => true
  | _ => false

theorem isExact_of_isPlain {l : Value} (h : l.isPlain = true) : l.isExact = true := by
  cases l <;> simp_all [isPlain, isExact]

/-- A value that a plain literal equals has no members. -/
theorem tag_of_equal_plain {l v : Value} (hl : l.isPlain = true) (h : equal l v = true) :
    (∀ kind, v.tag ≠ .collection kind) ∧ v.tag ≠ .dict := by
  cases l <;> simp [isPlain] at hl <;> cases v <;> simp [equal, numeric?, tag] at h ⊢

end Conform.Value

namespace Conform.Schema

/-! ## Plain schemas -/

/-- A schema without constraints and with plain literals only, that declares a
    type or a literal. -/
structure Plain (s : Schema) : Prop where
  unconstrained : s.constraints = []
  literals : ∀ ls, s.literals = some ls → ∀ l ∈ ls, l.isPlain = true
  declares : s.constrainsOnly = false

/-- The items of tuple forms are plain, so that forms which compare equal can
    stand for each other. -/
def TuplesPlain (s : Schema) : Prop :=
  ∀ k fs, (k, .forms fs) ∈ s.alternatives → ∀ f ∈ fs, ∀ e ∈ f.items, e.Everywhere Plain

/-- What is needed of two schemas for their join to stand for their union. -/
structure Joinable (s : Schema) : Prop where
  canonical : s.Canonical
  tuplesPlain : s.TuplesPlain

variable {a b s : Schema}

theorem Joinable.tuplesPlain_of_contents? (h : s.Joinable) {k : TypeTag} {fs : List TupleForm}
    (hc : s.contents? k = some (.forms fs)) :
    ∀ f ∈ fs, ∀ e ∈ f.items, e.Everywhere Plain := by
  rcases mem_of_contents? hc with hmem | hmem
  · exact h.tuplesPlain _ fs hmem
  · exact h.tuplesPlain _ fs hmem

/-- Where everything is plain, the items of tuple forms are. -/
theorem Everywhere.tuplesPlain (h : s.Everywhere Plain) : s.Everywhere TuplesPlain := by
  induction h with
  | @intro s here inside ih =>
      refine .intro (fun k fs hmem f hf e he => inside e ?_) ih
      exact List.mem_flatMap.mpr ⟨(k, .forms fs), hmem, List.mem_flatMap.mpr ⟨f, hf, he⟩⟩

theorem Everywhere.joinable (hc : s.Everywhere Canonical) (ht : s.Everywhere TuplesPlain) :
    s.Everywhere Joinable :=
  (hc.and ht).imp fun _ h => ⟨h.1, h.2⟩

/-! ## The join keeps plainness -/

theorem forall_mem_literals_join {P : Value → Prop}
    (ha : ∀ ls, a.literals = some ls → ∀ l ∈ ls, P l)
    (hb : ∀ ls, b.literals = some ls → ∀ l ∈ ls, P l) :
    ∀ ls, (a.join b).literals = some ls → ∀ l ∈ ls, P l := by
  intro ls hls l hl
  rw [literals_join] at hls
  cases hx : a.literals with
  | none =>
      have hb' : b.literals = some ls := by
        rw [hx] at hls
        cases hy : b.literals with
        | none => simp [joinLiterals, hy] at hls
        | some ys => simpa [joinLiterals, hy] using hls
      exact hb ls hb' l hl
  | some xs =>
      cases hy : b.literals with
      | none =>
          obtain rfl : xs = ls := by simpa [joinLiterals, hx, hy] using hls
          exact ha xs hx l hl
      | some ys =>
          obtain rfl : xs ++ ys = ls := by simpa [joinLiterals, hx, hy] using hls
          rcases List.mem_append.mp hl with hl | hl
          · exact ha xs hx l hl
          · exact hb ys hy l hl

theorem Plain.join (ca : a.Canonical) (cb : b.Canonical) (ha : a.Plain) (hb : b.Plain) :
    (a.join b).Plain where
  unconstrained := by
    rw [constraints_join, ha.unconstrained, hb.unconstrained]
    rfl
  literals := forall_mem_literals_join ha.literals hb.literals
  declares := by
    have hnot : ¬ (a.join b).constrainsOnly = true := by
      rw [constrainsOnly_join ca cb, ha.declares]
      simp
    simpa using hnot

theorem TuplesPlain.join (ca : a.Canonical) (cb : b.Canonical) (ha : a.TuplesPlain)
    (hb : b.TuplesPlain) : (a.join b).TuplesPlain := by
  intro k fs hmem f hf
  rcases cases_of_mem_join ca cb hmem with h | h | h | ⟨p, q, hp, hq, h⟩
  · cases h
  · exact ha k fs h f hf
  · exact hb k fs h f hf
  · rcases Contents.join_cases p q with hpq | ⟨s, t, rfl, rfl⟩ | ⟨l, s, m, t, rfl, rfl⟩ |
      ⟨gs, hs, rfl, rfl⟩
    · cases h.trans hpq
    · cases h.trans (Contents.each_join_each s t)
    · cases h.trans (Contents.entries_join_entries l s m t)
    · obtain rfl : fs = joinForms gs hs := by
        simpa using h.trans (Contents.forms_join_forms gs hs)
      rcases mem_or_mem_of_mem_joinForms hf with hf | hf
      · exact ha k gs hp f hf
      · exact hb k hs hq f hf

theorem Everywhere.join_joinable (ha : a.Everywhere Joinable) (hb : b.Everywhere Joinable) :
    (a.join b).Everywhere Joinable := by
  refine Everywhere.join (fun s t cs ct hs ht => ?_) (ha.imp fun _ h => h.canonical)
    (hb.imp fun _ h => h.canonical) ha hb
  exact ⟨cs.join ct, hs.tuplesPlain.join cs ct ht.tuplesPlain⟩

end Conform.Schema

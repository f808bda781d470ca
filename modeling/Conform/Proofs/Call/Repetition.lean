/-
  Conform.Proofs.Call.Repetition

  Calls that give a keyword more than once. A parameter takes one argument, so a
  repeated keyword that goes to a parameter is refused, and so is one that goes
  nowhere. A parameter that takes the further keywords refuses nothing: its
  dictionary keeps each name once, where the name comes first and with the value
  that comes last, and the values before are lost.
-/

import Conform.Proofs.Call.Arguments
import Mathlib.Data.List.Duplicate

namespace Conform

/-! ## Dictionaries of keywords -/

theorem Value.beq_str (s t : String) : (Value.str s == Value.str t) = (s == t) := by
  show Value.equal (.str s) (.str t) = (s == t)
  rw [Value.equal]

theorem nodup_eraseDups (names : List String) : names.eraseDups.Nodup := by
  match names with
  | [] => simp
  | name :: rest =>
      rw [List.eraseDups_cons, List.nodup_cons]
      exact ⟨by simp, nodup_eraseDups (rest.filter fun other => !other == name)⟩
termination_by names.length
decreasing_by
  have := List.length_filter_le (fun other => !other == name) rest
  rw [List.length_cons]
  omega

/-- A name that was there before adds nothing to the names without repetition. -/
theorem eraseDups_append_of_mem {names : List String} {name : String} (h : name ∈ names) :
    (names ++ [name]).eraseDups = names.eraseDups := by
  rw [List.eraseDups_append]
  simp [List.removeAll, h]

theorem eraseDups_append_of_not_mem {names : List String} {name : String} (h : name ∉ names) :
    (names ++ [name]).eraseDups = names.eraseDups ++ [name] := by
  rw [List.eraseDups_append]
  simp [List.removeAll, h, List.eraseDups_cons]

/-- The entries of a dictionary hold keywords: each name once, in the order in
    which the names come first, and with the value that comes last. -/
structure HoldsLast (keywords : List (String × Value)) (entries : List (Value × Value)) :
    Prop where
  keys : entries.map (·.1) = (keywords.map (·.1)).eraseDups.map Value.str
  values : ∀ name value, (Value.str name, value) ∈ entries →
    ∃ before after, keywords = before ++ (name, value) :: after ∧ name ∉ after.map (·.1)

namespace HoldsLast

variable {keywords : List (String × Value)} {entries : List (Value × Value)} {name : String}
  {value : Value}

theorem nil : HoldsLast [] [] where
  keys := rfl
  values _ _ h := absurd h List.not_mem_nil

theorem nodup_keys (h : HoldsLast keywords entries) : (entries.map (·.1)).Nodup := by
  rw [h.keys]
  exact (nodup_eraseDups _).map fun _ _ hsame => Value.str.inj hsame

theorem mem_keys_iff (h : HoldsLast keywords entries) :
    Value.str name ∈ entries.map (·.1) ↔ name ∈ keywords.map (·.1) := by
  rw [h.keys, List.mem_map_of_injective fun _ _ hsame => Value.str.inj hsame, List.mem_eraseDups]

/-- What comes last for a name still does when a keyword of another name follows. -/
theorem last_of_other (h : HoldsLast keywords entries) {other : String} {v : Value}
    (hmem : (Value.str other, v) ∈ entries) (hne : other ≠ name) :
    ∃ before after, keywords ++ [(name, value)] = before ++ (other, v) :: after ∧
      other ∉ after.map (·.1) := by
  obtain ⟨before, after, rfl, hafter⟩ := h.values other v hmem
  refine ⟨before, after ++ [(name, value)], by simp, ?_⟩
  rw [List.map_append, List.mem_append, not_or]
  exact ⟨hafter, by simpa using hne⟩

theorem exists_key (h : HoldsLast keywords entries) {e : Value × Value} (he : e ∈ entries) :
    ∃ key ∈ keywords.map (·.1), e.1 = .str key := by
  have hmem : e.1 ∈ (keywords.map (·.1)).eraseDups.map Value.str := by
    rw [← h.keys]
    exact List.mem_map_of_mem he
  obtain ⟨key, hkey, hsame⟩ := List.mem_map.mp hmem
  exact ⟨key, List.mem_eraseDups.mp hkey, hsame.symm⟩

/-- A keyword of a new name comes with a new entry. -/
theorem append (h : HoldsLast keywords entries) (hnew : name ∉ keywords.map (·.1)) :
    HoldsLast (keywords ++ [(name, value)]) (entries ++ [(.str name, value)]) where
  keys := by
    rw [List.map_append, List.map_append, List.map_cons, List.map_nil, List.map_cons, List.map_nil,
      eraseDups_append_of_not_mem hnew, List.map_append, h.keys]
    rfl
  values other v hmem := by
    rcases List.mem_append.mp hmem with hmem | hmem
    · -- an earlier entry is that of another name
      obtain ⟨key, hkey, hother⟩ := h.exists_key hmem
      have hne : other ≠ name := by
        rintro rfl
        exact hnew (Value.str.inj hother ▸ hkey)
      exact h.last_of_other hmem hne
    · rw [List.mem_singleton] at hmem
      cases hmem
      exact ⟨keywords, [], rfl, List.not_mem_nil⟩

/-- A keyword of a name that was there changes the value of its entry. -/
theorem overwrite {before after : List (Value × Value)} {old : Value}
    (h : HoldsLast keywords (before ++ (.str name, old) :: after)) :
    HoldsLast (keywords ++ [(name, value)]) (before ++ (.str name, value) :: after) where
  keys := by
    have hmet : name ∈ keywords.map (·.1) := h.mem_keys_iff.mp (by simp)
    have hnames : ((keywords ++ [(name, value)]).map (·.1)).eraseDups =
        (keywords.map (·.1)).eraseDups := by
      rw [List.map_append, List.map_singleton, eraseDups_append_of_mem hmet]
    rw [hnames, ← h.keys]
    simp
  values other v hmem := by
    -- the keys are all different, so that the other entries have other names
    have hnodup := h.nodup_keys
    rw [List.map_append, List.map_cons, List.nodup_middle, List.nodup_cons, ← List.map_append]
      at hnodup
    have hother (hrest : (Value.str other, v) ∈ before ++ after) : other ≠ name := by
      intro hsame
      rw [hsame] at hrest
      exact hnodup.1 (List.mem_map.mpr ⟨_, hrest, rfl⟩)
    rcases List.mem_append.mp hmem with hbefore | hrest
    · exact h.last_of_other (List.mem_append_left _ hbefore)
        (hother (List.mem_append_left after hbefore))
    · rcases List.mem_cons.mp hrest with hhere | hafter
      · cases hhere
        exact ⟨keywords, [], rfl, List.not_mem_nil⟩
      · exact h.last_of_other (List.mem_append_right _ (List.mem_cons_of_mem _ hafter))
          (hother (List.mem_append_right before hafter))

/-- Writing the entry of one more keyword. -/
theorem putEntry (h : HoldsLast keywords entries) :
    HoldsLast (keywords ++ [(name, value)]) (Value.putEntry entries (.str name) value) := by
  by_cases hmet : ∃ e ∈ entries, (e.1 == Value.str name) = true
  · obtain ⟨before, e, after, rfl, hkey, hput⟩ := Value.putEntry_of_met value hmet
    obtain ⟨key, old⟩ := e
    obtain ⟨n, _, rfl⟩ := h.exists_key (List.mem_append_right before List.mem_cons_self)
    obtain rfl : n = name := by simpa [Value.beq_str] using hkey
    rw [hput]
    exact h.overwrite
  · have hnew : name ∉ keywords.map (·.1) := by
      intro hmem
      obtain ⟨e, he, hkey⟩ := List.mem_map.mp (h.mem_keys_iff.mpr hmem)
      exact hmet ⟨e, he, by rw [hkey, Value.beq_str, beq_self_eq_true]⟩
    have hunmet : ∀ e ∈ entries, (e.1 == Value.str name) = false := by
      intro e he
      exact Bool.eq_false_iff.mpr fun hkey => hmet ⟨e, he, hkey⟩
    rw [Value.putEntry_of_new hunmet]
    exact h.append hnew

/-- Writing the entries of further keywords, one after the other. -/
theorem foldl_putEntry (h : HoldsLast keywords entries) (more : List (String × Value)) :
    HoldsLast (keywords ++ more) ((more.map fun kw => (Value.str kw.1, kw.2)).foldl
      (fun acc e => Value.putEntry acc e.1 e.2) entries) := by
  induction more generalizing keywords entries with
  | nil => simpa using h
  | cons kw rest ih =>
      have hshift : keywords ++ kw :: rest = (keywords ++ [(kw.1, kw.2)]) ++ rest := by simp
      rw [hshift, List.map_cons, List.foldl_cons]
      exact ih h.putEntry

end HoldsLast

/-- The dictionary of keywords holds the last value of each name. -/
theorem holdsLast_dictOf (keywords : List (String × Value)) :
    ∃ entries, Value.dictOf (keywords.map fun kw => (.str kw.1, kw.2)) = .dict entries ∧
      HoldsLast keywords entries :=
  ⟨_, rfl, HoldsLast.nil.foldl_putEntry keywords⟩

namespace ParameterList

variable {ps : ParameterList} {args : List Value} {keywords : List (String × Value)}

/-! ## Repeated names -/

/-- Two keywords go to one parameter exactly if they repeat its name. -/
theorem apart_iff_repeated :
    ps.Apart keywords ↔
      ∀ name, List.Duplicate name (keywords.map (·.1)) → ps.named? name = none := by
  induction keywords with
  | nil => simp [Apart]
  | cons kw rest ih =>
      obtain ⟨first, value⟩ := kw
      cases hfirst : ps.named? first with
      | none =>
          rw [apart_cons_of_unmatched hfirst, ih]
          constructor
          · intro h name hname
            rcases List.duplicate_cons_iff.mp hname with ⟨rfl, _⟩ | hname
            · exact hfirst
            · exact h name hname
          · intro h name hname
            exact h name (hname.duplicate_cons first)
      | some j =>
          rw [apart_cons_of_named hfirst, ih]
          constructor
          · rintro ⟨hothers, h⟩ name hname
            rcases List.duplicate_cons_iff.mp hname with ⟨rfl, hagain⟩ | hname
            · obtain ⟨kw, hkw, rfl⟩ := List.mem_map.mp hagain
              exact absurd hfirst (hothers kw hkw)
            · exact h name hname
          · intro h
            refine ⟨fun kw hkw hsame => ?_, fun name hname => h name (hname.duplicate_cons first)⟩
            -- another keyword for the parameter has its name, which is then repeated
            obtain rfl : kw.1 = first := named?_inj hsame hfirst
            have hrepeated : List.Duplicate kw.1 (kw.1 :: rest.map (·.1)) :=
              List.duplicate_cons_self_iff.mpr (List.mem_map_of_mem hkw)
            rw [h kw.1 hrepeated] at hfirst
            cases hfirst

/-- Of the parameters that take the further keywords, one is the first. -/
theorem exists_first_restKeyword (h : ps.has .restKeyword = true) :
    ∃ (i : Nat) (p : Parameter), ps.parameters[i]? = some p ∧ p.kind = .restKeyword ∧
      (ps.parameters.take i).any (·.kind == .restKeyword) = false := by
  have hfound : (ps.parameters.findIdx? (·.kind == .restKeyword)).isSome = true := by
    rw [List.findIdx?_isSome]
    exact h
  obtain ⟨i, hi⟩ := Option.isSome_iff_exists.mp hfound
  obtain ⟨hlt, hkind, hearlier⟩ := List.findIdx?_eq_some_iff_getElem.mp hi
  refine ⟨i, ps.parameters[i], List.getElem?_eq_getElem hlt, by simpa using hkind, ?_⟩
  rw [List.any_eq_false]
  intro p hp
  obtain ⟨j, hj, rfl⟩ := List.mem_take_iff_getElem.mp hp
  exact hearlier j (by omega)

/-- The first parameter that takes the further keywords holds the last value of each. -/
theorem holdsLast_of_bind {bindings : List Binding} (h : ps.bind args keywords = .ok bindings)
    (hrest : ps.has .restKeyword = true) :
    ∃ (i : Nat) (p : Parameter) (entries : List (Value × Value)), ps.parameters[i]? = some p ∧
      p.kind = .restKeyword ∧ bindings[i]? = some ⟨p.name, p.kind, .dict entries⟩ ∧
      HoldsLast (ps.unmatched keywords) entries := by
  obtain ⟨i, p, hp, hkind, hfirst⟩ := exists_first_restKeyword hrest
  obtain ⟨v, hvalue, hbinding⟩ := exists_of_bind h hp
  simp only [Slot.outcome, hkind, hfirst, Bool.false_eq_true, if_false, Option.some.injEq] at hvalue
  obtain ⟨entries, hentries, hholds⟩ := holdsLast_dictOf (ps.unmatched keywords)
  exact ⟨i, p, entries, hp, hkind, by rw [hbinding, ← hvalue, hentries], hholds⟩

/-- A call that repeats a keyword is refused where the keyword names a parameter
    or nothing takes the further keywords. It binds its arguments exactly if
    these fit and no repeated keyword names a parameter; the parameter that takes
    the further keywords then holds the last value of each, and the others are
    lost. -/
theorem bind_repeated (ps : ParameterList) (args : List Value) (keywords : List (String × Value))
    (name : String) (hrepeated : List.Duplicate name (keywords.map (·.1))) :
    ((ps.named? name).isSome = true ∨ ps.has .restKeyword = false →
      ∃ e, ps.bind args keywords = .error e) ∧
    ((∃ bindings, ps.bind args keywords = .ok bindings) ↔ ps.Fits args keywords ∧
      ∀ other, List.Duplicate other (keywords.map (·.1)) → ps.named? other = none) ∧
    ∀ bindings, ps.bind args keywords = .ok bindings →
      ∃ (i : Nat) (p : Parameter) (entries : List (Value × Value)), ps.parameters[i]? = some p ∧
        p.kind = .restKeyword ∧ bindings[i]? = some ⟨p.name, p.kind, .dict entries⟩ ∧
        HoldsLast (ps.unmatched keywords) entries := by
  have hbinds : (∃ bindings, ps.bind args keywords = .ok bindings) ↔ ps.Fits args keywords ∧
      ∀ other, List.Duplicate other (keywords.map (·.1)) → ps.named? other = none := by
    rw [exists_bind_iff_apart, apart_iff_repeated, and_comm]
  -- a call that binds takes the repeated keyword for one of the further keywords
  have hcollected (bindings : List Binding) (h : ps.bind args keywords = .ok bindings) :
      ps.named? name = none ∧ ps.has .restKeyword = true := by
    obtain ⟨hfits, hunmatched⟩ := hbinds.mp ⟨bindings, h⟩
    have hname : ps.named? name = none := hunmatched name hrepeated
    obtain ⟨kw, hkw, rfl⟩ := List.mem_map.mp hrepeated.mem
    rcases hfits.keyword kw hkw with ⟨i, hi, _⟩ | ⟨_, hrest⟩
    · rw [hname] at hi
      cases hi
    · exact ⟨hname, hrest⟩
  refine ⟨fun hrefused => ?_, hbinds,
    fun bindings h => holdsLast_of_bind h (hcollected bindings h).2⟩
  cases h : ps.bind args keywords with
  | error e => exact ⟨e, rfl⟩
  | ok bindings =>
      obtain ⟨hname, hrest⟩ := hcollected bindings h
      simp [hname, hrest] at hrefused

/-- One keyword is repeated for a parameter, the other for the further keywords. -/
theorem bind_repeated_options :
    let ps : ParameterList := ⟨[⟨"width", .keywordOnly, none⟩, ⟨"options", .restKeyword, none⟩]⟩
    let collected : List (String × Value) := [("x", .int 1), ("width", .int 5), ("x", .int 3)]
    (∃ e, ps.bind [] [("width", .int 1), ("width", .int 2)] = .error e) ∧
      List.Duplicate "x" (collected.map (·.1)) ∧
      ∃ bindings, ps.bind [] collected = .ok bindings ∧
        ∃ (i : Nat) (p : Parameter) (entries : List (Value × Value)), ps.parameters[i]? = some p ∧
          p.kind = .restKeyword ∧ bindings[i]? = some ⟨p.name, p.kind, .dict entries⟩ ∧
          HoldsLast [("x", .int 1), ("x", .int 3)] entries := by
  intro ps collected
  have hwidth : List.Duplicate "width" ([("width", Value.int 1), ("width", .int 2)].map (·.1)) := by
    decide
  have hx : List.Duplicate "x" (collected.map (·.1)) := by decide
  have hfits : ps.Fits [] collected := fault?_eq_none_iff.mp (by decide)
  obtain ⟨hrefused, -, -⟩ := bind_repeated ps [] _ "width" hwidth
  obtain ⟨-, hbinds, hholds⟩ := bind_repeated ps [] collected "x" hx
  have hunmatched : ∀ other ∈ collected.map (·.1),
      List.Duplicate other (collected.map (·.1)) → ps.named? other = none := by decide
  obtain ⟨bindings, hbind⟩ :=
    hbinds.mpr ⟨hfits, fun other hother => hunmatched other hother.mem hother⟩
  exact ⟨hrefused (Or.inl (by decide)), hx, bindings, hbind, hholds bindings hbind⟩

/-- Of two values for one further keyword, the first is lost. -/
theorem bind_overwrites_keyword :
    let ps : ParameterList := ⟨[⟨"options", .restKeyword, none⟩]⟩
    let keywords : List (String × Value) := [("a", .int 1), ("a", .int 2)]
    List.Duplicate "a" (keywords.map (·.1)) ∧
      ps.bind [] keywords = .ok [⟨"options", .restKeyword, .dict [(.str "a", .int 2)]⟩] := by
  intro ps keywords
  have hwritten : Value.dictOf [(.str "a", .int 1), (.str "a", .int 2)] =
      .dict [(.str "a", .int 2)] := by
    simp [Value.dictOf, Value.putEntry, Value.beq_str]
  have hbind : ps.bind [] keywords = .ok [⟨"options", .restKeyword,
      .dictOf [(.str "a", .int 1), (.str "a", .int 2)]⟩] := rfl
  exact ⟨by decide, by rw [hbind, hwritten]⟩

end ParameterList

end Conform

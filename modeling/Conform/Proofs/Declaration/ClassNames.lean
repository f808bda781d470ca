/-
  Conform.Proofs.Declaration.ClassNames

  Which registered classes can be named in the text of a declaration. Three
  tables have a say in what a name means: registration refuses the names of the
  standard types, the reader knows names of its own and drops the module in
  front of a name, and what is left is looked up among the classes. They do not
  agree on all names. A class is named by its own name exactly if the reader
  takes the whole text for that name and knows no other meaning for it
  (`schemaOfText_className_iff`).
-/

import Conform.Proofs.ClassTable.Registration
import Conform.Proofs.Declaration.RoundTrip
import Conform.Schema.OfDeclaration

namespace Conform

/-! ## Names are cut out of the text -/

namespace Token

theorem length_nameRun_le (cs : List Char) : (nameRun cs).length ≤ cs.length := by
  have hdrop :=
    (List.dropWhile_suffix (l := (cs.takeWhile continuesName).reverse) (· == '.')).length_le
  have htake := (List.takeWhile_prefix (l := cs) continuesName).length_le
  rw [List.length_reverse] at hdrop
  rw [nameRun, List.length_reverse]
  omega

/-- A name that is read from a text is no longer than the text. -/
theorem length_le_of_mem_tokens {offset : Nat} {cs : List Char} {ls : List Lexeme} {l : Lexeme}
    {n : String} (h : tokenizeFrom offset cs = .ok ls) (hl : l ∈ ls) (hn : l.token = .name n) :
    n.toList.length ≤ cs.length := by
  fun_induction tokenizeFrom offset cs generalizing ls with
  | case1 offset =>
      cases h
      cases hl
  | case2 offset c rest hblank ih =>
      have hlength := ih h hl
      rw [List.length_cons]
      omega
  | case3 => cases h
  | case4 => cases h
  | case5 offset c rest hblank t k hscan more hmore ih =>
      cases h
      rcases List.mem_cons.mp hl with rfl | hl
      · -- the first token is the run of name characters itself
        obtain rfl : t = .name n := hn
        obtain ⟨_, hname⟩ := beginsWord_of_scan (Bool.eq_false_iff.mpr hblank) hscan
        rw [hname, String.toList_ofList]
        exact length_nameRun_le (c :: rest)
      · have hlength := ih hmore hl
        rw [List.length_drop] at hlength
        rw [List.length_cons]
        omega

end Token

namespace Declaration

/-! ## Texts of one name -/

/-- A single name is read as what it stands for without its module. -/
theorem parse_eq_ok_of_name {text raw : String} {offset : Nat} {d : Declaration}
    (h : Token.tokenize text = .ok [⟨.name raw, offset⟩]) :
    parse text = .ok d ↔ ∃ n, Unqualified raw n ∧ n ∉ incompleteNames ∧ NameMeans n d := by
  rw [parse_eq_ok_iff]
  constructor
  · rintro ⟨tokens, htokens, hspells⟩
    obtain rfl : [⟨.name raw, offset⟩] = tokens := Except.ok.inj (h.symm.trans htokens)
    generalize hts : List.map (·.token) [(⟨.name raw, offset⟩ : Lexeme)] = ts at hspells
    cases hspells with
    | single hterm =>
        cases hterm with
        | ellipsis => cases hts
        | @bare _ n _ hraw hplain hmeans =>
            cases hts
            exact ⟨n, hraw, hplain, hmeans⟩
        | applied _ _ => simp at hts
    | several hterm _ _ =>
        -- a bar would take two more tokens
        obtain ⟨t, us, rfl, _, _⟩ := hterm.begins
        simp at hts
  · rintro ⟨n, hraw, hplain, hmeans⟩
    exact ⟨_, h, .single (.bare hraw hplain hmeans)⟩

theorem schemaOfText_of_name {classes : Option ClassTable} {text raw n : String} {offset : Nat}
    {d : Declaration} (h : Token.tokenize text = .ok [⟨.name raw, offset⟩])
    (hraw : Unqualified raw n) (hplain : n ∉ incompleteNames) (hmeans : NameMeans n d) :
    schemaOfText classes text = toSchema classes d := by
  rw [schemaOfText, (parse_eq_ok_of_name h).mpr ⟨n, hraw, hplain, hmeans⟩]

/-- A name has the schema of a class only if it stands for that class. -/
theorem eq_of_toSchema_nameMeans {classes : Option ClassTable} {n c : String} {d : Declaration}
    (hmeans : NameMeans n d) (h : toSchema classes d = .ok (.bare (.instanceOf c))) :
    n = c ∧ n ∉ ownNames ∧ ∀ kind, n ∉ Container.names kind := by
  have hbare {tag : TypeTag} (htag : Schema.bare tag = .bare (.instanceOf c)) :
      tag = .instanceOf c := List.head_eq_of_cons_eq (congrArg Schema.tags htag)
  cases hmeans with
  | none _ | any _ => cases hbare (Except.ok.inj h)
  | sized | callable =>
      -- several tags against one
      cases congrArg (·.tags.length) (Except.ok.inj h)
  | @type _ tag htype =>
      have hstandard : ∀ entry ∈ typeNames, entry.2 ∈ TypeTag.standard := by decide
      have htag := hstandard (n, tag) htype
      rw [hbare (Except.ok.inj h)] at htag
      simp [TypeTag.standard] at htag
  | named hown htype =>
      have hschema := hbare (namedSchema_eq_ok h).symm
      refine ⟨TypeTag.instanceOf.inj hschema, hown, fun kind hkind => htype ?_⟩
      have hnames : ∀ known ∈ kind.names, known ∈ typeNames.map (·.1) := by
        cases kind <;> decide
      exact hnames n hkind

/-! ## Registered classes -/

theorem namedSchema_of_contains {t : ClassTable} {c : String} (h : t.contains c = true) :
    namedSchema (some t) c = .ok (.bare (.instanceOf c)) := if_pos h

/-- A registered class whose name is read as one name is what its name stands
    for, exactly if the name read is that name, is none of the special names
    and of the names of containers, and has no module in front that is dropped.
    The names of standard types need not be left out, as no class has one. -/
theorem schemaOfText_className_iff (rs : List (String × List String)) {c n : String} {offset : Nat}
    (hc : (ClassTable.registered rs).contains c = true)
    (hn : Token.tokenize c = .ok [⟨.name n, offset⟩]) :
    schemaOfText (some (ClassTable.registered rs)) c = .ok (.bare (.instanceOf c)) ↔
      n = c ∧ c ∉ specialNames ∧ (∀ kind, c ∉ Container.names kind) ∧
        ∀ m ∈ modules, ¬ m.toList <+: c.toList := by
  have hsound := ClassTable.sound_empty.attemptAll rs
  constructor
  · intro h
    unfold schemaOfText at h
    cases hparse : parse c with
    | error e =>
        rw [hparse] at h
        cases h
    | ok d =>
        rw [hparse] at h
        obtain ⟨name, hraw, harguments, hmeans⟩ := (parse_eq_ok_of_name hn).mp hparse
        obtain ⟨rfl, hown, hcontainer⟩ := eq_of_toSchema_nameMeans hmeans h
        -- what is left of the name is as long as the text, so nothing was dropped
        have hlength := Token.length_le_of_mem_tokens hn (List.mem_singleton_self _) rfl
        cases hraw with
        | @qualified m _ hm =>
            have hpos : ∀ m ∈ droppedModules, 0 < m.toList.length := by decide
            have hmodule := hpos m hm
            rw [String.toList_append, List.length_append] at hlength
            omega
        | plain hmodules =>
            refine ⟨rfl, fun hspecial => ?_, hcontainer, hmodules⟩
            exact (List.mem_append.mp hspecial).elim hown harguments
  · rintro ⟨rfl, hspecial, hcontainer, hmodules⟩
    have hfree : Unreserved n := by
      refine ⟨hspecial, hcontainer, fun tag htag hname => ?_⟩
      have hnone := List.find?_eq_none.mp (hsound.namesFree n hc) tag htag
      exact hnone (beq_iff_eq.mpr hname)
    have harguments : n ∉ incompleteNames :=
      fun hmem => hspecial (List.mem_append_right ownNames hmem)
    rw [schemaOfText_of_name hn (.plain hmodules) harguments hfree.means]
    exact namedSchema_of_contains hc

/-- A dotted name that begins like a special one. -/
theorem schemaOfText_className_dotted :
    let t : ClassTable := ClassTable.registered [("zoo.Käfig", []), ("Any.Thing", ["zoo.Käfig"])]
    t.contains "Any.Thing" = true ∧ Token.tokenize "Any.Thing" = .ok [⟨.name "Any.Thing", 0⟩] ∧
      schemaOfText (some t) "Any.Thing" = .ok (.bare (.instanceOf "Any.Thing")) := by
  intro t
  have hc : t.contains "Any.Thing" = true := by decide +kernel
  have hn : Token.tokenize "Any.Thing" = .ok [⟨.name "Any.Thing", 0⟩] :=
    Token.tokenize_eq_name_iff.mpr (by decide)
  refine ⟨hc, hn, (schemaOfText_className_iff _ hc hn).mpr ⟨rfl, by decide, ?_, by decide⟩⟩
  intro kind
  cases kind <;> decide

/-- Classes that cannot be named: one with a name of the reader's own, one in a
    module that the reader drops, so that another class is meant, and one with
    a blank in front of its name. -/
theorem schemaOfText_hides_className :
    let t : ClassTable := ClassTable.registered [("Any", []), ("Point", []), ("typing.Point", []),
      (" Point", [])]
    (t.contains "Any" = true ∧ Token.tokenize "Any" = .ok [⟨.name "Any", 0⟩] ∧
      schemaOfText (some t) "Any" = .ok (.bare .any)) ∧
    (t.contains "typing.Point" = true ∧
      Token.tokenize "typing.Point" = .ok [⟨.name "typing.Point", 0⟩] ∧
      schemaOfText (some t) "typing.Point" = .ok (.bare (.instanceOf "Point"))) ∧
    (t.contains " Point" = true ∧ Token.tokenize " Point" = .ok [⟨.name "Point", 1⟩] ∧
      schemaOfText (some t) " Point" = .ok (.bare (.instanceOf "Point"))) := by
  intro t
  have hpoint : t.contains "Point" = true := by decide +kernel
  have hany : Token.tokenize "Any" = .ok [⟨.name "Any", 0⟩] :=
    Token.tokenize_eq_name_iff.mpr (by decide)
  have hmodule : Token.tokenize "typing.Point" = .ok [⟨.name "typing.Point", 0⟩] :=
    Token.tokenize_eq_name_iff.mpr (by decide)
  have hblank : Token.tokenize " Point" = .ok [⟨.name "Point", 1⟩] := by
    have hword : Token.isWord "Point".toList = true := by decide
    rw [Token.tokenize, show " Point".toList = ' ' :: "Point".toList by decide,
      Token.tokenizeFrom, if_pos (by decide), Token.tokenizeFrom_of_isWord _ hword,
      String.ofList_toList]
    rfl
  refine ⟨⟨by decide +kernel, hany, ?_⟩, ⟨by decide +kernel, hmodule, ?_⟩, by decide +kernel,
    hblank, ?_⟩
  · exact schemaOfText_of_name hany (.plain (by decide)) (by decide) (.any (by decide))
  · have hdropped : Unqualified "typing.Point" "Point" := by
      rw [show "typing.Point" = "typing." ++ "Point" by decide]
      exact .qualified (by decide)
    rw [schemaOfText_of_name hmodule hdropped (by decide) (.named (by decide) (by decide))]
    exact namedSchema_of_contains hpoint
  · rw [schemaOfText_of_name hblank (.plain (by decide)) (by decide)
      (.named (by decide) (by decide))]
    exact namedSchema_of_contains hpoint

end Declaration

end Conform

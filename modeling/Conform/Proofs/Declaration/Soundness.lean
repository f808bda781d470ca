/-
  Conform.Proofs.Declaration.Soundness

  Whatever the reader of declarations returns, the grammar derives from the
  tokens that it took. Shown reader by reader, from the items of a list up; the
  readers of arguments and terms are sound over any sound reader of unions, and
  the bound on the nesting of brackets ties the knot.
-/

import Conform.Proofs.Declaration.Grammar
import Conform.Proofs.Schema.OfDeclaration

namespace Conform

namespace Token

/-- Whether a token is a punctuation mark. -/
def isMark : Token → Bool
  | leftBracket | rightBracket | leftParen | rightParen | comma | pipe | ellipsis => true
  | name _ | str _ | int _ | float _ => false

/-- Equality tells marks apart; of numbers this cannot be said. -/
theorem beq_iff_of_isMark {t u : Token} (ht : t.isMark = true) : (u == t) = true ↔ u = t := by
  cases t <;> cases ht <;> cases u
  all_goals first
    | exact iff_of_true rfl rfl
    | exact iff_of_false Bool.false_ne_true nofun

end Token

namespace Declaration

namespace TokenStream

/-- The tokens ahead, without their offsets. -/
def tokens (s : TokenStream) : List Token := s.ahead.map (·.token)

theorem peek?_eq (s : TokenStream) : s.peek? = s.tokens.head? := by
  simp [peek?, tokens]

theorem tokens_advance {s : TokenStream} {t : Token} {ts : List Token}
    (h : s.tokens = t :: ts) : s.advance.tokens = ts := by
  have htail : s.advance.tokens = s.tokens.tail := by simp [tokens, advance]
  rw [htail, h, List.tail_cons]

theorem tokens_eq_of_head? {s : TokenStream} {t : Token} (h : s.tokens.head? = some t) :
    s.tokens = t :: s.advance.tokens := by
  obtain ⟨ts, hts⟩ := List.head?_eq_some_iff.mp h
  rw [tokens_advance hts, hts]

theorem isAt_iff {s : TokenStream} (t : Token) (ht : t.isMark = true) :
    s.isAt t = true ↔ s.tokens.head? = some t := by
  rw [isAt, peek?_eq]
  cases s.tokens.head? with
  | none => simp
  | some u => simp [Token.beq_iff_of_isMark ht]

end TokenStream

/-! ## Names -/

theorem afterStart?_append (start rest : String) :
    afterStart? start (start ++ rest) = some rest := by
  have hstart : start.toList.isPrefixOf (start ++ rest).toList = true := by
    rw [List.isPrefixOf_iff_prefix, String.toList_append]
    exact List.prefix_append _ _
  rw [afterStart?, if_pos hstart, String.toList_append, List.drop_left, String.ofList_toList]

theorem afterStart?_eq_none {start name : String} (h : ¬ start.toList <+: name.toList) :
    afterStart? start name = Option.none :=
  if_neg fun hstart => h (List.isPrefixOf_iff_prefix.mp hstart)

/-- No module begins as another one does. -/
theorem afterStart?_other {m m' : String} (hm : m ∈ modules) (hm' : m' ∈ modules) (hne : m' ≠ m)
    (name : String) : afterStart? m' (m ++ name) = Option.none := by
  have happart : ∀ a ∈ modules, ∀ b ∈ modules, a.toList <+: b.toList → a = b := by decide
  have hself : m.toList <+: (m ++ name).toList := by
    rw [String.toList_append]
    exact List.prefix_append _ _
  refine afterStart?_eq_none fun hstart => hne ?_
  rcases List.prefix_or_prefix_of_prefix hstart hself with hle | hle
  · exact happart m' hm' m hm hle
  · exact (happart m hm m' hm' hle).symm

/-- The module found first in front of a name is the only one. -/
theorem withoutModule_eq {raw name : String} (h : Unqualified raw name) :
    withoutModule raw = name := by
  cases h with
  | @qualified m _ hm =>
      cases hfound : modules.findSome? (afterStart? · (m ++ name)) with
      | none =>
          have hnone := List.findSome?_eq_none_iff.mp hfound m hm
          rw [afterStart?_append] at hnone
          cases hnone
      | some rest =>
          obtain ⟨m', hm', hrest⟩ := List.exists_of_findSome?_eq_some hfound
          by_cases hne : m' = m
          · rw [hne, afterStart?_append] at hrest
            rw [withoutModule, hfound, ← hrest, Option.getD_some]
          · rw [afterStart?_other hm hm' hne] at hrest
            cases hrest
  | plain hnone =>
      have hfound : modules.findSome? (afterStart? · raw) = Option.none :=
        List.findSome?_eq_none_iff.mpr fun m hm => afterStart?_eq_none (hnone m hm)
      rw [withoutModule, hfound, Option.getD_none]

theorem exists_unqualified (raw : String) : ∃ name, Unqualified raw name := by
  by_cases h : ∃ m ∈ droppedModules, m.toList <+: raw.toList
  · obtain ⟨m, hm, rest, hrest⟩ := h
    have hraw : raw = m ++ String.ofList rest := by
      rw [← String.toList_inj, String.toList_append, String.toList_ofList, hrest]
    rw [hraw]
    exact ⟨_, .qualified hm⟩
  · exact ⟨raw, .plain fun m hm hstart => h ⟨m, hm, hstart⟩⟩

theorem unqualified_withoutModule (raw : String) : Unqualified raw (withoutModule raw) := by
  obtain ⟨name, h⟩ := exists_unqualified raw
  rwa [withoutModule_eq h]

theorem needsArguments_iff {name : String} :
    needsArguments name = true ↔ name ∈ incompleteNames := by
  rw [needsArguments, List.contains_iff_mem]
  rfl

/-- Other names are looked up among the containers, then among the types. -/
theorem ofName_of_not_own {n : String} (h : n ∉ ownNames) :
    ofName n = (((Container.ofName? n).map Container.tag).or (TypeTag.ofTypeName? n)).elim
      (named n) concrete := by
  simp only [ownNames, List.mem_cons, not_or] at h
  obtain ⟨h₁, h₂, h₃, h₄, h₅, h₆, _⟩ := h
  simp only [ofName, beq_eq_false_iff_ne.mpr h₁, beq_eq_false_iff_ne.mpr h₂,
    beq_eq_false_iff_ne.mpr h₃, beq_eq_false_iff_ne.mpr h₄, beq_eq_false_iff_ne.mpr h₅,
    beq_eq_false_iff_ne.mpr h₆, Bool.or_self, Bool.false_eq_true, if_false]
  cases Container.ofName? n with
  | some kind => rfl
  | none =>
      cases TypeTag.ofTypeName? n with
      | some tag => rfl
      | none => rfl

theorem ofName_eq {n : String} {d : Declaration} (h : NameMeans n d) : ofName n = d := by
  cases h with
  | none hn | any hn =>
      simp only [List.mem_cons, List.not_mem_nil, or_false] at hn
      rcases hn with rfl | rfl <;> rfl
  | sized | callable => rfl
  | @type _ tag hn =>
      have htable : ∀ entry ∈ typeNames, entry.1 ∉ ownNames ∧
          ((Container.ofName? entry.1).map Container.tag).or (TypeTag.ofTypeName? entry.1) =
            some entry.2 := by decide +kernel
      obtain ⟨hown, hlookup⟩ := htable (n, tag) hn
      rw [ofName_of_not_own hown, hlookup]
      rfl
  | named hown htype =>
      -- a name found by the reader would be in the table
      have hcontainer : Container.ofName? n = Option.none := by
        rw [Option.eq_none_iff_forall_ne_some]
        intro kind hkind
        have hnames : ∀ known ∈ kind.names, known ∈ typeNames.map (·.1) := by
          cases kind <;> decide
        exact htype (hnames n (Container.ofName?_eq_some_iff.mp hkind))
      have hstandard : TypeTag.ofTypeName? n = Option.none := by
        have hnames : ∀ tag ∈ TypeTag.standard,
            tag.name ∈ ownNames ∨ tag.name ∈ typeNames.map (·.1) := by decide
        rw [TypeTag.ofTypeName?, List.find?_eq_none]
        intro tag htag hname
        rw [← eq_of_beq hname] at hown htype
        exact (hnames tag htag).elim hown htype
      rw [ofName_of_not_own hown, hcontainer, hstandard]
      rfl

theorem exists_nameMeans (n : String) : ∃ d, NameMeans n d := by
  by_cases hown : n ∈ ownNames
  · simp only [ownNames, List.mem_cons, List.not_mem_nil, or_false] at hown
    rcases hown with rfl | rfl | rfl | rfl | rfl | rfl
    · exact ⟨_, .none (by decide)⟩
    · exact ⟨_, .none (by decide)⟩
    · exact ⟨_, .any (by decide)⟩
    · exact ⟨_, .any (by decide)⟩
    · exact ⟨_, .sized⟩
    · exact ⟨_, .callable⟩
  by_cases htype : n ∈ typeNames.map (·.1)
  · obtain ⟨⟨_, tag⟩, hn, rfl⟩ := List.mem_map.mp htype
    exact ⟨_, .type hn⟩
  · exact ⟨_, .named hown htype⟩

theorem nameMeans_ofName (n : String) : NameMeans n (ofName n) := by
  obtain ⟨d, h⟩ := exists_nameMeans n
  rwa [ofName_eq h]

/-! ## Unions -/

theorem opened_iff {ds es : List Declaration} : Opened ds es ↔ ds.flatMap unionMembers = es := by
  constructor
  · intro h
    induction h with
    | nil => rfl
    | union _ ih => rw [List.flatMap_cons, ih, unionMembers]
    | @other d _ _ hd _ ih =>
        have hself : unionMembers d = [d] := by
          cases d with
          | union inner => exact absurd rfl (hd inner)
          | _ => rfl
        rw [List.flatMap_cons, ih, hself, List.singleton_append]
  · rintro rfl
    induction ds with
    | nil => exact .nil
    | cons d ds ih =>
        rw [List.flatMap_cons]
        cases d with
        | union inner => exact .union ih
        | _ => exact .other (by simp) ih

theorem opened_unionMembers (ds : List Declaration) : Opened ds (ds.flatMap unionMembers) :=
  opened_iff.mpr rfl

open TokenStream

/-! ## Sound readers -/

/-- What a reader takes off a stream spells its result. -/
def Sound {α : Type} (read : Reader α) (spells : List Token → α → Prop) : Prop :=
  ∀ ⦃s a s'⦄, read s = .ok (a, s') → ∃ ts, s.tokens = ts ++ s'.tokens ∧ spells ts a

theorem Listed.more {α : Type} {item : List Token → α → Prop} {ts us : List Token} {a : α}
    {as : List α} (h : item ts a) (more : Listed item us as) :
    Listed item (ts ++ .comma :: us) (a :: as) := by
  cases more with
  | plain hus => exact .plain (.more h hus)
  | trailing hus =>
      have hchained := Chained.more h hus
      rw [← List.cons_append, ← List.append_assoc]
      exact .trailing hchained

theorem separated_sound {α : Type} {item : Reader α} {spells : List Token → α → Prop}
    (hitem : Sound item spells) (fuel : Nat) : Sound (separated item fuel) (Listed spells) := by
  induction fuel with
  | zero => intro s as s' h; cases h
  | succ fuel ih =>
      intro s as s' h
      rw [separated, bind_eq_ok_iff] at h
      obtain ⟨⟨a, u⟩, ha, h⟩ := h
      obtain ⟨ts, hts, hspells⟩ := hitem ha
      dsimp only at h
      split at h
      · rename_i hcomma
        have hu := tokens_eq_of_head? ((isAt_iff .comma rfl).mp hcomma)
        split at h
        · -- the comma stands before the closing bracket
          cases h
          refine ⟨ts ++ [.comma], ?_, .trailing (.one hspells)⟩
          rw [hts, hu, List.append_assoc, List.singleton_append]
        · rw [bind_eq_ok_iff] at h
          obtain ⟨⟨more, w⟩, hmore, h⟩ := h
          cases h
          obtain ⟨us, hus, hlisted⟩ := ih hmore
          refine ⟨ts ++ .comma :: us, ?_, .more hspells hlisted⟩
          rw [hts, hu, hus, List.append_assoc, List.cons_append]
      · cases h
        exact ⟨ts, hts, .plain (.one hspells)⟩

theorem literalOf?_eq_some_iff {t : Token} {v : Value} :
    literalOf? t = some v ↔ SpellsLiteral [t] v := by
  constructor
  · intro h
    cases t with
    | str s => cases h; exact .str s
    | int n => cases h; exact .int n
    | float x => cases h; exact .float x
    | name n =>
        simp only [literalOf?] at h
        split_ifs at h with htrue hfalse hnone
        · cases h; rw [eq_of_beq htrue]; exact .true
        · cases h; rw [eq_of_beq hfalse]; exact .false
        · cases h; rw [eq_of_beq hnone]; exact .none
    | _ => cases h
  · intro h
    cases h <;> rfl

theorem literalItem_sound : Sound literalItem SpellsLiteral := by
  intro s v s' h
  unfold literalItem at h
  split at h
  · rename_i w hw
    cases h
    rw [peek?_eq] at hw
    obtain ⟨t, ht, hliteral⟩ := Option.bind_eq_some_iff.mp hw
    exact ⟨[t], tokens_eq_of_head? ht, literalOf?_eq_some_iff.mp hliteral⟩
  · cases h

/-! ## Balanced brackets -/

theorem Balanced.append {ts us : List Token} (hts : Balanced ts) (hus : Balanced us) :
    Balanced (ts ++ us) := by
  induction hts with
  | nil => exact hus
  | other hleft hright _ ih => exact .other hleft hright ih
  | nested hinner _ _ ih =>
      rw [List.append_assoc, List.cons_append]
      exact .nested hinner ih

/-- Tokens that close a number of brackets and leave none of their own open. -/
def Closes : Nat → List Token → Prop
  | 0, ts => Balanced ts
  | depth + 1, ts => ∃ us vs, ts = us ++ .rightBracket :: vs ∧ Balanced us ∧ Closes depth vs

theorem Closes.prepend {depth : Nat} {us ts : List Token} (hus : Balanced us)
    (h : Closes depth ts) : Closes depth (us ++ ts) := by
  cases depth with
  | zero => exact hus.append h
  | succ depth =>
      obtain ⟨ws, vs, rfl, hws, hvs⟩ := h
      exact ⟨us ++ ws, vs, (List.append_assoc ..).symm, hus.append hws, hvs⟩

theorem afterBalanced_sound {finish depth : Nat} {ls rest : List Lexeme}
    (h : afterBalanced finish depth ls = .ok rest) :
    ∃ ts, ls.map (·.token) = ts ++ rest.map (·.token) ∧ Closes depth ts := by
  fun_induction afterBalanced finish depth ls with
  | case1 => cases h
  | case2 l ls hright =>
      cases h
      exact ⟨[], rfl, .nil⟩
  | case3 l ls hright depth ih =>
      obtain ⟨ts, hts, hcloses⟩ := ih h
      refine ⟨.rightBracket :: ts, ?_, [], ts, rfl, .nil, hcloses⟩
      rw [List.map_cons, hts, hright, List.cons_append]
  | case4 depth l ls hleft ih =>
      obtain ⟨ts, hts, us, vs, rfl, hus, hvs⟩ := ih h
      -- the bracket opened here is the first one closed further on
      have hpair : Balanced (.leftBracket :: us ++ [.rightBracket]) := .nested hus .nil
      refine ⟨(.leftBracket :: us ++ [.rightBracket]) ++ vs, ?_, hvs.prepend hpair⟩
      rw [List.map_cons, hts, hleft]
      simp
  | case5 depth l ls hright hleft ih =>
      obtain ⟨ts, hts, hcloses⟩ := ih h
      have htoken : Balanced [l.token] := .other hleft hright .nil
      refine ⟨[l.token] ++ ts, ?_, hcloses.prepend htoken⟩
      rw [List.map_cons, hts, List.singleton_append, List.cons_append]

/-! ## Soundness of terms and unions -/

section Sound

variable {nested : Reader Declaration} (hnested : Sound nested SpellsUnion)

include hnested

theorem typeArguments_sound {name : String} {kind : Container} (hname : name ∈ kind.names)
    (fuel : Nat) :
    Sound (typeArguments nested fuel kind) fun ts ds =>
      SpellsArguments name ts (container kind ds) := by
  intro s ds s' h
  unfold typeArguments at h
  split at h
  · rename_i htuple
    obtain ⟨hkind, hleft⟩ := Bool.and_eq_true_iff.mp htuple
    obtain rfl : kind = .tuple := by simpa using hkind
    dsimp only at h
    split at h
    · rename_i hright
      cases h
      refine ⟨[.leftParen, .rightParen], ?_, .emptyTuple hname⟩
      rw [tokens_eq_of_head? ((isAt_iff .leftParen rfl).mp hleft),
        tokens_eq_of_head? ((isAt_iff .rightParen rfl).mp hright)]
      rfl
    · cases h
  · obtain ⟨ts, hts, hlisted⟩ := separated_sound hnested fuel h
    exact ⟨ts, hts, .container hname hlisted⟩

theorem arguments_sound (fuel : Nat) (name : String) :
    Sound (arguments nested fuel name) (SpellsArguments name) := by
  intro s d s' h
  unfold arguments at h
  split_ifs at h with hliteral htype hoptional hunion hcallable
  · rw [bind_eq_ok_iff] at h
    obtain ⟨⟨vs, u⟩, hvs, h⟩ := h
    cases h
    obtain ⟨ts, hts, hlisted⟩ := separated_sound literalItem_sound fuel hvs
    rw [eq_of_beq hliteral]
    exact ⟨ts, hts, .literal hlisted⟩
  · split at h
    · rename_i raw hraw
      cases h
      rw [peek?_eq] at hraw
      refine ⟨[.name raw], tokens_eq_of_head? hraw, .typeOf ?_ (unqualified_withoutModule raw)⟩
      simpa using htype
    · cases h
  · rw [bind_eq_ok_iff] at h
    obtain ⟨⟨ds, u⟩, hds, h⟩ := h
    obtain ⟨ts, hts, hlisted⟩ := separated_sound hnested fuel hds
    dsimp only at h
    split at h
    · cases h
      rw [eq_of_beq hoptional]
      exact ⟨ts, hts, .optional hlisted (opened_unionMembers _)⟩
    · cases h
  · rw [bind_eq_ok_iff] at h
    obtain ⟨⟨ds, u⟩, hds, h⟩ := h
    cases h
    obtain ⟨ts, hts, hlisted⟩ := separated_sound hnested fuel hds
    rw [eq_of_beq hunion]
    exact ⟨ts, hts, .union hlisted (opened_unionMembers _)⟩
  · rw [bind_eq_ok_iff] at h
    obtain ⟨rest, hrest, h⟩ := h
    cases h
    obtain ⟨ts, hts, hbalanced⟩ := afterBalanced_sound hrest
    rw [eq_of_beq hcallable]
    exact ⟨ts, hts, .callable hbalanced⟩
  · split at h
    · rename_i kind hkind
      rw [bind_eq_ok_iff] at h
      obtain ⟨⟨ds, u⟩, hds, h⟩ := h
      cases h
      exact typeArguments_sound hnested (Container.ofName?_eq_some_iff.mp hkind) fuel hds
    · cases h

theorem namedTerm_sound (fuel : Nat) (raw : String) :
    Sound (namedTerm nested fuel (withoutModule raw)) fun ts d =>
      SpellsTerm (.name raw :: ts) d := by
  intro s d s' h
  unfold namedTerm at h
  split_ifs at h with hopen hneeds
  · rw [bind_eq_ok_iff] at h
    obtain ⟨⟨e, u⟩, he, h⟩ := h
    dsimp only at h
    split at h
    · rename_i hclose
      cases h
      obtain ⟨ts, hts, hspells⟩ := arguments_sound hnested fuel _ he
      refine ⟨.leftBracket :: ts ++ [Token.rightBracket], ?_,
        .applied (unqualified_withoutModule raw) hspells⟩
      rw [tokens_eq_of_head? ((isAt_iff .leftBracket rfl).mp hopen), hts,
        tokens_eq_of_head? ((isAt_iff .rightBracket rfl).mp hclose)]
      simp
    · cases h
  · cases h
  · cases h
    rw [needsArguments_iff] at hneeds
    exact ⟨[], rfl, .bare (unqualified_withoutModule raw) hneeds (nameMeans_ofName _)⟩

theorem term_sound (fuel : Nat) : Sound (term nested fuel) SpellsTerm := by
  intro s d s' h
  unfold term at h
  rw [peek?_eq] at h
  split at h
  · rename_i hhead
    cases h
    exact ⟨[.ellipsis], tokens_eq_of_head? hhead, .ellipsis⟩
  · rename_i raw hhead
    obtain ⟨ts, hts, hspells⟩ := namedTerm_sound hnested fuel raw h
    refine ⟨.name raw :: ts, ?_, hspells⟩
    rw [tokens_eq_of_head? hhead, hts, List.cons_append]
  all_goals cases h

end Sound

/-- The members of a union after the first, each with a bar before it. -/
inductive SpellsFurther : List Token → List Declaration → Prop
  | nothing : SpellsFurther [] []
  | members {ts ds} : Chained .pipe SpellsTerm ts ds → SpellsFurther (.pipe :: ts) ds

theorem furtherMembers_sound {member : Reader Declaration} (hmember : Sound member SpellsTerm)
    (fuel : Nat) : Sound (furtherMembers member fuel) SpellsFurther := by
  induction fuel with
  | zero => intro s ds s' h; cases h
  | succ fuel ih =>
      intro s ds s' h
      unfold furtherMembers at h
      split at h
      · rename_i hpipe
        simp only [bind_eq_ok_iff] at h
        obtain ⟨⟨d, u⟩, hd, ⟨more, w⟩, hmore, h⟩ := h
        cases h
        obtain ⟨ts, hts, hspells⟩ := hmember hd
        obtain ⟨us, hus, hfurther⟩ := ih hmore
        refine ⟨.pipe :: (ts ++ us), ?_, .members ?_⟩
        · rw [tokens_eq_of_head? ((isAt_iff .pipe rfl).mp hpipe), hts, hus]
          simp
        · cases hfurther with
          | nothing => simpa using Chained.one hspells
          | members hchained => exact .more hspells hchained
      · cases h
        exact ⟨[], rfl, .nothing⟩

theorem unionReader_sound (fuel : Nat) : Sound (unionReader fuel) SpellsUnion := by
  induction fuel with
  | zero => intro s d s' h; cases h
  | succ fuel ih =>
      intro s d s' h
      have hterm := term_sound ih (fuel + 1)
      simp only [unionReader, bind_eq_ok_iff] at h
      obtain ⟨⟨first, u⟩, hfirst, ⟨more, w⟩, hmore, h⟩ := h
      obtain ⟨ts, hts, hspells⟩ := hterm hfirst
      obtain ⟨us, hus, hfurther⟩ := furtherMembers_sound hterm (fuel + 1) hmore
      cases hfurther with
      | nothing =>
          cases h
          exact ⟨ts, by rw [hts, hus, List.nil_append], .single hspells⟩
      | @members us _ hchained =>
          have hmembers : more.isEmpty = false := by cases hchained <;> rfl
          rw [hmembers] at h
          cases h
          refine ⟨ts ++ .pipe :: us, ?_, .several hspells hchained (opened_unionMembers _)⟩
          rw [hts, hus, List.append_assoc]

end Declaration

end Conform

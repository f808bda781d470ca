/-
  Conform.Proofs.Declaration.RoundTrip

  Reading undoes printing. The printed text of a declaration is split into
  tokens piece by piece, and these tokens spell the declaration; so the reader,
  which accepts what the grammar derives, returns it. Not every declaration can
  be read back: a string with other control characters than line ends and tabs
  is printed with escapes that the reader does not know, and a name may be that
  of something else.
-/

import Conform.Declaration.Basic
import Conform.Proofs.Declaration.Completeness
import Conform.Proofs.Declaration.Lexing

namespace Conform

/-! ## What can be read back -/

/-- Literal values that are read back from their text. -/
inductive Value.Writable : Value → Prop
  | none : Writable .none
  | bool (b : Bool) : Writable (.bool b)
  | int (n : Int64) : Writable (.int n)
  | str {s : String} :
      (∀ c ∈ s.toList, Text.isControl c = true → c = '\n' ∨ c = '\r' ∨ c = '\t') →
      Writable (.str s)

namespace Declaration

/-- A text that is read as one name, and not as a name in a module. -/
structure PlainName (n : String) : Prop where
  oneToken : Token.tokenize n = .ok [⟨.name n, 0⟩]
  noModule : ∀ m ∈ modules, ¬ m.toList <+: n.toList

/-- The names with a meaning of their own, containers and standard types apart. -/
def specialNames : List String := ownNames ++ incompleteNames

/-- A name that can only be that of a class. -/
structure Unreserved (n : String) : Prop where
  notSpecial : n ∉ specialNames
  notContainer : ∀ kind, n ∉ Container.names kind
  notStandard : ∀ tag ∈ TypeTag.standard, tag.name ≠ n

/-- Declarations that are read back from their text. -/
inductive Writable : Declaration → Prop
  | none : Writable none
  | any : Writable any
  | sized : Writable sized
  | callable : Writable callable
  | ellipsis : Writable ellipsis
  | concrete {tag : TypeTag} : tag ∈ TypeTag.standard → tag ≠ .noneType → Writable (concrete tag)
  | named {n : String} : PlainName n → Unreserved n → Writable (named n)
  | typeOf {n : String} : PlainName n → Writable (typeOf n)
  | container {kind : Container} {args : List Declaration} : args ≠ [] ∨ kind = .tuple →
      (∀ d ∈ args, Writable d) → Writable (container kind args)
  | union {members : List Declaration} : 2 ≤ members.length →
      (∀ d ∈ members, Writable d) → (∀ d ∈ members, ∀ inner, d ≠ union inner) →
      Writable (union members)
  | literal {values : List Value} : values ≠ [] → (∀ v ∈ values, v.Writable) →
      Writable (literal values)

end Declaration

/-! ## Lists and brackets -/

namespace Token

/-- Characters between two items, read as one token. -/
structure Separates (separator : List Char) (t : Token) : Prop where
  apart : ∀ rest, Apart (separator ++ rest)
  yields : ∀ {rest us}, Yields rest us → Yields (separator ++ rest) (t :: us)

theorem separates_comma : Separates ", ".toList .comma where
  apart rest := Apart.single rfl (' ' :: rest)
  yields h := (h.blank (by decide)).single rfl

theorem separates_pipe : Separates " | ".toList .pipe where
  apart rest := Apart.cons (by decide) ('|' :: ' ' :: rest)
  yields h := ((h.blank (by decide)).single rfl).blank (by decide)

/-- Items that are read one by one are read as a list of them. -/
theorem Separates.chained {separator : List Char} {t : Token} (hseparates : Separates separator t)
    {α : Type} {item : List Token → α → Prop} {chars : α → List Char} {as : List α} (hne : as ≠ [])
    (h : ∀ a ∈ as, ∃ ts, Lexed (chars a) ts ∧ item ts a) :
    ∃ ts, Lexed (separator.intercalate (as.map chars)) ts ∧
      Declaration.Chained t item ts as := by
  induction as with
  | nil => exact absurd rfl hne
  | cons a rest ih =>
      obtain ⟨⟨ts, hlexed, hitem⟩, hrest⟩ := List.forall_mem_cons.mp h
      cases rest with
      | nil => exact ⟨ts, by simpa [List.intercalate] using hlexed, .one hitem⟩
      | cons b more =>
          obtain ⟨us, hmore, hchained⟩ := ih (by simp) hrest
          refine ⟨ts ++ t :: us, ?_, .more hitem hchained⟩
          intro tail vs htail hvs
          have hlater := hseparates.yields (hmore tail vs htail hvs)
          have hall := hlexed _ _ (hseparates.apart _) hlater
          simpa [List.intercalate] using hall

theorem Lexed.parens : Lexed ['(', ')'] [.leftParen, .rightParen] := by
  intro rest us _ hrest
  have hclose : Yields (')' :: rest) (.rightParen :: us) := hrest.single rfl
  exact hclose.single rfl

/-- A name with arguments in brackets. -/
theorem Lexed.bracketed {word : String} {inner : List Char} {ts : List Token}
    (hword : isWord word.toList = true) (h : Lexed inner ts) :
    Lexed (word.toList ++ '[' :: inner ++ [']'])
      (.name word :: .leftBracket :: ts ++ [.rightBracket]) := by
  intro rest us _ hrest
  have hclose : Yields (']' :: rest) (.rightBracket :: us) := hrest.single rfl
  have hinner := h _ _ (Apart.single rfl rest) hclose
  have hopen : Yields ('[' :: (inner ++ ']' :: rest))
      (.leftBracket :: (ts ++ .rightBracket :: us)) := hinner.single rfl
  have hall := Lexed.word hword _ _ (Apart.single rfl _) hopen
  simpa using hall

end Token

/-! ## Literals -/

theorem Value.joinedChars_eq (vs : List Value) :
    Value.joinedChars vs = ", ".toList.intercalate (vs.map Value.chars) := by
  induction vs with
  | nil => rfl
  | cons v rest ih =>
      cases rest with
      | nil => simp [Value.joinedChars, List.intercalate]
      | cons w more =>
          rw [Value.joinedChars, ih]
          · simp [List.intercalate]
          · simp

theorem Value.Writable.spelled {v : Value} (h : v.Writable) :
    ∃ ts, Token.Lexed v.chars ts ∧ Declaration.SpellsLiteral ts v := by
  cases h with
  | none => exact ⟨_, .word (by decide), .none⟩
  | bool b =>
      cases b with
      | true => exact ⟨_, .word (by decide), .true⟩
      | false => exact ⟨_, .word (by decide), .false⟩
  | int n => exact ⟨_, .int n, .int n⟩
  | @str s hs =>
      have hlexed := Token.Lexed.quoted hs
      rw [String.ofList_toList] at hlexed
      exact ⟨_, hlexed, .str s⟩

namespace Declaration

/-! ## Names -/

/-- A name that is not reserved is in none of the grammar's tables. -/
theorem Unreserved.means {n : String} (h : Unreserved n) : NameMeans n (named n) := by
  refine .named (fun hown => h.notSpecial (List.mem_append_left _ hown)) fun htype => ?_
  have hknown : ∀ known ∈ typeNames.map (·.1),
      (∃ kind ∈ [Container.list, .set, .frozenSet, .dict, .tuple], known ∈ kind.names) ∨
        ∃ tag ∈ TypeTag.standard, tag.name = known := by decide +kernel
  rcases hknown n htype with ⟨kind, _, hkind⟩ | ⟨tag, htag, hname⟩
  · exact h.notContainer kind hkind
  · exact h.notStandard tag htag hname

/-! ## Declarations -/

theorem joinedChars_eq (separator : List Char) (ds : List Declaration) :
    joinedChars separator ds = separator.intercalate (ds.map chars) := by
  induction ds with
  | nil => rfl
  | cons d rest ih =>
      cases rest with
      | nil => simp [joinedChars, List.intercalate]
      | cons e more =>
          rw [joinedChars, ih]
          · simp [List.intercalate]
          · simp

/-- Members that are no unions stay as they are. -/
theorem opened_self {members : List Declaration}
    (h : ∀ d ∈ members, ∀ inner, d ≠ union inner) : Opened members members := by
  induction members with
  | nil => exact .nil
  | cons d rest ih =>
      obtain ⟨hd, hrest⟩ := List.forall_mem_cons.mp h
      exact .other hd (ih hrest)

/-- The text of a declaration consists of tokens that spell it. Only a union is
    not spelled as a term. -/
def Spelled (d : Declaration) : Prop :=
  ∃ ts, Token.Lexed d.chars ts ∧ SpellsUnion ts d ∧
    ((∀ members, d ≠ union members) → SpellsTerm ts d)

theorem Spelled.of_term {d : Declaration} {ts : List Token} (hlexed : Token.Lexed d.chars ts)
    (h : SpellsTerm ts d) : Spelled d :=
  ⟨ts, hlexed, .single h, fun _ => h⟩

theorem Spelled.union {d : Declaration} (h : Spelled d) :
    ∃ ts, Token.Lexed d.chars ts ∧ SpellsUnion ts d := by
  obtain ⟨ts, hlexed, hunion, _⟩ := h
  exact ⟨ts, hlexed, hunion⟩

theorem Spelled.term {d : Declaration} (h : Spelled d) (hd : ∀ members, d ≠ .union members) :
    ∃ ts, Token.Lexed d.chars ts ∧ SpellsTerm ts d := by
  obtain ⟨ts, hlexed, _, hterm⟩ := h
  exact ⟨ts, hlexed, hterm hd⟩

/-- A name without arguments. -/
theorem Spelled.of_name {d : Declaration} {n : String} (hchars : d.chars = n.toList)
    (hword : Token.isWord n.toList = true) (hmodule : ∀ m ∈ modules, ¬ m.toList <+: n.toList)
    (harguments : n ∉ incompleteNames) (hd : NameMeans n d) : Spelled d := by
  have hlexed := Token.Lexed.word hword
  rw [String.ofList_toList, ← hchars] at hlexed
  exact .of_term hlexed (.bare (.plain hmodule) harguments hd)

/-- A name with arguments in brackets. -/
theorem Spelled.of_arguments {d : Declaration} {word : String} {inner : List Char}
    {ts : List Token} (hchars : d.chars = word.toList ++ '[' :: inner ++ [']'])
    (hword : Token.isWord word.toList = true)
    (hmodule : ∀ m ∈ modules, ¬ m.toList <+: word.toList)
    (hlexed : Token.Lexed inner ts) (h : SpellsArguments word ts d) : Spelled d := by
  have hall := hlexed.bracketed hword
  rw [← hchars] at hall
  exact .of_term hall (.applied (.plain hmodule) h)

theorem Writable.spelled {d : Declaration} (h : Writable d) : Spelled d := by
  induction h with
  | none => exact .of_name (n := "None") rfl (by decide) (by decide) (by decide) (.none (by decide))
  | any => exact .of_name (n := "Any") rfl (by decide) (by decide) (by decide) (.any (by decide))
  | sized => exact .of_name rfl (by decide) (by decide) (by decide) .sized
  | callable => exact .of_name rfl (by decide) (by decide) (by decide) .callable
  | ellipsis => exact .of_term .ellipsis .ellipsis
  | @concrete tag htag hne =>
      have hname : ∀ tag ∈ TypeTag.standard, tag ≠ .noneType →
          Token.isWord tag.name.toList = true ∧ (∀ m ∈ modules, ¬ m.toList <+: tag.name.toList) ∧
          tag.name ∉ incompleteNames ∧ (tag.name, tag) ∈ typeNames := by decide +kernel
      obtain ⟨hword, hmodule, harguments, htype⟩ := hname tag htag hne
      exact .of_name rfl hword hmodule harguments (.type htype)
  | @named n hname hfree =>
      have harguments : n ∉ incompleteNames :=
        fun hn => hfree.notSpecial (List.mem_append_right ownNames hn)
      exact .of_name rfl (Token.tokenize_eq_name_iff.mp hname.oneToken) hname.noModule harguments
        hfree.means
  | @typeOf n hname =>
      have hlexed := Token.Lexed.word (Token.tokenize_eq_name_iff.mp hname.oneToken)
      rw [String.ofList_toList] at hlexed
      have harguments : SpellsArguments "type" [.name n] (.typeOf n) :=
        .typeOf (by decide) (.plain hname.noModule)
      exact .of_arguments rfl (by decide) (by decide) hlexed harguments
  | @literal values hne hvalues =>
      obtain ⟨ts, hlexed, hchained⟩ := Token.separates_comma.chained hne
        fun v hv => (hvalues v hv).spelled
      rw [← Value.joinedChars_eq] at hlexed
      exact .of_arguments rfl (by decide) (by decide) hlexed (.literal (.plain hchained))
  | @container kind args hargs _ ih =>
      have hkind : Token.isWord kind.name.toList = true ∧
          (∀ m ∈ modules, ¬ m.toList <+: kind.name.toList) ∧ kind.name ∈ kind.names := by
        cases kind <;> decide
      obtain ⟨hword, hmodule, hname⟩ := hkind
      cases args with
      | nil =>
          -- only a tuple is printed without arguments
          have htuple : kind = .tuple := hargs.resolve_left fun hne => hne rfl
          subst htuple
          exact .of_arguments rfl hword hmodule Token.Lexed.parens (.emptyTuple hname)
      | cons d rest =>
          obtain ⟨ts, hlexed, hchained⟩ := Token.separates_comma.chained (List.cons_ne_nil d rest)
            fun e he => (ih e he).union
          rw [← joinedChars_eq] at hlexed
          exact .of_arguments rfl hword hmodule hlexed (.container hname (.plain hchained))
  | @union members hlength _ hmembers ih =>
      have hne : members ≠ [] := List.ne_nil_of_length_pos (by omega)
      obtain ⟨ts, hlexed, hchained⟩ := Token.separates_pipe.chained hne
        fun d hd => (ih d hd).term (hmembers d hd)
      rw [← joinedChars_eq] at hlexed
      have hspells : SpellsUnion ts (.union members) := by
        -- there are two members, so the tokens part at a bar
        cases hchained with
        | one hd => simp at hlength
        | more hd hrest => exact .several hd hrest (opened_self hmembers)
      exact ⟨ts, hlexed, hspells, fun hnot => absurd rfl (hnot members)⟩

/-- Reading undoes printing: the text of a declaration that can be read back is
    read as that declaration. -/
theorem parse_text {d : Declaration} (h : Writable d) : parse d.text = .ok d := by
  obtain ⟨ts, hlexed, hspells, _⟩ := h.spelled
  obtain ⟨tokens, htokens, hts⟩ := hlexed.yields 0
  rw [parse_eq_ok_iff]
  refine ⟨tokens, ?_, by rwa [hts]⟩
  rw [Token.tokenize, text, String.toList_ofList, htokens]

/-- Containers and unions inside each other, a dotted name, and a string with
    both quotes, a backslash and a line end. -/
theorem parse_text_nested :
    let d : Declaration := .container .dict
      [.union [.named "zoo.Käfig_2", .none, .literal [.str "it's \"so\"\n\\", .int Int64.minValue,
          .bool true, .none]],
        .container .tuple [.container .tuple [], .typeOf "None", .concrete .range, .ellipsis]]
    Writable d ∧ parse d.text = .ok d := by
  intro d
  have hname : PlainName "zoo.Käfig_2" := ⟨Token.tokenize_eq_name_iff.mpr (by decide), by decide⟩
  have hfree : Unreserved "zoo.Käfig_2" :=
    ⟨by decide, fun kind => by cases kind <;> decide, by decide⟩
  have hnone : PlainName "None" := ⟨Token.tokenize_eq_name_iff.mpr (by decide), by decide⟩
  have hcontrol :
      "it's \"so\"\n\\".toList.all (fun c => !Text.isControl c || c == '\n') = true := by decide
  have hstr : (Value.str "it's \"so\"\n\\").Writable := by
    refine .str fun c hc hcontrolled => Or.inl ?_
    simpa [hcontrolled] using List.all_eq_true.mp hcontrol c hc
  have hvalues : ∀ v ∈ [Value.str "it's \"so\"\n\\", .int Int64.minValue, .bool true, .none],
      v.Writable := by
    simp only [List.forall_mem_cons]
    exact ⟨hstr, .int _, .bool _, .none, by simp⟩
  have hunion : Writable (.union [.named "zoo.Käfig_2", .none,
      .literal [.str "it's \"so\"\n\\", .int Int64.minValue, .bool true, .none]]) := by
    refine .union (by decide) ?_ (by simp)
    simp only [List.forall_mem_cons]
    exact ⟨.named hname hfree, .none, .literal (by simp) hvalues, by simp⟩
  have htuple : Writable (.container .tuple
      [.container .tuple [], .typeOf "None", .concrete .range, .ellipsis]) := by
    refine .container (Or.inr rfl) ?_
    simp only [List.forall_mem_cons]
    exact ⟨.container (Or.inr rfl) (by simp), .typeOf hnone, .concrete (by decide) (by decide),
      .ellipsis, by simp⟩
  have hd : Writable d := by
    refine .container (Or.inl (by simp)) ?_
    simp only [List.forall_mem_cons]
    exact ⟨hunion, htuple, by simp⟩
  exact ⟨hd, parse_text hd⟩

end Declaration

end Conform

/-
  Conform.Proofs.Declaration.Completeness

  The reader of declarations takes off whatever the grammar derives, so that it
  accepts exactly the grammar. It looks one token ahead and never back: what has
  to be shown is that this one token tells the end of a list, a trailing comma
  and an empty pair of parentheses from the next item, and that its bounds are
  out of reach.
-/

import Conform.Proofs.Declaration.Lexing
import Conform.Proofs.Declaration.Soundness

namespace Conform.Declaration

open TokenStream

/-! ## Complete readers -/

/-- A reader takes off every spelling shorter than a bound that stands before
    something which may follow it. -/
def Complete {α : Type} (read : Reader α) (spells : List Token → α → Prop)
    (follows : List Token → Prop) (bound : Nat) : Prop :=
  ∀ ⦃ts a rest s⦄, spells ts a → ts.length < bound → follows rest → s.tokens = ts ++ rest →
    ∃ s', read s = .ok (a, s') ∧ s'.tokens = rest

/-- What stands before the end of a list of arguments. -/
def Closing (rest : List Token) : Prop := rest.head? = some .rightBracket

/-- What may follow a term: anything but arguments. -/
def EndsTerm (rest : List Token) : Prop := rest.head? ≠ some .leftBracket

/-- What may follow a union: neither arguments nor another member. -/
def EndsUnion (rest : List Token) : Prop := EndsTerm rest ∧ rest.head? ≠ some .pipe

/-- A run of tokens that can be told from the end of a list and from an empty
    pair of parentheses by its first token. -/
def Begins (ts : List Token) : Prop :=
  ∃ t us, ts = t :: us ∧ t ≠ .rightBracket ∧ t ≠ .leftParen

theorem Begins.append {ts us : List Token} (h : Begins ts) : Begins (ts ++ us) := by
  obtain ⟨t, vs, rfl, ht⟩ := h
  exact ⟨t, vs ++ us, rfl, ht⟩

theorem SpellsLiteral.begins {ts : List Token} {v : Value} (h : SpellsLiteral ts v) :
    Begins ts := by
  cases h <;> exact ⟨_, [], rfl, by simp⟩

theorem SpellsTerm.begins {ts : List Token} {d : Declaration} (h : SpellsTerm ts d) :
    Begins ts := by
  cases h <;> exact ⟨_, _, rfl, by simp⟩

theorem SpellsUnion.begins {ts : List Token} {d : Declaration} (h : SpellsUnion ts d) :
    Begins ts := by
  cases h with
  | single hterm => exact hterm.begins
  | several hterm _ _ => exact hterm.begins.append

section Lists

variable {α : Type} {separator : Token} {item : List Token → α → Prop} {ts : List Token}
  {as : List α}

theorem Chained.begins (hitem : ∀ ⦃ts a⦄, item ts a → Begins ts)
    (h : Chained separator item ts as) : Begins ts := by
  cases h with
  | one h => exact hitem h
  | more h _ => exact (hitem h).append

-- each item after the first takes a separator
theorem Chained.length_le (h : Chained separator item ts as) : as.length ≤ ts.length + 1 := by
  induction h with
  | one => simp
  | more _ _ ih =>
      simp only [List.length_cons, List.length_append]
      omega

end Lists

section Separated

variable {α : Type} {item : Reader α} {spells : List Token → α → Prop}
  {follows : List Token → Prop} {bound : Nat}
  (hitem : Complete item spells follows bound) (hcomma : ∀ rest, follows (.comma :: rest))
  (hclose : ∀ rest, follows (.rightBracket :: rest)) (hbegins : ∀ ⦃ts a⦄, spells ts a → Begins ts)

include hitem hcomma hclose hbegins

/-- The list may end in a comma, which is read with its last item. -/
theorem separated_of_chained {ts : List Token} {as : List α} (h : Chained .comma spells ts as)
    {fuel : Nat} {final rest : List Token} {s : TokenStream} (hfuel : as.length ≤ fuel)
    (hlen : ts.length < bound) (hfinal : final = [] ∨ final = [.comma])
    (hs : s.tokens = ts ++ (final ++ .rightBracket :: rest)) :
    ∃ s', separated item fuel s = .ok (as, s') ∧ s'.tokens = .rightBracket :: rest := by
  obtain _ | fuel := fuel
  · cases h <;> simp at hfuel
  induction h generalizing fuel s with
  | one h =>
      rcases hfinal with rfl | rfl
      · obtain ⟨u, hu, hurest⟩ := hitem h hlen (hclose rest) hs
        have hnocomma : u.isAt .comma = false := by
          rw [Bool.eq_false_iff, ne_eq, isAt_iff .comma rfl, hurest]
          simp
        refine ⟨u, ?_, hurest⟩
        simp [separated, hu, hnocomma, bind, Except.bind, pure, Except.pure]
      · obtain ⟨u, hu, hurest⟩ := hitem h hlen (hcomma _) hs
        have hatcomma : u.isAt .comma = true := (isAt_iff .comma rfl).mpr (by rw [hurest]; rfl)
        have hrest := tokens_advance hurest
        have hatclose : u.advance.isAt .rightBracket = true :=
          (isAt_iff .rightBracket rfl).mpr (by rw [hrest]; rfl)
        refine ⟨u.advance, ?_, hrest⟩
        simp [separated, hu, hatcomma, hatclose, bind, Except.bind, pure, Except.pure]
  | @more ts us a as h hmore ih =>
      simp only [List.length_append, List.length_cons] at hlen hfuel
      rw [List.append_assoc, List.cons_append] at hs
      obtain ⟨u, hu, hurest⟩ := hitem h (by omega) (hcomma _) hs
      have hatcomma : u.isAt .comma = true := (isAt_iff .comma rfl).mpr (by rw [hurest]; rfl)
      have hrest := tokens_advance hurest
      -- the next item is not mistaken for the end of the list
      have hopen : u.advance.isAt .rightBracket = false := by
        obtain ⟨t, vs, rfl, ht, _⟩ := hmore.begins hbegins
        rw [Bool.eq_false_iff, ne_eq, isAt_iff .rightBracket rfl, hrest]
        simpa using ht
      obtain _ | fuel := fuel
      · cases hmore <;> simp at hfuel
      obtain ⟨w, hw, hwrest⟩ := ih (by omega) hrest fuel (by omega)
      refine ⟨w, ?_, hwrest⟩
      rw [separated, hu]
      simp [hatcomma, hopen, hw, bind, Except.bind, pure, Except.pure]

theorem separated_complete {fuel : Nat} (hfuel : bound ≤ fuel) :
    Complete (separated item fuel) (Listed spells) Closing bound := by
  intro ts as rest s h hlen hrest hs
  obtain ⟨rest, rfl⟩ := List.head?_eq_some_iff.mp hrest
  cases h with
  | plain h =>
      have hcount := h.length_le
      exact separated_of_chained hitem hcomma hclose hbegins h (by omega) hlen (.inl rfl) hs
  | trailing h =>
      have hcount := h.length_le
      rw [List.length_append] at hlen
      rw [List.append_assoc] at hs
      exact separated_of_chained hitem hcomma hclose hbegins h (by omega) (by omega) (.inr rfl) hs

end Separated

theorem literalItem_complete (bound : Nat) :
    Complete literalItem SpellsLiteral (fun _ => True) bound := by
  intro ts v rest s h _ _ hs
  obtain ⟨t, rfl⟩ : ∃ t, ts = [t] := by cases h <;> exact ⟨_, rfl⟩
  refine ⟨s.advance, ?_, tokens_advance hs⟩
  simp [literalItem, peek?_eq, hs, literalOf?_eq_some_iff.mpr h]

section Brackets

variable {finish depth : Nat} {l : Lexeme} {ls : List Lexeme}

theorem afterBalanced_left (h : l.token = .leftBracket) :
    afterBalanced finish depth (l :: ls) = afterBalanced finish (depth + 1) ls := by
  rw [afterBalanced.eq_def]
  simp [h]

theorem afterBalanced_right (h : l.token = .rightBracket) :
    afterBalanced finish (depth + 1) (l :: ls) = afterBalanced finish depth ls := by
  rw [afterBalanced.eq_def]
  simp [h]

theorem afterBalanced_other (hleft : l.token ≠ .leftBracket) (hright : l.token ≠ .rightBracket) :
    afterBalanced finish depth (l :: ls) = afterBalanced finish depth ls := by
  rw [afterBalanced.eq_def]
  split <;> simp_all

/-- Balanced tokens leave the depth as it was. -/
theorem afterBalanced_of_balanced {ts : List Token} (h : Balanced ts) (finish depth : Nat)
    {ls : List Lexeme} {rest : List Token} (hls : ls.map (·.token) = ts ++ rest) :
    ∃ ls', ls'.map (·.token) = rest ∧
      afterBalanced finish depth ls = afterBalanced finish depth ls' := by
  induction h generalizing depth ls rest with
  | nil => exact ⟨ls, hls, rfl⟩
  | other hleft hright _ ih =>
      obtain ⟨l, ls, rfl, rfl, hrest⟩ := List.map_eq_cons_iff.mp hls
      obtain ⟨ls', hls', hafter⟩ := ih depth hrest
      exact ⟨ls', hls', (afterBalanced_other hleft hright).trans hafter⟩
  | nested _ _ ihinner ihouter =>
      rw [List.append_assoc, List.cons_append] at hls
      obtain ⟨l, ls, rfl, hl, hls⟩ := List.map_eq_cons_iff.mp hls
      obtain ⟨inner, hinner, hafter⟩ := ihinner (depth + 1) hls
      obtain ⟨r, inner, rfl, hr, hinner⟩ := List.map_eq_cons_iff.mp hinner
      obtain ⟨ls', hls', houter⟩ := ihouter depth hinner
      refine ⟨ls', hls', ?_⟩
      rw [afterBalanced_left hl, hafter, afterBalanced_right hr, houter]

end Brackets

/-! ## Completeness of terms and unions -/

theorem Listed.begins {α : Type} {item : List Token → α → Prop} {ts : List Token} {as : List α}
    (hitem : ∀ ⦃ts a⦄, item ts a → Begins ts) (h : Listed item ts as) : Begins ts := by
  cases h with
  | plain h => exact h.begins hitem
  | trailing h => exact (h.begins hitem).append

theorem arguments_of_container {nested : Reader Declaration} {fuel : Nat} {name : String}
    {kind : Container} (h : name ∈ kind.names) (s : TokenStream) :
    arguments nested fuel name s = (do
      let (args, s) ← typeArguments nested fuel kind s
      return (container kind args, s)) := by
  have hothers : ∀ known ∈ kind.names,
      known ∉ ["Literal", "Type", "type", "Optional", "Union", "Callable"] := by
    cases kind <;> decide
  have hother := hothers name h
  simp only [List.mem_cons, List.not_mem_nil, or_false, not_or] at hother
  simp [arguments, hother, Container.ofName?_eq_some_iff.mpr h]

section Complete

variable {nested : Reader Declaration} {bound fuel : Nat}
  (hnested : Complete nested SpellsUnion EndsUnion bound) (hfuel : bound ≤ fuel)

include hnested hfuel

theorem separatedUnions_complete :
    Complete (separated nested fuel) (Listed SpellsUnion) Closing bound := by
  refine separated_complete hnested ?_ ?_ (fun _ _ => SpellsUnion.begins) hfuel
  all_goals
    intro rest
    simp [EndsUnion, EndsTerm]

theorem typeArguments_complete (kind : Container) :
    Complete (typeArguments nested fuel kind) (Listed SpellsUnion) Closing bound := by
  intro ts ds rest s h hlen hrest hs
  have hunion : s.isAt .leftParen = false := by
    obtain ⟨t, us, rfl, _, ht⟩ := h.begins fun _ _ => SpellsUnion.begins
    rw [Bool.eq_false_iff, ne_eq, isAt_iff .leftParen rfl, hs]
    simpa using ht
  simpa [typeArguments, hunion] using separatedUnions_complete hnested hfuel h hlen hrest hs

theorem arguments_complete (name : String) :
    Complete (arguments nested fuel name) (SpellsArguments name) Closing bound := by
  intro ts d rest s h hlen hrest hs
  cases h with
  | literal h =>
      obtain ⟨u, hu, hurest⟩ := separated_complete (literalItem_complete bound)
        (fun _ => trivial) (fun _ => trivial) (fun _ _ => SpellsLiteral.begins) hfuel h hlen hrest
        hs
      refine ⟨u, ?_, hurest⟩
      simp [arguments, hu, bind, Except.bind, pure, Except.pure]
  | typeOf hname hraw =>
      obtain rfl := withoutModule_eq hraw
      refine ⟨s.advance, ?_, tokens_advance hs⟩
      rcases hname with _ | ⟨_, _ | ⟨_, ⟨⟩⟩⟩ <;> simp [arguments, peek?_eq, hs]
  | optional h hopened =>
      obtain rfl := opened_iff.mp hopened
      obtain ⟨u, hu, hurest⟩ := separatedUnions_complete hnested hfuel h hlen hrest hs
      refine ⟨u, ?_, hurest⟩
      simp [arguments, optional, unionOf, hu, bind, Except.bind, pure, Except.pure]
  | union h hopened =>
      obtain rfl := opened_iff.mp hopened
      obtain ⟨u, hu, hurest⟩ := separatedUnions_complete hnested hfuel h hlen hrest hs
      refine ⟨u, ?_, hurest⟩
      simp [arguments, unionOf, hu, bind, Except.bind, pure, Except.pure]
  | callable h =>
      obtain ⟨ls, hls, hafter⟩ := afterBalanced_of_balanced h s.finish 0 hs
      obtain ⟨us, rfl⟩ := List.head?_eq_some_iff.mp hrest
      obtain ⟨l, ls, rfl, hl, _⟩ := List.map_eq_cons_iff.mp hls
      have hstops : afterBalanced s.finish 0 (l :: ls) = .ok (l :: ls) := by
        rw [afterBalanced.eq_def]
        simp [hl]
      refine ⟨{ s with ahead := l :: ls }, ?_, hls⟩
      simp [arguments, hafter, hstops, bind, Except.bind, pure, Except.pure]
  | @container _ kind _ _ hname h =>
      obtain ⟨u, hu, hurest⟩ := typeArguments_complete hnested hfuel kind h hlen hrest hs
      refine ⟨u, ?_, hurest⟩
      simp [arguments_of_container hname, hu, bind, Except.bind, pure, Except.pure]
  | emptyTuple hname =>
      have hadvance := tokens_advance hs
      have hleft : s.isAt .leftParen = true := (isAt_iff .leftParen rfl).mpr (by rw [hs]; rfl)
      have hright : s.advance.isAt .rightParen = true :=
        (isAt_iff .rightParen rfl).mpr (by rw [hadvance]; rfl)
      refine ⟨s.advance.advance, ?_, tokens_advance hadvance⟩
      simp [arguments_of_container hname, typeArguments, hleft, hright, bind, Except.bind, pure,
        Except.pure]

theorem term_complete : Complete (term nested fuel) SpellsTerm EndsTerm (bound + 1) := by
  intro ts d rest s h hlen hrest hs
  cases h with
  | ellipsis =>
      refine ⟨s.advance, ?_, tokens_advance hs⟩
      simp [term, peek?_eq, hs]
  | @bare raw name _ hraw hname hmeans =>
      obtain rfl := withoutModule_eq hraw
      obtain rfl := ofName_eq hmeans
      have hadvance := tokens_advance hs
      have hneeds : needsArguments (withoutModule raw) = false := by
        rwa [Bool.eq_false_iff, ne_eq, needsArguments_iff]
      have hend : s.advance.isAt .leftBracket = false := by
        rw [Bool.eq_false_iff, ne_eq, isAt_iff .leftBracket rfl, hadvance]
        exact hrest
      refine ⟨s.advance, ?_, hadvance⟩
      simp [term, peek?_eq, hs, namedTerm, hend, hneeds]
  | @applied raw _ ts d hraw h =>
      obtain rfl := withoutModule_eq hraw
      have hlen' : ts.length < bound := by
        simp only [List.cons_append, List.length_cons, List.length_append] at hlen
        omega
      rw [List.append_assoc, List.singleton_append, List.cons_append, List.cons_append] at hs
      have hadvance := tokens_advance hs
      have hopen : s.advance.isAt .leftBracket = true :=
        (isAt_iff .leftBracket rfl).mpr (by rw [hadvance]; rfl)
      have hclosing : Closing (.rightBracket :: rest) := rfl
      obtain ⟨u, hu, hurest⟩ :=
        arguments_complete hnested hfuel _ h hlen' hclosing (tokens_advance hadvance)
      have hclose : u.isAt .rightBracket = true :=
        (isAt_iff .rightBracket rfl).mpr (by rw [hurest]; rfl)
      refine ⟨u.advance, ?_, tokens_advance hurest⟩
      simp [term, peek?_eq, hs, namedTerm, hopen, hu, hclose, bind, Except.bind, pure, Except.pure]

end Complete

theorem furtherMembers_nothing {member : Reader Declaration} {fuel : Nat} {s : TokenStream}
    (h : s.tokens.head? ≠ some .pipe) : furtherMembers member (fuel + 1) s = .ok ([], s) := by
  have hend : s.isAt .pipe = false := by rwa [Bool.eq_false_iff, ne_eq, isAt_iff .pipe rfl]
  simp [furtherMembers, hend]

theorem furtherMembers_complete {member : Reader Declaration} {bound : Nat}
    (hmember : Complete member SpellsTerm EndsTerm bound) {ts : List Token}
    {ds : List Declaration} (h : Chained .pipe SpellsTerm ts ds) {rest : List Token}
    {s : TokenStream} (fuel : Nat) (hfuel : ds.length < fuel) (hlen : ts.length < bound)
    (hrest : EndsUnion rest) (hs : s.tokens = .pipe :: ts ++ rest) :
    ∃ s', furtherMembers member fuel s = .ok (ds, s') ∧ s'.tokens = rest := by
  induction h generalizing fuel s with
  | one h =>
      obtain ⟨fuel, rfl⟩ : ∃ n, fuel = n + 2 := ⟨fuel - 2, by simp at hfuel; omega⟩
      have hatpipe : s.isAt .pipe = true := (isAt_iff .pipe rfl).mpr (by rw [hs]; rfl)
      obtain ⟨u, hu, hurest⟩ := hmember h hlen hrest.1 (tokens_advance hs)
      have hend : furtherMembers member (fuel + 1) u = .ok ([], u) :=
        furtherMembers_nothing (by rw [hurest]; exact hrest.2)
      refine ⟨u, ?_, hurest⟩
      rw [furtherMembers]
      simp [hatpipe, hu, hend, bind, Except.bind, pure, Except.pure]
  | @more ts us d ds h _ ih =>
      obtain ⟨fuel, rfl⟩ : ∃ n, fuel = n + 1 := ⟨fuel - 1, by omega⟩
      simp only [List.length_append, List.length_cons] at hlen hfuel
      have hatpipe : s.isAt .pipe = true := (isAt_iff .pipe rfl).mpr (by rw [hs]; rfl)
      rw [List.cons_append, List.append_assoc] at hs
      obtain ⟨u, hu, hurest⟩ := hmember h (by omega) (by simp [EndsTerm]) (tokens_advance hs)
      obtain ⟨w, hw, hwrest⟩ := ih fuel (by omega) (by omega) hurest
      refine ⟨w, ?_, hwrest⟩
      rw [furtherMembers]
      simp [hatpipe, hu, hw, bind, Except.bind, pure, Except.pure]

/-- Each bracket and each member takes a token, so the bound on their number is
    never met before the tokens end. -/
theorem unionReader_complete (fuel : Nat) :
    Complete (unionReader fuel) SpellsUnion EndsUnion fuel := by
  induction fuel with
  | zero => intro ts d rest s _ hlen; cases hlen
  | succ fuel ih =>
      intro ts d rest s h hlen hrest hs
      have hterm := term_complete ih (Nat.le_succ fuel)
      cases h with
      | single h =>
          obtain ⟨u, hu, hurest⟩ := hterm h hlen hrest.1 hs
          have hend : furtherMembers (term (unionReader fuel) (fuel + 1)) (fuel + 1) u
              = .ok ([], u) := furtherMembers_nothing (by rw [hurest]; exact hrest.2)
          refine ⟨u, ?_, hurest⟩
          simp [unionReader, hu, hend, bind, Except.bind, pure, Except.pure]
      | @several ts us d ds es h hmore hopened =>
          obtain rfl := opened_iff.mp hopened
          have hcount := hmore.length_le
          have hmembers : ds.isEmpty = false := by cases hmore <;> rfl
          simp only [List.length_append, List.length_cons] at hlen
          rw [List.append_assoc] at hs
          obtain ⟨u, hu, hurest⟩ := hterm h (by omega) (by simp [EndsTerm]) hs
          obtain ⟨w, hw, hwrest⟩ := furtherMembers_complete hterm hmore (fuel + 1)
            (by omega) (by omega) hrest hurest
          refine ⟨w, ?_, hwrest⟩
          simp [unionReader, unionOf, hu, hw, hmembers, bind, Except.bind, pure, Except.pure]

/-! ## Whole texts -/

theorem ofTokens_eq_ok_iff (tokens : List Lexeme) (finish : Nat) (d : Declaration) :
    ofTokens tokens finish = .ok d ↔ SpellsUnion (tokens.map (·.token)) d := by
  constructor
  · intro h
    rw [ofTokens, bind_eq_ok_iff] at h
    obtain ⟨⟨e, s⟩, he, h⟩ := h
    obtain ⟨ts, hts, hspells⟩ := unionReader_sound _ he
    dsimp only at h
    split at h
    · rename_i hend
      cases h
      have hnothing : s.tokens = [] := by simpa [TokenStream.tokens] using hend
      rw [hnothing, List.append_nil] at hts
      subst hts
      exact hspells
    · cases h
  · intro h
    have hlen : (tokens.map (·.token)).length < tokens.length + 1 := by simp
    have hend : EndsUnion [] := by simp [EndsUnion, EndsTerm]
    obtain ⟨s, hs, hnothing⟩ := @unionReader_complete _ _ _ [] ⟨tokens, finish⟩ h hlen hend
      (List.append_nil _).symm
    have hempty : s.ahead.isEmpty = true := by simpa [TokenStream.tokens] using hnothing
    simp [ofTokens, hs, hempty, bind, Except.bind, pure, Except.pure]

theorem parse_eq_ok_iff (text : String) (d : Declaration) :
    parse text = .ok d ↔
      ∃ tokens, Token.tokenize text = .ok tokens ∧ SpellsUnion (tokens.map (·.token)) d := by
  simp only [parse, bind_eq_ok_iff, ofTokens_eq_ok_iff]

/-- A run of tokens spells at most one declaration, as a reader returns one. -/
theorem SpellsUnion.unique {ts : List Token} {d e : Declaration} (hd : SpellsUnion ts d)
    (he : SpellsUnion ts e) : d = e := by
  have hlexemes : (ts.map fun t => Lexeme.mk t 0).map (·.token) = ts := by
    rw [List.map_map]
    exact List.map_id ts
  rw [← hlexemes] at hd he
  have hread := (ofTokens_eq_ok_iff _ 0 d).mpr hd
  rw [(ofTokens_eq_ok_iff _ 0 e).mpr he] at hread
  cases hread
  rfl

/-- Reading a declaration succeeds on exactly the runs of tokens that the
    grammar derives and returns the one declaration they spell; a text is read
    by way of its tokens. -/
theorem reads_exactly_grammar :
    (∀ (tokens : List Lexeme) (finish : Nat) (d : Declaration),
      ofTokens tokens finish = .ok d ↔ SpellsUnion (tokens.map (·.token)) d) ∧
    (∀ (text : String) (d : Declaration), parse text = .ok d ↔
      ∃ tokens, Token.tokenize text = .ok tokens ∧ SpellsUnion (tokens.map (·.token)) d) ∧
    (∀ (ts : List Token) (d e : Declaration), SpellsUnion ts d → SpellsUnion ts e → d = e) :=
  ⟨ofTokens_eq_ok_iff, parse_eq_ok_iff, fun _ _ _ => SpellsUnion.unique⟩

/-- A module in front of a name, and a union as the first member of another. -/
theorem reads_exactly_grammar_optional :
    parse "typing.Optional[int] | list[str]" =
      .ok (union [concrete .int, none, container .list [concrete .str]]) := by
  have htokens : Token.Yields "typing.Optional[int] | list[str]".toList
      [.name "typing.Optional", .leftBracket, .name "int", .rightBracket, .pipe,
        .name "list", .leftBracket, .name "str", .rightBracket] := by
    refine .token (by decide) rfl (.single rfl (.token (by decide) rfl (.single rfl ?_)))
    refine .blank (by decide) (.single rfl (.blank (by decide) ?_))
    exact .token (by decide) rfl (.single rfl (.token (by decide) rfl (.single rfl .nil)))
  have hint : SpellsTerm [.name "int"] (concrete .int) :=
    .bare (.plain (by decide)) (by decide) (.type (by decide))
  have hstr : SpellsTerm [.name "str"] (concrete .str) :=
    .bare (.plain (by decide)) (by decide) (.type (by decide))
  have hdropped : Unqualified "typing.Optional" "Optional" := by
    rw [show "typing.Optional" = "typing." ++ "Optional" by decide]
    exact .qualified (by decide)
  have hoptional : SpellsTerm [.name "typing.Optional", .leftBracket, .name "int", .rightBracket]
      (union [concrete .int, none]) :=
    .applied hdropped
      (.optional (.plain (.one (.single hint))) (.other nofun (.other nofun .nil)))
  have hlist : SpellsTerm [.name "list", .leftBracket, .name "str", .rightBracket]
      (container .list [concrete .str]) :=
    .applied (.plain (by decide)) (.container (by decide) (.plain (.one (.single hstr))))
  obtain ⟨ls, hls, hts⟩ := htokens 0
  refine (reads_exactly_grammar.2.1 _ _).mpr ⟨ls, hls, ?_⟩
  rw [hts]
  exact .several hoptional (.one hlist) (.union (.other nofun .nil))

end Conform.Declaration

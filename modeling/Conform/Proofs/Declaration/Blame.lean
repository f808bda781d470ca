/-
  Conform.Proofs.Declaration.Blame

  Where the reader of declarations reports an error, next to the token that the
  recogniser refuses. The readers are followed one by one: each settles some
  dues of the recogniser or else fails, and where it fails the tokens up to
  there are the ones that its cause allows for (`Delay`).

  One error cannot be placed so. The reader counts the arguments of `Optional`
  only when it has read them all, so from a second one on (`Surplus`) it goes
  on, and may fail for any cause. What is shown of readers is therefore shown
  of any account of the tokens read (`Tracking`), and used with two of them:
  that of the recogniser (`At`), and that of a refusal in the past (`Past`).
-/

import Conform.Proofs.Declaration.Completeness
import Conform.Proofs.Declaration.Recogniser

namespace Conform.Declaration

open TokenStream

/-! ## Delays -/

/-- The tokens between the first malformed token, which is one of them, and the
    place where an error with this cause is reported. -/
inductive Delay (atEnd : Prop) : String → List Token → Prop
  | punctuation {cause : String}
      (h : cause ∈ ["expected `]`", "expected `)`", "unexpected trailing input"]) :
      Delay atEnd cause []
  | bare {name : String} (h : name ∈ ["Optional", "Union", "Literal", "Type"]) :
      Delay atEnd ("`" ++ name ++ "` requires type arguments") []
  | unfinished {cause : String} (h : atEnd)
      (hcause : cause ∈ ["expected a type", "expected a literal value",
        "expected a class name inside `Type[...]`"]) : Delay atEnd cause []
  -- the other causes are reported after the token has been read
  | type {t : Token}
      (h : t ∈ [.leftBracket, .rightBracket, .leftParen, .rightParen, .comma, .pipe]) :
      Delay atEnd "expected a type" [t]
  | strayLiteral {t : Token} {v : Value} (h : literalOf? t = some v) (hname : ∀ s, t ≠ .name s) :
      Delay atEnd "literal values are only allowed inside `Literal[...]`" [t]
  | literal {t : Token} (h : literalOf? t = Option.none) :
      Delay atEnd "expected a literal value" [t]
  | className {t : Token} (h : ∀ s, t ≠ .name s) :
      Delay atEnd "expected a class name inside `Type[...]`" [t]
  | arguments {name : String} (h : name ≠ "Annotated") :
      Delay atEnd ("`" ++ name ++ "` is not subscriptable") [.leftBracket]
  | annotated {raw : String} (h : withoutModule raw = "Annotated") :
      Delay atEnd "`Annotated` requires type arguments" [.name raw]
  | annotatedArguments {raw : String} (h : withoutModule raw = "Annotated") :
      Delay atEnd "`Annotated` is not subscriptable" [.name raw, .leftBracket]

theorem Delay.imp {p q : Prop} (hpq : p → q) {cause : String} {ts : List Token}
    (h : Delay p cause ts) : Delay q cause ts := by
  cases h with
  | punctuation h => exact .punctuation h
  | bare h => exact .bare h
  | unfinished h hcause => exact .unfinished (hpq h) hcause
  | type h => exact .type h
  | strayLiteral h hname => exact .strayLiteral h hname
  | literal h => exact .literal h
  | className h => exact .className h
  | arguments h => exact .arguments h
  | annotated h => exact .annotated h
  | annotatedArguments h => exact .annotatedArguments h

/-- Tokens up to the comma after the first argument of an `Optional`. -/
def Surplus (ts : List Token) : Prop :=
  ∃ pre raw arg d, ts = pre ++ .name raw :: .leftBracket :: (arg ++ [.comma]) ∧
    withoutModule raw = "Optional" ∧ SpellsUnion arg d

namespace TokenStream

/-- The stream after some tokens. -/
def drop (n : Nat) (s : TokenStream) : TokenStream := { s with ahead := s.ahead.drop n }

theorem advance_eq_drop (s : TokenStream) : s.advance = s.drop 1 := by
  rw [advance, drop, List.drop_one]

theorem advance_advance_eq_drop (s : TokenStream) : s.advance.advance = s.drop 2 := by
  rw [advance_eq_drop, advance_eq_drop, drop, drop, drop, List.drop_drop]

theorem length_tokens (s : TokenStream) : s.tokens.length = s.ahead.length :=
  List.length_map _

end TokenStream

/-! ## Accounts of the tokens read -/

section Accounts

variable (ls : List Lexeme) (finish : Nat)

/-- The place of an error is explained: the recogniser goes through the tokens
    up to a first malformed one, or to the end, and between it and the place of
    the error stand no more tokens than the cause allows for, unless an
    `Optional` has a second argument. -/
def Explained (e : TextError) : Prop :=
  ∃ before late rest stack, ls = before ++ (late ++ rest) ∧
    run start (before.map (·.token)) = some stack ∧
    consume stack ((late ++ rest).head?.map (·.token)) = Option.none ∧
    e.offset = TokenStream.offset ⟨rest, finish⟩ ∧
    (Delay (rest = []) e.cause (late.map (·.token)) ∨ Surplus (before.map (·.token)))

/-- The tokens read leave these dues, as far as the next token can tell. -/
def At (s : TokenStream) (dues : List Due) : Prop :=
  ∃ before stack, ls = before ++ s.ahead ∧ s.finish = finish ∧
    run start (before.map (·.token)) = some stack ∧
    consume stack s.peek? = consume dues s.peek?

/-- A second argument of an `Optional` has begun. -/
def Past (s : TokenStream) : Prop :=
  ∃ before late stack, ls = before ++ (late ++ s.ahead) ∧ s.finish = finish ∧
    run start (before.map (·.token)) = some stack ∧
    consume stack ((late ++ s.ahead).head?.map (·.token)) = Option.none ∧
    Surplus (before.map (·.token))

/-- What an account of the tokens read has to provide. -/
structure Tracking (account : TokenStream → List Due → Prop) : Prop where
  within {s : TokenStream} {dues : List Due} : account s dues →
    ∃ pre, ls.map (·.token) = pre ++ s.tokens
  congr {s : TokenStream} {dues dues' : List Due} : account s dues →
    consume dues s.peek? = consume dues' s.peek? → account s dues'
  shift {s : TokenStream} {t : Token} {dues dues' : List Due} : account s dues →
    s.peek? = some t → consume dues (some t) = some dues' → account s.advance dues'
  fault {s : TokenStream} {n : Nat} {cause : String} {dues : List Due} : account s dues →
    consume dues s.peek? = Option.none →
    Delay ((s.drop n).ahead = []) cause (s.tokens.take n) →
    Explained ls finish ⟨(s.drop n).offset, cause⟩
  surplus {s : TokenStream} {dues : List Due} {pre arg : List Token} {raw : String}
    {d : Declaration} : account s (.close :: dues) → s.peek? ≠ some .rightBracket →
    ls.map (·.token) = pre ++ .name raw :: .leftBracket :: (arg ++ .comma :: s.tokens) →
    withoutModule raw = "Optional" → SpellsUnion arg d → Past ls finish s

variable {ls finish}

theorem peek?_eq_some_iff {s : TokenStream} {t : Token} :
    s.peek? = some t ↔ ∃ l rest, s.ahead = l :: rest ∧ l.token = t := by
  rw [peek?, Option.map_eq_some_iff]
  constructor
  · rintro ⟨l, hl, ht⟩
    obtain ⟨rest, hrest⟩ := List.head?_eq_some_iff.mp hl
    exact ⟨l, rest, hrest, ht⟩
  · rintro ⟨l, rest, hahead, ht⟩
    exact ⟨l, by rw [hahead, List.head?_cons], ht⟩

theorem tracking_at : Tracking ls finish (At ls finish) where
  within := by
    rintro s dues ⟨before, stack, hls, _⟩
    exact ⟨before.map (·.token), by rw [hls, List.map_append, TokenStream.tokens]⟩
  congr := by
    rintro s dues dues' ⟨before, stack, hls, hfinish, hrun, hnext⟩ h
    exact ⟨before, stack, hls, hfinish, hrun, hnext.trans h⟩
  shift := by
    rintro s t dues dues' ⟨before, stack, hls, hfinish, hrun, hnext⟩ ht h
    obtain ⟨l, rest, hahead, rfl⟩ := peek?_eq_some_iff.mp ht
    have hadvance : s.advance.ahead = rest := by rw [TokenStream.advance, hahead, List.tail_cons]
    refine ⟨before ++ [l], dues', ?_, hfinish, ?_, rfl⟩
    · rw [hls, hadvance, hahead, List.append_assoc, List.singleton_append]
    · rw [List.map_append, List.map_singleton, run_snoc hrun, ← h, ← ht, hnext]
  fault := by
    rintro s n cause dues ⟨before, stack, hls, hfinish, hrun, hnext⟩ h hdelay
    refine ⟨before, s.ahead.take n, s.ahead.drop n, stack, ?_, hrun, ?_, ?_, .inl ?_⟩
    · rw [List.take_append_drop, hls]
    · rw [List.take_append_drop, ← peek?, hnext, h]
    · rw [← hfinish]
      rfl
    · rw [List.map_take]
      exact hdelay
  surplus := by
    rintro s dues pre arg raw d ⟨before, stack, hls, hfinish, hrun, hnext⟩ hpeek htokens hraw hd
    have hrefuse : consume (.close :: dues) s.peek? = Option.none :=
      consume_of_refuse (Due.move_of_ne rfl hpeek)
    refine ⟨before, [], stack, hls, hfinish, hrun, hnext.trans hrefuse, pre, raw, arg, d, ?_,
      hraw, hd⟩
    have happend : before.map (·.token) ++ s.tokens =
        (pre ++ .name raw :: .leftBracket :: (arg ++ [.comma])) ++ s.tokens := by
      rw [TokenStream.tokens, ← List.map_append, ← hls, htokens]
      simp [TokenStream.tokens]
    exact List.append_cancel_right happend

theorem Past.advance {s : TokenStream} (h : Past ls finish s) : Past ls finish s.advance := by
  obtain ⟨before, late, stack, hls, hfinish, hrun, hnext, hsurplus⟩ := h
  refine ⟨before, late ++ s.ahead.take 1, stack, ?_, hfinish, hrun, ?_, hsurplus⟩
  · rw [advance_eq_drop, TokenStream.drop, List.append_assoc, List.take_append_drop, hls]
  · rw [advance_eq_drop, TokenStream.drop, List.append_assoc, List.take_append_drop, hnext]

/-- After a second argument of an `Optional` any error is explained. -/
theorem Past.explained {s : TokenStream} (h : Past ls finish s) (n : Nat) (cause : String) :
    Explained ls finish ⟨(s.drop n).offset, cause⟩ := by
  obtain ⟨before, late, stack, hls, hfinish, hrun, hnext, hsurplus⟩ := h
  refine ⟨before, late ++ s.ahead.take n, s.ahead.drop n, stack, ?_, hrun, ?_, ?_, .inr hsurplus⟩
  · rw [List.append_assoc, List.take_append_drop, hls]
  · rw [List.append_assoc, List.take_append_drop, hnext]
  · rw [← hfinish]
    rfl

theorem tracking_past : Tracking ls finish fun s _ => Past ls finish s where
  within := by
    rintro s dues ⟨before, late, stack, hls, _⟩
    refine ⟨(before ++ late).map (·.token), ?_⟩
    rw [hls, ← List.append_assoc, List.map_append, TokenStream.tokens]
  congr h _ := h
  shift h _ _ := h.advance
  fault h _ _ := h.explained _ _
  surplus h _ _ _ _ := h

end Accounts

/-! ## Readers that settle dues -/

section Readers

variable {ls : List Lexeme} {finish : Nat} {account : TokenStream → List Due → Prop}

/-- What comes of reading: the dues that remain, or an explained error. -/
def Leads (ls : List Lexeme) (finish : Nat) (account : TokenStream → List Due → Prop)
    (dues : List Due) {α : Type} : Except TextError (α × TokenStream) → Prop
  | .ok (_, s) => account s dues
  | .error e => Explained ls finish e

/-- A reader settles these dues, on streams shorter than a bound. -/
def Settles (ls : List Lexeme) (finish : Nat) {α : Type} (read : Reader α) (dues : List Due)
    (bound : Nat) : Prop :=
  ∀ ⦃account⦄, Tracking ls finish account → ∀ ⦃s rest⦄, s.ahead.length < bound →
    account s (dues ++ rest) → Leads ls finish account rest (read s)

theorem Leads.bind {α β : Type} {dues dues' : List Due} {x : Except TextError (α × TokenStream)}
    {f : α × TokenStream → Except TextError (β × TokenStream)}
    (hx : Leads ls finish account dues x)
    (hf : ∀ a s, x = .ok (a, s) → account s dues → Leads ls finish account dues' (f (a, s))) :
    Leads ls finish account dues' (x >>= f) := by
  cases x with
  | error e => exact hx
  | ok read => exact hf read.1 read.2 rfl hx

theorem Sound.length_le {α : Type} {read : Reader α} {spells : List Token → α → Prop}
    (h : Sound read spells) {s s' : TokenStream} {a : α} (hread : read s = .ok (a, s')) :
    s'.ahead.length ≤ s.ahead.length := by
  obtain ⟨ts, hts, _⟩ := h hread
  have hlength := congrArg List.length hts
  rw [List.length_append, length_tokens, length_tokens] at hlength
  omega

theorem length_advance_lt {s : TokenStream} {t : Token} (h : s.peek? = some t) :
    s.advance.ahead.length < s.ahead.length := by
  obtain ⟨l, rest, hahead, _⟩ := peek?_eq_some_iff.mp h
  have hadvance : s.advance.ahead = rest := by rw [TokenStream.advance, hahead, List.tail_cons]
  rw [hadvance, hahead, List.length_cons]
  omega

namespace Tracking

variable (h : Tracking ls finish account) {s : TokenStream} {due : Due} {dues dues' : List Due}

include h

/-- A due that the next token leaves aside. -/
theorem skip (hs : account s (due :: dues)) (hskip : due.move s.peek? = .skip) : account s dues :=
  h.congr hs (consume_of_skip hskip)

theorem take {t : Token} (hs : account s (due :: dues)) (ht : s.peek? = some t)
    (hshift : due.move (some t) = .shift dues') : account s.advance (dues' ++ dues) :=
  h.shift hs ht (consume_of_shift hshift)

/-- An error at the token that is refused. -/
theorem timely {cause : String} (hs : account s (due :: dues))
    (hrefuse : due.move s.peek? = .refuse) (hdelay : Delay (s.ahead = []) cause []) :
    Explained ls finish ⟨s.offset, cause⟩ :=
  h.fault (n := 0) hs (consume_of_refuse hrefuse) hdelay

/-- An error after the token that is refused. -/
theorem behind {t : Token} {cause : String} (hs : account s (due :: dues)) (ht : s.peek? = some t)
    (hrefuse : due.move (some t) = .refuse) (hdelay : Delay ((s.drop 1).ahead = []) cause [t]) :
    Explained ls finish ⟨s.advance.offset, cause⟩ := by
  rw [← ht] at hrefuse
  have htokens : s.tokens = t :: s.advance.tokens := tokens_eq_of_head? (by rw [← peek?_eq, ht])
  rw [advance_eq_drop]
  refine h.fault hs (consume_of_refuse hrefuse) ?_
  rw [htokens]
  exact hdelay

/-- An error after the token that is refused, or at the end. -/
theorem late {cause : String} (hs : account s (due :: dues)) (hrefuse : due.move s.peek? = .refuse)
    (hend : cause ∈ ["expected a type", "expected a literal value",
      "expected a class name inside `Type[...]`"])
    (htoken : ∀ t, s.peek? = some t → Delay ((s.drop 1).ahead = []) cause [t]) :
    Explained ls finish ⟨s.advance.offset, cause⟩ := by
  cases hpeek : s.peek? with
  | some t =>
      rw [hpeek] at hrefuse
      exact h.behind hs hpeek hrefuse (htoken t hpeek)
  | none =>
      have hnothing : s.ahead = [] := by simpa [peek?] using hpeek
      have hstays : s.advance = s := by
        rw [TokenStream.advance, hnothing, List.tail_nil, ← hnothing]
      rw [hstays]
      exact h.timely hs hrefuse (.unfinished hnothing hend)

end Tracking

/-! ## Lists -/

/-- What follows a term does not matter to its first token. -/
theorem termMove_cases (next : Option Token) :
    (∃ dues, ∀ after, termMove after next = .shift (dues ++ after)) ∨
      ∀ after, termMove after next = .refuse := by
  unfold termMove
  split
  · exact .inl ⟨[], fun _ => rfl⟩
  · split_ifs with hname
    · exact .inr fun _ => rfl
    · exact .inl ⟨[.suffix _], fun _ => rfl⟩
  · exact .inr fun _ => rfl

/-- A due that begins like an item stands for it and what follows it. -/
theorem consume_of_item {due : Due} {item : Item} {after : List Due} {next : Option Token}
    (h : due.move next = item.move after next) (rest : List Due) :
    consume (due :: rest) next = consume (item.dues ++ (after ++ rest)) next := by
  cases item with
  | union =>
      have hitem : Item.union.dues ++ (after ++ rest) = .term :: .members :: (after ++ rest) := rfl
      rw [hitem]
      rcases termMove_cases next with ⟨dues, hmove⟩ | hmove
      · have hdue : due.move next = .shift (dues ++ .members :: after) := h.trans (hmove _)
        have hterm : Due.term.move next = .shift (dues ++ []) := hmove []
        rw [consume_of_shift hdue, consume_of_shift hterm]
        simp
      · have hdue : due.move next = .refuse := h.trans (hmove _)
        have hterm : Due.term.move next = .refuse := hmove []
        rw [consume_of_refuse hdue, consume_of_refuse hterm]
  | literal =>
      have hitem : Item.literal.dues ++ (after ++ rest) = .literal :: (after ++ rest) := rfl
      rw [hitem, consume, consume, h]
      simp only [Item.move, Due.move, literalMove]
      split_ifs <;> rfl

section Lists

variable {α : Type} {item : Reader α} (kind : Item) {bound : Nat}
  (hitem : Settles ls finish item kind.dues bound)
  (hlength : ∀ ⦃s a s'⦄, item s = .ok (a, s') → s'.ahead.length ≤ s.ahead.length)

include hitem hlength

theorem separated_leads (h : Tracking ls finish account) {fuel : Nat} {s : TokenStream}
    {rest : List Due} (hs : s.ahead.length < bound) (hfuel : s.ahead.length < fuel)
    (hdues : account s (kind.dues ++ .further kind :: rest)) :
    Leads ls finish account rest (separated item fuel s) := by
  induction fuel generalizing s with
  | zero => cases hfuel
  | succ fuel ih =>
      rw [separated]
      refine (hitem h hs hdues).bind fun a s' hread hfurther => ?_
      have hshorter := hlength hread
      dsimp only
      split
      · rename_i hcomma
        rw [isAt_iff .comma rfl, ← peek?_eq] at hcomma
        have hanother := h.take hfurther hcomma rfl
        have hadvance := length_advance_lt hcomma
        split
        · rename_i hclose
          rw [isAt_iff .rightBracket rfl, ← peek?_eq] at hclose
          exact h.skip hanother (by rw [hclose]; rfl)
        · rename_i hclose
          rw [isAt_iff .rightBracket rfl, ← peek?_eq] at hclose
          -- no bracket closes the list, so the comma makes another item due
          have hnext := h.congr hanother (consume_of_item (Due.move_of_ne rfl hclose) rest)
          refine (ih (by omega) (by omega) hnext).bind fun as s'' _ hrest => ?_
          exact hrest
      · rename_i hcomma
        rw [isAt_iff .comma rfl, ← peek?_eq] at hcomma
        exact h.skip hfurther (Due.move_of_ne rfl hcomma)

end Lists

theorem literalItem_settles (bound : Nat) :
    Settles ls finish literalItem Item.literal.dues bound := by
  intro account h s rest _ hdues
  unfold literalItem
  split
  · rename_i v hv
    obtain ⟨t, ht, hliteral⟩ := Option.bind_eq_some_iff.mp hv
    have hmove : Due.literal.move (some t) = .shift [] := by
      simp [Due.move, literalMove, hliteral]
    have hliterals : account s (.literal :: rest) := hdues
    exact h.take hliterals ht hmove
  · rename_i hv
    refine h.late hdues ?_ (by simp) fun t ht => .literal ?_
    · simp [Due.move, literalMove, hv]
    · simpa [ht] using hv

/-! ## Balanced brackets -/

theorem afterBalanced_settles (h : Tracking ls finish account) {α : Type} (a : α) {depth : Nat}
    {s : TokenStream} {rest : List Due} (hs : account s (.balanced depth :: .close :: rest)) :
    Leads ls finish account (.close :: rest) (do
      let ahead ← afterBalanced s.finish depth s.ahead
      return (a, { s with ahead })) := by
  obtain ⟨ahead, last⟩ := s
  dsimp only
  fun_induction afterBalanced last depth ahead with
  | case1 depth =>
      have hclose := h.skip hs rfl
      exact h.timely hclose rfl (.punctuation (by simp))
  | case2 l more hright =>
      have hpeek : peek? ⟨l :: more, last⟩ = some .rightBracket := congrArg some hright
      exact h.skip hs (by rw [hpeek]; rfl)
  | case3 l more hright depth ih =>
      have hpeek : peek? ⟨l :: more, last⟩ = some .rightBracket := congrArg some hright
      exact ih (h.take hs hpeek rfl)
  | case4 depth l more hleft ih =>
      have hpeek : peek? ⟨l :: more, last⟩ = some .leftBracket := congrArg some hleft
      exact ih (h.take hs hpeek rfl)
  | case5 depth l more hright hleft ih =>
      exact ih (h.take hs rfl (Due.balanced_move_of_ne depth hleft hright))

/-! ## Terms and unions -/

theorem arguments_of_none {nested : Reader Declaration} {fuel : Nat} {name : String}
    (h : argumentsDue? name = Option.none) (s : TokenStream) :
    arguments nested fuel name s = s.error ("`" ++ name ++ "` is not subscriptable") := by
  unfold argumentsDue? at h
  unfold arguments
  split_ifs at h ⊢
  split at h
  · cases h
  · cases h
  · rename_i hname
    rw [hname]

theorem Listed.ne_nil {α : Type} {item : List Token → α → Prop} {ts : List Token} {as : List α}
    (h : Listed item ts as) : as ≠ [] := by
  rcases h with h | h <;> cases h <;> simp

section Terms

variable {nested : Reader Declaration} {bound fuel : Nat}
  (hnested : Settles ls finish nested Item.union.dues bound) (hsound : Sound nested SpellsUnion)
  (hfuel : bound ≤ fuel) (h : Tracking ls finish account) {s : TokenStream} {rest : List Due}
  (hs : s.ahead.length < bound)

include hnested hsound hfuel h hs

theorem separatedUnions_leads (hdues : account s (.term :: .members :: .further .union :: rest)) :
    Leads ls finish account rest (separated nested fuel s) :=
  separated_leads .union hnested (fun _ _ _ => hsound.length_le) h hs (by omega) hdues

theorem tupleArguments_leads (hdues : account s (.tupleArguments :: rest)) :
    Leads ls finish account rest (typeArguments nested fuel .tuple s) := by
  unfold typeArguments
  rw [beq_self_eq_true, Bool.true_and]
  split
  · rename_i hleft
    rw [isAt_iff .leftParen rfl, ← peek?_eq] at hleft
    have hparen := h.take hdues hleft rfl
    dsimp only
    split
    · rename_i hright
      rw [isAt_iff .rightParen rfl, ← peek?_eq] at hright
      exact h.take hparen hright rfl
    · rename_i hright
      rw [isAt_iff .rightParen rfl, ← peek?_eq] at hright
      exact h.timely hparen (Due.move_of_ne rfl hright) (.punctuation (by simp))
  · rename_i hleft
    rw [isAt_iff .leftParen rfl, ← peek?_eq] at hleft
    have hmove : Due.tupleArguments.move s.peek? = Item.union.move [.further .union] s.peek? :=
      Due.move_of_ne rfl hleft
    have hitems := h.congr hdues (consume_of_item hmove rest)
    exact separatedUnions_leads hnested hsound hfuel h hs hitems

omit hfuel h hs in
/-- With a second argument `Optional` fails, whatever that argument is. -/
theorem surplus_leads {dues : List Due} {d : Declaration} (hpast : Past ls finish s)
    (hs : s.ahead.length < bound) (hfuel : s.ahead.length < fuel) :
    Leads ls finish account dues (do
      let (args, s) ← (do
        let (more, s) ← separated nested fuel s
        return (d :: more, s))
      match args with
      | [d] => return (optional d, s)
      | _ => s.error "`Optional` takes exactly one type argument") := by
  -- the dues no longer matter, only that the refused token lies behind
  have hlist : Leads ls finish (fun s _ => Past ls finish s) [] (separated nested fuel s) :=
    separated_leads .union hnested (fun _ _ _ => hsound.length_le) tracking_past hs hfuel hpast
  cases hmore : separated nested fuel s with
  | error e =>
      rw [hmore] at hlist
      exact hlist
  | ok read =>
      obtain ⟨more, s'⟩ := read
      rw [hmore] at hlist
      obtain ⟨_, _, hlisted⟩ := separated_sound hsound fuel hmore
      obtain ⟨e, es, rfl⟩ := List.exists_cons_of_ne_nil hlisted.ne_nil
      exact Past.explained hlist 0 _

/-- The arguments of `Optional` are counted when all of them have been read. -/
theorem optional_leads {pre : List Token} {raw : String}
    (hdues : account s (.term :: .members :: .finalComma :: .close :: rest))
    (hbefore : ls.map (·.token) = pre ++ .name raw :: .leftBracket :: s.tokens)
    (hraw : withoutModule raw = "Optional") :
    Leads ls finish account (.close :: rest) (do
      let (args, s) ← separated nested fuel s
      match args with
      | [d] => return (optional d, s)
      | _ => s.error "`Optional` takes exactly one type argument") := by
  obtain ⟨fuel, rfl⟩ : ∃ n, fuel = n + 1 := ⟨fuel - 1, by omega⟩
  have hfirst := hnested h hs hdues
  cases hread : nested s with
  | error e =>
      rw [hread] at hfirst
      rw [separated, hread]
      exact hfirst
  | ok read =>
      obtain ⟨d, s'⟩ := read
      rw [hread] at hfirst
      have hcomma : account s' (.finalComma :: .close :: rest) := hfirst
      -- a first argument by itself, with a comma after it, or with a second one
      cases hatcomma : s'.isAt .comma with
      | false =>
          have hone : separated nested (fuel + 1) s = .ok ([d], s') := by
            simp [separated, hread, hatcomma, bind, Except.bind, pure, Except.pure]
          rw [Bool.eq_false_iff, ne_eq, isAt_iff .comma rfl, ← peek?_eq] at hatcomma
          rw [hone]
          exact h.skip hcomma (Due.move_of_ne rfl hatcomma)
      | true =>
          have hpeek := hatcomma
          rw [isAt_iff .comma rfl, ← peek?_eq] at hpeek
          have hclose := h.take hcomma hpeek rfl
          cases hatclose : s'.advance.isAt .rightBracket with
          | true =>
              have hone : separated nested (fuel + 1) s = .ok ([d], s'.advance) := by
                simp [separated, hread, hatcomma, hatclose, bind, Except.bind, pure, Except.pure]
              rw [hone]
              exact hclose
          | false =>
              have hmore : separated nested (fuel + 1) s = (do
                  let (more, u) ← separated nested fuel s'.advance
                  return (d :: more, u)) := by
                simp [separated, hread, hatcomma, hatclose, bind, Except.bind]
              rw [Bool.eq_false_iff, ne_eq, isAt_iff .rightBracket rfl, ← peek?_eq] at hatclose
              obtain ⟨arg, harg, hd⟩ := hsound hread
              rw [harg, tokens_eq_of_head? ((isAt_iff .comma rfl).mp hatcomma)] at hbefore
              have hpast := h.surplus hclose hatclose hbefore hraw hd
              have hshorter := hsound.length_le hread
              have hadvance := length_advance_lt hpeek
              rw [hmore]
              exact surplus_leads hnested hsound hpast (by omega) (by omega)

theorem arguments_leads {dues : List Due} {pre : List Token} {raw : String}
    (hname : argumentsDue? (withoutModule raw) = some dues)
    (hdues : account s (dues ++ .close :: rest))
    (hbefore : ls.map (·.token) = pre ++ .name raw :: .leftBracket :: s.tokens) :
    Leads ls finish account (.close :: rest) (arguments nested fuel (withoutModule raw) s) := by
  unfold arguments
  unfold argumentsDue? at hname
  split_ifs at hname ⊢ with hliteral htype hoptional hunion hcallable
  · cases hname
    refine (separated_leads .literal (literalItem_settles bound)
      (fun _ _ _ => literalItem_sound.length_le) h hs (by omega) hdues).bind fun _ _ _ hclose => ?_
    exact hclose
  · cases hname
    split
    · rename_i hclass
      exact h.take hdues hclass rfl
    · rename_i hclass
      have hrefuse : Due.className.move s.peek? = .refuse := by
        simp only [Due.move]
      exact h.late hdues hrefuse (by simp) fun t ht => .className (by
        rintro n rfl
        exact hclass n ht)
  · cases hname
    exact optional_leads hnested hsound hfuel h hs hdues hbefore (eq_of_beq hoptional)
  · cases hname
    refine (separatedUnions_leads hnested hsound hfuel h hs hdues).bind fun _ _ _ hclose => ?_
    exact hclose
  · cases hname
    exact afterBalanced_settles h callable hdues
  · split at hname
    · rename_i hkind
      cases hname
      rw [hkind]
      refine (tupleArguments_leads hnested hsound hfuel h hs hdues).bind fun _ _ _ hclose => ?_
      exact hclose
    · rename_i kind htuple hkind
      cases hname
      rw [hkind]
      have hplain : typeArguments nested fuel kind s = separated nested fuel s := by
        have hother : (kind == .tuple) = false := by simpa using htuple
        rw [typeArguments, hother, Bool.false_and]
        rfl
      dsimp only
      rw [hplain]
      refine (separatedUnions_leads hnested hsound hfuel h hs hdues).bind fun _ _ _ hclose => ?_
      exact hclose
    · cases hname

omit hs in
theorem namedTerm_leads {pre : List Token} {raw : String} (hs : s.ahead.length < bound + 1)
    (hname : withoutModule raw ≠ "Annotated")
    (hdues : account s (.suffix (withoutModule raw) :: rest))
    (hbefore : ls.map (·.token) = pre ++ .name raw :: s.tokens) :
    Leads ls finish account rest (namedTerm nested fuel (withoutModule raw) s) := by
  unfold namedTerm
  split
  · rename_i hopen
    have hpeek := hopen
    rw [isAt_iff .leftBracket rfl, ← peek?_eq] at hpeek
    have hadvance := length_advance_lt hpeek
    cases harguments : argumentsDue? (withoutModule raw) with
    | none =>
        rw [arguments_of_none harguments]
        have hrefuse : (Due.suffix (withoutModule raw)).move (some .leftBracket) = .refuse := by
          simp only [Due.move, harguments]
        exact h.behind hdues hpeek hrefuse (.arguments hname)
    | some dues =>
        have hshift : (Due.suffix (withoutModule raw)).move (some .leftBracket) =
            .shift (dues ++ [.close]) := by
          simp only [Due.move, harguments]
        have hargs := h.take hdues hpeek hshift
        rw [List.append_assoc] at hargs
        rw [tokens_eq_of_head? ((isAt_iff .leftBracket rfl).mp hopen)] at hbefore
        refine (arguments_leads hnested hsound hfuel h (by omega) harguments hargs hbefore).bind
          fun d s' _ hclose => ?_
        dsimp only
        split
        · rename_i hright
          rw [isAt_iff .rightBracket rfl, ← peek?_eq] at hright
          exact h.take hclose hright rfl
        · rename_i hright
          rw [isAt_iff .rightBracket rfl, ← peek?_eq] at hright
          exact h.timely hclose (Due.move_of_ne rfl hright) (.punctuation (by simp))
  · rename_i hopen
    rw [isAt_iff .leftBracket rfl, ← peek?_eq] at hopen
    have hmove : (Due.suffix (withoutModule raw)).move s.peek? = _ := Due.move_of_ne rfl hopen
    split
    · rename_i hneeds
      rw [Due.otherwise, if_pos hneeds] at hmove
      have hnames : withoutModule raw ∈ ["Optional", "Union", "Literal", "Type"] := by
        simpa [needsArguments, hname] using hneeds
      exact h.timely hdues hmove (.bare hnames)
    · rename_i hneeds
      rw [Due.otherwise, if_neg hneeds] at hmove
      exact h.skip hdues hmove

omit hnested hsound hfuel hs in
/-- `Annotated` is read before it is refused, and so is a bracket after it. -/
theorem annotated_leads {raw : String} (hpeek : s.peek? = some (.name raw))
    (hraw : withoutModule raw = "Annotated") (hdues : account s (.term :: rest)) :
    Leads ls finish account rest (namedTerm nested fuel (withoutModule raw) s.advance) := by
  have hrefuse : Due.term.move s.peek? = .refuse := by
    rw [hpeek]
    simp [Due.move, termMove, hraw]
  have htokens : s.tokens = .name raw :: s.advance.tokens :=
    tokens_eq_of_head? (by rw [← peek?_eq, hpeek])
  rw [hraw]
  unfold namedTerm
  split
  · rename_i hopen
    rw [isAt_iff .leftBracket rfl] at hopen
    rw [arguments_of_none (by decide), advance_advance_eq_drop]
    refine h.fault hdues (consume_of_refuse hrefuse) ?_
    rw [htokens, tokens_eq_of_head? hopen]
    exact .annotatedArguments hraw
  · rw [if_pos (by decide), advance_eq_drop]
    refine h.fault hdues (consume_of_refuse hrefuse) ?_
    rw [htokens]
    exact .annotated hraw

omit h hs in
theorem term_settles : Settles ls finish (term nested fuel) [.term] (bound + 1) := by
  intro account h s rest hs hdues
  have hdues : account s (.term :: rest) := hdues
  unfold term
  split
  · rename_i hpeek
    exact h.take hdues hpeek rfl
  · rename_i raw hpeek
    have hadvance := length_advance_lt hpeek
    -- the recogniser refuses this name already, the reader what follows it
    by_cases hraw : withoutModule raw = "Annotated"
    · exact annotated_leads h hpeek hraw hdues
    · have hshift : Due.term.move (some (.name raw)) = .shift [.suffix (withoutModule raw)] := by
        simp [Due.move, termMove, hraw]
      obtain ⟨pre, hbefore⟩ := h.within hdues
      rw [tokens_eq_of_head? (by rw [← peek?_eq, hpeek])] at hbefore
      exact namedTerm_leads hnested hsound hfuel h (by omega) hraw (h.take hdues hpeek hshift)
        hbefore
  · rename_i text hpeek
    exact h.behind hdues hpeek rfl (.strayLiteral rfl (by simp))
  · rename_i n hpeek
    exact h.behind hdues hpeek rfl (.strayLiteral rfl (by simp))
  · rename_i x hpeek
    exact h.behind hdues hpeek rfl (.strayLiteral rfl (by simp))
  · rename_i hellipsis hnames hstrs hints hfloats
    have hrefuse : Due.term.move s.peek? = .refuse := by
      simp only [Due.move, termMove]
    refine h.late hdues hrefuse (by simp) fun t ht => .type ?_
    cases t with
    | ellipsis => exact absurd ht hellipsis
    | name raw => exact absurd ht (hnames raw)
    | str text => exact absurd ht (hstrs text)
    | int n => exact absurd ht (hints n)
    | float x => exact absurd ht (hfloats x)
    | _ => simp

end Terms

theorem furtherMembers_settles {member : Reader Declaration} {bound fuel : Nat}
    (hmember : Settles ls finish member [.term] bound) (hsound : Sound member SpellsTerm)
    (hfuel : bound ≤ fuel) :
    Settles ls finish (furtherMembers member fuel) [.members] bound := by
  intro account h s rest hs hdues
  have hbelow : s.ahead.length < fuel := by omega
  clear hfuel
  induction fuel generalizing s with
  | zero => cases hbelow
  | succ fuel ih =>
      have hdues : account s (.members :: rest) := hdues
      unfold furtherMembers
      split
      · rename_i hpipe
        rw [isAt_iff .pipe rfl, ← peek?_eq] at hpipe
        have hadvance := length_advance_lt hpipe
        have hterm := h.take hdues hpipe rfl
        refine (hmember h (by omega) hterm).bind fun d s' hread hmembers => ?_
        have hshorter := hsound.length_le hread
        refine (ih (by omega) hmembers (by omega)).bind fun ds s'' _ hrest => ?_
        exact hrest
      · rename_i hpipe
        rw [isAt_iff .pipe rfl, ← peek?_eq] at hpipe
        exact h.skip hdues (Due.move_of_ne rfl hpipe)

theorem unionReader_settles (fuel : Nat) :
    Settles ls finish (unionReader fuel) [.term, .members] fuel := by
  -- the fuel bounds the streams, and every nested union stands in a shorter one
  induction fuel with
  | zero =>
      intro account h s rest hs
      cases hs
  | succ fuel ih =>
      intro account h s rest hs hdues
      have hsound := unionReader_sound fuel
      have hterm := term_settles ih hsound (Nat.le_succ fuel)
      rw [unionReader]
      refine (hterm h hs hdues).bind fun d s' hread hmembers => ?_
      have hshorter := (term_sound hsound (fuel + 1)).length_le hread
      have hfurther := furtherMembers_settles hterm (term_sound hsound (fuel + 1)) (Nat.le_refl _)
      refine (hfurther h (by omega) hmembers).bind fun ds s'' _ hrest => ?_
      dsimp only
      split <;> exact hrest

end Readers

/-! ## Whole declarations -/

section Whole

variable {ls : List Lexeme} {finish : Nat}

theorem at_start : At ls finish ⟨ls, finish⟩ start :=
  ⟨[], start, rfl, rfl, rfl, rfl⟩

theorem unionReader_leads :
    Leads ls finish (At ls finish) [] (unionReader (ls.length + 1) ⟨ls, finish⟩) :=
  unionReader_settles (ls.length + 1) tracking_at (Nat.lt_succ_self _) at_start

/-- Every error of the reader is explained. -/
theorem explained_of_error {e : TextError} (h : ofTokens ls finish = .error e) :
    Explained ls finish e := by
  have hread := @unionReader_leads ls finish
  rw [ofTokens] at h
  cases hunion : unionReader (ls.length + 1) ⟨ls, finish⟩ with
  | error e' =>
      rw [hunion] at h hread
      cases h
      exact hread
  | ok read =>
      obtain ⟨d, s⟩ := read
      rw [hunion] at h hread
      have hat : At ls finish s [] := hread
      cases hahead : s.ahead with
      | nil =>
          have hempty : s.ahead.isEmpty = true := by rw [hahead, List.isEmpty_nil]
          simp [hempty, bind, Except.bind, pure, Except.pure] at h
      | cons l rest =>
          have hmore : s.ahead.isEmpty = false := by rw [hahead, List.isEmpty_cons]
          have hpeek : s.peek? = some l.token := peek?_eq_some_iff.mpr ⟨l, rest, hahead, rfl⟩
          simp only [hmore, bind, Except.bind, Bool.false_eq_true, if_false] at h
          cases h
          refine tracking_at.fault (n := 0) hat ?_ (.punctuation (by simp))
          rw [hpeek]
          rfl

theorem Explained.accepts_eq_false {e : TextError} (h : Explained ls finish e) :
    accepts start (ls.map (·.token)) = false := by
  obtain ⟨before, late, rest, stack, rfl, hrun, hnext, _⟩ := h
  rw [List.map_append, accepts_append hrun]
  cases hahead : late ++ rest with
  | nil =>
      rw [hahead] at hnext
      rw [List.map_nil, accepts_nil]
      exact congrArg Option.isSome hnext
  | cons l more =>
      rw [hahead] at hnext
      have hstep : consume stack (some l.token) = Option.none := hnext
      have hrefused : run stack ((l :: more).map (·.token)) = Option.none := by
        rw [List.map_cons, run_cons, hstep]
        rfl
      rw [accepts, hrefused]
      rfl

theorem accepts_of_ok {d : Declaration} (h : ofTokens ls finish = .ok d) :
    accepts start (ls.map (·.token)) = true := by
  have hread := @unionReader_leads ls finish
  rw [ofTokens, bind_eq_ok_iff] at h
  obtain ⟨⟨e, s⟩, hunion, h⟩ := h
  rw [hunion] at hread
  obtain ⟨before, stack, hls, _, hrun, hnext⟩ := hread
  have hahead : s.ahead = [] := by
    cases hahead : s.ahead with
    | nil => rfl
    | cons l rest =>
        simp only [hahead, List.isEmpty_cons, Bool.false_eq_true, if_false] at h
        cases h
  rw [hahead, List.append_nil] at hls
  rw [peek?, hahead] at hnext
  rw [hls, accepts, hrun, Option.bind_some]
  exact congrArg Option.isSome hnext

end Whole

/-- The recogniser accepts what the grammar derives. -/
theorem accepts_start_iff (ts : List Token) :
    accepts start ts = true ↔ ∃ d, SpellsUnion ts d := by
  have hlexemes : (ts.map fun t => Lexeme.mk t 0).map (·.token) = ts := by
    rw [List.map_map]
    exact List.map_id ts
  rw [← hlexemes]
  cases hread : ofTokens (ts.map fun t => Lexeme.mk t 0) 0 with
  | error e =>
      have hrefused := (explained_of_error hread).accepts_eq_false
      constructor
      · intro h
        rw [hrefused] at h
        cases h
      · rintro ⟨d, hd⟩
        rw [← ofTokens_eq_ok_iff _ 0, hread] at hd
        cases hd
  | ok d =>
      have haccepted := accepts_of_ok hread
      have hspells := (ofTokens_eq_ok_iff _ _ _).mp hread
      exact ⟨fun _ => ⟨d, hspells⟩, fun _ => haccepted⟩

end Conform.Declaration

/-
  Conform.Proofs.Declaration.ErrorPlaces

  The place that an error of reading names, in the text. An error is never
  reported too early: the text before its place begins with a part that can be
  completed to a declaration. It may be reported too late, so that malformed
  tokens stand between that part and the place. How many depends on the cause
  (`Delay`); only where the text does not split into tokens, and where an
  `Optional` has too many arguments, there may be any number of them.

  Whether a text can be completed is decided by the recogniser. A blank after
  the text makes sure that its last token is not continued.
-/

import Conform.Proofs.Declaration.Blame
import Conform.Proofs.Declaration.Boundaries

namespace Conform.Declaration

/-- Some declaration begins with this text. -/
def Completable (text : String) : Prop := ∃ rest d, parse (text ++ rest) = .ok d

/-- A text that consists of some tokens and stands where the first of them is
    malformed: no declaration has that token after the good text. -/
inductive Derailed (good : String) : String → List Token → Prop
  | nothing : Derailed good "" []
  | token {first more : String} {t : Token} {ts : List Token}
      (hfirst : Token.Yields first.toList [t])
      (hall : Token.Yields (first ++ more).toList (t :: ts))
      (hmalformed : ¬ Completable (good ++ first ++ " ")) :
      Derailed good (first ++ more) (t :: ts)

/-! ## Completions -/

/-- A stack is settled by the name `None` and punctuation. -/
theorem plain_of_mem_closing {stack : List Due} {t : Token} (h : t ∈ closing stack) :
    t = .name "None" ∨ ∃ c, Token.ofSingle? c = some t := by
  obtain ⟨due, _, ht⟩ := List.mem_flatMap.mp h
  cases due with
  | suffix name =>
      rw [Due.closing] at ht
      split_ifs at ht
      · rcases List.mem_cons.mp ht with rfl | ht
        · exact .inr ⟨'[', rfl⟩
        · rcases List.mem_cons.mp ht with rfl | ht
          · exact .inl rfl
          · exact .inr ⟨']', by rw [List.mem_singleton.mp ht]; rfl⟩
      · cases ht
  | balanced depth => exact .inr ⟨']', by rw [(List.mem_replicate.mp ht).2]; rfl⟩
  | close => exact .inr ⟨']', by rw [List.mem_singleton.mp ht]; rfl⟩
  | rightParen => exact .inr ⟨')', by rw [List.mem_singleton.mp ht]; rfl⟩
  | members | further _ | finalComma => cases ht
  | term | literal | className | another _ | tupleArguments =>
      exact .inl (List.mem_singleton.mp ht)

theorem exists_yields_closing (stack : List Due) : ∃ cs, Token.Yields cs (closing stack) := by
  have hplain := fun t => @plain_of_mem_closing stack t
  have hword : Token.Lexed "None".toList [.name "None"] := Token.Lexed.word (by decide)
  generalize closing stack = ts at hplain
  induction ts with
  | nil => exact ⟨[], .nil⟩
  | cons t ts ih =>
      obtain ⟨ht, hts⟩ := List.forall_mem_cons.mp hplain
      obtain ⟨cs, hcs⟩ := ih hts
      rcases ht with rfl | ⟨c, hc⟩
      · exact ⟨_, hword (' ' :: cs) ts (.cons (by decide) cs) (hcs.blank (by decide))⟩
      · exact ⟨c :: cs, hcs.single hc⟩

section Completions

variable {text : String} {ls : List Lexeme} (htext : Token.tokenize text = .ok ls)

include htext

theorem completable_of_run {stack : List Due}
    (hrun : run start (ls.map (·.token)) = some stack) : Completable text := by
  obtain ⟨cs, hcs⟩ := exists_yields_closing stack
  obtain ⟨more, hmore, hclosing⟩ := hcs (0 + Token.byteLength text.toList + 1)
  have htidy : Tidy stack := run_tidy hrun ⟨by simp, rfl⟩
  have haccepted : accepts start ((ls ++ more).map (·.token)) = true := by
    rw [List.map_append, accepts_append hrun, hclosing, accepts_closing htidy]
  obtain ⟨d, hd⟩ := (accepts_start_iff _).mp haccepted
  refine ⟨String.ofList (' ' :: cs), d, (parse_eq_ok_iff _ _).mpr ⟨ls ++ more, ?_, hd⟩⟩
  rw [Token.tokenize, String.toList_append, String.toList_ofList,
    Token.tokenizeFrom_append_blank htext, hmore]
  rfl

theorem not_completable_of_run (hrun : run start (ls.map (·.token)) = Option.none) :
    ¬ Completable (text ++ " ") := by
  rintro ⟨rest, d, h⟩
  obtain ⟨tokens, htokens, hd⟩ := (parse_eq_ok_iff _ _).mp h
  have hlist : (text ++ " " ++ rest).toList = text.toList ++ ' ' :: rest.toList := by
    rw [String.toList_append, String.toList_append, List.append_assoc]
    rfl
  rw [Token.tokenize, hlist, Token.tokenizeFrom_append_blank htext] at htokens
  obtain ⟨more, _, rfl⟩ := Token.exists_of_map_eq_ok htokens
  have haccepted := (accepts_start_iff _).mpr ⟨d, hd⟩
  rw [List.map_append, accepts, run_append, hrun] at haccepted
  cases haccepted

end Completions

/-! ## Places -/

section Places

variable {text : String} {before late : List Lexeme} {stack : List Due}

theorem eq_ofList_append {front back : List Char} (h : text.toList = front ++ back) :
    text = String.ofList front ++ String.ofList back := by
  rw [← String.ofList_append, ← h, String.ofList_toList]

theorem tokenize_ofList {front : List Char} {ls : List Lexeme}
    (h : Token.tokenizeFrom 0 front = .ok ls) : Token.tokenize (String.ofList front) = .ok ls := by
  rw [Token.tokenize, String.toList_ofList, h]

/-- The text of the tokens up to a refused one, and of those from it on. -/
theorem exists_derailed (htext : Token.tokenize text = .ok (before ++ late))
    (hrun : run start (before.map (·.token)) = some stack)
    (hlate : ∀ l, late.head? = some l → consume stack (some l.token) = Option.none) :
    ∃ good bad, text = good ++ bad ∧ Token.Yields good.toList (before.map (·.token)) ∧
      Completable good ∧ Derailed good bad (late.map (·.token)) := by
  obtain ⟨front, back, hcs, hfront, hback, hend, _⟩ := Token.tokenizeFrom_split htext
  have hgood := tokenize_ofList (Token.tokenizeFrom_front hfront)
  refine ⟨String.ofList front, String.ofList back, eq_ofList_append hcs,
    Token.yields_of_tokenizeFrom hgood, completable_of_run hgood hrun, ?_⟩
  cases late with
  | nil =>
      rw [hend rfl]
      exact .nothing
  | cons l more =>
      -- the refused token is cut off by itself
      have hcut : Token.tokenizeFrom (0 + Token.byteLength front) back = .ok ([l] ++ more) := hback
      obtain ⟨first, last, rfl, hpiece, _, _, _⟩ := Token.tokenizeFrom_split hcut
      have hfirst := Token.tokenizeFrom_front hpiece
      have hboth : Token.tokenize (String.ofList front ++ String.ofList first) =
          .ok (before ++ [l]) := by
        rw [Token.tokenize, ← String.ofList_append, String.toList_ofList]
        exact hfront first [l] (List.prefix_append first last) hfirst
      have hrefused : run start ((before ++ [l]).map (·.token)) = Option.none := by
        rw [List.map_append, List.map_singleton, run_snoc hrun, hlate l rfl]
      have hyields := Token.yields_of_tokenizeFrom hback
      rw [String.ofList_append]
      refine .token ?_ ?_ (not_completable_of_run hboth hrefused)
      · rw [String.toList_ofList]
        exact Token.yields_of_tokenizeFrom hfirst
      · rw [← String.ofList_append, String.toList_ofList]
        exact hyields

theorem offset_eq {rest : List Lexeme} {front back : List Char} {finish : Nat}
    (hback : rest = [] → back = []) (hfinish : finish = Token.byteLength (front ++ back))
    (hfirst : ∀ l, rest.head? = some l → l.offset = 0 + Token.byteLength front) :
    TokenStream.offset ⟨rest, finish⟩ = Token.byteLength front := by
  cases rest with
  | nil =>
      rw [hback rfl, List.append_nil] at hfinish
      exact hfinish
  | cons l rest => exact (hfirst l rfl).trans (Nat.zero_add _)

/-- Where the text does not split into tokens, the tokens before that place may
    be malformed already. -/
theorem exists_derailed_of_tokenize {e : TextError} (h : Token.tokenize text = .error e) :
    ∃ good bad rest ts, text = good ++ bad ++ rest ∧ (good ++ bad).utf8ByteSize = e.offset ∧
      Completable good ∧ Derailed good bad ts := by
  obtain ⟨front, back, ls, hcs, hfront, he⟩ := Token.tokenizeFrom_error h
  have hsplit := eq_ofList_append hcs
  have hbytes : (String.ofList front).utf8ByteSize = e.offset := by
    rw [he, ← Token.byteLength_toList, String.toList_ofList, Nat.zero_add]
  -- up to the first token that the recogniser refuses, if there is one
  obtain ⟨before, late, stack, rfl, hrun, hlate⟩ : ∃ before late stack, ls = before ++ late ∧
      run start (before.map (·.token)) = some stack ∧
      ∀ l, late.head? = some l → consume stack (some l.token) = Option.none := by
    cases hrun : run start (ls.map (·.token)) with
    | some stack => exact ⟨ls, [], stack, (List.append_nil ls).symm, hrun, by simp⟩
    | none =>
        obtain ⟨us, t, vs, stack, hls, hus, ht⟩ := run_eq_none_iff.mp hrun
        obtain ⟨before, late, rfl, rfl, hlate⟩ := List.map_eq_append_iff.mp hls
        obtain ⟨l, more, rfl, rfl, _⟩ := List.map_eq_cons_iff.mp hlate
        refine ⟨before, l :: more, stack, rfl, hus, fun l' hl' => ?_⟩
        cases hl'
        exact ht
  obtain ⟨good, bad, hgood, _, hcompletable, hderailed⟩ :=
    exists_derailed (tokenize_ofList hfront) hrun hlate
  rw [hgood] at hsplit hbytes
  exact ⟨good, bad, String.ofList back, _, hsplit, hbytes, hcompletable, hderailed⟩

/-- A rejected text begins with a good part, that can be completed, and a bad
    one, that begins with a malformed token unless it is empty; and behind the
    bad part stands the place of the error. The bad part is what the cause
    allows for, unless the text does not split into tokens or the good part ends
    behind the only argument that an `Optional` takes. -/
theorem parse_error_place {e : TextError} (h : parse text = .error e) :
    ∃ good bad rest ts, text = good ++ bad ++ rest ∧ (good ++ bad).utf8ByteSize = e.offset ∧
      Completable good ∧ Derailed good bad ts ∧
      (Token.tokenize text = .error e ∨ (∃ us, Token.Yields good.toList us ∧ Surplus us) ∨
        Delay (rest = "") e.cause ts) := by
  cases htokens : Token.tokenize text with
  | error e' =>
      rw [parse, htokens] at h
      cases h
      obtain ⟨good, bad, rest, ts, hsplit, hbytes, hgood, hbad⟩ :=
        exists_derailed_of_tokenize htokens
      exact ⟨good, bad, rest, ts, hsplit, hbytes, hgood, hbad, .inl rfl⟩
  | ok ls =>
      rw [parse, htokens] at h
      obtain ⟨before, late, rest, stack, rfl, hrun, hnext, hoffset, hdelay⟩ :=
        explained_of_error h
      rw [← List.append_assoc] at htokens
      obtain ⟨front, back, hcs, hfront, _, hend, hfirst⟩ := Token.tokenizeFrom_split htokens
      have hread := tokenize_ofList (Token.tokenizeFrom_front hfront)
      have hsplit := eq_ofList_append hcs
      have hbytes : (String.ofList front).utf8ByteSize = e.offset := by
        have hfinish : text.utf8ByteSize = Token.byteLength (front ++ back) := by
          rw [← hcs, Token.byteLength_toList]
        rw [hoffset, offset_eq hend hfinish hfirst, ← Token.byteLength_toList,
          String.toList_ofList]
      have hlate : ∀ l, late.head? = some l → consume stack (some l.token) = Option.none := by
        intro l hl
        obtain ⟨more, rfl⟩ := List.head?_eq_some_iff.mp hl
        exact hnext
      obtain ⟨good, bad, hgood, hyields, hcompletable, hderailed⟩ :=
        exists_derailed hread hrun hlate
      rw [hgood] at hsplit hbytes
      refine ⟨good, bad, String.ofList back, _, hsplit, hbytes, hcompletable, hderailed, .inr ?_⟩
      rcases hdelay with hdelay | hsurplus
      · exact .inr (hdelay.imp fun hrest => by rw [hend hrest])
      · exact .inl ⟨_, hyields, hsurplus⟩

end Places

/-- A string that should be a type is reported at the token after it. -/
theorem parse_error_place_literal :
    parse "list['a']" =
        .error ⟨8, "literal values are only allowed inside `Literal[...]`"⟩ ∧
      ∃ good bad rest ts, "list['a']" = good ++ bad ++ rest ∧ (good ++ bad).utf8ByteSize = 8 ∧
        Completable good ∧ Derailed good bad ts ∧
        (Token.tokenize "list['a']" =
            .error ⟨8, "literal values are only allowed inside `Literal[...]`"⟩ ∨
          (∃ us, Token.Yields good.toList us ∧ Surplus us) ∨
          Delay (rest = "") "literal values are only allowed inside `Literal[...]`" ts) := by
  have htokens : Token.tokenizeFrom 0 ['l', 'i', 's', 't', '[', '\'', 'a', '\'', ']'] =
      .ok [⟨.name "list", 0⟩, ⟨.leftBracket, 4⟩, ⟨.str "a", 5⟩, ⟨.rightBracket, 8⟩] := by
    apply Token.tokenizeFrom_of_scan (by decide) rfl
    apply Token.tokenizeFrom_of_scan (by decide) rfl
    apply Token.tokenizeFrom_of_scan (by decide) rfl
    apply Token.tokenizeFrom_of_scan (by decide) rfl
    rw [List.drop_nil, Token.tokenizeFrom]
  have hparse : parse "list['a']" =
      .error ⟨8, "literal values are only allowed inside `Literal[...]`"⟩ := by
    have htext : Token.tokenize "list['a']" = _ := htokens
    rw [parse, htext]
    rfl
  exact ⟨hparse, parse_error_place hparse⟩

/-- A bracket that should be a type is reported behind itself, although no
    declaration begins with it. -/
theorem parse_error_late :
    parse "]" = .error ⟨"]".utf8ByteSize, "expected a type"⟩ ∧ ¬ Completable "]" := by
  refine ⟨?_, ?_⟩
  · have htokens : Token.tokenize "]" = .ok [⟨.rightBracket, 0⟩] := by
      apply Token.tokenizeFrom_of_scan (by decide) rfl
      rw [List.drop_nil, Token.tokenizeFrom]
    rw [parse, htokens]
    rfl
  · rintro ⟨rest, d, h⟩
    obtain ⟨ls, hls, hd⟩ := (parse_eq_ok_iff _ _).mp h
    have hlist : ("]" ++ rest).toList = ']' :: rest.toList := String.toList_append
    have hscan : Token.scan ']' rest.toList = .ok (.rightBracket, 0) := rfl
    rw [Token.tokenize, hlist, Token.tokenizeFrom_cons (by decide) hscan] at hls
    obtain ⟨more, _, rfl⟩ := Token.exists_of_map_eq_ok hls
    have haccepted := (accepts_start_iff _).mpr ⟨d, hd⟩
    cases haccepted

end Conform.Declaration

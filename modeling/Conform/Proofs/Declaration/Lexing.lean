/-
  Conform.Proofs.Declaration.Lexing

  The tokens of printed pieces: names, the repeat mark, punctuation, quoted
  texts and integers. A piece is read the same in front of any text that does
  not continue it, so what is shown of pieces can be put together. The offsets
  of tokens are left out, except where the text is one printed string. Its one
  token has the string for its content, unless a control character was printed
  by its number.
-/

import Conform.Declaration.Token
import Conform.Value.Printer
import Mathlib.Data.List.TakeWhile
import Mathlib.Tactic.SplitIfs

namespace Conform.Token

/-! ## Texts and their tokens -/

/-- A text consists of these tokens, wherever it starts. -/
def Yields (cs : List Char) (ts : List Token) : Prop :=
  ∀ offset, ∃ ls, tokenizeFrom offset cs = .ok ls ∧ ls.map (·.token) = ts

/-- A text that does not continue a name or a number in front of it. -/
def Apart (cs : List Char) : Prop := ∀ c, cs.head? = some c → continuesName c = false

/-- Characters that are these tokens in front of any text apart from them. -/
def Lexed (cs : List Char) (ts : List Token) : Prop :=
  ∀ rest us, Apart rest → Yields rest us → Yields (cs ++ rest) (ts ++ us)

section Steps

variable {c : Char} {cs rest : List Char} {t : Token} {ts : List Token}

theorem Yields.nil : Yields [] [] := by
  intro offset
  exact ⟨[], by rw [tokenizeFrom], rfl⟩

theorem Yields.blank (hc : Text.isBlank c = true) (h : Yields rest ts) : Yields (c :: rest) ts := by
  intro offset
  obtain ⟨ls, hls, hts⟩ := h (offset + c.utf8Size)
  exact ⟨ls, by rw [tokenizeFrom, if_pos hc, hls], hts⟩

/-- The first token, and then those of the rest. -/
theorem Yields.token {n : Nat} (hc : Text.isBlank c = false) (hscan : scan c rest = .ok (t, n))
    (h : Yields (rest.drop n) ts) : Yields (c :: rest) (t :: ts) := by
  intro offset
  obtain ⟨ls, hls, hts⟩ := h (offset + c.utf8Size + byteLength (rest.take n))
  refine ⟨⟨t, offset⟩ :: ls, ?_, by rw [List.map_cons, hts]⟩
  rw [tokenizeFrom, if_neg (Bool.eq_false_iff.mp hc), hscan]
  simp only [hls]

theorem Apart.nil : Apart [] := by simp [Apart]

theorem Apart.cons (hc : continuesName c = false) (rest : List Char) : Apart (c :: rest) := by
  simpa [Apart] using hc

theorem Lexed.yields (h : Lexed cs ts) : Yields cs ts := by
  have hend := h [] [] Apart.nil Yields.nil
  rwa [List.append_nil, List.append_nil] at hend

/-! ## Punctuation -/

/-- Punctuation is neither blank nor part of a name. -/
theorem plain_of_single (h : ofSingle? c = some t) :
    Text.isBlank c = false ∧ continuesName c = false := by
  have hc : c ∈ ['[', ']', '(', ')', ',', '|'] := by
    unfold ofSingle? at h
    split_ifs at h <;> simp_all
  have hplain : ['[', ']', '(', ')', ',', '|'].all
      (fun c => !Text.isBlank c && !continuesName c) = true := by decide
  simpa using List.all_eq_true.mp hplain c hc

theorem Yields.single (hc : ofSingle? c = some t) (h : Yields rest ts) :
    Yields (c :: rest) (t :: ts) := by
  have hscan : scan c rest = .ok (t, 0) := by simp [scan, hc]
  exact h.token (plain_of_single hc).1 hscan

theorem Apart.single (hc : ofSingle? c = some t) (rest : List Char) : Apart (c :: rest) :=
  .cons (plain_of_single hc).2 rest

end Steps

/-! ## Names -/

/-- Whether a name begins with this character where a token begins. -/
def beginsWord (c : Char) : Bool :=
  !Text.isBlank c && (ofSingle? c).isNone && !(c == '\'' || c == '"') && !(c.isDigit || c == '-') &&
    beginsName c

/-- Whether a text is one name. -/
def isWord : List Char → Bool
  | [] => false
  | c :: rest => beginsWord c && nameRun (c :: rest) == c :: rest

section Words

variable {c : Char} {cs rest : List Char}

theorem not_blank_of_beginsWord (hc : beginsWord c = true) : Text.isBlank c = false := by
  simp only [beginsWord, Bool.and_eq_true, Bool.not_eq_true'] at hc
  exact hc.1.1.1.1

theorem scan_of_beginsWord (hc : beginsWord c = true) (rest : List Char) :
    scan c rest = .ok (.name (String.ofList (nameRun (c :: rest))),
      (nameRun (c :: rest)).length - 1) := by
  simp only [beginsWord, Bool.and_eq_true, Bool.not_eq_true', Option.isNone_iff_eq_none] at hc
  obtain ⟨⟨⟨⟨_, hsingle⟩, hquote⟩, hnumber⟩, hbegins⟩ := hc
  have hdot : (c == '.') = false := by
    cases h : c == '.' with
    | false => rfl
    | true =>
        rw [beq_iff_eq.mp h] at hbegins
        exact absurd hbegins (by decide)
  simp [scan, hsingle, hdot, hquote, hnumber, hbegins]

theorem ofSingle?_ne_name (c : Char) (s : String) : ofSingle? c ≠ some (.name s) := by
  intro h
  unfold ofSingle? at h
  split_ifs at h <;> cases h

theorem ofNumberRun?_ne_name (run : List Char) (s : String) :
    ofNumberRun? run ≠ some (.name s) := by
  intro h
  simp only [ofNumberRun?] at h
  split_ifs at h
  · obtain ⟨x, _, hx⟩ := Option.map_eq_some_iff.mp h
    cases hx
  · obtain ⟨n, _, hn⟩ := Option.map_eq_some_iff.mp h
    cases hn

/-- A name token comes from a name. -/
theorem beginsWord_of_scan {s : String} {n : Nat} (hblank : Text.isBlank c = false)
    (h : scan c rest = .ok (.name s, n)) :
    beginsWord c = true ∧ s = String.ofList (nameRun (c :: rest)) := by
  cases hsingle : ofSingle? c with
  | some t =>
      rw [scan, hsingle] at h
      cases h
      exact absurd hsingle (ofSingle?_ne_name c s)
  | none =>
      simp only [scan, hsingle] at h
      -- each branch before that of names makes another kind of token
      split_ifs at h with hdots hquote hnumber hbegins
      · cases h
      · split at h <;> cases h
      · split at h
        · rename_i t hrun
          cases h
          exact absurd hrun (ofNumberRun?_ne_name _ s)
        · cases h
      · cases h
        simp [beginsWord, hblank, hsingle, hquote, hnumber, hbegins]

/-- A name is made of name characters. -/
theorem takeWhile_of_nameRun (h : nameRun cs = cs) : cs.takeWhile continuesName = cs := by
  -- cutting the run and trimming it only shorten, so neither did anything
  have hlength := congrArg List.length h
  have hdrop :=
    (List.dropWhile_suffix (l := (cs.takeWhile continuesName).reverse) (· == '.')).length_le
  apply (List.takeWhile_prefix (l := cs) continuesName).eq_of_length_le
  simp only [nameRun, List.length_reverse] at hlength hdrop
  omega

theorem nameRun_append (h : nameRun cs = cs) (hrest : Apart rest) : nameRun (cs ++ rest) = cs := by
  have hcs := takeWhile_of_nameRun h
  have hnone : rest.takeWhile continuesName = [] := by
    cases rest with
    | nil => rfl
    | cons c tail => rw [List.takeWhile_cons, if_neg (by simp [hrest c rfl])]
  have hall : ∀ c ∈ cs, continuesName c = true := List.takeWhile_eq_self_iff.mp hcs
  calc nameRun (cs ++ rest) = nameRun cs := by
        rw [nameRun, nameRun, List.takeWhile_append_of_pos hall, hnone, List.append_nil, hcs]
    _ = cs := h

theorem Lexed.word (h : isWord cs = true) : Lexed cs [.name (String.ofList cs)] := by
  intro rest us hrest hyields
  cases cs with
  | nil => cases h
  | cons c tail =>
      obtain ⟨hbegins, hrun⟩ := Bool.and_eq_true_iff.mp h
      have hscan := scan_of_beginsWord hbegins (tail ++ rest)
      have happend : nameRun (c :: (tail ++ rest)) = c :: tail :=
        nameRun_append (beq_iff_eq.mp hrun) hrest
      rw [happend] at hscan
      apply Yields.token (not_blank_of_beginsWord hbegins) hscan
      rwa [List.length_cons, Nat.add_sub_cancel, List.drop_left]

/-- Tokens stand no earlier than their text. -/
theorem le_offset_of_mem {offset : Nat} {ls : List Lexeme} (h : tokenizeFrom offset cs = .ok ls) :
    ∀ l ∈ ls, offset ≤ l.offset := by
  fun_induction tokenizeFrom offset cs generalizing ls with
  | case1 offset =>
      cases h
      simp
  | case2 offset c rest hblank ih =>
      intro l hl
      exact Nat.le_trans (Nat.le_add_right _ _) (ih h l hl)
  | case3 => cases h
  | case4 => cases h
  | case5 offset c rest hblank t n hscan more hmore ih =>
      cases h
      intro l hl
      rcases List.mem_cons.mp hl with rfl | hl
      · exact Nat.le_refl offset
      · have hlater := ih hmore l hl
        omega

/-- A text that is one token. -/
theorem tokenizeFrom_eq_one_iff {offset : Nat} {t : Token} :
    tokenizeFrom offset (c :: rest) = .ok [⟨t, offset⟩] ↔
      Text.isBlank c = false ∧ ∃ n, scan c rest = .ok (t, n) ∧
        tokenizeFrom (offset + c.utf8Size + byteLength (rest.take n)) (rest.drop n) = .ok [] := by
  rw [tokenizeFrom]
  split
  case isTrue hblank =>
    constructor
    · intro h
      -- the token would stand behind the blank
      have hpos := c.utf8Size_pos
      have hoffset := le_offset_of_mem h ⟨t, offset⟩ (List.mem_singleton_self _)
      dsimp only at hoffset
      omega
    · rintro ⟨hno, _⟩
      exact absurd hblank (Bool.eq_false_iff.mp hno)
  case isFalse hblank =>
    cases hscan : scan c rest with
    | error cause => simp
    | ok scanned =>
        obtain ⟨u, n⟩ := scanned
        dsimp only
        cases hmore :
          tokenizeFrom (offset + c.utf8Size + byteLength (rest.take n)) (rest.drop n) with
        | error e =>
            constructor
            · intro h
              cases h
            · rintro ⟨_, k, hk, hend⟩
              cases hk
              rw [hmore] at hend
              cases hend
        | ok more =>
            constructor
            · intro h
              cases h
              exact ⟨Bool.eq_false_iff.mpr hblank, n, rfl, hmore⟩
            · rintro ⟨_, k, hk, hend⟩
              cases hk
              rw [hmore] at hend
              cases hend
              rfl

/-- A word is read as one name wherever it stands. -/
theorem tokenizeFrom_of_isWord (offset : Nat) (h : isWord cs = true) :
    tokenizeFrom offset cs = .ok [⟨.name (String.ofList cs), offset⟩] := by
  cases cs with
  | nil => simp [isWord] at h
  | cons c rest =>
      rw [isWord, Bool.and_eq_true_iff, beq_iff_eq] at h
      obtain ⟨hbegins, hrun⟩ := h
      have hscan := scan_of_beginsWord hbegins rest
      rw [hrun, List.length_cons, Nat.add_sub_cancel] at hscan
      refine tokenizeFrom_eq_one_iff.mpr
        ⟨not_blank_of_beginsWord hbegins, rest.length, hscan, ?_⟩
      rw [List.drop_length, tokenizeFrom]

/-- What it takes to be read as one name. -/
theorem tokenize_eq_name_iff {n : String} :
    tokenize n = .ok [⟨.name n, 0⟩] ↔ isWord n.toList = true := by
  constructor
  · rw [tokenize]
    cases hcs : n.toList with
    | nil =>
        rw [tokenizeFrom]
        simp
    | cons c rest =>
        rw [tokenizeFrom_eq_one_iff, isWord, Bool.and_eq_true_iff, beq_iff_eq]
        rintro ⟨hblank, k, hscan, _⟩
        obtain ⟨hbegins, hname⟩ := beginsWord_of_scan hblank hscan
        have hrun := congrArg String.toList hname
        rw [String.toList_ofList, hcs] at hrun
        exact ⟨hbegins, hrun.symm⟩
  · intro h
    rw [tokenize, tokenizeFrom_of_isWord 0 h, String.ofList_toList]

end Words

/-! ## The repeat mark -/

theorem Lexed.ellipsis : Lexed "...".toList [.ellipsis] := by
  intro rest us _ hrest
  have hscan : scan '.' ('.' :: '.' :: rest) = .ok (.ellipsis, 2) := rfl
  exact Yields.token (by decide) hscan hrest

/-! ## Quoted texts -/

theorem unescape_escapeLetter {c letter : Char} (h : Text.escapeLetter? c = some letter) :
    unescape letter = c := by
  unfold Text.escapeLetter? at h
  split_ifs at h <;> cases h <;> simp_all [unescape]

theorem stringRun_backslash (quote c : Char) (rest : List Char) :
    stringRun quote ('\\' :: c :: rest) =
      (stringRun quote rest).map fun (content, n) => (unescape c :: content, n + 2) := by
  rw [stringRun]

theorem stringRun_cons {quote c : Char} (hc : c ≠ '\\') (rest : List Char) :
    stringRun quote (c :: rest) = if c == quote then some ([], 1)
      else (stringRun quote rest).map fun (content, n) => (c :: content, n + 1) := by
  rw [stringRun]
  · intro h
    exact absurd h hc
  · intro _ _ h
    exact absurd h hc

/-- What the reader makes of a printed character. It knows no escapes with
    digits, so a control character without a letter of its own comes back as
    the letter `x` and two digits. -/
def readBack (c : Char) : List Char :=
  if (Text.escapeLetter? c).isNone && Text.isControl c then 'x' :: Text.hexPair c.toNat else [c]

theorem readBack_of_escapeLetter {c letter : Char} (h : Text.escapeLetter? c = some letter) :
    readBack c = [c] := by
  simp [readBack, h]

theorem escapeLetter?_eq_none_iff {c : Char} :
    Text.escapeLetter? c = none ↔ c ≠ '\\' ∧ c ≠ '\n' ∧ c ≠ '\r' ∧ c ≠ '\t' := by
  unfold Text.escapeLetter?
  split_ifs <;> simp_all

/-- The characters that come back as they are. -/
theorem readBack_eq_self_iff {c : Char} :
    readBack c = [c] ↔ (Text.isControl c = true → c = '\n' ∨ c = '\r' ∨ c = '\t') := by
  cases hletter : Text.escapeLetter? c with
  | some letter =>
      have hself := readBack_of_escapeLetter hletter
      have hother : ¬ (c ≠ '\\' ∧ c ≠ '\n' ∧ c ≠ '\r' ∧ c ≠ '\t') := by
        rw [← escapeLetter?_eq_none_iff, hletter]
        simp
      have hbackslash : Text.isControl '\\' = false := by decide
      refine ⟨fun _ hcontrol => ?_, fun _ => hself⟩
      have hc : c ≠ '\\' := by
        rintro rfl
        rw [hbackslash] at hcontrol
        cases hcontrol
      grind
  | none =>
      obtain ⟨_, hline, hreturn, htab⟩ := escapeLetter?_eq_none_iff.mp hletter
      simp [readBack, hletter, hline, hreturn, htab, Text.hexPair]

/-- An escape that does not come back as its character is too long. -/
theorem readBack_cases (c : Char) : readBack c = [c] ∨ (readBack c).length = 3 := by
  unfold readBack
  split
  · exact Or.inr rfl
  · exact Or.inl rfl

theorem length_le_flatMap_readBack (cs : List Char) : cs.length ≤ (cs.flatMap readBack).length := by
  induction cs with
  | nil => exact Nat.le_refl 0
  | cons c cs ih =>
      have hc : 1 ≤ (readBack c).length := by
        rcases readBack_cases c with h | h <;> simp [h]
      rw [List.flatMap_cons, List.length_append, List.length_cons]
      omega

theorem flatMap_readBack_eq_self_iff {cs : List Char} :
    cs.flatMap readBack = cs ↔ ∀ c ∈ cs, readBack c = [c] := by
  induction cs with
  | nil => simp
  | cons c cs ih =>
      rw [List.flatMap_cons, List.forall_mem_cons, ← ih]
      rcases readBack_cases c with hc | hc
      · simp [hc]
      · have hrest := length_le_flatMap_readBack cs
        constructor
        · intro h
          have hall := congrArg List.length h
          rw [List.length_append, List.length_cons, hc] at hall
          omega
        · rintro ⟨hself, _⟩
          rw [hself] at hc
          cases hc

theorem digitChar_plain : ∀ n < 16,
    Nat.digitChar n ≠ '\\' ∧ Nat.digitChar n ≠ '\'' ∧ Nat.digitChar n ≠ '"' := by
  decide

theorem toNat_lt_of_isControl {c : Char} (h : Text.isControl c = true) : c.toNat < 256 := by
  simp only [Text.isControl, Bool.or_eq_true, Bool.and_eq_true, decide_eq_true_eq] at h
  omega

section Quotes

variable {quote : Char} (hquote : quote = '\'' ∨ quote = '"')
include hquote

/-- Digits inside quotes stand for themselves. -/
theorem stringRun_digitChar {n : Nat} (hn : n < 16) (rest : List Char) :
    stringRun quote (Nat.digitChar n :: rest) =
      (stringRun quote rest).map fun (content, k) => (Nat.digitChar n :: content, k + 1) := by
  obtain ⟨hbackslash, hsingle, hdouble⟩ := digitChar_plain n hn
  have hopen : (Nat.digitChar n == quote) = false := by
    rcases hquote with rfl | rfl
    · exact beq_eq_false_iff_ne.mpr hsingle
    · exact beq_eq_false_iff_ne.mpr hdouble
  rw [stringRun_cons hbackslash, hopen]
  rfl

theorem stringRun_escapeChar (c : Char) (rest : List Char) :
    stringRun quote (Text.escapeChar quote c ++ rest) =
      (stringRun quote rest).map fun (content, n) =>
        (readBack c ++ content, n + (Text.escapeChar quote c).length) := by
  unfold Text.escapeChar
  cases hletter : Text.escapeLetter? c with
  | some letter =>
      dsimp only
      rw [List.cons_append, List.singleton_append, stringRun_backslash,
        unescape_escapeLetter hletter, readBack_of_escapeLetter hletter]
      rfl
  | none =>
      dsimp only
      split_ifs with hq hcontrol
      · -- a quote has no other meaning behind a backslash, and is no control character
        have hself : unescape c = c ∧ readBack c = [c] := by
          rcases hquote with rfl | rfl <;> rw [beq_iff_eq.mp hq] <;> exact ⟨rfl, rfl⟩
        rw [List.cons_append, List.singleton_append, stringRun_backslash, hself.1, hself.2]
        rfl
      · have hx : unescape 'x' = 'x' := rfl
        have hback : readBack c = 'x' :: Text.hexPair c.toNat := by
          simp [readBack, hletter, hcontrol]
        have hcode := toNat_lt_of_isControl hcontrol
        have hhigh : c.toNat / 16 < 16 := by omega
        have hlow : c.toNat % 16 < 16 := Nat.mod_lt _ (by decide)
        rw [List.cons_append, List.cons_append, stringRun_backslash, hx, hback, Text.hexPair,
          List.cons_append, List.singleton_append, stringRun_digitChar hquote hhigh,
          stringRun_digitChar hquote hlow]
        cases stringRun quote rest with
        | none => rfl
        | some found => rfl
      · have hback : readBack c = [c] := by simp [readBack, hletter, hcontrol]
        have hplain := (escapeLetter?_eq_none_iff.mp hletter).1
        rw [List.singleton_append, stringRun_cons hplain, if_neg hq, hback]
        rfl

/-- Reading goes through what escaping wrote, and ends at the closing quote. -/
theorem stringRun_escaped (cs rest : List Char) :
    stringRun quote (cs.flatMap (Text.escapeChar quote) ++ quote :: rest) =
      some (cs.flatMap readBack, (cs.flatMap (Text.escapeChar quote)).length + 1) := by
  induction cs with
  | nil =>
      have hplain : quote ≠ '\\' := by rcases hquote with rfl | rfl <;> decide
      rw [List.flatMap_nil, List.nil_append, stringRun_cons hplain, if_pos (beq_self_eq_true quote)]
      rfl
  | cons c cs ih =>
      rw [List.flatMap_cons, List.append_assoc, stringRun_escapeChar hquote, ih]
      simp only [Option.map_some, List.flatMap_cons, List.length_append]
      congr 2
      omega

theorem scan_escaped (cs rest : List Char) :
    scan quote (cs.flatMap (Text.escapeChar quote) ++ quote :: rest) =
      .ok (.str (String.ofList (cs.flatMap readBack)),
        (cs.flatMap (Text.escapeChar quote)).length + 1) := by
  have hrun := stringRun_escaped hquote cs rest
  rcases hquote with rfl | rfl <;> simp [scan, ofSingle?, hrun]

theorem not_blank_of_quote : Text.isBlank quote = false := by
  rcases hquote with rfl | rfl <;> decide

end Quotes

theorem quoteFor_cases (hasSingle hasDouble : Bool) :
    Text.quoteFor hasSingle hasDouble = '\'' ∨ Text.quoteFor hasSingle hasDouble = '"' := by
  unfold Text.quoteFor
  split
  · exact Or.inr rfl
  · exact Or.inl rfl

theorem Lexed.quoted {cs : List Char}
    (hcs : ∀ c ∈ cs, Text.isControl c = true → c = '\n' ∨ c = '\r' ∨ c = '\t') :
    Lexed (Text.quoted cs) [.str (String.ofList cs)] := by
  intro rest us _ hrest
  have hback : cs.flatMap readBack = cs :=
    flatMap_readBack_eq_self_iff.mpr fun c hc => readBack_eq_self_iff.mpr (hcs c hc)
  have hquote := quoteFor_cases (cs.contains '\'') (cs.contains '"')
  unfold Text.quoted
  generalize Text.quoteFor (cs.contains '\'') (cs.contains '"') = quote at hquote
  have hscan := scan_escaped hquote cs rest
  rw [hback] at hscan
  have hafter : Yields ((cs.flatMap (Text.escapeChar quote) ++ quote :: rest).drop
      ((cs.flatMap (Text.escapeChar quote)).length + 1)) us := by
    rw [← List.drop_drop, List.drop_left]
    exact hrest
  have hall := hafter.token (not_blank_of_quote hquote) hscan
  simpa using hall

/-- A printed string is one token, wherever it stands. -/
theorem tokenizeFrom_quoted (offset : Nat) (cs : List Char) :
    tokenizeFrom offset (Text.quoted cs) =
      .ok [⟨.str (String.ofList (cs.flatMap readBack)), offset⟩] := by
  have hquote := quoteFor_cases (cs.contains '\'') (cs.contains '"')
  unfold Text.quoted
  generalize Text.quoteFor (cs.contains '\'') (cs.contains '"') = quote at hquote
  rw [List.cons_append]
  refine tokenizeFrom_eq_one_iff.mpr
    ⟨not_blank_of_quote hquote, _, scan_escaped hquote cs [], ?_⟩
  have hend : (cs.flatMap (Text.escapeChar quote) ++ [quote]).length =
      (cs.flatMap (Text.escapeChar quote)).length + 1 := by
    rw [List.length_append, List.length_singleton]
  rw [← hend, List.drop_length, tokenizeFrom]

theorem tokenize_repr_str (s : String) : tokenize (Value.str s).repr =
    .ok [⟨.str (String.ofList (s.toList.flatMap readBack)), 0⟩] := by
  have hchars : (Value.str s).chars = Text.quoted s.toList := rfl
  rw [tokenize, Value.repr, String.toList_ofList, hchars, tokenizeFrom_quoted]

/-- A printed string is read as one string token and nothing else. Its content
    is the string with three letters in place of each control character that
    has no letter of its own, and so the string itself just when it has none. -/
theorem tokenize_printed_string (s : String) :
    (∃ content, tokenize (Value.str s).repr = .ok [⟨.str content, 0⟩] ∧
      content.toList = s.toList.flatMap readBack) ∧
    (tokenize (Value.str s).repr = .ok [⟨.str s, 0⟩] ↔
      ∀ c ∈ s.toList, Text.isControl c = true → c = '\n' ∨ c = '\r' ∨ c = '\t') := by
  have htokens := tokenize_repr_str s
  refine ⟨⟨_, htokens, String.toList_ofList⟩, ?_⟩
  have hsame : tokenize (Value.str s).repr = .ok [⟨.str s, 0⟩] ↔
      s.toList.flatMap readBack = s.toList := by
    rw [htokens]
    constructor
    · intro h
      simp only [Except.ok.injEq, List.cons.injEq, Lexeme.mk.injEq, Token.str.injEq, and_true] at h
      rw [← String.toList_ofList (l := s.toList.flatMap readBack), h]
    · intro h
      rw [h, String.ofList_toList]
  rw [hsame, flatMap_readBack_eq_self_iff]
  exact forall₂_congr fun _ _ => readBack_eq_self_iff

/-- The escape of a control character comes back as three letters. -/
theorem tokenize_printed_control :
    tokenize (Value.str "\x01").repr = .ok [⟨.str "x01", 0⟩] ∧
      ¬ ∀ s : String, tokenize (Value.str s).repr = .ok [⟨.str s, 0⟩] := by
  have hread : tokenize (Value.str "\x01").repr = .ok [⟨.str "x01", 0⟩] := tokenize_repr_str "\x01"
  refine ⟨hread, fun h => ?_⟩
  have hsame := (h "\x01").symm.trans hread
  simp at hsame

/-! ## Integers -/

theorem digitsValue_toDigits (m : Nat) : digitsValue (Nat.toDigits 10 m) = m := by
  have hvalue (cs : List Char) : digitsValue cs = Nat.ofDigitChars 10 cs 0 := by
    rw [Nat.ofDigitChars_eq_foldl, digitsValue]
    congr 1
    funext acc c
    rw [Nat.mul_comm]
    rfl
  rw [hvalue, Nat.ofDigitChars_ten_toDigits]

theorem isDigit_of_mem {m : Nat} {c : Char} (h : c ∈ Nat.toDigits 10 m) : c.isDigit = true :=
  Nat.isDigit_of_mem_toDigits (by decide) (by decide) h

/-- The digits of a number in range, with its sign, denote it. -/
theorem intOf?_toDigits {negative : Bool} {m : Nat} {n : Int64}
    (h : n.toInt = if negative then -(m : Int) else m) :
    intOf? negative (Nat.toDigits 10 m) = some n := by
  have hsome : (Nat.toDigits 10 m).isEmpty = false := by
    simp
  have hall : (Nat.toDigits 10 m).all Char.isDigit = true :=
    List.all_eq_true.mpr fun c hc => isDigit_of_mem hc
  simp only [intOf?, digitsValue_toDigits, hsome, hall, ← h]
  rw [if_neg (by decide), if_pos ⟨n.minValue_le_toInt, n.toInt_le⟩, Int64.ofInt_toInt]

theorem not_part_of_number {c : Char} (h : continuesName c = false) :
    (c.isDigit || c == '.' || c == '_') = false := by
  simp only [continuesName, Bool.or_eq_false_iff] at h
  obtain ⟨⟨⟨_, hnumeric⟩, hunder⟩, hpoint⟩ := h
  have hdigit : c.isDigit = false := by
    unfold Text.isNumeric at hnumeric
    split at hnumeric
    case isTrue => exact hnumeric
    case isFalse hbeyond =>
      -- digits are ASCII characters
      have hlast : ¬ c.val ≤ 57 := by
        rw [UInt32.le_iff_toNat_le]
        exact fun hle => hbeyond (Nat.lt_of_le_of_lt hle (by decide))
      simp [Char.isDigit, hlast]
  simp [hdigit, hpoint, hunder]

section Digits

variable {ds : List Char} (hds : ∀ c ∈ ds, c.isDigit = true)
include hds

/-- Digits with a sign, or without one, are read as an integer. -/
theorem ofNumberRun?_digits (negative : Bool) :
    ofNumberRun? ((if negative then ['-'] else []) ++ ds) = (intOf? negative ds).map int := by
  have hwritten : ds.filter (· != '_') = ds := by
    apply List.filter_eq_self.mpr
    intro c hc
    have hne : c ≠ '_' := by
      rintro rfl
      exact absurd (hds _ hc) (by decide)
    simpa using hne
  have hpoint : '.' ∉ ds := fun h => absurd (hds _ h) (by decide)
  cases negative with
  | true => simp [ofNumberRun?, hwritten, hpoint]
  | false =>
      cases ds with
      | nil => rfl
      | cons d tail =>
          have hd : d ≠ '-' := by
            rintro rfl
            exact absurd (hds '-' List.mem_cons_self) (by decide)
          simp [ofNumberRun?, hwritten, hd, hpoint]

theorem takeWhile_digits {rest : List Char} (hrest : Apart rest) :
    (ds ++ rest).takeWhile (fun c => c.isDigit || c == '.' || c == '_') = ds := by
  have hnone : rest.takeWhile (fun c => c.isDigit || c == '.' || c == '_') = [] := by
    cases rest with
    | nil => rfl
    | cons c tail =>
        have hc := not_part_of_number (hrest c rfl)
        rw [List.takeWhile_cons, if_neg (Bool.eq_false_iff.mp hc)]
  have hpart : ∀ c ∈ ds, (c.isDigit || c == '.' || c == '_') = true :=
    fun c hc => by simp [hds c hc]
  rw [List.takeWhile_append_of_pos hpart, hnone, List.append_nil]

/-- They end where something else begins. -/
theorem numberRun_digits (negative : Bool) {rest : List Char} (hrest : Apart rest)
    (hne : ds ≠ []) : numberRun ((if negative then ['-'] else []) ++ ds ++ rest) =
      (if negative then ['-'] else []) ++ ds := by
  cases negative with
  | true => exact congrArg ('-' :: ·) (takeWhile_digits hds hrest)
  | false =>
      cases ds with
      | nil => exact absurd rfl hne
      | cons d tail =>
          have hd : d ≠ '-' := by
            rintro rfl
            exact absurd (hds '-' List.mem_cons_self) (by decide)
          have htake := takeWhile_digits hds hrest
          simpa [numberRun, hd] using htake

end Digits

theorem intChars_eq (n : Int) : intChars n =
    (if decide (n < 0) then ['-'] else []) ++ Nat.toDigits 10 n.natAbs := by
  by_cases h : n < 0
  · simp [intChars, h]
  · simp [intChars, h]

theorem intChars_begins (n : Int) :
    ∃ c tail, intChars n = c :: tail ∧ (c.isDigit || c == '-') = true := by
  rw [intChars_eq]
  cases decide (n < 0) with
  | true => exact ⟨'-', _, rfl, rfl⟩
  | false =>
      obtain ⟨d, ds, hds⟩ := List.exists_cons_of_ne_nil (@Nat.toDigits_ne_nil n.natAbs 10)
      have hd : d ∈ Nat.toDigits 10 n.natAbs := by simp [hds]
      exact ⟨d, ds, hds, by rw [isDigit_of_mem hd, Bool.true_or]⟩

theorem mem_of_beginsNumber {c : Char} (h : (c.isDigit || c == '-') = true) :
    c ∈ '-' :: (List.range 10).map Nat.digitChar := by
  rcases Bool.or_eq_true_iff.mp h with hdigit | hsign
  · simp only [Char.isDigit, Bool.and_eq_true, decide_eq_true_eq, ge_iff_le,
      UInt32.le_iff_toNat_le] at hdigit
    have hlow : 48 ≤ c.toNat := hdigit.1
    have hhigh : c.toNat ≤ 57 := hdigit.2
    refine List.mem_cons_of_mem _ (List.mem_map.mpr ⟨c.toNat - 48, ?_, ?_⟩)
    · rw [List.mem_range]
      omega
    · rw [← Char.toNat_inj, Nat.toNat_digitChar_of_lt_ten (by omega)]
      omega
  · rw [beq_iff_eq.mp hsign]
    exact List.mem_cons_self

/-- A sign or a digit begins a number and nothing else. -/
theorem scan_of_beginsNumber {c : Char} {rest run : List Char} {t : Token}
    (hc : (c.isDigit || c == '-') = true) (hrun : numberRun (c :: rest) = run)
    (ht : ofNumberRun? run = some t) :
    Text.isBlank c = false ∧ scan c rest = .ok (t, run.length - 1) := by
  have hothers : ('-' :: (List.range 10).map Nat.digitChar).all (fun c => !Text.isBlank c &&
      (ofSingle? c).isNone && !(c == '.') && !(c == '\'' || c == '"')) = true := by decide
  have hnone := List.all_eq_true.mp hothers c (mem_of_beginsNumber hc)
  simp only [Bool.and_eq_true, Bool.not_eq_true'] at hnone
  obtain ⟨⟨⟨hblank, hsingle⟩, hpoint⟩, hquote⟩ := hnone
  refine ⟨hblank, ?_⟩
  simp [scan, Option.isNone_iff_eq_none.mp hsingle, hpoint, hquote, hc, hrun, ht]

theorem Lexed.int (n : Int64) : Lexed (intChars n.toInt) [.int n] := by
  intro rest us hrest hyields
  have hds : ∀ c ∈ Nat.toDigits 10 n.toInt.natAbs, c.isDigit = true := fun c => isDigit_of_mem
  have hrun := numberRun_digits hds (decide (n.toInt < 0)) hrest Nat.toDigits_ne_nil
  have hnumber := ofNumberRun?_digits hds (decide (n.toInt < 0))
  have hvalue : intOf? (decide (n.toInt < 0)) (Nat.toDigits 10 n.toInt.natAbs) = some n := by
    apply intOf?_toDigits
    simp only [decide_eq_true_eq]
    split <;> omega
  rw [← intChars_eq] at hrun hnumber
  rw [hvalue, Option.map_some] at hnumber
  obtain ⟨c, tail, hchars, hc⟩ := intChars_begins n.toInt
  rw [hchars] at hnumber
  rw [hchars, List.cons_append] at hrun ⊢
  obtain ⟨hblank, hscan⟩ := scan_of_beginsNumber hc hrun hnumber
  apply Yields.token hblank hscan
  rwa [List.length_cons, Nat.add_sub_cancel, List.drop_left]

end Conform.Token

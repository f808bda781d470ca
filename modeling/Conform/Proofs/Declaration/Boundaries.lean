/-
  Conform.Proofs.Declaration.Boundaries

  Texts are cut between tokens. A text that is cut in front of a token, or at a
  place where no token begins, is read up to there as before, and a text that
  ends in a blank is read the same whatever follows. So the tokens of a part
  are a part of the tokens.

  A token has to know where it ends: reading a name or a number stops at the
  first character that does not belong to it. It is enough that the new rest of
  the text has no longer runs of such characters than the old one (`Shorter`).
-/

import Conform.Proofs.Declaration.Lexing
import Mathlib.Data.List.DropRight

namespace Conform.Token

/-! ## Runs of characters -/

/-- Runs of characters, of any kind that does not include blanks, are no longer
    at the front of the new text than at the front of the old one. -/
def Shorter (old new : List Char) : Prop :=
  ∀ f : Char → Bool, f ' ' = false → new.takeWhile f <+: old.takeWhile f

theorem takeWhile_front {new old : List Char} (h : new <+: old) (f : Char → Bool) :
    new.takeWhile f <+: old.takeWhile f := by
  induction new generalizing old with
  | nil => exact List.nil_prefix
  | cons c new ih =>
      obtain ⟨old, rfl, hnew⟩ := List.cons_prefix_iff.mp h
      rw [List.takeWhile_cons, List.takeWhile_cons]
      split
      · exact (List.prefix_cons_inj c).mpr (ih hnew)
      · exact List.nil_prefix

theorem Shorter.of_front {new old : List Char} (h : new <+: old) : Shorter old new :=
  fun f _ => takeWhile_front h f

theorem Shorter.blank (old rest : List Char) : Shorter old (old ++ ' ' :: rest) := by
  intro f hf
  have hsame : (old ++ ' ' :: rest).takeWhile f = old.takeWhile f := by
    induction old with
    | nil => rw [List.nil_append, List.takeWhile_cons, hf]; rfl
    | cons c old ih => rw [List.cons_append, List.takeWhile_cons, List.takeWhile_cons, ih]
  exact hsame ▸ List.prefix_rfl

/-! ## Strings -/

/-- The character is neither a last backslash nor one before an escaped character. -/
theorem ne_backslash {c : Char} {rest : List Char} (hlast : c = '\\' → rest = [] → False)
    (hescape : ∀ d more, c = '\\' → rest = d :: more → False) : c ≠ '\\' := by
  intro hc
  cases rest with
  | nil => exact hlast hc rfl
  | cons d more => exact hescape d more hc rfl

/-- A string ends at its closing quote, whatever follows. -/
theorem stringRun_local {quote : Char} {rest content : List Char} {n : Nat}
    (h : stringRun quote rest = some (content, n)) :
    n ≤ rest.length ∧ ∀ r, stringRun quote (rest.take n ++ r) = some (content, n) := by
  fun_induction stringRun quote rest generalizing content n with
  | case1 => cases h
  | case2 => cases h
  | case3 c rest ih =>
      obtain ⟨⟨inner, k⟩, hinner, hk⟩ := Option.map_eq_some_iff.mp h
      cases hk
      obtain ⟨hle, hany⟩ := ih hinner
      refine ⟨by simp only [List.length_cons]; omega, fun r => ?_⟩
      rw [List.take_succ_cons, List.take_succ_cons, List.cons_append, List.cons_append,
        stringRun_backslash, hany r]
      rfl
  | case4 c rest hlast hescape hquote =>
      cases h
      refine ⟨by simp, fun r => ?_⟩
      rw [List.take_succ_cons, List.take_zero, List.singleton_append,
        stringRun_cons (ne_backslash hlast hescape), if_pos hquote]
  | case5 c rest hlast hescape hquote ih =>
      obtain ⟨⟨inner, k⟩, hinner, hk⟩ := Option.map_eq_some_iff.mp h
      cases hk
      obtain ⟨hle, hany⟩ := ih hinner
      refine ⟨by simp only [List.length_cons]; omega, fun r => ?_⟩
      rw [List.take_succ_cons, List.cons_append, stringRun_cons (ne_backslash hlast hescape),
        if_neg hquote, hany r]
      rfl

/-! ## Numbers -/

/-- Whether a character may stand in a number, after its sign. -/
def continuesNumber (c : Char) : Bool := c.isDigit || c == '.' || c == '_'

theorem numberRun_cons {c : Char} (hc : (c.isDigit || c == '-') = true) (rest : List Char) :
    numberRun (c :: rest) = c :: rest.takeWhile continuesNumber := by
  by_cases hsign : c = '-'
  · rw [hsign]
    rfl
  · have hdigit : c.isDigit = true := by simpa [hsign] using hc
    have hpart : continuesNumber c = true := by simp [continuesNumber, hdigit]
    have htake : (c :: rest).takeWhile continuesNumber = c :: rest.takeWhile continuesNumber := by
      rw [List.takeWhile_cons, if_pos hpart]
    rw [← htake]
    simp only [numberRun]
    split
    · rename_i hminus
      exact absurd (List.cons.inj hminus).1 hsign
    · rfl

theorem takeWhile_drop_takeWhile (f : Char → Bool) (rest : List Char) :
    (rest.drop (rest.takeWhile f).length).takeWhile f = [] := by
  induction rest with
  | nil => rfl
  | cons c rest ih =>
      by_cases hc : f c = true
      · rw [List.takeWhile_cons, if_pos hc, List.length_cons, List.drop_succ_cons, ih]
      · rw [List.takeWhile_cons, if_neg hc, List.length_nil, List.drop_zero, List.takeWhile_cons,
          if_neg hc]

/-- A run of characters is cut off the same in front of a text with shorter runs. -/
theorem takeWhile_local {f : Char → Bool} (hf : f ' ' = false) {rest r : List Char}
    (h : Shorter (rest.drop (rest.takeWhile f).length) r) :
    (rest.take (rest.takeWhile f).length ++ r).takeWhile f = rest.takeWhile f := by
  have hfront : rest.take (rest.takeWhile f).length = rest.takeWhile f :=
    (List.prefix_iff_eq_take.mp (List.takeWhile_prefix f)).symm
  have hnone : r.takeWhile f = [] := by
    have hshort := h f hf
    rw [takeWhile_drop_takeWhile] at hshort
    exact List.prefix_nil.mp hshort
  rw [hfront, List.takeWhile_append_of_pos fun c hc => List.mem_takeWhile_imp hc, hnone,
    List.append_nil]

/-! ## Names -/

/-- A name is a run of name characters without the dots at its end. -/
theorem takeWhile_eq_nameRun_append (cs : List Char) :
    ∃ dots, cs.takeWhile continuesName = nameRun cs ++ dots ∧ ∀ d ∈ dots, d = '.' := by
  refine ⟨((cs.takeWhile continuesName).reverse.takeWhile (· == '.')).reverse, ?_, ?_⟩
  · rw [nameRun, ← List.reverse_append, List.takeWhile_append_dropWhile, List.reverse_reverse]
  · intro d hd
    have hdot := List.mem_takeWhile_imp (List.mem_reverse.mp hd)
    exact beq_iff_eq.mp hdot

theorem nameRun_local {cs rest r : List Char} (hcs : cs = nameRun cs ++ rest)
    (h : Shorter rest r) : nameRun (nameRun cs ++ r) = nameRun cs := by
  obtain ⟨dots, htake, hdots⟩ := takeWhile_eq_nameRun_append cs
  have hall : ∀ c ∈ nameRun cs, continuesName c = true := by
    intro c hc
    have hmem : c ∈ cs.takeWhile continuesName := by
      rw [htake]
      exact List.mem_append_left dots hc
    exact List.mem_takeWhile_imp hmem
  have hrest : rest.takeWhile continuesName = dots := by
    have hboth := congrArg (List.takeWhile continuesName) hcs
    rw [List.takeWhile_append_of_pos hall, htake] at hboth
    exact (List.append_cancel_left hboth).symm
  -- what the new rest adds to the run are dots, and they are cut off again
  have hnew : ∀ d ∈ (r.takeWhile continuesName).reverse, (d == '.') = true := by
    intro d hd
    have hmem := (h continuesName (by decide)).subset (List.mem_reverse.mp hd)
    rw [hrest] at hmem
    exact beq_iff_eq.mpr (hdots d hmem)
  have htrimmed : (nameRun cs).reverse.dropWhile (· == '.') = (nameRun cs).reverse := by
    rw [nameRun, List.reverse_reverse, List.dropWhile_idempotent]
  calc nameRun (nameRun cs ++ r)
      = ((nameRun cs ++ r.takeWhile continuesName).reverse.dropWhile (· == '.')).reverse := by
        rw [nameRun, List.takeWhile_append_of_pos hall]
    _ = ((nameRun cs).reverse.dropWhile (· == '.')).reverse := by
        rw [List.reverse_append, List.dropWhile_append_of_pos hnew]
    _ = nameRun cs := by rw [htrimmed, List.reverse_reverse]

/-- A name begins with the first character of the text. -/
theorem nameRun_eq_cons {c : Char} (hc : beginsName c = true) (rest : List Char) :
    ∃ n, n ≤ rest.length ∧ nameRun (c :: rest) = c :: rest.take n := by
  obtain ⟨dots, htake, hdots⟩ := takeWhile_eq_nameRun_append (c :: rest)
  have hprefix : nameRun (c :: rest) <+: c :: rest :=
    (List.prefix_append _ dots).trans (htake ▸ List.takeWhile_prefix continuesName)
  cases hrun : nameRun (c :: rest) with
  | nil =>
      -- the first character would be a dot
      have hcontinues : continuesName c = true := by
        rcases Bool.or_eq_true_iff.mp hc with h | h <;> simp [continuesName, h]
      rw [hrun, List.nil_append, List.takeWhile_cons, if_pos hcontinues] at htake
      rw [hdots c (htake ▸ List.mem_cons_self)] at hc
      exact absurd hc (by decide)
  | cons d run =>
      rw [hrun] at hprefix
      obtain ⟨rfl, hrest⟩ := List.cons_prefix_cons.mp hprefix
      exact ⟨run.length, hrest.length_le, by rw [← List.prefix_iff_eq_take.mp hrest]⟩

/-! ## Tokens -/

theorem scan_local_number {c : Char} {rest : List Char} {t : Token}
    (hc : (c.isDigit || c == '-') = true) (ht : ofNumberRun? (numberRun (c :: rest)) = some t)
    {r : List Char} (hr : Shorter (rest.drop (rest.takeWhile continuesNumber).length) r) :
    scan c (rest.take (rest.takeWhile continuesNumber).length ++ r) =
      .ok (t, (rest.takeWhile continuesNumber).length) := by
  have hsame : numberRun (c :: (rest.take (rest.takeWhile continuesNumber).length ++ r)) =
      numberRun (c :: rest) := by
    rw [numberRun_cons hc, numberRun_cons hc, takeWhile_local (by decide) hr]
  have hscan := (scan_of_beginsNumber hc hsame ht).2
  rw [numberRun_cons hc, List.length_cons, Nat.add_sub_cancel] at hscan
  exact hscan

theorem scan_local_name {c : Char} {rest : List Char} {t : Token} {n : Nat}
    (hc : beginsWord c = true) (h : scan c rest = .ok (t, n)) :
    n ≤ rest.length ∧ ∀ r, Shorter (rest.drop n) r → scan c (rest.take n ++ r) = .ok (t, n) := by
  have hbegins : beginsName c = true := (Bool.and_eq_true_iff.mp hc).2
  obtain ⟨k, hk, hrun⟩ := nameRun_eq_cons hbegins rest
  have hlength : (nameRun (c :: rest)).length - 1 = k := by
    rw [hrun, List.length_cons, List.length_take, Nat.min_eq_left hk, Nat.add_sub_cancel]
  rw [scan_of_beginsWord hc, hlength] at h
  cases h
  refine ⟨hk, fun r hr => ?_⟩
  have hcs : c :: rest = nameRun (c :: rest) ++ rest.drop n := by
    rw [hrun, List.cons_append, List.take_append_drop]
  have hsame : nameRun (c :: (rest.take n ++ r)) = nameRun (c :: rest) := by
    rw [← nameRun_local hcs hr, hrun, List.cons_append]
  rw [scan_of_beginsWord hc, hsame, hlength]

/-- A token is read the same in front of a text with shorter runs. -/
theorem scan_local {c : Char} {rest : List Char} {t : Token} {n : Nat}
    (hblank : Text.isBlank c = false) (h : scan c rest = .ok (t, n)) :
    n ≤ rest.length ∧ ∀ r, Shorter (rest.drop n) r → scan c (rest.take n ++ r) = .ok (t, n) := by
  cases hsingle : ofSingle? c with
  | some u =>
      rw [scan, hsingle] at h
      cases h
      exact ⟨Nat.zero_le _, fun r _ => by rw [scan, hsingle]⟩
  | none =>
      have hread := h
      simp only [scan, hsingle] at h
      split_ifs at h with hdots hquote hnumber hbegins
      · cases h
        obtain ⟨hdot, hmore⟩ := Bool.and_eq_true_iff.mp hdots
        obtain ⟨more, rfl⟩ := List.isPrefixOf_iff_prefix.mp hmore
        refine ⟨by simp, fun r _ => ?_⟩
        rw [beq_iff_eq.mp hdot]
        rfl
      · have hpoint : (c == '.') = false := by
          rcases Bool.or_eq_true_iff.mp hquote with hq | hq <;> rw [beq_iff_eq.mp hq] <;> decide
        split at h
        · rename_i content k hrun
          cases h
          obtain ⟨hle, hany⟩ := stringRun_local hrun
          refine ⟨hle, fun r _ => ?_⟩
          simp [scan, hsingle, hpoint, hquote, hany r]
        · cases h
      · split at h
        · rename_i u hrun
          have hlength : (numberRun (c :: rest)).length - 1 =
              (rest.takeWhile continuesNumber).length := by
            rw [numberRun_cons hnumber, List.length_cons, Nat.add_sub_cancel]
          rw [hlength] at h
          cases h
          exact ⟨(List.takeWhile_prefix _).length_le, fun r hr => scan_local_number hnumber hrun hr⟩
        · cases h
      · have hword : beginsWord c = true := by
          simp [beginsWord, hblank, hsingle, hquote, hnumber, hbegins]
        exact scan_local_name hword hread

/-! ## Texts -/

theorem byteLength_cons (c : Char) (cs : List Char) :
    byteLength (c :: cs) = c.utf8Size + byteLength cs := rfl

theorem byteLength_append (cs ds : List Char) :
    byteLength (cs ++ ds) = byteLength cs + byteLength ds := by
  induction cs with
  | nil => rw [List.nil_append, byteLength, byteLength, List.foldr_nil, Nat.zero_add]
  | cons c cs ih =>
      rw [List.cons_append, byteLength_cons, byteLength_cons, ih]
      omega

theorem byteLength_toList (text : String) : byteLength text.toList = text.utf8ByteSize := by
  have hlist (cs : List Char) : byteLength cs = (String.ofList cs).utf8ByteSize := by
    induction cs with
    | nil => rfl
    | cons c cs ih =>
        have happend : String.ofList (c :: cs) = String.ofList [c] ++ String.ofList cs := by
          rw [← String.ofList_append, List.singleton_append]
        have hsingle : (String.ofList [c]).utf8ByteSize = c.utf8Size :=
          String.utf8ByteSize_singleton
        rw [byteLength_cons, happend, String.utf8ByteSize_append, hsingle, ih]
  rw [hlist, String.ofList_toList]

section Texts

variable {offset n : Nat} {c : Char} {cs rest : List Char} {t : Token} {ls : List Lexeme}

theorem exists_of_map_eq_ok {x : Except TextError (List Lexeme)} {f : List Lexeme → List Lexeme}
    (h : x.map f = .ok ls) : ∃ more, x = .ok more ∧ ls = f more := by
  cases x with
  | error e => cases h
  | ok more =>
      cases h
      exact ⟨more, rfl, rfl⟩

theorem tokenizeFrom_cons (hc : Text.isBlank c = false) (hscan : scan c rest = .ok (t, n))
    (offset : Nat) : tokenizeFrom offset (c :: rest) =
      (tokenizeFrom (offset + c.utf8Size + byteLength (rest.take n)) (rest.drop n)).map
        (⟨t, offset⟩ :: ·) := by
  rw [tokenizeFrom, if_neg (Bool.eq_false_iff.mp hc), hscan]
  dsimp only
  cases tokenizeFrom (offset + c.utf8Size + byteLength (rest.take n)) (rest.drop n) <;> rfl

theorem tokenizeFrom_of_scan {later : List Lexeme} (hc : Text.isBlank c = false)
    (hscan : scan c rest = .ok (t, n))
    (hlater : tokenizeFrom (offset + c.utf8Size + byteLength (rest.take n)) (rest.drop n) =
      .ok later) : tokenizeFrom offset (c :: rest) = .ok (⟨t, offset⟩ :: later) := by
  rw [tokenizeFrom_cons hc hscan, hlater]
  rfl

/-- The first token, in front of a text with shorter runs. -/
theorem tokenizeFrom_token {r : List Char} (hc : Text.isBlank c = false)
    (hscan : scan c rest = .ok (t, n)) (hr : Shorter (rest.drop n) r) (offset : Nat) :
    tokenizeFrom offset (c :: (rest.take n ++ r)) =
      (tokenizeFrom (offset + c.utf8Size + byteLength (rest.take n)) r).map
        (⟨t, offset⟩ :: ·) := by
  obtain ⟨hn, hany⟩ := scan_local hc hscan
  have hlength : (rest.take n).length = n := by rw [List.length_take, Nat.min_eq_left hn]
  have htake : (rest.take n ++ r).take n = rest.take n := List.take_left' hlength
  have hdrop : (rest.take n ++ r).drop n = r := List.drop_left' hlength
  rw [tokenizeFrom_cons hc (hany r hr), htake, hdrop]

/-- A blank keeps what follows from what stands before. -/
theorem tokenizeFrom_append_blank (h : tokenizeFrom offset cs = .ok ls) (more : List Char) :
    tokenizeFrom offset (cs ++ ' ' :: more) =
      (tokenizeFrom (offset + byteLength cs + 1) more).map (ls ++ ·) := by
  fun_induction tokenizeFrom offset cs generalizing ls with
  | case1 offset =>
      cases h
      have hbytes : offset + byteLength [] + 1 = offset + ' '.utf8Size := rfl
      rw [List.nil_append, tokenizeFrom, if_pos (by decide), hbytes]
      cases tokenizeFrom (offset + ' '.utf8Size) more <;> rfl
  | case2 offset c rest hblank ih =>
      rw [List.cons_append, tokenizeFrom, if_pos hblank, ih h, byteLength_cons,
        Nat.add_assoc offset]
  | case3 => cases h
  | case4 => cases h
  | case5 offset c rest hblank t n hscan later hlater ih =>
      cases h
      have hsplit : rest ++ ' ' :: more = rest.take n ++ (rest.drop n ++ ' ' :: more) := by
        rw [← List.append_assoc, List.take_append_drop]
      have hbytes : offset + c.utf8Size + byteLength (rest.take n) + byteLength (rest.drop n) =
          offset + byteLength (c :: rest) := by
        have hparts := byteLength_append (rest.take n) (rest.drop n)
        rw [List.take_append_drop] at hparts
        rw [byteLength_cons]
        omega
      rw [List.cons_append, hsplit,
        tokenizeFrom_token (Bool.eq_false_iff.mpr hblank) hscan (.blank _ _), ih hlater, hbytes]
      cases tokenizeFrom (offset + byteLength (c :: rest) + 1) more <;> rfl

/-- The tokens of a text do not depend on where it starts. -/
theorem yields_of_tokenizeFrom (h : tokenizeFrom offset cs = .ok ls) :
    Yields cs (ls.map (·.token)) := by
  fun_induction tokenizeFrom offset cs generalizing ls with
  | case1 offset =>
      cases h
      exact .nil
  | case2 offset c rest hblank ih => exact (ih h).blank hblank
  | case3 => cases h
  | case4 => cases h
  | case5 offset c rest hblank t n hscan later hlater ih =>
      cases h
      exact (ih hlater).token (Bool.eq_false_iff.mpr hblank) hscan

/-- A text is cut in front of any of its tokens, and the first part is read as
    before in front of any part of the second. -/
theorem tokenizeFrom_split {before after : List Lexeme}
    (h : tokenizeFrom offset cs = .ok (before ++ after)) :
    ∃ front back, cs = front ++ back ∧
      (∀ piece ls, piece <+: back → tokenizeFrom (offset + byteLength front) piece = .ok ls →
        tokenizeFrom offset (front ++ piece) = .ok (before ++ ls)) ∧
      tokenizeFrom (offset + byteLength front) back = .ok after ∧
      (after = [] → back = []) ∧
      ∀ l, after.head? = some l → l.offset = offset + byteLength front := by
  generalize hls : before ++ after = ls at h
  fun_induction tokenizeFrom offset cs generalizing before ls with
  | case1 offset =>
      cases h
      obtain ⟨rfl, rfl⟩ := List.append_eq_nil_iff.mp hls
      exact ⟨[], [], rfl, fun _ _ _ => id, by rw [tokenizeFrom], fun _ => rfl, by simp⟩
  | case2 offset c rest hblank ih =>
      obtain ⟨front, back, rfl, hfront, hback, hend, hfirst⟩ := ih _ hls h
      have hbytes : offset + byteLength (c :: front) = offset + c.utf8Size + byteLength front := by
        rw [byteLength_cons]
        omega
      refine ⟨c :: front, back, rfl, fun piece ls hpiece hread => ?_, ?_, hend, ?_⟩
      · rw [hbytes] at hread
        rw [List.cons_append, tokenizeFrom, if_pos hblank, hfront piece ls hpiece hread]
      · rw [hbytes, hback]
      · rw [hbytes]
        exact hfirst
  | case3 => cases h
  | case4 => cases h
  | case5 offset c rest hblank t n hscan later hlater ih =>
      cases h
      cases before with
      | nil =>
          rw [List.nil_append] at hls
          subst hls
          refine ⟨[], c :: rest, rfl, fun _ _ _ => id, ?_, by simp, by simp [byteLength]⟩
          exact tokenizeFrom_of_scan (Bool.eq_false_iff.mpr hblank) hscan hlater
      | cons b before =>
          obtain ⟨rfl, hrests⟩ := List.cons.inj hls
          obtain ⟨front, back, hrest, hfront, hback, hend, hfirst⟩ := ih _ hrests hlater
          have hbytes : offset + byteLength (c :: (rest.take n ++ front)) =
              offset + c.utf8Size + byteLength (rest.take n) + byteLength front := by
            rw [byteLength_cons, byteLength_append]
            omega
          refine ⟨c :: (rest.take n ++ front), back, ?_, fun piece ls hpiece hread => ?_, ?_, hend,
            ?_⟩
          · rw [List.cons_append, List.append_assoc, ← hrest, List.take_append_drop]
          · rw [hbytes] at hread
            have hshorter : Shorter (rest.drop n) (front ++ piece) :=
              .of_front (hrest ▸ (List.prefix_append_right_inj front).mpr hpiece)
            rw [List.cons_append, List.append_assoc,
              tokenizeFrom_token (Bool.eq_false_iff.mpr hblank) hscan hshorter,
              hfront piece ls hpiece hread]
            rfl
          · rw [hbytes, hback]
          · rw [hbytes]
            exact hfirst

theorem tokenizeFrom_front {front back : List Char} {before : List Lexeme}
    (h : ∀ piece ls, piece <+: back → tokenizeFrom (offset + byteLength front) piece = .ok ls →
      tokenizeFrom offset (front ++ piece) = .ok (before ++ ls)) :
    tokenizeFrom offset front = .ok before := by
  have hread := h [] [] List.nil_prefix (by rw [tokenizeFrom])
  rwa [List.append_nil, List.append_nil] at hread

/-- Where a text fails to be read, the part before is read. -/
theorem tokenizeFrom_error {e : TextError} (h : tokenizeFrom offset cs = .error e) :
    ∃ front back before, cs = front ++ back ∧ tokenizeFrom offset front = .ok before ∧
      e.offset = offset + byteLength front := by
  fun_induction tokenizeFrom offset cs with
  | case1 => cases h
  | case2 offset c rest hblank ih =>
      obtain ⟨front, back, before, rfl, hfront, he⟩ := ih h
      refine ⟨c :: front, back, before, rfl, ?_, ?_⟩
      · rw [tokenizeFrom, if_pos hblank, hfront]
      · rw [he, byteLength_cons]
        omega
  | case3 offset c rest hblank cause hscan =>
      cases h
      exact ⟨[], c :: rest, [], rfl, by rw [tokenizeFrom], rfl⟩
  | case4 offset c rest hblank t n hscan e' hlater ih =>
      cases h
      obtain ⟨front, back, before, hrest, hfront, he⟩ := ih hlater
      have hshorter : Shorter (rest.drop n) front := .of_front ⟨back, hrest.symm⟩
      refine ⟨c :: (rest.take n ++ front), back, ⟨t, offset⟩ :: before, ?_, ?_, ?_⟩
      · rw [List.cons_append, List.append_assoc, ← hrest, List.take_append_drop]
      · rw [tokenizeFrom_token (Bool.eq_false_iff.mpr hblank) hscan hshorter, hfront]
        rfl
      · rw [he, byteLength_cons, byteLength_append]
        omega
  | case5 => cases h

end Texts

end Conform.Token

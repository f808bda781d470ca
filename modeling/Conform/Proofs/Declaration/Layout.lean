/-
  Conform.Proofs.Declaration.Layout

  How tokens lie in a text. Going through a text takes it apart into blanks and
  the characters of tokens, and nothing else (`Scanned`): each token begins
  where the blanks before it end, and takes one character at least and none
  beyond the end of the text. So going through a text comes to an end, and the
  places where it stops on the way, which are counted in bytes, are places
  between characters and ascend to the end of the text.
-/

import Conform.Proofs.Declaration.Boundaries

namespace Conform.Token

/-- A text that stands at some offset is gone through from front to back: blanks
    are passed over, a token takes its characters, and so on, up to the end of
    the text or to a character at which no token is found. -/
inductive Scanned : Nat → List Char → Except TextError (List Lexeme) → Prop
  | finish {offset : Nat} {blanks : List Char}
      (hblanks : ∀ b ∈ blanks, Text.isBlank b = true) : Scanned offset blanks (.ok [])
  | fault {offset : Nat} {blanks rest : List Char} {c : Char} {cause : String}
      (hblanks : ∀ b ∈ blanks, Text.isBlank b = true) (hc : Text.isBlank c = false)
      (hscan : scan c rest = .error cause) :
      Scanned offset (blanks ++ c :: rest) (.error ⟨offset + byteLength blanks, cause⟩)
  | token {offset : Nat} {blanks word rest : List Char} {c : Char} {t : Token}
      {outcome : Except TextError (List Lexeme)}
      (hblanks : ∀ b ∈ blanks, Text.isBlank b = true) (hc : Text.isBlank c = false)
      (hscan : scan c (word ++ rest) = .ok (t, word.length))
      (hmore : Scanned (offset + byteLength blanks + byteLength (c :: word)) rest outcome) :
      Scanned offset (blanks ++ c :: (word ++ rest))
        (outcome.map (⟨t, offset + byteLength blanks⟩ :: ·))

/-- The offsets at which tokens begin, and the one at which their text ends. -/
def stops (ls : List Lexeme) (finish : Nat) : List Nat := ls.map (·.offset) ++ [finish]

/-- The tokens of a text begin between characters, one after the other, and the
    text ends after the last of them has begun. -/
structure WellPlaced (text : String) (ls : List Lexeme) : Prop where
  ascending : (stops ls text.utf8ByteSize).Pairwise (· < ·)
  boundaries : ∀ o ∈ stops ls text.utf8ByteSize, (String.Pos.Raw.mk o).IsValid text

/-! ## Going through a text -/

section Scanning

variable {offset : Nat} {cs rest : List Char} {c : Char} {outcome : Except TextError (List Lexeme)}

theorem tokenizeFrom_blanks {blanks : List Char} (h : ∀ b ∈ blanks, Text.isBlank b = true)
    (offset : Nat) (cs : List Char) :
    tokenizeFrom offset (blanks ++ cs) = tokenizeFrom (offset + byteLength blanks) cs := by
  induction blanks generalizing offset with
  | nil => rfl
  | cons b blanks ih =>
      obtain ⟨hb, hblanks⟩ := List.forall_mem_cons.mp h
      rw [List.cons_append, tokenizeFrom, if_pos hb, ih hblanks, byteLength_cons, Nat.add_assoc]

/-- One more blank in front. -/
theorem Scanned.blank (hc : Text.isBlank c = true)
    (h : Scanned (offset + c.utf8Size) rest outcome) : Scanned offset (c :: rest) outcome := by
  have hmore {blanks : List Char} (hblanks : ∀ b ∈ blanks, Text.isBlank b = true) :
      ∀ b ∈ c :: blanks, Text.isBlank b = true := List.forall_mem_cons.mpr ⟨hc, hblanks⟩
  have hbytes (blanks : List Char) :
      offset + c.utf8Size + byteLength blanks = offset + byteLength (c :: blanks) := by
    rw [byteLength_cons, Nat.add_assoc]
  cases h with
  | finish hblanks => exact .finish (hmore hblanks)
  | fault hblanks hd hscan =>
      rw [hbytes, ← List.cons_append]
      exact .fault (hmore hblanks) hd hscan
  | token hblanks hd hscan hrest =>
      rw [hbytes] at hrest ⊢
      rw [← List.cons_append]
      exact .token (hmore hblanks) hd hscan hrest

/-- A token takes no characters beyond the end of the text. -/
theorem Scanned.of_scan {t : Token} {n : Nat} (hc : Text.isBlank c = false)
    (hscan : scan c rest = .ok (t, n))
    (h : Scanned (offset + c.utf8Size + byteLength (rest.take n)) (rest.drop n) outcome) :
    Scanned offset (c :: rest) (outcome.map (⟨t, offset⟩ :: ·)) := by
  have hlength : (rest.take n).length = n :=
    List.length_take_of_le (scan_local hc hscan).1
  have hword : scan c (rest.take n ++ rest.drop n) = .ok (t, (rest.take n).length) := by
    rw [List.take_append_drop, hlength, hscan]
  rw [Nat.add_assoc, ← byteLength_cons] at h
  have hnone : ∀ b ∈ ([] : List Char), Text.isBlank b = true := by simp
  have hscanned := Scanned.token hnone hc hword h
  rw [List.take_append_drop] at hscanned
  exact hscanned

theorem scanned_tokenizeFrom (offset : Nat) (cs : List Char) :
    Scanned offset cs (tokenizeFrom offset cs) := by
  fun_induction tokenizeFrom offset cs with
  | case1 offset => exact .finish (by simp)
  | case2 offset c rest hblank ih => exact ih.blank hblank
  | case3 offset c rest hblank cause hscan =>
      have hnone : ∀ b ∈ ([] : List Char), Text.isBlank b = true := by simp
      exact .fault hnone (Bool.eq_false_iff.mpr hblank) hscan
  | case4 offset c rest hblank t n hscan e hmore ih =>
      rw [hmore] at ih
      exact ih.of_scan (Bool.eq_false_iff.mpr hblank) hscan
  | case5 offset c rest hblank t n hscan more hmore ih =>
      rw [hmore] at ih
      exact ih.of_scan (Bool.eq_false_iff.mpr hblank) hscan

/-- There is one way to go through a text. -/
theorem scanned_iff : Scanned offset cs outcome ↔ tokenizeFrom offset cs = outcome := by
  constructor
  · intro h
    induction h with
    | @finish offset blanks hblanks =>
        rw [← List.append_nil blanks, tokenizeFrom_blanks hblanks, tokenizeFrom]
    | fault hblanks hc hscan =>
        rw [tokenizeFrom_blanks hblanks, tokenizeFrom, if_neg (Bool.eq_false_iff.mp hc), hscan]
    | @token offset blanks word rest c t outcome hblanks hc hscan hmore ih =>
        rw [tokenizeFrom_blanks hblanks, tokenizeFrom_cons hc hscan, List.take_left, List.drop_left,
          Nat.add_assoc _ c.utf8Size, ← byteLength_cons, ih]
  · rintro rfl
    exact scanned_tokenizeFrom offset cs

end Scanning

/-! ## Where it stops -/

section Stops

variable {offset : Nat} {cs : List Char} {ls : List Lexeme}

theorem exists_front_of_mem_stops (h : tokenizeFrom offset cs = .ok ls) {o : Nat}
    (ho : o ∈ stops ls (offset + byteLength cs)) :
    ∃ front back, cs = front ++ back ∧ o = offset + byteLength front := by
  rcases List.mem_append.mp ho with ho | ho
  · obtain ⟨l, hl, rfl⟩ := List.mem_map.mp ho
    obtain ⟨before, after, rfl⟩ := List.append_of_mem hl
    obtain ⟨front, back, hcs, _, _, _, hfirst⟩ := tokenizeFrom_split h
    exact ⟨front, back, hcs, hfirst l rfl⟩
  · exact ⟨cs, [], (List.append_nil cs).symm, List.mem_singleton.mp ho⟩

/-- Each token takes a character, so its offset lies before those that follow. -/
theorem Scanned.ascending (h : Scanned offset cs (.ok ls)) :
    (stops ls (offset + byteLength cs)).Pairwise (· < ·) := by
  generalize houtcome : Except.ok ls = outcome at h
  induction h generalizing ls with
  | finish hblanks =>
      cases houtcome
      exact List.pairwise_singleton _ _
  | fault => cases houtcome
  | @token offset blanks word rest c t outcome hblanks hc hscan hmore ih =>
      obtain ⟨later, rfl, rfl⟩ := exists_of_map_eq_ok houtcome.symm
      have hascending := ih rfl
      have hbytes : offset + byteLength (blanks ++ c :: (word ++ rest)) =
          offset + byteLength blanks + byteLength (c :: word) + byteLength rest := by
        rw [← List.cons_append, byteLength_append, byteLength_append]
        omega
      rw [hbytes]
      refine List.pairwise_cons.mpr ⟨fun o ho => ?_, hascending⟩
      -- what follows lies behind the characters of the token
      obtain ⟨front, _, _, rfl⟩ := exists_front_of_mem_stops (scanned_iff.mp hmore) ho
      have hcharacter := c.utf8Size_pos
      show offset + byteLength blanks < _
      rw [byteLength_cons]
      omega

end Stops

/-- The bytes of the first characters of a text end between characters. -/
theorem isValid_of_front {text : String} {front back : List Char}
    (h : text.toList = front ++ back) : (String.Pos.Raw.mk (byteLength front)).IsValid text := by
  refine String.Pos.Raw.isValid_iff_exists_take_toList.mpr ⟨front.length, ?_⟩
  rw [h, List.take_left, ← byteLength_toList, String.toList_ofList]

theorem wellPlaced_of_tokenize {text : String} {ls : List Lexeme} (h : tokenize text = .ok ls) :
    WellPlaced text ls := by
  have hfinish : 0 + byteLength text.toList = text.utf8ByteSize := by
    rw [Nat.zero_add, byteLength_toList]
  constructor
  · rw [← hfinish]
    exact (scanned_iff.mpr h).ascending
  · intro o ho
    rw [← hfinish] at ho
    obtain ⟨front, back, hcs, rfl⟩ := exists_front_of_mem_stops h ho
    rw [Nat.zero_add]
    exact isValid_of_front hcs

theorem isValid_of_tokenize_error {text : String} {e : TextError} (h : tokenize text = .error e) :
    (String.Pos.Raw.mk e.offset).IsValid text := by
  obtain ⟨front, back, _, hcs, _, he⟩ := tokenizeFrom_error h
  rw [he, Nat.zero_add]
  exact isValid_of_front hcs

end Conform.Token

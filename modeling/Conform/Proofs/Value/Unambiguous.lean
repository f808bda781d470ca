/-
  Conform.Proofs.Value.Unambiguous

  The printed form of a value tells which value it is, as long as no double, no
  memory view, object, class or callable occurs in it.

  What is shown is that printed forms delimit themselves: two of them that agree
  with whatever text follows agree themselves, and so do the texts (`Delimited`).
  Only integers need to know that no digit follows. The first characters tell
  the kind of a value, so values are compared with values of their kind; sets
  and dictionaries alone share their brace, and part at the first colon. Quotes
  depend on the whole content, but both contents are read with the same one.
-/

import Conform.Proofs.Declaration.RoundTrip
import Conform.Text.CharClass

namespace Conform

/-! ## Numbers -/

/-- A text that does not continue a number in front of it. -/
def EndsNumber (cs : List Char) : Prop := ∀ c, cs.head? = some c → c.isDigit = false

theorem EndsNumber.cons {c : Char} (hc : c.isDigit = false) (cs : List Char) :
    EndsNumber (c :: cs) := by
  simpa [EndsNumber] using hc

theorem EndsNumber.nil : EndsNumber [] := by simp [EndsNumber]

theorem toDigits_append_inj {m n : Nat} {r s : List Char} (hr : EndsNumber r) (hs : EndsNumber s)
    (h : Nat.toDigits 10 m ++ r = Nat.toDigits 10 n ++ s) : m = n ∧ r = s := by
  have hnone {t : List Char} (ht : EndsNumber t) : t.takeWhile Char.isDigit = [] := by
    cases t with
    | nil => rfl
    | cons c t => rw [List.takeWhile_cons, ht c rfl]; rfl
  -- the digits are all that can be taken off the front
  have hrun (k : Nat) {t : List Char} (ht : EndsNumber t) :
      (Nat.toDigits 10 k ++ t).takeWhile Char.isDigit = Nat.toDigits 10 k := by
    rw [List.takeWhile_append_of_pos fun c hc => Token.isDigit_of_mem hc, hnone ht,
      List.append_nil]
  have hdigits : Nat.toDigits 10 m = Nat.toDigits 10 n := by
    rw [← hrun m hr, h, hrun n hs]
  refine ⟨?_, List.append_cancel_left (hdigits ▸ h)⟩
  rw [← Token.digitsValue_toDigits m, hdigits, Token.digitsValue_toDigits]

theorem toDigits_append_ne_sign {n : Nat} {r s : List Char} :
    Nat.toDigits 10 n ++ r ≠ '-' :: s := by
  obtain ⟨d, ds, hds⟩ := List.exists_cons_of_ne_nil (@Nat.toDigits_ne_nil n 10)
  have hd : d.isDigit = true := Token.isDigit_of_mem (m := n) (by simp [hds])
  rw [hds, List.cons_append]
  intro h
  have hsign : d = '-' := (List.cons.inj h).1
  rw [hsign] at hd
  exact absurd hd (by decide)

theorem intChars_append_inj {m n : Int} {r s : List Char} (hr : EndsNumber r) (hs : EndsNumber s)
    (h : intChars m ++ r = intChars n ++ s) : m = n ∧ r = s := by
  unfold intChars at h
  split at h <;> split at h
  · obtain ⟨habs, hrest⟩ := toDigits_append_inj hr hs (List.cons.inj h).2
    exact ⟨by omega, hrest⟩
  · exact absurd h.symm toDigits_append_ne_sign
  · exact absurd h toDigits_append_ne_sign
  · obtain ⟨habs, hrest⟩ := toDigits_append_inj hr hs h
    exact ⟨by omega, hrest⟩

theorem int64Chars_append_inj {m n : Int64} {r s : List Char} (hr : EndsNumber r)
    (hs : EndsNumber s) (h : intChars m.toInt ++ r = intChars n.toInt ++ s) : m = n ∧ r = s := by
  obtain ⟨hint, hrest⟩ := intChars_append_inj hr hs h
  exact ⟨Int64.toInt_inj.mp hint, hrest⟩

namespace IntRange

/-- What follows the bounds of a printed range. -/
def stepChars (r : IntRange) : List Char :=
  if r.step == 1 then [')'] else ", ".toList ++ intChars r.step.toInt ++ [')']

theorem chars_eq (r : IntRange) : r.chars =
    "range(".toList ++ (intChars r.start.toInt ++ (", ".toList ++ (intChars r.stop.toInt ++
      r.stepChars))) := by
  unfold chars stepChars
  split <;> simp

theorem stepChars_append_inj {a b : IntRange} {r s : List Char}
    (h : a.stepChars ++ r = b.stepChars ++ s) : a.step = b.step ∧ r = s := by
  unfold stepChars at h
  split at h <;> split at h
  · rename_i ha hb
    exact ⟨(beq_iff_eq.mp ha).trans (beq_iff_eq.mp hb).symm, (List.cons.inj h).2⟩
  · simp at h
  · simp at h
  · simp only [List.append_assoc] at h
    obtain ⟨hstep, hrest⟩ := int64Chars_append_inj (.cons (by decide) _) (.cons (by decide) _)
      (List.append_cancel_left h)
    exact ⟨hstep, (List.cons.inj hrest).2⟩

theorem endsNumber_stepChars (a : IntRange) (r : List Char) : EndsNumber (a.stepChars ++ r) := by
  unfold stepChars
  split
  · exact .cons (by decide) _
  · exact .cons (by decide) _

theorem chars_append_inj {a b : IntRange} {r s : List Char} (h : a.chars ++ r = b.chars ++ s) :
    a = b ∧ r = s := by
  rw [chars_eq, chars_eq] at h
  simp only [List.append_assoc] at h
  have hcomma (cs : List Char) : EndsNumber (", ".toList ++ cs) := .cons (by decide) _
  obtain ⟨hstart, h⟩ := int64Chars_append_inj (hcomma _) (hcomma _) (List.append_cancel_left h)
  obtain ⟨hstop, h⟩ := int64Chars_append_inj (endsNumber_stepChars a r) (endsNumber_stepChars b s)
    (List.append_cancel_left h)
  obtain ⟨hstep, hrest⟩ := stepChars_append_inj h
  obtain ⟨_, _, _⟩ := a
  obtain ⟨_, _, _⟩ := b
  simp_all

end IntRange

/-! ## Quoted contents -/

namespace Text

/-- The first character of a quoted content, with its escape undone, and the
    text after it; nothing at the closing quote. -/
def readEscaped (quote : Char) : List Char → Option (Char × List Char)
  | '\\' :: 'x' :: high :: low :: rest =>
      ((hexNumber? [high, low]).bind charOfCode?).map fun c => (c, rest)
  | '\\' :: c :: rest => some (Token.unescape c, rest)
  | c :: rest => if c == quote then none else some (c, rest)
  | [] => none

theorem hexNumber?_hexPair : ∀ n < 256, hexNumber? (hexPair n) = some n := by decide +kernel

theorem charOfCode?_toNat (c : Char) : charOfCode? c.toNat = some c := by
  have hvalid : c.toNat.isValidChar := c.valid
  have hself := Char.ofNat_toNat c
  rw [Char.ofNat, dif_pos hvalid] at hself
  rw [charOfCode?, dif_pos hvalid, hself]

theorem toNat_ofNat_byte (b : UInt8) : (Char.ofNat b.toNat).toNat = b.toNat := by
  have hb := b.toNat_lt
  have hvalid : b.toNat.isValidChar := by
    left
    omega
  rw [Char.ofNat, dif_pos hvalid]
  rfl

section Escapes

variable {quote : Char} (hquote : quote = '\'' ∨ quote = '"')
include hquote

theorem readEscaped_quote (rest : List Char) : readEscaped quote (quote :: rest) = none := by
  rcases hquote with rfl | rfl <;> rfl

omit hquote in
theorem readEscaped_letter {c letter : Char} (h : escapeLetter? c = some letter)
    (rest : List Char) : readEscaped quote ('\\' :: letter :: rest) = some (c, rest) := by
  unfold escapeLetter? at h
  split_ifs at h <;> cases h <;> simp_all [readEscaped, Token.unescape]

theorem readEscaped_escapedQuote (rest : List Char) :
    readEscaped quote ('\\' :: quote :: rest) = some (quote, rest) := by
  rcases hquote with rfl | rfl <;> rfl

omit hquote in
theorem readEscaped_hexPair (c : Char) (hc : c.toNat < 256) (rest : List Char) :
    readEscaped quote ('\\' :: 'x' :: hexPair c.toNat ++ rest) = some (c, rest) := by
  have hcode := hexNumber?_hexPair c.toNat hc
  unfold hexPair at hcode ⊢
  simp [readEscaped, hcode, charOfCode?_toNat]

omit hquote in
theorem readEscaped_plain {c : Char} (hbackslash : c ≠ '\\') (hc : (c == quote) = false)
    (rest : List Char) : readEscaped quote (c :: rest) = some (c, rest) := by
  unfold readEscaped
  split <;> simp_all

theorem readEscaped_escapeChar (c : Char) (rest : List Char) :
    readEscaped quote (escapeChar quote c ++ rest) = some (c, rest) := by
  unfold escapeChar
  cases hletter : escapeLetter? c with
  | some letter => exact readEscaped_letter hletter rest
  | none =>
      have hbackslash := (Token.escapeLetter?_eq_none_iff.mp hletter).1
      dsimp only
      split_ifs with hq hcontrol
      · rw [beq_iff_eq.mp hq]
        exact readEscaped_escapedQuote hquote rest
      · exact readEscaped_hexPair c (Token.toNat_lt_of_isControl hcontrol) rest
      · exact readEscaped_plain hbackslash (Bool.eq_false_iff.mpr hq) rest

/-- A byte is read back as the character with its code. -/
theorem readEscaped_escapeByte (b : UInt8) (rest : List Char) :
    readEscaped quote (escapeByte quote b ++ rest) = some (Char.ofNat b.toNat, rest) := by
  have hcode := toNat_ofNat_byte b
  have hb := b.toNat_lt
  unfold escapeByte
  dsimp only
  cases hletter : escapeLetter? (Char.ofNat b.toNat) with
  | some letter => exact readEscaped_letter hletter rest
  | none =>
      have hbackslash := (Token.escapeLetter?_eq_none_iff.mp hletter).1
      dsimp only
      split_ifs with hq hprintable
      · rw [beq_iff_eq.mp hq]
        exact readEscaped_escapedQuote hquote rest
      · exact readEscaped_plain hbackslash (Bool.eq_false_iff.mpr hq) rest
      · have hread : readEscaped quote _ = _ :=
          readEscaped_hexPair (Char.ofNat b.toNat) (by omega) rest
        rwa [hcode] at hread

end Escapes

/-- Contents that are read back one item at a time end at the same quote. -/
theorem flatMap_append_inj {α : Type} {write : α → List Char} {code : α → Char} {quote : Char}
    (hcode : Function.Injective code)
    (hread : ∀ a rest, readEscaped quote (write a ++ rest) = some (code a, rest))
    (hend : ∀ rest, readEscaped quote (quote :: rest) = none) {xs ys : List α} {r s : List Char}
    (h : xs.flatMap write ++ quote :: r = ys.flatMap write ++ quote :: s) : xs = ys ∧ r = s := by
  -- no item is written like the closing quote
  have hopen (z : α) (zs : List α) (t u : List Char) :
      (z :: zs).flatMap write ++ t ≠ quote :: u := by
    intro hclosed
    rw [List.flatMap_cons, List.append_assoc] at hclosed
    have hboth := congrArg (readEscaped quote) hclosed
    rw [hend, hread] at hboth
    cases hboth
  induction xs generalizing ys with
  | nil =>
      cases ys with
      | nil => exact ⟨rfl, (List.cons.inj h).2⟩
      | cons y ys => exact absurd h.symm (hopen y ys _ r)
  | cons x xs ih =>
      cases ys with
      | nil => exact absurd h (hopen x xs _ s)
      | cons y ys =>
          rw [List.flatMap_cons, List.append_assoc, List.flatMap_cons, List.append_assoc] at h
          have hboth := congrArg (readEscaped quote) h
          rw [hread, hread] at hboth
          obtain ⟨hfirst, hrest⟩ := Prod.mk.inj (Option.some.inj hboth)
          obtain ⟨rfl, hr⟩ := ih hrest
          exact ⟨by rw [hcode hfirst], hr⟩

theorem quoted_append_inj {cs ds r s : List Char} (h : quoted cs ++ r = quoted ds ++ s) :
    cs = ds ∧ r = s := by
  unfold quoted at h
  have hquote := Token.quoteFor_cases (cs.contains '\'') (cs.contains '"')
  simp only [List.cons_append, List.append_assoc, List.cons.injEq] at h
  rw [← h.1] at h
  exact flatMap_append_inj Function.injective_id (readEscaped_escapeChar hquote)
    (readEscaped_quote hquote) h.2

theorem quotedBytes_append_inj {bs cs : List UInt8} {r s : List Char}
    (h : quotedBytes bs ++ r = quotedBytes cs ++ s) : bs = cs ∧ r = s := by
  unfold quotedBytes at h
  have hquote := Token.quoteFor_cases (bs.contains 0x27) (bs.contains 0x22)
  simp only [List.cons_append, List.append_assoc, List.cons.injEq,
    true_and] at h
  rw [← h.1] at h
  have hcode : Function.Injective fun b : UInt8 => Char.ofNat b.toNat := by
    intro a b hab
    have hnat := congrArg Char.toNat hab
    dsimp only at hnat
    rw [toNat_ofNat_byte, toNat_ofNat_byte] at hnat
    exact UInt8.toNat_inj.mp hnat
  exact flatMap_append_inj hcode (readEscaped_escapeByte hquote) (readEscaped_quote hquote) h.2

end Text

/-! ## Kinds -/

/-- What the first characters of a printed form tell. -/
inductive Opening where
  | none
  | truth (b : Bool)
  | number
  | text
  | bytes
  | byteArray
  | range
  | list
  | tuple
  /-- The brace of a dictionary or of a set, or else the name of the empty set. -/
  | set (brace : Bool)
  | frozenSet

/-- The opening that a text begins with. -/
def opening? : List Char → Option Opening
  | 'N' :: _ => some .none
  | 'T' :: _ => some (.truth true)
  | 'F' :: _ => some (.truth false)
  | '\'' :: _ => some .text
  | '"' :: _ => some .text
  | 'b' :: 'y' :: _ => some .byteArray
  | 'b' :: _ => some .bytes
  | 'r' :: _ => some .range
  | '[' :: _ => some .list
  | '(' :: _ => some .tuple
  | '\x7b' :: _ => some (.set true)
  | 's' :: _ => some (.set false)
  | 'f' :: _ => some .frozenSet
  | c :: _ => if c.isDigit || c == '-' then some .number else Option.none
  | [] => Option.none

theorem opening?_of_isDigit {c : Char} (hc : c.isDigit = true) (rest : List Char) :
    opening? (c :: rest) = some .number := by
  unfold opening?
  split <;> simp_all

theorem opening?_intChars (n : Int) (rest : List Char) :
    opening? (intChars n ++ rest) = some .number := by
  unfold intChars
  split
  · rfl
  · obtain ⟨d, ds, hds⟩ := List.exists_cons_of_ne_nil (@Nat.toDigits_ne_nil n.natAbs 10)
    have hd : d.isDigit = true := Token.isDigit_of_mem (m := n.natAbs) (by simp [hds])
    rw [hds, List.cons_append]
    exact opening?_of_isDigit hd _

theorem opening?_quoted (cs rest : List Char) :
    opening? (Text.quoted cs ++ rest) = some .text := by
  unfold Text.quoted
  dsimp only
  rcases Token.quoteFor_cases (cs.contains '\'') (cs.contains '"') with hq | hq <;> rw [hq] <;> rfl

theorem opening?_quotedBytes (bs : List UInt8) (rest : List Char) :
    opening? (Text.quotedBytes bs ++ rest) = some .bytes := by
  unfold Text.quotedBytes
  dsimp only
  rcases Token.quoteFor_cases (bs.contains 0x27) (bs.contains 0x22) with hq | hq <;> rw [hq] <;> rfl

namespace Value

/-- The values that show all they hold: no double, memory view, object, class
    or callable occurs in them. -/
inductive Shown : Value → Prop
  | none : Shown .none
  | bool (b : Bool) : Shown (.bool b)
  | int (n : Int64) : Shown (.int n)
  | str (s : String) : Shown (.str s)
  | bytes (data : List UInt8) : Shown (.binary .bytes data)
  | byteArray (data : List UInt8) : Shown (.binary .byteArray data)
  | range (r : IntRange) : Shown (.range r)
  | collection (kind : CollectionKind) {items : List Value} (hitems : ∀ v ∈ items, Shown v) :
      Shown (.collection kind items)
  | dict {entries : List (Value × Value)} (hkeys : ∀ e ∈ entries, Shown e.1)
      (hvalues : ∀ e ∈ entries, Shown e.2) : Shown (.dict entries)

/-- The opening of a value's printed form. -/
def opening : Value → Opening
  | .bool b => .truth b
  | .int _ => .number
  | .str _ => .text
  | .binary .bytes _ => .bytes
  | .binary .byteArray _ => .byteArray
  | .range _ => .range
  | .collection .list _ => .list
  | .collection .tuple _ => .tuple
  | .collection .set items => .set !items.isEmpty
  | .collection .frozenSet _ => .frozenSet
  | .dict _ => .set true
  | _ => .none

theorem Shown.opening?_chars {v : Value} (hv : v.Shown) (rest : List Char) :
    opening? (v.chars ++ rest) = some v.opening := by
  cases hv with
  | none => rfl
  | bool b => cases b <;> rfl
  | int n => exact opening?_intChars n.toInt rest
  | str s => exact opening?_quoted s.toList rest
  | bytes data => exact opening?_quotedBytes data rest
  | byteArray data => rfl
  | range r =>
      have hchars : (Value.range r).chars = r.chars := rfl
      rw [hchars, IntRange.chars_eq]
      rfl
  | @collection kind items hitems =>
      have hchars : (Value.collection kind items).chars =
          bracketed kind items.length (joinedChars items) := rfl
      rw [hchars]
      cases kind with
      | list => rfl
      | tuple => rfl
      | set => cases items <;> rfl
      | frozenSet => cases items <;> rfl
  | dict hkeys hvalues => rfl

/-! ## Members -/

/-- A text that ends the members of a collection. -/
def closes : List Char → Bool
  | ',' :: ')' :: _ => true
  | c :: _ => c == ']' || c == ')' || c == '\x7d'
  | [] => false

theorem closes_cases {cs : List Char} (h : closes cs = true) :
    ∃ c rest, cs = c :: rest ∧
      (c = ',' ∧ rest.head? = some ')' ∨ c = ']' ∨ c = ')' ∨ c = '\x7d') := by
  unfold closes at h
  split at h
  · exact ⟨',', _, rfl, .inl ⟨rfl, rfl⟩⟩
  · refine ⟨_, _, rfl, .inr ?_⟩
    simpa [or_assoc] using h
  · cases h

theorem endsNumber_of_closes {cs : List Char} (h : closes cs = true) : EndsNumber cs := by
  obtain ⟨c, rest, rfl, ⟨rfl, -⟩ | rfl | rfl | rfl⟩ := closes_cases h <;> exact .cons (by decide) _

theorem opening?_of_closes {cs : List Char} (h : closes cs = true) : opening? cs = Option.none := by
  obtain ⟨c, rest, rfl, ⟨rfl, -⟩ | rfl | rfl | rfl⟩ := closes_cases h <;> rfl

theorem ne_comma_of_closes {cs : List Char} (h : closes cs = true) (rest : List Char) :
    cs ≠ ", ".toList ++ rest := by
  rintro rfl
  exact absurd h (by simp [closes])

/-- Whatever is written for two items, with what follows each of them, tells
    the items and what follows. -/
def Apart {α : Type} (write : α → List Char) (x y : α) : Prop :=
  ∀ r s, EndsNumber r → EndsNumber s → write x ++ r = write y ++ s → x = y ∧ r = s

section Members

variable {α : Type} {write : α → List Char}

/-- Items with a comma in front of each of them. -/
def further (write : α → List Char) (xs : List α) : List Char :=
  xs.flatMap fun x => ", ".toList ++ write x

theorem intercalate_cons (x : α) (xs : List α) :
    ", ".toList.intercalate ((x :: xs).map write) = write x ++ further write xs := by
  induction xs generalizing x with
  | nil => simp [List.intercalate, further]
  | cons y xs ih =>
      have hrest := ih y
      simp only [List.map_cons, List.intercalate] at hrest ⊢
      rw [List.intersperse_cons_cons, List.flatten_cons, List.flatten_cons, hrest]
      simp [further]

theorem endsNumber_further (xs : List α) {z : List Char} (hz : closes z = true) :
    EndsNumber (further write xs ++ z) := by
  cases xs with
  | nil => exact endsNumber_of_closes hz
  | cons x xs => exact .cons (by decide) _

theorem further_append_inj {xs ys : List α} {z z' : List Char} (hz : closes z = true)
    (hz' : closes z' = true) (hitems : ∀ x ∈ xs, ∀ y ∈ ys, Apart write x y)
    (h : further write xs ++ z = further write ys ++ z') : xs = ys ∧ z = z' := by
  induction xs generalizing ys with
  | nil =>
      cases ys with
      | nil => exact ⟨rfl, h⟩
      | cons y ys =>
          have hcomma := ne_comma_of_closes hz (write y ++ further write ys ++ z')
          simp only [further, List.flatMap_cons, List.append_assoc] at h hcomma
          exact absurd h hcomma
  | cons x xs ih =>
      cases ys with
      | nil =>
          have hcomma := ne_comma_of_closes hz' (write x ++ further write xs ++ z)
          simp only [further, List.flatMap_cons, List.append_assoc] at h hcomma
          exact absurd h.symm hcomma
      | cons y ys =>
          simp only [further, List.flatMap_cons, List.append_assoc] at h
          obtain ⟨hxy, hrest⟩ := hitems x (List.mem_cons_self ..) y (List.mem_cons_self ..) _ _
            (endsNumber_further xs hz) (endsNumber_further ys hz') (List.append_cancel_left h)
          obtain ⟨rfl, hends⟩ := ih
            (fun a ha b hb => hitems a (List.mem_cons_of_mem x ha) b (List.mem_cons_of_mem y hb))
            hrest
          exact ⟨by rw [hxy], hends⟩

/-- Members that are told apart one by one are told apart as a whole. -/
theorem intercalate_append_inj {xs ys : List α} {z z' : List Char} (hz : closes z = true)
    (hz' : closes z' = true) (hitems : ∀ x ∈ xs, ∀ y ∈ ys, Apart write x y)
    (hxs : ∀ x ∈ xs, ∀ r, opening? (write x ++ r) ≠ Option.none)
    (hys : ∀ y ∈ ys, ∀ r, opening? (write y ++ r) ≠ Option.none)
    (h : ", ".toList.intercalate (xs.map write) ++ z =
      ", ".toList.intercalate (ys.map write) ++ z') : xs = ys ∧ z = z' := by
  cases xs with
  | nil =>
      cases ys with
      | nil => exact ⟨rfl, h⟩
      | cons y ys =>
          -- a member does not begin with a closing bracket
          rw [intercalate_cons, List.append_assoc] at h
          have hopens := hys y (List.mem_cons_self ..) (further write ys ++ z')
          rw [← h] at hopens
          exact absurd (opening?_of_closes hz) hopens
  | cons x xs =>
      cases ys with
      | nil =>
          rw [intercalate_cons, List.append_assoc] at h
          have hopens := hxs x (List.mem_cons_self ..) (further write xs ++ z)
          rw [h] at hopens
          exact absurd (opening?_of_closes hz') hopens
      | cons y ys =>
          rw [intercalate_cons, intercalate_cons, List.append_assoc, List.append_assoc] at h
          obtain ⟨hxy, hrest⟩ := hitems x (List.mem_cons_self ..) y (List.mem_cons_self ..) _ _
            (endsNumber_further xs hz) (endsNumber_further ys hz') h
          obtain ⟨rfl, hends⟩ := further_append_inj hz hz'
            (fun a ha b hb => hitems a (List.mem_cons_of_mem x ha) b (List.mem_cons_of_mem y hb))
            hrest
          exact ⟨by rw [hxy], hends⟩

end Members

/-! ## Values -/

/-- The printed form of a value tells the value and the text that follows it. -/
def Delimited (v : Value) : Prop := ∀ w, w.Shown → Apart chars v w

/-- An entry is its key, a colon and its value. -/
def entryChars (entry : Value × Value) : List Char :=
  entry.1.chars ++ (": ".toList ++ entry.2.chars)

theorem entriesChars_eq (entries : List (Value × Value)) :
    entriesChars entries = ", ".toList.intercalate (entries.map entryChars) := by
  induction entries with
  | nil => rfl
  | cons e rest ih =>
      obtain ⟨k, v⟩ := e
      cases rest with
      | nil => simp [entriesChars, entryChars, List.intercalate]
      | cons e' more =>
          rw [entriesChars, ih]
          · simp [entryChars, List.intercalate]
          · simp

theorem Shown.opens {v : Value} (hv : v.Shown) (rest : List Char) :
    opening? (v.chars ++ rest) ≠ Option.none := by
  rw [hv.opening?_chars]
  exact Option.some_ne_none _

theorem apart_entryChars {e e' : Value × Value} (hkey : Apart chars e.1 e'.1)
    (hvalue : Apart chars e.2 e'.2) : Apart entryChars e e' := by
  intro r s hr hs h
  simp only [entryChars, List.append_assoc] at h
  have hcolon (cs : List Char) : EndsNumber (": ".toList ++ cs) := .cons (by decide) _
  obtain ⟨hk, h⟩ := hkey _ _ (hcolon _) (hcolon _) h
  obtain ⟨hv, hrest⟩ := hvalue r s hr hs (List.append_cancel_left h)
  exact ⟨Prod.ext hk hv, hrest⟩

theorem joinedChars_append_inj {xs ys : List Value} {z z' : List Char} (hz : closes z = true)
    (hz' : closes z' = true) (hxs : ∀ x ∈ xs, x.Shown ∧ Delimited x) (hys : ∀ y ∈ ys, y.Shown)
    (h : joinedChars xs ++ z = joinedChars ys ++ z') : xs = ys ∧ z = z' := by
  rw [joinedChars_eq, joinedChars_eq] at h
  exact intercalate_append_inj hz hz' (fun x hx y hy => (hxs x hx).2 y (hys y hy))
    (fun x hx => (hxs x hx).1.opens) (fun y hy => (hys y hy).opens) h

theorem entriesChars_append_inj {es es' : List (Value × Value)} {z z' : List Char}
    (hz : closes z = true) (hz' : closes z' = true)
    (hes : ∀ e ∈ es, (e.1.Shown ∧ Delimited e.1) ∧ Delimited e.2)
    (hes' : ∀ e ∈ es', e.1.Shown ∧ e.2.Shown)
    (h : entriesChars es ++ z = entriesChars es' ++ z') : es = es' ∧ z = z' := by
  have hopens {e : Value × Value} (he : e.1.Shown) (r : List Char) :
      opening? (entryChars e ++ r) ≠ Option.none := by
    rw [entryChars, List.append_assoc]
    exact he.opens _
  rw [entriesChars_eq, entriesChars_eq] at h
  refine intercalate_append_inj hz hz' (fun e he e' he' => ?_) (fun e he => hopens (hes e he).1.1)
    (fun e he => hopens (hes' e he).1) h
  exact apart_entryChars ((hes e he).1.2 e'.1 (hes' e' he').1) ((hes e he).2 e'.2 (hes' e' he').2)

/-- The members of a set are not the entries of a dictionary: after the first of
    them stands no colon. -/
theorem joinedChars_ne_entriesChars {xs : List Value} {es : List (Value × Value)}
    {r s : List Char} (hne : xs ≠ []) (hxs : ∀ x ∈ xs, x.Shown)
    (hapart : ∀ x ∈ xs, ∀ e ∈ es, Apart chars x e.1) :
    joinedChars xs ++ '\x7d' :: r ≠ entriesChars es ++ '\x7d' :: s := by
  intro h
  obtain ⟨x, rest, rfl⟩ := List.exists_cons_of_ne_nil hne
  rw [joinedChars_eq, intercalate_cons, List.append_assoc] at h
  have hx := List.mem_cons_self (a := x) (l := rest)
  cases es with
  | nil =>
      have hopens := (hxs x hx).opens (further chars rest ++ '\x7d' :: r)
      rw [h] at hopens
      exact hopens rfl
  | cons e es =>
      rw [entriesChars_eq, intercalate_cons, entryChars, List.append_assoc, List.append_assoc,
        List.append_assoc] at h
      obtain ⟨-, hcolon⟩ := hapart x hx e (List.mem_cons_self ..) _ _
        (endsNumber_further rest rfl) (.cons (by decide) _) h
      cases rest with
      | nil => exact absurd (List.cons.inj hcolon).1 (by decide)
      | cons y rest => exact absurd (List.cons.inj hcolon).1 (by decide)

theorem bracketed_set {items : List Value} (hne : items ≠ []) (members rest : List Char) :
    bracketed .set items.length members ++ rest = '\x7b' :: (members ++ '\x7d' :: rest) := by
  rw [bracketed, if_neg (List.length_eq_zero_iff.not.mpr hne)]
  simp

theorem bracketed_frozenSet {items : List Value} (hne : items ≠ []) (members rest : List Char) :
    bracketed .frozenSet items.length members ++ rest =
      "frozenset(\x7b".toList ++ (members ++ "\x7d)".toList ++ rest) := by
  rw [bracketed, if_neg (List.length_eq_zero_iff.not.mpr hne)]
  simp

/-- Brackets of one kind tell the members between them. -/
theorem bracketed_append_inj (kind : CollectionKind) {xs ys : List Value} {r s : List Char}
    (hxs : ∀ x ∈ xs, x.Shown ∧ Delimited x) (hys : ∀ y ∈ ys, y.Shown)
    (h : bracketed kind xs.length (joinedChars xs) ++ r =
      bracketed kind ys.length (joinedChars ys) ++ s) : xs = ys ∧ r = s := by
  cases kind with
  | list =>
      simp only [bracketed, List.cons_append, List.append_assoc, List.cons.injEq, true_and] at h
      obtain ⟨hitems, hrest⟩ := joinedChars_append_inj rfl rfl hxs hys h
      exact ⟨hitems, (List.cons.inj hrest).2⟩
  | tuple =>
      have hcloses (n : Nat) (cs : List Char) :
          closes ((if n = 1 then [',', ')'] else [')']) ++ cs) = true := by
        split <;> rfl
      simp only [bracketed, List.cons_append, List.append_assoc, List.cons.injEq, true_and] at h
      obtain ⟨rfl, hrest⟩ := joinedChars_append_inj (hcloses _ r) (hcloses _ s) hxs hys h
      exact ⟨rfl, List.append_cancel_left hrest⟩
  | set =>
      rcases eq_or_ne xs [] with rfl | hxs' <;> rcases eq_or_ne ys [] with rfl | hys'
      · exact ⟨rfl, List.append_cancel_left h⟩
      · rw [bracketed_set hys'] at h
        exact absurd (List.cons.inj h).1 (by decide)
      · rw [bracketed_set hxs'] at h
        exact absurd (List.cons.inj h).1 (by decide)
      · rw [bracketed_set hxs', bracketed_set hys'] at h
        obtain ⟨hitems, hrest⟩ := joinedChars_append_inj rfl rfl hxs hys (List.cons.inj h).2
        exact ⟨hitems, (List.cons.inj hrest).2⟩
  | frozenSet =>
      -- the parenthesis is either closed at once or followed by a brace
      rcases eq_or_ne xs [] with rfl | hxs' <;> rcases eq_or_ne ys [] with rfl | hys'
      · exact ⟨rfl, List.append_cancel_left h⟩
      · rw [bracketed_frozenSet hys'] at h
        simp [bracketed] at h
      · rw [bracketed_frozenSet hxs'] at h
        simp [bracketed] at h
      · rw [bracketed_frozenSet hxs', bracketed_frozenSet hys', List.append_assoc,
          List.append_assoc] at h
        obtain ⟨hitems, hrest⟩ := joinedChars_append_inj rfl rfl hxs hys
          (List.append_cancel_left h)
        exact ⟨hitems, List.append_cancel_left hrest⟩

/-- Two values whose printed forms open in the same way. -/
inductive Alike : Value → Value → Prop
  | none : Alike .none .none
  | bool (b : Bool) : Alike (.bool b) (.bool b)
  | int (m n : Int64) : Alike (.int m) (.int n)
  | str (s t : String) : Alike (.str s) (.str t)
  | binary (kind : BinaryKind) (data data' : List UInt8) :
      Alike (.binary kind data) (.binary kind data')
  | range (a b : IntRange) : Alike (.range a) (.range b)
  | collection (kind : CollectionKind) (xs ys : List Value) :
      Alike (.collection kind xs) (.collection kind ys)
  | dict (es es' : List (Value × Value)) : Alike (.dict es) (.dict es')
  | setDict {xs : List Value} (hne : xs ≠ []) (es : List (Value × Value)) :
      Alike (.collection .set xs) (.dict es)
  | dictSet (es : List (Value × Value)) {ys : List Value} (hne : ys ≠ []) :
      Alike (.dict es) (.collection .set ys)

theorem alike_of_opening_eq {v w : Value} (hv : v.Shown) (hw : w.Shown)
    (h : v.opening = w.opening) : Alike v w := by
  have hne {items : List Value} (h : Opening.set (!items.isEmpty) = .set true) : items ≠ [] := by
    rintro rfl
    cases h
  cases hv with
  | collection kind _ =>
      cases hw with
      | collection kind' _ => cases kind <;> cases kind' <;> simp [opening] at h <;> constructor
      | dict _ _ =>
          cases kind with
          | set => exact .setDict (hne h) _
          | _ => cases h
      | _ => cases kind <;> cases h
  | dict _ _ =>
      cases hw with
      | collection kind _ =>
          cases kind with
          | set => exact .dictSet _ (hne h.symm)
          | _ => cases h
      | dict _ _ => constructor
      | _ => cases h
  | _ =>
      cases hw with
      | collection kind _ => cases kind <;> cases h
      | _ => cases h <;> constructor

/-- Printed forms with equal beginnings belong to values that are alike. -/
theorem Shown.alike {v w : Value} (hv : v.Shown) (hw : w.Shown) {r s : List Char}
    (h : v.chars ++ r = w.chars ++ s) : Alike v w := by
  have hboth := congrArg opening? h
  rw [hv.opening?_chars, hw.opening?_chars] at hboth
  exact alike_of_opening_eq hv hw (Option.some.inj hboth)

theorem dict_chars_append (es : List (Value × Value)) (rest : List Char) :
    (Value.dict es).chars ++ rest = '\x7b' :: (entriesChars es ++ '\x7d' :: rest) := by
  have hchars : (Value.dict es).chars = '\x7b' :: entriesChars es ++ ['\x7d'] := rfl
  rw [hchars]
  simp

theorem collection_chars (kind : CollectionKind) (items : List Value) :
    (Value.collection kind items).chars = bracketed kind items.length (joinedChars items) := rfl

theorem byteArray_chars_append (data : List UInt8) (rest : List Char) :
    (Value.binary .byteArray data).chars ++ rest =
      "bytearray(".toList ++ (Text.quotedBytes data ++ ')' :: rest) := by
  have hchars : (Value.binary .byteArray data).chars =
      "bytearray(".toList ++ Text.quotedBytes data ++ [')'] := rfl
  rw [hchars]
  simp

/-- Printed forms delimit themselves. -/
theorem Shown.delimited {v : Value} (hv : v.Shown) : Delimited v := by
  induction hv with
  | none =>
      intro w hw r s _ _ h
      cases Shown.none.alike hw h
      exact ⟨rfl, List.append_cancel_left h⟩
  | bool b =>
      intro w hw r s _ _ h
      cases (Shown.bool b).alike hw h
      exact ⟨rfl, List.append_cancel_left h⟩
  | int m =>
      intro w hw r s hr hs h
      cases (Shown.int m).alike hw h with | int _ n =>
      have hchars (k : Int64) : (Value.int k).chars = intChars k.toInt := rfl
      rw [hchars, hchars] at h
      obtain ⟨hn, hrest⟩ := int64Chars_append_inj hr hs h
      exact ⟨by rw [hn], hrest⟩
  | str text =>
      intro w hw r s _ _ h
      cases (Shown.str text).alike hw h with | str _ text' =>
      have hchars (t : String) : (Value.str t).chars = Text.quoted t.toList := rfl
      rw [hchars, hchars] at h
      obtain ⟨htext, hrest⟩ := Text.quoted_append_inj h
      exact ⟨by rw [String.toList_inj.mp htext], hrest⟩
  | bytes data =>
      intro w hw r s _ _ h
      cases (Shown.bytes data).alike hw h with | binary _ _ data' =>
      have hchars (bs : List UInt8) : (Value.binary .bytes bs).chars = Text.quotedBytes bs := rfl
      rw [hchars, hchars] at h
      obtain ⟨hdata, hrest⟩ := Text.quotedBytes_append_inj h
      exact ⟨by rw [hdata], hrest⟩
  | byteArray data =>
      intro w hw r s _ _ h
      cases (Shown.byteArray data).alike hw h with | binary _ _ data' =>
      rw [byteArray_chars_append, byteArray_chars_append] at h
      obtain ⟨hdata, hrest⟩ := Text.quotedBytes_append_inj (List.append_cancel_left h)
      exact ⟨by rw [hdata], (List.cons.inj hrest).2⟩
  | range a =>
      intro w hw r s _ _ h
      cases (Shown.range a).alike hw h with | range _ b =>
      obtain ⟨hab, hrest⟩ := IntRange.chars_append_inj h
      exact ⟨by rw [hab], hrest⟩
  | @collection kind items hitems ih =>
      intro w hw r s _ _ h
      cases (Shown.collection kind hitems).alike hw h with
      | collection _ _ items' =>
          cases hw with | collection _ hitems' =>
          rw [collection_chars, collection_chars] at h
          obtain ⟨heq, hrest⟩ := bracketed_append_inj kind
            (fun x hx => ⟨hitems x hx, ih x hx⟩) hitems' h
          exact ⟨by rw [heq], hrest⟩
      | setDict hne entries =>
          cases hw with | dict hkeys _ =>
          rw [collection_chars, bracketed_set hne, dict_chars_append] at h
          exact absurd (List.cons.inj h).2 (joinedChars_ne_entriesChars hne hitems
            fun x hx e he => ih x hx e.1 (hkeys e he))
  | @dict entries hkeys hvalues ihkeys ihvalues =>
      intro w hw r s _ _ h
      cases (Shown.dict hkeys hvalues).alike hw h with
      | dict _ entries' =>
          cases hw with | dict hkeys' hvalues' =>
          rw [dict_chars_append, dict_chars_append] at h
          obtain ⟨heq, hrest⟩ := entriesChars_append_inj rfl rfl
            (fun e he => ⟨⟨hkeys e he, ihkeys e he⟩, ihvalues e he⟩)
            (fun e he => ⟨hkeys' e he, hvalues' e he⟩) (List.cons.inj h).2
          exact ⟨by rw [heq], (List.cons.inj hrest).2⟩
      | dictSet _ hne =>
          cases hw with | collection _ hitems =>
          rw [dict_chars_append, collection_chars, bracketed_set hne] at h
          refine absurd (List.cons.inj h).2.symm (joinedChars_ne_entriesChars hne hitems ?_)
          intro x hx e he r s hr hs hxe
          obtain ⟨hkey, hrest⟩ := ihkeys e he x (hitems x hx) s r hs hr hxe.symm
          exact ⟨hkey.symm, hrest.symm⟩

/-- The printed form tells the value. -/
theorem repr_eq_repr_iff {v w : Value} (hv : v.Shown) (hw : w.Shown) :
    v.repr = w.repr ↔ v = w := by
  refine ⟨fun h => ?_, fun h => by rw [h]⟩
  have hchars : v.chars = w.chars := String.ofList_inj.mp h
  have hnil : v.chars ++ [] = w.chars ++ [] := by rw [hchars]
  exact (hv.delimited w hw [] [] .nil .nil hnil).1

/-- A set with the member `1: 'a'` is not printed like the dictionary with that
    entry. -/
theorem repr_ne_repr_set_dict :
    (Value.collection .set [.str "1: 'a'"]).Shown ∧
      (Value.dict [(.int 1, .str "a")]).Shown ∧
      (Value.collection .set [.str "1: 'a'"]).repr ≠ (Value.dict [(.int 1, .str "a")]).repr := by
  have hset : (Value.collection .set [.str "1: 'a'"]).Shown :=
    .collection .set (List.forall_mem_singleton.mpr (.str _))
  have hdict : (Value.dict [(.int 1, .str "a")]).Shown :=
    .dict (List.forall_mem_singleton.mpr (.int 1)) (List.forall_mem_singleton.mpr (.str "a"))
  refine ⟨hset, hdict, fun h => ?_⟩
  cases (repr_eq_repr_iff hset hdict).mp h

end Value

end Conform

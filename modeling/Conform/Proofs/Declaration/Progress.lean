/-
  Conform.Proofs.Declaration.Progress

  Reading a declaration comes to an end within its text. Readers go along the
  tokens in one direction: what a reader leaves is the rest of what it found, and
  an error is reported at a token of that rest or at its end (`GoesOn`). The
  readers of types and literals take a token at least.

  Readers that repeat themselves or each other are given a bound, at which they
  give up. They never do. To say so without trusting the answer at the bound,
  which other errors share, a reader is taken apart into rounds (`rounds`), with
  anything at all done when no round is left: as long as the bound exceeds the
  number of tokens ahead, the answer is the reader's. The reason is that a round
  goes on with another one on fewer tokens only (`Descends`).
-/

import Conform.Proofs.Declaration.Blame
import Conform.Proofs.Declaration.Layout

namespace Conform.Declaration

open TokenStream

/-! ## What readers leave -/

/-- What is left of a stream after some of its tokens. -/
structure TokenStream.After (r s : TokenStream) : Prop where
  ahead : r.ahead <:+ s.ahead
  finish : r.finish = s.finish

namespace TokenStream.After

variable {q r s : TokenStream}

theorem refl (s : TokenStream) : s.After s := ⟨List.suffix_rfl, rfl⟩

theorem trans (h : q.After r) (h' : r.After s) : q.After s :=
  ⟨h.ahead.trans h'.ahead, h.finish.trans h'.finish⟩

theorem advance (h : r.After s) : r.advance.After s :=
  ⟨(List.tail_suffix r.ahead).trans h.ahead, h.finish⟩

theorem length_le (h : r.After s) : r.ahead.length ≤ s.ahead.length := h.ahead.length_le

end TokenStream.After

theorem TokenStream.after_advance (s : TokenStream) : s.advance.After s := (After.refl s).advance

/-- What reading from a stream comes to: some rest of the stream, after a least
    number of tokens, or an error at a token of the stream or at its end. -/
def Onward {α : Type} (s : TokenStream) (least : Nat) : Except TextError (α × TokenStream) → Prop
  | .ok (_, r) => r.After s ∧ r.ahead.length + least ≤ s.ahead.length
  | .error e => ∃ r : TokenStream, r.After s ∧ e.offset = r.offset

/-- A reader goes along the tokens, and takes a least number of them. -/
def GoesOn {α : Type} (read : Reader α) (least : Nat) : Prop := ∀ s, Onward s least (read s)

section Onward

variable {α β : Type} {r s : TokenStream} {m n : Nat} {x : Except TextError (α × TokenStream)}

theorem Onward.fault (h : r.After s) (n : Nat) (cause : String) :
    Onward s n (r.error cause : Except TextError (α × TokenStream)) :=
  ⟨r, h, rfl⟩

theorem Onward.earlier (h : Onward r m x) (hr : r.After s)
    (hlength : r.ahead.length + n ≤ s.ahead.length + m) : Onward s n x := by
  cases x with
  | error e =>
      obtain ⟨q, hq, he⟩ := h
      exact ⟨q, hq.trans hr, he⟩
  | ok read =>
      obtain ⟨hafter, htaken⟩ := h
      exact ⟨hafter.trans hr, by omega⟩

theorem Onward.bind (h : Onward s m x) {f : α × TokenStream → Except TextError (β × TokenStream)}
    (hf : ∀ a r, r.After s → r.ahead.length + m ≤ s.ahead.length → Onward s n (f (a, r))) :
    Onward s n (x >>= f) := by
  cases x with
  | error e => exact h
  | ok read => exact hf read.1 read.2 h.1 h.2

theorem GoesOn.of_ok {read : Reader α} (h : GoesOn read m) {a : α} (hread : read s = .ok (a, r)) :
    r.After s ∧ r.ahead.length + m ≤ s.ahead.length := by
  have honward := h s
  rw [hread] at honward
  exact honward

theorem GoesOn.weaken {read : Reader α} (h : GoesOn read m) (hle : n ≤ m) : GoesOn read n :=
  fun s => (h s).earlier (.refl s) (by omega)

end Onward

/-! ## Readers of lists -/

theorem separated_goesOn {α : Type} {item : Reader α} (h : GoesOn item 1) (fuel : Nat) :
    GoesOn (separated item fuel) 1 := by
  induction fuel with
  | zero => exact fun s => .fault (.refl s) 1 _
  | succ fuel ih =>
      intro s
      rw [separated]
      refine (h s).bind fun a r hr hlength => ?_
      have hadvance := hr.advance
      have hshorter := r.after_advance.length_le
      dsimp only
      split
      · split
        · exact ⟨hadvance, by omega⟩
        · have hmore : Onward s 1 (separated item fuel r.advance) :=
            (ih r.advance).earlier hadvance (by omega)
          exact hmore.bind fun _ q hq htaken => ⟨hq, htaken⟩
      · exact ⟨hr, hlength⟩

theorem literalItem_goesOn : GoesOn literalItem 1 := by
  intro s
  unfold literalItem
  split
  · rename_i v hv
    obtain ⟨t, ht, _⟩ := Option.bind_eq_some_iff.mp hv
    exact ⟨s.after_advance, length_advance_lt ht⟩
  · exact .fault s.after_advance 1 _

theorem afterBalanced_goesOn {α : Type} (a : α) (depth : Nat) :
    GoesOn (fun s => do
      let ahead ← afterBalanced s.finish depth s.ahead
      return (a, { s with ahead })) 0 := by
  rintro ⟨ahead, last⟩
  dsimp only
  fun_induction afterBalanced last depth ahead with
  | case1 depth => exact ⟨⟨[], last⟩, .refl _, rfl⟩
  | case2 l more hright => exact ⟨.refl _, Nat.le_refl _⟩
  | case3 l more hright depth ih => exact ih.earlier ⟨List.suffix_cons l more, rfl⟩ (by simp)
  | case4 depth l more hleft ih => exact ih.earlier ⟨List.suffix_cons l more, rfl⟩ (by simp)
  | case5 depth l more hright hleft ih => exact ih.earlier ⟨List.suffix_cons l more, rfl⟩ (by simp)

/-! ## Readers of terms and unions -/

section Terms

variable {nested : Reader Declaration} (h : GoesOn nested 1) (fuel : Nat)

include h

theorem typeArguments_goesOn (kind : Container) : GoesOn (typeArguments nested fuel kind) 1 := by
  intro s
  unfold typeArguments
  split
  · rename_i htuple
    have hleft : s.peek? = some .leftParen := by
      rw [peek?_eq]
      exact (isAt_iff .leftParen rfl).mp (Bool.and_eq_true_iff.mp htuple).2
    have hadvance := s.after_advance
    have htaken := length_advance_lt hleft
    have hshorter := s.advance.after_advance.length_le
    dsimp only
    split
    · exact ⟨hadvance.advance, by omega⟩
    · exact .fault hadvance 1 _
  · exact separated_goesOn h fuel s

theorem arguments_goesOn (name : String) : GoesOn (arguments nested fuel name) 0 := by
  intro s
  have hlist := (separated_goesOn h fuel).weaken (Nat.zero_le 1) s
  unfold arguments
  split_ifs
  · have hvalues := (separated_goesOn literalItem_goesOn fuel).weaken (Nat.zero_le 1) s
    exact hvalues.bind fun _ r hr hlength => ⟨hr, hlength⟩
  · split
    · exact ⟨s.after_advance, s.after_advance.length_le⟩
    · exact .fault s.after_advance 0 _
  · refine hlist.bind fun args r hr hlength => ?_
    dsimp only
    split
    · exact ⟨hr, hlength⟩
    · exact .fault hr 0 _
  · exact hlist.bind fun _ r hr hlength => ⟨hr, hlength⟩
  · exact afterBalanced_goesOn callable 0 s
  · split
    · rename_i kind _
      have htypes := (typeArguments_goesOn h fuel kind).weaken (Nat.zero_le 1) s
      exact htypes.bind fun _ r hr hlength => ⟨hr, hlength⟩
    · exact .fault (.refl s) 0 _

theorem namedTerm_goesOn (name : String) : GoesOn (namedTerm nested fuel name) 0 := by
  intro s
  unfold namedTerm
  split_ifs
  · have hadvance := s.after_advance
    have hshorter := hadvance.length_le
    have harguments : Onward s 0 (arguments nested fuel name s.advance) :=
      (arguments_goesOn h fuel name s.advance).earlier hadvance (by omega)
    refine harguments.bind fun d r hr hlength => ?_
    dsimp only
    split
    · exact ⟨hr.advance, hr.advance.length_le⟩
    · exact .fault hr 0 _
  · exact .fault (.refl s) 0 _
  · exact ⟨.refl s, Nat.le_refl _⟩

theorem term_goesOn : GoesOn (term nested fuel) 1 := by
  intro s
  have hadvance := s.after_advance
  unfold term
  split
  · rename_i hpeek
    exact ⟨hadvance, length_advance_lt hpeek⟩
  · rename_i raw hpeek
    have htaken := length_advance_lt hpeek
    exact (namedTerm_goesOn h fuel _ s.advance).earlier hadvance (by omega)
  all_goals exact .fault hadvance 1 _

end Terms

theorem furtherMembers_goesOn {member : Reader Declaration} (h : GoesOn member 1) (fuel : Nat) :
    GoesOn (furtherMembers member fuel) 0 := by
  induction fuel with
  | zero => exact fun s => .fault (.refl s) 0 _
  | succ fuel ih =>
      intro s
      unfold furtherMembers
      split
      · have hadvance := s.after_advance
        have hshorter := hadvance.length_le
        have hmember : Onward s 0 (member s.advance) :=
          (h s.advance).earlier hadvance (by omega)
        refine hmember.bind fun d r hr hlength => ?_
        have hmore : Onward s 0 (furtherMembers member fuel r) := (ih r).earlier hr hlength
        exact hmore.bind fun _ q hq htaken => ⟨hq, htaken⟩
      · exact ⟨.refl s, Nat.le_refl _⟩

theorem unionReader_goesOn (fuel : Nat) : GoesOn (unionReader fuel) 1 := by
  induction fuel with
  -- giving up at the bound is an error at the next token
  | zero => exact fun s => .fault (.refl s) 1 _
  | succ fuel ih =>
      intro s
      have hterm := term_goesOn ih (fuel + 1)
      rw [unionReader]
      refine (hterm s).bind fun first r hr hlength => ?_
      have hmore : Onward s 1 (furtherMembers (term (unionReader fuel) (fuel + 1)) (fuel + 1) r) :=
        (furtherMembers_goesOn hterm (fuel + 1) r).earlier hr hlength
      refine hmore.bind fun more q hq htaken => ?_
      dsimp only
      split <;> exact ⟨hq, htaken⟩

/-- The readers of which reading a declaration consists go along the tokens.
    Those of unions, terms, and lists of types and literals take one at least. -/
structure ReadersGoOn (bound fuel : Nat) : Prop where
  advance : ∀ s : TokenStream, s.advance.After s
  union : GoesOn (unionReader bound) 1
  term : GoesOn (Declaration.term (unionReader bound) fuel) 1
  types : GoesOn (separated (unionReader bound) fuel) 1
  typeArguments : ∀ kind, GoesOn (Declaration.typeArguments (unionReader bound) fuel kind) 1
  literals : GoesOn (separated literalItem fuel) 1
  furtherMembers :
    GoesOn (Declaration.furtherMembers (Declaration.term (unionReader bound) fuel) fuel) 0
  namedTerm : ∀ name, GoesOn (Declaration.namedTerm (unionReader bound) fuel name) 0
  arguments : ∀ name, GoesOn (Declaration.arguments (unionReader bound) fuel name) 0
  balanced : ∀ depth, GoesOn (fun s => do
    let ahead ← afterBalanced s.finish depth s.ahead
    return ((), { s with ahead })) 0

theorem readersGoOn (bound fuel : Nat) : ReadersGoOn bound fuel :=
  have hunion := unionReader_goesOn bound
  { advance := after_advance
    union := hunion
    term := term_goesOn hunion fuel
    types := separated_goesOn hunion fuel
    typeArguments := typeArguments_goesOn hunion fuel
    literals := separated_goesOn literalItem_goesOn fuel
    furtherMembers := furtherMembers_goesOn (term_goesOn hunion fuel) fuel
    namedTerm := namedTerm_goesOn hunion fuel
    arguments := arguments_goesOn hunion fuel
    balanced := afterBalanced_goesOn () }

/-! ## Rounds -/

/-- A recursion with a bound on its rounds: each round is given what is left of
    the recursion, and `out` is done when no round is left. -/
def rounds {α : Type} (body : Nat → Reader α → Reader α) (out : Reader α) : Nat → Reader α
  | 0 => out
  | n + 1 => body (n + 1) (rounds body out n)

/-- One round of reading a list: an item, and then the list goes on or ends. -/
def listRound {α : Type} (item : Reader α) (_ : Nat) (again : Reader (List α)) :
    Reader (List α) := fun s => do
  let (first, s) ← item s
  if s.isAt .comma then
    let s := s.advance
    if s.isAt .rightBracket then return ([first], s)
    else
      let (more, s) ← again s
      return (first :: more, s)
  else return ([first], s)

/-- One round of reading the members of a union: a bar and a member, or the end. -/
def membersRound (member : Reader Declaration) (_ : Nat) (again : Reader (List Declaration)) :
    Reader (List Declaration) := fun s =>
  if s.isAt .pipe then do
    let (d, s) ← member s.advance
    let (more, s) ← again s
    return (d :: more, s)
  else .ok ([], s)

/-- One round of reading unions, which takes care of one level of brackets. -/
def unionRound (bound : Nat) (again : Reader Declaration) : Reader Declaration := fun s => do
  let (first, s) ← term again bound s
  let (more, s) ← furtherMembers (term again bound) bound s
  if more.isEmpty then return (first, s) else return (unionOf (first :: more), s)

/-- A reader with a bound is a recursion that ends by itself where fewer tokens
    are ahead: whatever were done at the bound, it is not done. -/
def EndsBefore {α : Type} (read : Nat → Reader α) (body : Nat → Reader α → Reader α) : Prop :=
  ∀ (out : Reader α) (n : Nat) (s : TokenStream), s.ahead.length < n →
    rounds body out n s = read n s

/-- A round goes on with what is left of the recursion on fewer tokens only, if
    that goes along the tokens itself. -/
def Descends {α : Type} (body : Nat → Reader α → Reader α) (least : Nat) : Prop :=
  ∀ (n : Nat) (again again' : Reader α) (s : TokenStream), GoesOn again' least →
    (∀ r, r.ahead.length < s.ahead.length → again r = again' r) → body n again s = body n again' s

theorem endsBefore_of_descends {α : Type} {read : Nat → Reader α} {least : Nat}
    {body : Nat → Reader α → Reader α} (hround : ∀ n, read (n + 1) = body (n + 1) (read n))
    (hread : ∀ n, GoesOn (read n) least) (h : Descends body least) : EndsBefore read body := by
  intro out n
  induction n with
  | zero =>
      intro s hs
      cases hs
  | succ n ih =>
      intro s hs
      rw [rounds, hround]
      -- with one round fewer, the streams that are left have a token fewer at least
      exact h (n + 1) _ _ s (hread n) fun r hr => ih r (by omega)

theorem bind_congr_of_ok {α β : Type} {x : Except TextError (α × TokenStream)}
    {f g : α × TokenStream → Except TextError β}
    (h : ∀ a r, x = .ok (a, r) → f (a, r) = g (a, r)) : (x >>= f) = (x >>= g) := by
  cases x with
  | error e => rfl
  | ok read => exact h read.1 read.2 rfl

/-- An item takes a token, so the list goes on with fewer of them. -/
theorem listRound_descends {α : Type} {item : Reader α} (h : GoesOn item 1) :
    Descends (listRound item) 1 := by
  intro n again again' s _ hagain
  refine bind_congr_of_ok fun a r hread => ?_
  have hlength := (h.of_ok hread).2
  dsimp only
  split
  · have hshorter := r.after_advance.length_le
    split
    · rfl
    · rw [hagain r.advance (by omega)]
  · rfl

theorem membersRound_descends {member : Reader Declaration} (h : GoesOn member 1) :
    Descends (membersRound member) 0 := by
  intro n again again' s _ hagain
  unfold membersRound
  split
  · refine bind_congr_of_ok fun d r hread => ?_
    have hlength := (h.of_ok hread).2
    have hshorter := s.after_advance.length_le
    dsimp only
    rw [hagain r (by omega)]
  · rfl

/-! ## Nested unions -/

section Nested

variable {s : TokenStream}

theorem separated_congr {α : Type} {item item' : Reader α} (hitem : GoesOn item' 0)
    (h : ∀ r, r.ahead.length ≤ s.ahead.length → item r = item' r) (fuel : Nat) :
    separated item fuel s = separated item' fuel s := by
  induction fuel generalizing s with
  | zero => rfl
  | succ fuel ih =>
      rw [separated, separated, h s (Nat.le_refl _)]
      refine bind_congr_of_ok fun a r hread => ?_
      have hlength := (hitem.of_ok hread).2
      have hshorter := r.after_advance.length_le
      dsimp only
      rw [ih fun q hq => h q (by omega)]

theorem furtherMembers_congr {member member' : Reader Declaration} (hmember : GoesOn member' 0)
    (h : ∀ r, r.ahead.length ≤ s.ahead.length → member r = member' r) (fuel : Nat) :
    furtherMembers member fuel s = furtherMembers member' fuel s := by
  induction fuel generalizing s with
  | zero => rfl
  | succ fuel ih =>
      have hshorter := s.after_advance.length_le
      rw [furtherMembers, furtherMembers, h s.advance hshorter]
      split
      · refine bind_congr_of_ok fun d r hread => ?_
        have hlength := (hmember.of_ok hread).2
        dsimp only
        rw [ih fun q hq => h q (by omega)]
      · rfl

variable {nested nested' : Reader Declaration} (hnested : GoesOn nested' 0) (fuel : Nat)

include hnested

theorem arguments_congr (h : ∀ r, r.ahead.length ≤ s.ahead.length → nested r = nested' r)
    (name : String) : arguments nested fuel name s = arguments nested' fuel name s := by
  have hlist := separated_congr hnested h fuel
  have htypes (kind : Container) :
      typeArguments nested fuel kind s = typeArguments nested' fuel kind s := by
    simp only [typeArguments, hlist]
  simp only [arguments, hlist, htypes]

/-- The name in front of arguments is taken before they are read. -/
theorem term_congr (h : ∀ r, r.ahead.length < s.ahead.length → nested r = nested' r) :
    term nested fuel s = term nested' fuel s := by
  unfold term
  split
  · rfl
  · rename_i raw hpeek
    have htaken := length_advance_lt hpeek
    have hshorter := s.advance.after_advance.length_le
    -- the arguments stand behind the name and a bracket
    have harguments := arguments_congr (s := s.advance.advance) hnested fuel
      (fun r hr => h r (by omega)) (withoutModule raw)
    simp only [namedTerm, harguments]
  all_goals rfl

end Nested

theorem unionRound_descends : Descends unionRound 1 := by
  intro n again again' s hagain' hagain
  have hnested := hagain'.weaken (Nat.zero_le 1)
  have hterm := term_goesOn hagain' n
  unfold unionRound
  rw [term_congr hnested n hagain]
  refine bind_congr_of_ok fun first r hread => ?_
  -- the first term has been taken, so the other members stand in a shorter stream
  have hlength := (hterm.of_ok hread).2
  have hmembers : furtherMembers (term again n) n r = furtherMembers (term again' n) n r :=
    furtherMembers_congr (hterm.weaken (Nat.zero_le 1))
      (fun q hq => term_congr hnested n fun p hp => hagain p (by omega)) n
  dsimp only
  rw [hmembers]

/-- The readers with a bound end before they meet it. A declaration is read with
    one more than the number of its tokens for a bound, and what is read inside
    a round has the bound of that round. -/
structure ReadersEnd (bound fuel : Nat) : Prop where
  unions : EndsBefore unionReader unionRound
  types : EndsBefore (separated (unionReader bound)) (listRound (unionReader bound))
  literals : EndsBefore (separated literalItem) (listRound literalItem)
  members : EndsBefore (furtherMembers (term (unionReader bound) fuel))
    (membersRound (term (unionReader bound) fuel))

theorem readersEnd (bound fuel : Nat) : ReadersEnd bound fuel := by
  have hunion := unionReader_goesOn bound
  have hterm := term_goesOn hunion fuel
  constructor
  · exact endsBefore_of_descends (fun _ => rfl) unionReader_goesOn unionRound_descends
  · exact endsBefore_of_descends (fun _ => rfl) (separated_goesOn hunion)
      (listRound_descends hunion)
  · exact endsBefore_of_descends (fun _ => rfl) (separated_goesOn literalItem_goesOn)
      (listRound_descends literalItem_goesOn)
  · exact endsBefore_of_descends (fun _ => rfl) (furtherMembers_goesOn hterm)
      (membersRound_descends hterm)

/-! ## Places of errors -/

section Places

variable {ls : List Lexeme} {finish : Nat}

/-- The end of the text stands behind the last token, and a stream that has come
    to it stays there. -/
theorem stops_getElem? (i : Nat) :
    (Token.stops ls finish)[min i ls.length]? = some (TokenStream.offset ⟨ls.drop i, finish⟩) := by
  rcases Nat.lt_or_ge i ls.length with hi | hi
  · have hoffset : i < (ls.map (·.offset)).length := by rwa [List.length_map]
    rw [Nat.min_eq_left (Nat.le_of_lt hi), Token.stops, List.getElem?_append_left hoffset,
      List.getElem?_map, List.getElem?_eq_getElem hi, List.drop_eq_getElem_cons hi]
    rfl
  · have hend : (ls.map (·.offset)).length ≤ ls.length := by rw [List.length_map]
    rw [Nat.min_eq_right hi, Token.stops, List.getElem?_append_right hend, List.length_map,
      Nat.sub_self, List.drop_eq_nil_of_le hi]
    rfl

theorem offset_mem_stops {r : TokenStream} (h : r.After ⟨ls, finish⟩) :
    r.offset ∈ Token.stops ls finish := by
  obtain ⟨ahead, last⟩ := r
  obtain rfl : last = finish := h.finish
  have hahead : ahead = ls.drop (ls.length - ahead.length) := List.suffix_iff_eq_drop.mp h.ahead
  rw [hahead]
  exact List.mem_of_getElem? (stops_getElem? _)

theorem exists_after_of_error {e : TextError} (h : ofTokens ls finish = .error e) :
    ∃ r : TokenStream, r.After ⟨ls, finish⟩ ∧ e.offset = r.offset := by
  have honward := unionReader_goesOn (ls.length + 1) ⟨ls, finish⟩
  unfold ofTokens at h
  cases hread : unionReader (ls.length + 1) ⟨ls, finish⟩ with
  | error e' =>
      rw [hread] at h honward
      cases h
      exact honward
  | ok read =>
      obtain ⟨d, r⟩ := read
      rw [hread] at h honward
      simp only [bind, Except.bind] at h
      split at h
      · cases h
      · cases h
        exact ⟨r, honward.1, rfl⟩

end Places

theorem isValid_of_parse_error {text : String} {e : TextError} (h : parse text = .error e) :
    (String.Pos.Raw.mk e.offset).IsValid text := by
  unfold parse at h
  cases htokens : Token.tokenize text with
  | error e' =>
      rw [htokens] at h
      cases h
      exact Token.isValid_of_tokenize_error htokens
  | ok ls =>
      rw [htokens] at h
      obtain ⟨r, hr, he⟩ := exists_after_of_error h
      rw [he]
      exact (Token.wellPlaced_of_tokenize htokens).boundaries _ (offset_mem_stops hr)

/-- Reading a declaration makes progress and stays within its text. The text is
    gone through in one way, from blanks to tokens, and the tokens ascend along
    its characters up to its end, which is where the stream that is read from
    them ends. The readers go along the tokens, those of types and literals with
    a token at least, and end by themselves. An error names a place between
    characters of the text. -/
theorem reading_progresses_within_text :
    (∀ (text : String) (outcome : Except TextError (List Lexeme)),
      Token.Scanned 0 text.toList outcome ↔ Token.tokenize text = outcome) ∧
    (∀ (text : String) (ls : List Lexeme), Token.tokenize text = .ok ls →
      Token.WellPlaced text ls ∧ parse text = ofTokens ls text.utf8ByteSize ∧
        ∀ i, (Token.stops ls text.utf8ByteSize)[min i ls.length]? =
          some (TokenStream.offset ⟨ls.drop i, text.utf8ByteSize⟩)) ∧
    (∀ bound fuel, ReadersGoOn bound fuel ∧ ReadersEnd bound fuel) ∧
    (∀ (text : String) (e : TextError), parse text = .error e →
      (String.Pos.Raw.mk e.offset).IsValid text ∧ e.offset ≤ text.utf8ByteSize) := by
  refine ⟨fun text outcome => Token.scanned_iff, fun text ls h => ⟨?_, ?_, stops_getElem?⟩,
    fun bound fuel => ⟨readersGoOn bound fuel, readersEnd bound fuel⟩, fun text e h => ?_⟩
  · exact Token.wellPlaced_of_tokenize h
  · rw [parse, h]
    rfl
  · have hvalid := isValid_of_parse_error h
    exact ⟨hvalid, hvalid.le_rawEndPos⟩

/-- Letters of two bytes: the tokens begin at 0, 3 and 5, and the string, which
    should be a type, is reported at the end of the text. -/
theorem reading_progresses_within_text_accented :
    ∃ ls e, Token.tokenize "é | 'ü'" = .ok ls ∧ ls.map (·.offset) = [0, 3, 5] ∧
      Token.WellPlaced "é | 'ü'" ls ∧ parse "é | 'ü'" = .error e ∧ e.offset = 9 ∧
      (String.Pos.Raw.mk e.offset).IsValid "é | 'ü'" ∧ e.offset ≤ "é | 'ü'".utf8ByteSize := by
  have htokens : Token.tokenizeFrom 0 ['é', ' ', '|', ' ', '\'', 'ü', '\''] =
      .ok [⟨.name "é", 0⟩, ⟨.pipe, 3⟩, ⟨.str "ü", 5⟩] := by
    apply Token.tokenizeFrom_of_scan (by decide) rfl
    show Token.tokenizeFrom 2 [' ', '|', ' ', '\'', 'ü', '\''] = _
    rw [Token.tokenizeFrom, if_pos (by decide)]
    apply Token.tokenizeFrom_of_scan (by decide) rfl
    show Token.tokenizeFrom 4 [' ', '\'', 'ü', '\''] = _
    rw [Token.tokenizeFrom, if_pos (by decide)]
    apply Token.tokenizeFrom_of_scan (by decide) rfl
    show Token.tokenizeFrom 9 [] = _
    rw [Token.tokenizeFrom]
  have htext : Token.tokenize "é | 'ü'" = _ := htokens
  have hparse : parse "é | 'ü'" =
      .error ⟨9, "literal values are only allowed inside `Literal[...]`"⟩ := by
    rw [parse, htext]
    rfl
  exact ⟨_, _, htext, rfl, (reading_progresses_within_text.2.1 _ _ htext).1, hparse, rfl,
    reading_progresses_within_text.2.2.2 _ _ hparse⟩

end Conform.Declaration

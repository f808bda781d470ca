/-
  Conform.Proofs.Declaration.Recogniser

  What may follow the first tokens of a declaration. A recogniser goes through
  the tokens once and keeps a stack of what is still due. It refuses a token as
  soon as no declaration goes on so: whatever stack it arrives at, some further
  tokens settle it (`accepts_closing`).

  It differs from a reader of declarations in two places. `Annotated`, which has
  no meaning with or without arguments, is refused at once, and so is a second
  argument of `Optional`.
-/

import Conform.Proofs.Declaration.Grammar

namespace Conform.Declaration

/-! ## Dues -/

/-- The items of a list of arguments. -/
inductive Item where
  | union
  | literal

/-- Something that may or must still come. -/
inductive Due where
  | term
  | literal
  | className
  /-- The members of a union after the first. -/
  | members
  /-- The arguments of a name. -/
  | suffix (name : String)
  | close
  /-- What may follow an item of a list: a comma, and perhaps more items. -/
  | further (item : Item)
  /-- What may follow a comma of a list: an item, unless the list ends. -/
  | another (item : Item)
  /-- The comma after the only argument of `Optional`. -/
  | finalComma
  | tupleArguments
  | rightParen
  /-- Tokens with balanced brackets, inside a number of open ones. -/
  | balanced (depth : Nat)

/-- What is due when a list of arguments begins. -/
def Item.dues : Item → List Due
  | union => [.term, .members]
  | literal => [.literal]

/-- What is due between the brackets after a name, if it takes arguments. -/
def argumentsDue? (name : String) : Option (List Due) :=
  if name == "Literal" then some [.literal, .further .literal]
  else if name == "Type" || name == "type" then some [.className]
  else if name == "Optional" then some [.term, .members, .finalComma]
  else if name == "Union" then some [.term, .members, .further .union]
  else if name == "Callable" then some [.balanced 0]
  else match Container.ofName? name with
    | some .tuple => some [.tupleArguments]
    | some _ => some [.term, .members, .further .union]
    | Option.none => Option.none

/-! ## Moves -/

/-- What a due makes of the next token, or of the end. -/
inductive Move where
  /-- The token is taken, and leaves these dues. -/
  | shift (dues : List Due)
  /-- The due is not taken up; the token is for the next one. -/
  | skip
  | refuse

/-- The first token of a term. -/
def termMove (after : List Due) : Option Token → Move
  | some .ellipsis => .shift after
  | some (.name raw) =>
      if withoutModule raw == "Annotated" then .refuse
      else .shift (.suffix (withoutModule raw) :: after)
  | _ => .refuse

def literalMove (after : List Due) (next : Option Token) : Move :=
  if (next.bind literalOf?).isSome then .shift after else .refuse

/-- The first token of an item. -/
def Item.move (after : List Due) : Item → Option Token → Move
  | union, next => termMove (.members :: after) next
  | literal, next => literalMove after next

namespace Due

def move : Due → Option Token → Move
  | term, next => termMove [] next
  | literal, next => literalMove [] next
  | className, next => match next with
      | some (.name _) => .shift []
      | _ => .refuse
  | members, next => match next with
      | some .pipe => .shift [term, members]
      | _ => .skip
  | suffix name, next => match next with
      | some .leftBracket => match argumentsDue? name with
          | some dues => .shift (dues ++ [close])
          | Option.none => .refuse
      | _ => if needsArguments name then .refuse else .skip
  | close, next => match next with
      | some .rightBracket => .shift []
      | _ => .refuse
  | further item, next => match next with
      | some .comma => .shift [another item]
      | _ => .skip
  | another item, next => match next with
      | some .rightBracket => .skip
      | _ => item.move [further item] next
  | finalComma, next => match next with
      | some .comma => .shift []
      | _ => .skip
  | tupleArguments, next => match next with
      | some .leftParen => .shift [rightParen]
      | _ => Item.union.move [further .union] next
  | rightParen, next => match next with
      | some .rightParen => .shift []
      | _ => .refuse
  | balanced depth, next => match next with
      | some .leftBracket => .shift [balanced (depth + 1)]
      | some .rightBracket => match depth with
          | 0 => .skip
          | depth + 1 => .shift [balanced depth]
      | some _ => .shift [balanced depth]
      | Option.none => .skip

/-- The token a due is there for, where there is one such token. -/
def awaited? : Due → Option Token
  | members => some .pipe
  | suffix _ => some .leftBracket
  | close | another _ => some .rightBracket
  | further _ | finalComma => some .comma
  | tupleArguments => some .leftParen
  | rightParen => some .rightParen
  | term | literal | className | balanced _ => Option.none

/-- What a due makes of any other token. -/
def otherwise : Due → Option Token → Move
  | members, _ | further _, _ | finalComma, _ => .skip
  | suffix name, _ => if needsArguments name then .refuse else .skip
  | another item, next => item.move [further item] next
  | tupleArguments, next => Item.union.move [further .union] next
  | _, _ => .refuse

theorem move_of_ne {due : Due} {t : Token} {next : Option Token} (hdue : due.awaited? = some t)
    (h : next ≠ some t) : due.move next = due.otherwise next := by
  cases due <;> cases hdue <;> simp only [move, otherwise]

theorem balanced_move_of_ne {t : Token} (depth : Nat) (hleft : t ≠ .leftBracket)
    (hright : t ≠ .rightBracket) : (balanced depth).move (some t) = .shift [balanced depth] := by
  cases t with
  | leftBracket => exact absurd rfl hleft
  | rightBracket => exact absurd rfl hright
  | _ => rfl

end Due

/-! ## Runs -/

/-- The stack after the next token; at the end nothing may be due any more. -/
def consume : List Due → Option Token → Option (List Due)
  | [], Option.none => some []
  | [], some _ => Option.none
  | due :: stack, next =>
      match due.move next with
      | .shift dues => some (dues ++ stack)
      | .skip => consume stack next
      | .refuse => Option.none

/-- The stack after some tokens. -/
def run (stack : List Due) (ts : List Token) : Option (List Due) :=
  ts.foldlM (fun stack t => consume stack (some t)) stack

/-- Whether tokens settle all that is due. -/
def accepts (stack : List Due) (ts : List Token) : Bool :=
  ((run stack ts).bind (consume · Option.none)).isSome

/-- What is due at the beginning. -/
def start : List Due := [.term, .members]

section Runs

variable {due : Due} {stack dues : List Due} {next : Option Token} {t : Token} {ts us : List Token}

theorem consume_of_shift (h : due.move next = .shift dues) :
    consume (due :: stack) next = some (dues ++ stack) := by
  rw [consume, h]

theorem consume_of_skip (h : due.move next = .skip) :
    consume (due :: stack) next = consume stack next := by
  rw [consume, h]

theorem consume_of_refuse (h : due.move next = .refuse) :
    consume (due :: stack) next = Option.none := by
  rw [consume, h]

theorem run_cons (stack : List Due) (t : Token) (ts : List Token) :
    run stack (t :: ts) = (consume stack (some t)).bind (run · ts) := by
  rw [run, List.foldlM_cons]
  rfl

theorem run_append (stack : List Due) (ts us : List Token) :
    run stack (ts ++ us) = (run stack ts).bind (run · us) := by
  rw [run, List.foldlM_append]
  rfl

theorem run_snoc {stack' : List Due} (h : run stack ts = some stack') (t : Token) :
    run stack (ts ++ [t]) = consume stack' (some t) := by
  rw [run_append, h, Option.bind_some, run_cons]
  exact Option.bind_fun_some _

theorem accepts_nil (stack : List Due) :
    accepts stack [] = (consume stack Option.none).isSome := rfl

theorem accepts_append {stack' : List Due} (h : run stack ts = some stack') (us : List Token) :
    accepts stack (ts ++ us) = accepts stack' us := by
  rw [accepts, run_append, h, Option.bind_some, accepts]

theorem accepts_of_shift (dues : List Due) (h : due.move (some t) = .shift dues) :
    accepts (due :: stack) (t :: ts) = accepts (dues ++ stack) ts := by
  rw [accepts, run_cons, consume_of_shift h, Option.bind_some, accepts]

theorem accepts_of_skip (h : due.move ts.head? = .skip) :
    accepts (due :: stack) ts = accepts stack ts := by
  have hskip : consume (due :: stack) ts.head? = consume stack ts.head? := consume_of_skip h
  cases ts with
  | nil => exact congrArg Option.isSome hskip
  | cons t ts =>
      rw [List.head?_cons] at hskip
      rw [accepts, accepts, run_cons, run_cons, hskip]

/-- Where tokens are refused, one of them is the first. -/
theorem run_eq_none_iff :
    run stack ts = Option.none ↔
      ∃ before t after stack', ts = before ++ t :: after ∧ run stack before = some stack' ∧
        consume stack' (some t) = Option.none := by
  constructor
  · intro h
    induction ts generalizing stack with
    | nil => cases h
    | cons t ts ih =>
        rw [run_cons] at h
        cases hstep : consume stack (some t) with
        | none => exact ⟨[], t, ts, stack, rfl, rfl, hstep⟩
        | some stack' =>
            rw [hstep, Option.bind_some] at h
            obtain ⟨before, u, after, last, rfl, hbefore, hu⟩ := ih h
            refine ⟨t :: before, u, after, last, rfl, ?_, hu⟩
            rw [run_cons, hstep, Option.bind_some, hbefore]
  · rintro ⟨before, t, after, last, rfl, hbefore, ht⟩
    rw [run_append, hbefore, Option.bind_some, run_cons, ht]
    rfl

end Runs

/-! ## Stacks can be settled -/

namespace Due

/-- Tokens that settle a due. -/
def closing : Due → List Token
  | term | literal | className | another _ | tupleArguments => [.name "None"]
  | suffix name =>
      if needsArguments name then [.leftBracket, .name "None", .rightBracket] else []
  | close => [.rightBracket]
  | rightParen => [.rightParen]
  | balanced depth => List.replicate depth .rightBracket
  | members | further _ | finalComma => []

/-- The dues that wait for others to be settled. -/
def isLow : Due → Bool
  | members | close | further _ | finalComma => true
  | _ => false

end Due

/-- Only what is due first is not low. Arguments of `Annotated` are never due. -/
def Tidy : List Due → Prop
  | [] => True
  | due :: stack => due ≠ .suffix "Annotated" ∧ stack.all Due.isLow = true

/-- Tokens that settle a stack. -/
def closing (stack : List Due) : List Token := stack.flatMap Due.closing

section Closing

variable {due : Due} {stack dues : List Due} {next : Option Token}

theorem Tidy.of_low (h : stack.all Due.isLow = true) : Tidy stack := by
  cases stack with
  | nil => trivial
  | cons due stack =>
      obtain ⟨hdue, hstack⟩ := Bool.and_eq_true_iff.mp h
      refine ⟨?_, hstack⟩
      rintro rfl
      cases hdue

theorem low_append {after : List Due} (hafter : after.all Due.isLow = true)
    (hstack : stack.all Due.isLow = true) : (after ++ stack).all Due.isLow = true := by
  rw [List.all_append, hafter, hstack]
  rfl

theorem argumentsDue?_tidy {name : String} (h : argumentsDue? name = some dues)
    (hstack : stack.all Due.isLow = true) : Tidy (dues ++ [.close] ++ stack) := by
  unfold argumentsDue? at h
  split_ifs at h
  case neg => split at h <;> cases h <;> exact ⟨by simp, hstack⟩
  all_goals
    cases h
    exact ⟨by simp, hstack⟩

theorem termMove_tidy {after : List Due} (h : termMove after next = .shift dues)
    (hafter : after.all Due.isLow = true) (hstack : stack.all Due.isLow = true) :
    Tidy (dues ++ stack) := by
  have hlow := low_append hafter hstack
  unfold termMove at h
  split at h
  · cases h
    exact .of_low hlow
  · split_ifs at h with hname
    cases h
    refine ⟨fun hsuffix => hname ?_, hlow⟩
    exact beq_iff_eq.mpr (Due.suffix.inj hsuffix)
  · cases h

theorem literalMove_tidy {after : List Due} (h : literalMove after next = .shift dues)
    (hafter : after.all Due.isLow = true) (hstack : stack.all Due.isLow = true) :
    Tidy (dues ++ stack) := by
  unfold literalMove at h
  split_ifs at h
  cases h
  exact .of_low (low_append hafter hstack)

theorem Item.move_tidy {item : Item} {after : List Due} (h : item.move after next = .shift dues)
    (hafter : after.all Due.isLow = true) (hstack : stack.all Due.isLow = true) :
    Tidy (dues ++ stack) := by
  cases item with
  | union => exact termMove_tidy h hafter hstack
  | literal => exact literalMove_tidy h hafter hstack

/-- A taken token leaves a tidy stack. -/
theorem Due.move_tidy (h : due.move next = .shift dues) (hstack : stack.all Due.isLow = true) :
    Tidy (dues ++ stack) := by
  cases due with
  | term => exact termMove_tidy h rfl hstack
  | literal => exact literalMove_tidy h rfl hstack
  | suffix name =>
      simp only [Due.move] at h
      split at h
      · split at h
        · cases h
          exact argumentsDue?_tidy (by assumption) hstack
        · cases h
      · split_ifs at h
  | another item =>
      simp only [Due.move] at h
      split at h
      · cases h
      · exact Item.move_tidy h rfl hstack
  | tupleArguments =>
      simp only [Due.move] at h
      split at h
      · cases h
        exact ⟨by simp, hstack⟩
      · exact Item.move_tidy h rfl hstack
  | balanced depth =>
      simp only [Due.move] at h
      split at h
      · cases h
        exact ⟨by simp, hstack⟩
      · split at h <;> cases h
        exact ⟨by simp, hstack⟩
      · cases h
        exact ⟨by simp, hstack⟩
      · cases h
  | members | further _ =>
      simp only [Due.move] at h
      split at h <;> cases h
      exact ⟨by simp, hstack⟩
  | className | close | finalComma | rightParen =>
      simp only [Due.move] at h
      split at h <;> cases h
      exact .of_low hstack

theorem consume_tidy {stack' : List Due} {t : Token} (h : consume stack (some t) = some stack')
    (htidy : Tidy stack) : Tidy stack' := by
  induction stack with
  | nil => cases h
  | cons due stack ih =>
      rw [consume] at h
      split at h
      · cases h
        exact Due.move_tidy (by assumption) htidy.2
      · -- a due that is skipped is dropped, and low dues are tidy by themselves
        exact ih h (.of_low htidy.2)
      · cases h

theorem run_tidy {stack' : List Due} {ts : List Token} (h : run stack ts = some stack')
    (htidy : Tidy stack) : Tidy stack' := by
  induction ts generalizing stack with
  | nil =>
      cases h
      exact htidy
  | cons t ts ih =>
      rw [run_cons] at h
      obtain ⟨middle, hmiddle, h⟩ := Option.bind_eq_some_iff.mp h
      exact ih h (consume_tidy hmiddle htidy)

theorem closing_cons (due : Due) (stack : List Due) :
    closing (due :: stack) = due.closing ++ closing stack := List.flatMap_cons

section Low

variable (hstack : stack.all Due.isLow = true)

include hstack

/-- Low dues wait for closing brackets only. -/
theorem head?_closing_of_low :
    (closing stack).head? = Option.none ∨ (closing stack).head? = some .rightBracket := by
  induction stack with
  | nil => exact .inl rfl
  | cons due stack ih =>
      obtain ⟨hdue, hrest⟩ := Bool.and_eq_true_iff.mp hstack
      cases due with
      | members | further _ | finalComma => exact ih hrest
      | close => exact .inr rfl
      | _ => cases hdue

/-- What brackets and the end pass over is settled already. -/
theorem accepts_closing_of_skip (hend : due.move Option.none = .skip)
    (hbracket : due.move (some .rightBracket) = .skip) :
    accepts (due :: stack) (closing stack) = accepts stack (closing stack) := by
  apply accepts_of_skip
  rcases head?_closing_of_low hstack with h | h
  · rw [h, hend]
  · rw [h, hbracket]

theorem accepts_closing_of_low : accepts stack (closing stack) = true := by
  induction stack with
  | nil => rfl
  | cons due stack ih =>
      obtain ⟨hdue, hrest⟩ := Bool.and_eq_true_iff.mp hstack
      cases due with
      | members | further _ | finalComma =>
          exact (accepts_closing_of_skip hrest rfl rfl).trans (ih hrest)
      | close =>
          rw [closing_cons, Due.closing, List.singleton_append]
          exact (accepts_of_shift [] rfl).trans (ih hrest)
      | _ => cases hdue

/-- The name `None` is a term by itself. -/
theorem accepts_closing_after_none (after : List Due) (hafter : after.all Due.isLow = true)
    (hclosing : closing after = []) :
    accepts (.suffix "None" :: (after ++ stack)) (closing stack) = true := by
  have hlow := low_append hafter hstack
  have hsettled := accepts_closing_of_low hlow
  have hskip : (Due.suffix "None").move Option.none = .skip := rfl
  have hskipped := accepts_closing_of_skip hlow hskip rfl
  have happend : closing (after ++ stack) = closing stack := by
    rw [closing, List.flatMap_append, ← closing, hclosing]
    rfl
  rwa [hsettled, happend] at hskipped

theorem accepts_closing_balanced (depth : Nat) :
    accepts (.balanced depth :: stack)
      (List.replicate depth .rightBracket ++ closing stack) = true := by
  induction depth with
  | zero =>
      rw [List.replicate_zero, List.nil_append]
      exact (accepts_closing_of_skip hstack rfl rfl).trans (accepts_closing_of_low hstack)
  | succ depth ih =>
      rw [List.replicate_succ, List.cons_append]
      exact (accepts_of_shift [.balanced depth] rfl).trans ih

/-- Arguments can be given to each name that needs them, except `Annotated`. -/
theorem accepts_closing_suffix {name : String} (hname : name ≠ "Annotated")
    (hneeds : needsArguments name = true) :
    accepts (.suffix name :: stack)
      (.leftBracket :: .name "None" :: .rightBracket :: closing stack) = true := by
  have hclose : (Due.close :: stack).all Due.isLow = true := by
    rw [List.all_cons, hstack]
    rfl
  -- with `Annotated` left out, `None` is an argument of all of them, as a type,
  -- as a literal or as the name of a class
  have hnames : name = "Optional" ∨ name = "Union" ∨ name = "Literal" ∨ name = "Type" := by
    simpa [needsArguments, hname] using hneeds
  rcases hnames with rfl | rfl | rfl | rfl
  · rw [accepts_of_shift [.term, .members, .finalComma, .close] rfl]
    refine (accepts_of_shift [.suffix "None"] rfl).trans ?_
    exact accepts_closing_after_none hclose [.members, .finalComma] rfl rfl
  · rw [accepts_of_shift [.term, .members, .further .union, .close] rfl]
    refine (accepts_of_shift [.suffix "None"] rfl).trans ?_
    exact accepts_closing_after_none hclose [.members, .further .union] rfl rfl
  · rw [accepts_of_shift [.literal, .further .literal, .close] rfl]
    refine (accepts_of_shift [] rfl).trans ?_
    exact accepts_closing_of_low (Bool.and_eq_true_iff.mpr ⟨rfl, hclose⟩)
  · rw [accepts_of_shift [.className, .close] rfl]
    refine (accepts_of_shift [] rfl).trans ?_
    exact accepts_closing_of_low hclose

end Low

/-- Every tidy stack can be settled. -/
theorem accepts_closing (h : Tidy stack) : accepts stack (closing stack) = true := by
  cases stack with
  | nil => rfl
  | cons due stack =>
      obtain ⟨hdue, hstack⟩ := h
      rw [closing_cons]
      -- the first due is settled by tokens of its own; the rest is low
      cases due with
      | term =>
          refine (accepts_of_shift [.suffix "None"] rfl).trans ?_
          exact accepts_closing_after_none hstack [] rfl rfl
      | another item =>
          cases item with
          | union =>
              refine (accepts_of_shift
                [.suffix "None", .members, .further .union] rfl).trans ?_
              exact accepts_closing_after_none hstack [.members, .further .union] rfl rfl
          | literal =>
              refine (accepts_of_shift [.further .literal] rfl).trans ?_
              exact accepts_closing_of_low (Bool.and_eq_true_iff.mpr ⟨rfl, hstack⟩)
      | tupleArguments =>
          refine (accepts_of_shift
            [.suffix "None", .members, .further .union] rfl).trans ?_
          exact accepts_closing_after_none hstack [.members, .further .union] rfl rfl
      | suffix name =>
          have hname : name ≠ "Annotated" := fun h => hdue (by rw [h])
          rw [Due.closing]
          split_ifs with hneeds
          · exact accepts_closing_suffix hstack hname hneeds
          · have hskip (next : Option Token) (hnext : next ≠ some .leftBracket) :
                (Due.suffix name).move next = .skip := by
              rw [Due.move_of_ne rfl hnext, Due.otherwise, if_neg hneeds]
            exact (accepts_closing_of_skip hstack (hskip _ (by simp)) (hskip _ (by simp))).trans
              (accepts_closing_of_low hstack)
      | balanced depth => exact accepts_closing_balanced hstack depth
      | literal | className | rightParen =>
          exact (accepts_of_shift [] rfl).trans (accepts_closing_of_low hstack)
      | members | further _ | finalComma | close =>
          rw [← closing_cons]
          exact accepts_closing_of_low hstack

end Closing

end Conform.Declaration

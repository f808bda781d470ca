/-
  Conform.Constraint.Basic

  Conditions on a single value. A predicate holds, does not hold, or cannot be
  evaluated because the value has no length, no order or no members. Besides
  the standard predicates there are custom ones, with a name and a test
  supplied by the user. A constraint is a chain of predicates, evaluated in
  order up to the first that is false or cannot be evaluated.
-/

import Conform.Pattern.Program
import Conform.Value.Comparison
import Conform.Value.Printer

namespace Conform

/-! ## Predicates -/

/-- What a custom test can come to. -/
inductive CustomOutcome where
  /-- The test gave an answer. -/
  | answer (holds : Bool)
  /-- The test gave up, with a reason. -/
  | refused (reason : String)
  /-- The test broke off, with a detail if there is one in words. -/
  | brokeOff (detail : Option String)

/-- A named test supplied by the user. Two tests are the same when their names
    and identities agree; the identity stands for where the test was made. -/
structure CustomTest where
  name : String
  identity : Nat
  run : Value → CustomOutcome

/-- A condition on a value. -/
inductive Predicate where
  | pattern (p : Pattern)
  | gt (bound : Value)
  | ge (bound : Value)
  | lt (bound : Value)
  | le (bound : Value)
  | eq (other : Value)
  | ne (other : Value)
  | includes (items : List Value)
  | excludes (items : List Value)
  | minLength (n : Nat)
  | maxLength (n : Nat)
  | custom (test : CustomTest)

/-- Why a predicate cannot be evaluated. -/
inductive PredicateFault where
  | notText (found : TypeTag)
  | notOrdered (operator : String) (left right : TypeTag)
  | noMembership (item container : TypeTag)
  | noLength (found : TypeTag)
  | refused (reason : String)
  | brokeOff (detail : Option String)
deriving Repr, DecidableEq

namespace PredicateFault

/-- The wording of a fault. -/
def message : PredicateFault → String
  | notText found => "expected string or bytes-like object, got '" ++ found.text ++ "'"
  | notOrdered operator left right =>
      "'" ++ operator ++ "' not supported between instances of '" ++ left.text ++ "' and '" ++
        right.text ++ "'"
  | noMembership item container =>
      "membership test of '" ++ item.text ++ "' in '" ++ container.text ++ "' is not supported"
  | noLength found => "object of type '" ++ found.text ++ "' has no len()"
  | refused reason => reason
  | brokeOff detail => "predicate panicked: " ++ detail.getD "non-string panic payload"

end PredicateFault

namespace Predicate

/-- The short name of a predicate. -/
def name : Predicate → String
  | pattern _ => "pattern"
  | gt _ => "gt"
  | ge _ => "ge"
  | lt _ => "lt"
  | le _ => "le"
  | eq _ => "eq"
  | ne _ => "ne"
  | includes _ => "includes"
  | excludes _ => "excludes"
  | minLength _ => "min_length"
  | maxLength _ => "max_length"
  | custom test => test.name

/-- The decimal text of a bound on a length. -/
def boundText (n : Nat) : String := String.ofList (Nat.toDigits 10 n)

/-- The printed form of a list of items. -/
def itemsText (items : List Value) : String := (Value.collection .list items).repr

/-- What a value is expected to do. -/
def expectation : Predicate → String
  | pattern p => "match pattern '" ++ p.source ++ "'"
  | gt v => "be greater than " ++ v.repr
  | ge v => "be greater than or equal to " ++ v.repr
  | lt v => "be less than " ++ v.repr
  | le v => "be less than or equal to " ++ v.repr
  | eq v => "be equal to " ++ v.repr
  | ne v => "be not equal to " ++ v.repr
  | includes items => "include " ++ itemsText items
  | excludes items => "exclude " ++ itemsText items
  | minLength n => "have length of at least " ++ boundText n
  | maxLength n => "have length of at most " ++ boundText n
  | custom test => "satisfy `" ++ test.name ++ "`"

/-- The parameter of a predicate, as shown in the text of a constraint. -/
def parameterText : Predicate → String
  | pattern p => (Value.str p.source).repr
  | gt v | ge v | lt v | le v | eq v | ne v => v.repr
  | includes items | excludes items => itemsText items
  | minLength n | maxLength n => boundText n
  | custom _ => "<predicate>"

/-- The text of a predicate. -/
def text (p : Predicate) : String := p.name ++ "=" ++ p.parameterText

/-! ## Evaluation -/

/-- Compares a value with a bound. -/
def ordered (value bound : Value) (operator : String) (accept : Ordering → Bool) :
    Except PredicateFault Bool :=
  match value.compare? bound with
  | some order => .ok (accept order)
  | none => .error (.notOrdered operator value.tag bound.tag)

/-- Whether an item is in a value. -/
def hasMember (value item : Value) : Except PredicateFault Bool :=
  match value.contains? item with
  | some found => .ok found
  | none => .error (.noMembership item.tag value.tag)

/-- Whether membership is as wanted for every item. The first item for which
    it is not, or cannot be tested, decides. -/
def membersAre (value : Value) (wanted : Bool) : List Value → Except PredicateFault Bool
  | [] => .ok true
  | item :: rest =>
      match hasMember value item with
      | .error fault => .error fault
      | .ok found => if found == wanted then membersAre value wanted rest else .ok false

/-- Tests the length of a value. -/
def withLength (value : Value) (accept : Nat → Bool) : Except PredicateFault Bool :=
  match value.size? with
  | some n => .ok (accept n)
  | none => .error (.noLength value.tag)

/-- Evaluates a predicate on a value. -/
def evaluate (p : Predicate) (value : Value) : Except PredicateFault Bool :=
  match p with
  | pattern p =>
      match value with
      | .str s => .ok (p.occursIn s)
      | other => .error (.notText other.tag)
  | gt bound => ordered value bound ">" (· == .gt)
  | ge bound => ordered value bound ">=" (· != .lt)
  | lt bound => ordered value bound "<" (· == .lt)
  | le bound => ordered value bound "<=" (· != .gt)
  | eq other => .ok (value == other)
  | ne other => .ok (!(value == other))
  | includes items => membersAre value true items
  | excludes items => membersAre value false items
  | minLength n => withLength value (n ≤ ·)
  | maxLength n => withLength value (· ≤ n)
  | custom test =>
      match test.run value with
      | .answer holds => .ok holds
      | .refused reason => .error (.refused reason)
      | .brokeOff detail => .error (.brokeOff detail)

/-! ## Equality -/

/-- Equality of predicates: patterns by text, bounds by host equality, custom
    tests by name and identity. -/
def equal : Predicate → Predicate → Bool
  | pattern p, pattern q => p.source == q.source
  | gt a, gt b => a == b
  | ge a, ge b => a == b
  | lt a, lt b => a == b
  | le a, le b => a == b
  | eq a, eq b => a == b
  | ne a, ne b => a == b
  | includes xs, includes ys => Value.equalAll xs ys
  | excludes xs, excludes ys => Value.equalAll xs ys
  | minLength m, minLength n => m == n
  | maxLength m, maxLength n => m == n
  | custom s, custom t => s.name == t.name && s.identity == t.identity
  | _, _ => false

end Predicate

/-! ## Constraints -/

/-- A chain of predicates that must all hold. -/
structure Constraint where
  predicates : List Predicate

/-- The first predicate of a constraint that a value does not meet. -/
structure UnmetPredicate where
  predicate : String
  expectation : String
  /-- Why the predicate could not be evaluated; `none` when it was false. -/
  fault : Option PredicateFault
deriving Repr, DecidableEq

namespace Constraint

/-- Evaluates predicates in order; yields the first that is not met. -/
def firstUnmet? (value : Value) : List Predicate → Option UnmetPredicate
  | [] => none
  | p :: rest =>
      match p.evaluate value with
      | .ok true => firstUnmet? value rest
      | .ok false => some ⟨p.name, p.expectation, none⟩
      | .error fault => some ⟨p.name, p.expectation, some fault⟩

/-- The predicate of a constraint that a value does not meet, if there is one. -/
def unmet? (c : Constraint) (value : Value) : Option UnmetPredicate :=
  firstUnmet? value c.predicates

/-- No predicate is left unmet when all of them hold. -/
theorem unmet?_eq_none_iff {c : Constraint} {value : Value} :
    c.unmet? value = none ↔ ∀ p ∈ c.predicates, p.evaluate value = .ok true := by
  unfold unmet?
  induction c.predicates with
  | nil => simp [firstUnmet?]
  | cons p rest ih =>
      rw [firstUnmet?, List.forall_mem_cons]
      split
      next h => simp [h, ih]
      next h => simp [h]
      next h => simp [h]

/-- The text of a constraint. -/
def text (c : Constraint) : String :=
  "Constraint(" ++ ", ".intercalate (c.predicates.map Predicate.text) ++ ")"

/-- Equality of two chains, position by position. -/
def equalChains : List Predicate → List Predicate → Bool
  | [], [] => true
  | p :: ps, q :: qs => p.equal q && equalChains ps qs
  | _, _ => false

/-- Equality of constraints. -/
def equal (c d : Constraint) : Bool := equalChains c.predicates d.predicates

end Constraint

end Conform

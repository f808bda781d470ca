/-
  Conform.Inspection.Basic

  Inspects a value against a schema, depth first and up to the first violation.

  1. None is accepted outright where its tag is listed.
  2. The tag of the value selects what is asked of its members; a value whose
     tag is not admitted must equal one of the literals. A schema that has
     constraints only skips this step.
  3. The members follow. Of several tuple forms with the right length one has
     to accept all members; when none does, the violation of the first one is
     reported.
  4. The constraints come last, in order.

  Members under a schema that tags alone decide are first tested all at once.
  When that test fails, an event is reported and the members are inspected one
  by one, which finds the place of the violation.
-/

import Conform.Inspection.Trail

namespace Conform

namespace Inspection

/-! ## One value -/

/-- Inspects constraints in order. -/
def inspectConstraints (s : Schema) (value : Value) : List Constraint → Inspector Unit
  | [] => pure ()
  | c :: rest =>
      match c.unmet? value with
      | none => inspectConstraints s value rest
      | some unmet => Inspector.stop s value (.constraintViolation unmet)

/-- Whether a value equals one of the literals. -/
def equalsLiteral (s : Schema) (value : Value) : Bool :=
  match s.literals with
  | none => false
  | some literals => literals.any (· == value)

/-- Inspects the tag of a value and goes on to its members. -/
def inspectType (s : Schema) (value : Value) (members : Contents → Inspector Unit) :
    Inspector Unit :=
  match s.contents? value.tag with
  | some contents => members contents
  | none => if equalsLiteral s value then pure () else Inspector.stop s value .typeMismatch

/-- Inspects a value, given how its members are inspected. -/
def inspectWith (s : Schema) (value : Value) (members : Contents → Inspector Unit) :
    Inspector Unit :=
  if value.isNone && s.tags.contains .noneType then pure ()
  else if s.constrainsOnly then inspectConstraints s value s.constraints
  else do
    inspectType s value members
    inspectConstraints s value s.constraints

/-- Skips the inspection of members one by one if their tags decide and are all
    admitted. That they decide and are not all admitted is reported. -/
def unlessAdmitted (s : Schema) (members : List Value) (oneByOne : Inspector Unit) :
    Inspector Unit := fun t =>
  if !s.decidedByTag then oneByOne t
  else if members.all fun v => s.admits v.tag then .ok () t
  else oneByOne (t.log (.batchRejected t.location))

/-! ## Tuples -/

/-- The declared length nearest to the one found, the shorter one of two. -/
def nearestLength (forms : List TupleForm) (found : Nat) : Nat :=
  let distance (n : Nat) : Nat := max n found - min n found
  let nearer (m n : Nat) : Bool := distance m < distance n || (distance m == distance n && m < n)
  let lengths := (forms.filter (!·.repeated)).map (·.items.length)
  match lengths with
  | [] => 0
  | n :: rest => rest.foldl (fun best m => if nearer m best then m else best) n

/-- Tries further forms from the depth of the tuple; without success the
    violation of the first form stands. -/
def tryFurther (run : TupleForm → Inspector Unit) (depth : Nat) (first : Violation) :
    List TupleForm → Inspector Unit
  | [] => fun t => .error first t
  | f :: rest => fun t =>
      match run f (t.upTo depth) with
      | .ok () t => .ok () t
      | .error _ t => tryFurther run depth first rest t

/-- Inspects a tuple of `count` members against the forms of the right length. -/
def tryForms (s : Schema) (value : Value) (forms : List TupleForm) (count : Nat)
    (run : TupleForm → Inspector Unit) : Inspector Unit := fun t =>
  match forms.filter (·.fits count) with
  | [] => Inspector.stop s value (.lengthMismatch (nearestLength forms count) count) t
  | f :: others =>
      match run f t with
      | .ok () t => .ok () t
      | .error first t' => tryFurther run t.location.depth first others t'

/-- The step to a member: sets name their members, sequences number them. -/
def memberStep (kind : CollectionKind) (i : Nat) (v : Value) : Step :=
  if kind.isUnordered then .member v.repr else .index i

/-! ## Values with their members -/

mutual

/-- Inspects a value against a schema. What is asked of members that the value
    does not have is met. -/
def inspectValue : Value → Schema → Inspector Unit
  | .collection kind items, s =>
      inspectWith s (.collection kind items) fun
        | .free => pure ()
        | .each e => unlessAdmitted e items (inspectMembers (memberStep kind) e 0 items)
        | .entries _ _ => pure ()
        | .forms forms =>
            tryForms s (.collection kind items) forms items.length fun f =>
              if f.repeated then
                match f.items with
                | [] => pure ()
                | e :: _ => unlessAdmitted e items (inspectMembers (fun i _ => .index i) e 0 items)
              else inspectPositions 0 items f.items
  | .dict entries, s =>
      inspectWith s (.dict entries) fun
        | .free => pure ()
        | .each _ => pure ()
        | .entries k e => do
            unlessAdmitted k (entries.map (·.1)) (inspectKeys k entries)
            unlessAdmitted e (entries.map (·.2)) (inspectEntries e entries)
        | .forms forms => tryForms s (.dict entries) forms 0 fun _ => pure ()
  | value, s =>
      inspectWith s value fun
        | .forms forms => tryForms s value forms 0 fun _ => pure ()
        | _ => pure ()

/-- Inspects members against one schema, numbering them from `i`. -/
def inspectMembers (step : Nat → Value → Step) (e : Schema) (i : Nat) :
    List Value → Inspector Unit
  | [] => pure ()
  | v :: rest => do
      Inspector.below (step i v) (inspectValue v e)
      inspectMembers step e (i + 1) rest

/-- Inspects members position by position, numbering them from `i`. -/
def inspectPositions (i : Nat) : List Value → List Schema → Inspector Unit
  | v :: rest, e :: more => do
      Inspector.below (.index i) (inspectValue v e)
      inspectPositions (i + 1) rest more
  | _, _ => pure ()

/-- Inspects the keys of entries. -/
def inspectKeys (k : Schema) : List (Value × Value) → Inspector Unit
  | [] => pure ()
  | (key, _) :: rest => do
      Inspector.below (.key key.repr) (inspectValue key k)
      inspectKeys k rest

/-- Inspects the values of entries. -/
def inspectEntries (e : Schema) : List (Value × Value) → Inspector Unit
  | [] => pure ()
  | (key, value) :: rest => do
      Inspector.below (.entry key.repr) (inspectValue value e)
      inspectEntries e rest

end

end Inspection

/-- Inspects a value at a location; the verdict holds the location where the
    inspection ended and the events it reported. -/
def inspectAt (value : Value) (s : Schema) (location : Location) : Verdict :=
  Inspection.inspectValue value s (.start location)

/-- Inspects a value at a root. -/
def inspect (value : Value) (s : Schema) (root : String) : Verdict :=
  inspectAt value s (.ofRoot root)

end Conform

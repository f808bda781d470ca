/-
  Conform.ClassTable

  Classes with their bases, registered one after the other. The table keeps
  the bases of every class and, to list the family of a class, the direct
  subclasses of every base. A class is registered once and after its bases, so
  the inheritance relation has no cycles.
-/

import Conform.TypeTag

namespace Conform

/-- Why a class cannot be registered. -/
inductive ClassError where
  | duplicateClass (name : String)
  | unknownBase (className base : String)
  | reservedName (name : String)
deriving Repr, DecidableEq

namespace ClassError

/-- The wording of a registration error. -/
def message : ClassError → String
  | duplicateClass name => "class `" ++ name ++ "` is already registered"
  | unknownBase className base =>
      "class `" ++ className ++ "` derives from unregistered base `" ++ base ++ "`"
  | reservedName name => "class name `" ++ name ++ "` shadows a builtin type"

end ClassError

/-- Registered classes. Both columns map a class name to a list of names. -/
structure ClassTable where
  /-- The bases of each class, in registration order. -/
  bases : List (String × List String)
  /-- The direct subclasses of each class that has some, in registration order. -/
  children : List (String × List String)
deriving Repr, DecidableEq

namespace ClassTable

/-- The table without classes. -/
def empty : ClassTable := ⟨[], []⟩

/-- Whether a class is registered. -/
def contains (t : ClassTable) (name : String) : Bool := t.bases.any (·.1 == name)

/-- The number of registered classes. -/
def size (t : ClassTable) : Nat := t.bases.length

/-- Whether no class is registered. -/
def isEmpty (t : ClassTable) : Bool := t.bases.isEmpty

/-- The names listed for a class in a column. -/
def namesOf (column : List (String × List String)) (name : String) : List String :=
  (column.lookup name).getD []

/-- The declared bases of a class. -/
def basesOf (t : ClassTable) (name : String) : List String := namesOf t.bases name

/-- The direct subclasses of a class, once for each time they list it. -/
def childrenOf (t : ClassTable) (name : String) : List String := namesOf t.children name

/-- Appends a name to the list of a class. -/
def appendName (column : List (String × List String)) (name added : String) :
    List (String × List String) :=
  match column with
  | [] => [(name, [added])]
  | (n, names) :: rest =>
      if n == name then (n, names ++ [added]) :: rest else (n, names) :: appendName rest name added

/-- A change of the table that may be refused on the way. -/
abbrev Change := EStateM ClassError ClassTable Unit

/-- Lists a class under each of several bases, one base after the other. -/
def listUnder (name : String) : List String → Change
  | [] => pure ()
  | base :: rest => do
      modify fun t => { t with children := appendName t.children base name }
      listUnder name rest

/-- Enrols a class with its direct bases in the table at hand. -/
def enrol (name : String) (bases : List String) : Change := do
  let t ← get
  if (TypeTag.ofTypeName? name).isSome then throw (.reservedName name)
  else if t.contains name then throw (.duplicateClass name)
  else match bases.find? (!t.contains ·) with
    | some missing => throw (.unknownBase name missing)
    | none =>
        listUnder name bases
        modify fun t => { t with bases := t.bases ++ [(name, bases)] }

/-- Registers a class with its direct bases. -/
def register (t : ClassTable) (name : String) (bases : List String) :
    Except ClassError ClassTable :=
  match enrol name bases t with
  | .ok () t' => .ok t'
  | .error e _ => .error e

/-! ## Families -/

/-- The names still listed for classes outside `seen`. -/
def pending (column : List (String × List String)) (seen : List String) : Nat :=
  match column with
  | [] => 0
  | (n, names) :: rest => (if n ∈ seen then 0 else names.length) + pending rest seen

/-- Seeing more classes leaves no more names pending. -/
theorem pending_append_le (column : List (String × List String)) (seen : List String)
    (name : String) : pending column (seen ++ [name]) ≤ pending column seen := by
  induction column with
  | nil => simp [pending]
  | cons entry rest ih =>
      obtain ⟨n, names⟩ := entry
      simp only [pending, List.mem_append, List.mem_singleton]
      by_cases h : n ∈ seen
      · simpa [h] using ih
      · by_cases h' : n = name
        · simp only [h', or_true, if_true]
          omega
        · simp only [h, h', or_self, if_false]
          omega

/-- Seeing a class removes its own names from what is pending. -/
theorem pending_append_add_le (column : List (String × List String)) (seen : List String)
    (name : String) (h : name ∉ seen) :
    pending column (seen ++ [name]) + (namesOf column name).length ≤ pending column seen := by
  induction column with
  | nil => simp [pending, namesOf]
  | cons entry rest ih =>
      obtain ⟨n, names⟩ := entry
      by_cases hn : name = n
      · subst hn
        have := pending_append_le rest seen name
        simp only [pending, namesOf, List.lookup_cons_self, Option.getD_some, List.mem_append,
          List.mem_singleton, or_true, if_true, h, if_false]
        omega
      · have hne : (name == n) = false := by simpa using hn
        have hne' : ¬ n = name := fun e => hn e.symm
        simp only [namesOf, List.lookup_cons, hne, pending, List.mem_append, List.mem_singleton,
          hne', or_false] at ih ⊢
        omega

/-- Works off a stack of classes: one that was not met before is listed, and
    its direct subclasses go on top of the stack. -/
def expand (t : ClassTable) (seen : List String) : List String → List String
  | [] => seen
  | name :: stack =>
      if name ∈ seen then expand t seen stack
      else expand t (seen ++ [name]) (t.childrenOf name ++ stack)
termination_by stack => pending t.children seen + stack.length
decreasing_by
  · simp
  · have := pending_append_add_le t.children seen name ‹_›
    simp only [List.length_append, List.length_cons, childrenOf]
    omega

/-- A class followed by all its subclasses, each listed once, depth first and
    in registration order; `none` when the class is not registered. -/
def family? (t : ClassTable) (name : String) : Option (List String) :=
  if t.contains name then some (t.expand [] [name]) else none

end ClassTable

end Conform

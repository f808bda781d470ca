/-
  Conform.Schema.Join

  Equality of schemas: tags and what they ask pairwise, literal values by host
  equality, constraints predicate by predicate. And the join of two schemas,
  which stands for the union of two declarations. The tags of both are admitted,
  what they ask under one tag is joined, literals and constraints are listed one
  after the other. A bare container absorbs what the other side asks of members,
  and once `any` is admitted, nothing is asked of members any more.
-/

import Conform.Schema.Basic

namespace Conform

/-! ## Equality -/

/-- Equality of the optional literal values of two schemas. -/
def equalLiterals : Option (List Value) → Option (List Value) → Bool
  | none, none => true
  | some xs, some ys => Value.equalAll xs ys
  | _, _ => false

/-- Equality of lists of constraints, position by position. -/
def equalConstraints : List Constraint → List Constraint → Bool
  | [], [] => true
  | c :: cs, d :: ds => c.equal d && equalConstraints cs ds
  | _, _ => false

mutual

/-- Equality of schemas. -/
def Schema.equal : Schema → Schema → Bool
  | ⟨alternatives, literals, constraints⟩, other =>
      equalAlternatives alternatives other.alternatives &&
        equalLiterals literals other.literals && equalConstraints constraints other.constraints

/-- Equality of the admitted tags and of what they ask. -/
def equalAlternatives : List (TypeTag × Contents) → List (TypeTag × Contents) → Bool
  | [], [] => true
  | (k, p) :: rest, (l, q) :: more => k == l && p.equal q && equalAlternatives rest more
  | _, _ => false

/-- Equality of what two tags ask of members. -/
def Contents.equal : Contents → Contents → Bool
  | .free, .free => true
  | .each s, .each t => s.equal t
  | .entries k v, .entries l w => k.equal l && v.equal w
  | .forms fs, .forms gs => equalForms fs gs
  | _, _ => false

/-- Equality of lists of forms, position by position. -/
def equalForms : List TupleForm → List TupleForm → Bool
  | [], [] => true
  | f :: fs, g :: gs => f.equal g && equalForms fs gs
  | _, _ => false

/-- Equality of forms. -/
def TupleForm.equal : TupleForm → TupleForm → Bool
  | ⟨items, repeated⟩, other => equalItems items other.items && repeated == other.repeated

/-- Equality of lists of schemas, position by position. -/
def equalItems : List Schema → List Schema → Bool
  | [], [] => true
  | s :: ss, t :: ts => s.equal t && equalItems ss ts
  | _, _ => false

end

instance : BEq Schema := ⟨Schema.equal⟩

instance : BEq TupleForm := ⟨TupleForm.equal⟩

/-! ## The join -/

/-- Writes what a tag asks: a tag that is there already combines what it has
    with it, a new tag goes to its place in the order. -/
def putAlternative (tag : TypeTag) (fresh : Contents) (combine : Contents → Contents) :
    List (TypeTag × Contents) → List (TypeTag × Contents)
  | [] => [(tag, fresh)]
  | (k, p) :: rest =>
      match compare tag k with
      | .lt => (tag, fresh) :: (k, p) :: rest
      | .eq => (k, combine p) :: rest
      | .gt => (k, p) :: putAlternative tag fresh combine rest

/-- With `any` among the tags, no tag asks anything of members. -/
def freeUnderAny (alternatives : List (TypeTag × Contents)) : List (TypeTag × Contents) :=
  if (alternatives.lookup .any).isSome then alternatives.map fun (k, _) => (k, .free)
  else alternatives

/-- The literals of both sides. -/
def joinLiterals : Option (List Value) → Option (List Value) → Option (List Value)
  | xs, none => xs
  | none, some ys => some ys
  | some xs, some ys => some (xs ++ ys)

/-- The forms of the left side and, of the right side, those that are not
    there yet. -/
def joinForms (forms others : List TupleForm) : List TupleForm :=
  others.foldl (fun kept f => if kept.any (· == f) then kept else kept ++ [f]) forms

mutual

/-- The join of two schemas. -/
def Schema.join (s : Schema) : Schema → Schema
  | ⟨alternatives, literals, constraints⟩ =>
      { alternatives := freeUnderAny (joinAlternatives s.alternatives alternatives)
        literals := joinLiterals s.literals literals
        constraints := s.constraints ++ constraints }

/-- Writes the tags of the right side into those of the left side. -/
def joinAlternatives (kept : List (TypeTag × Contents)) :
    List (TypeTag × Contents) → List (TypeTag × Contents)
  | [] => kept
  | (tag, contents) :: rest =>
      joinAlternatives (putAlternative tag contents (fun p => p.join contents) kept) rest

/-- What both sides ask under one tag. Demands of different kinds are given up
    for a bare container. -/
def Contents.join (p : Contents) : Contents → Contents
  | .free => .free
  | .each t => match p with
      | .each s => .each (s.join t)
      | _ => .free
  | .entries l w => match p with
      | .entries k v => .entries (k.join l) (v.join w)
      | _ => .free
  | .forms others => match p with
      | .forms forms => .forms (joinForms forms others)
      | _ => .free

end

namespace Schema

/-- The join of several tags that ask nothing of members. -/
def bareUnion (tags : List TypeTag) : Schema :=
  tags.foldl (fun s tag => s.join (bare tag)) empty

end Schema

end Conform

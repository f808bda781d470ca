/-
  Conform.Value.OfJson

  JSON documents as values. An object becomes a dictionary with its names in
  code point order; of a repeated name the last value counts.
-/

import Conform.Json.Reader
import Conform.Value.Basic

namespace Conform.Value

/-- Writes an entry into a list sorted by name. -/
def insertByName {α : Type} (name : String) (value : α) : List (String × α) → List (String × α)
  | [] => [(name, value)]
  | (n, v) :: rest =>
      match compare name.toList n.toList with
      | .lt => (name, value) :: (n, v) :: rest
      | .eq => (name, value) :: rest
      | .gt => (n, v) :: insertByName name value rest

/-- Members sorted by name, each name once. -/
def sortByName {α : Type} (members : List (String × α)) : List (String × α) :=
  members.foldl (fun acc m => insertByName m.1 m.2 acc) []

mutual

/-- The value of a document. -/
def ofJson : Json → Value
  | .null => .none
  | .bool b => .bool b
  | .int n => .int n
  | .float x => .float x
  | .str s => .str s
  | .array items => .collection .list (ofJsonItems items)
  | .object members =>
      .dict ((sortByName (ofJsonMembers members)).map fun m => (.str m.1, m.2))

/-- The values of the items of an array. -/
def ofJsonItems : List Json → List Value
  | [] => []
  | x :: rest => ofJson x :: ofJsonItems rest

/-- The values of the members of an object. -/
def ofJsonMembers : List (String × Json) → List (String × Value)
  | [] => []
  | (name, x) :: rest => (name, ofJson x) :: ofJsonMembers rest

end

end Conform.Value

/-
  Conform.Settings.Json

  The switches of a guarded callable, how they are put together from named
  fields, and how they are read from a JSON text: an object with the fields by
  name, or an array with their values in order.
-/

import Conform.Json.Reader

namespace Conform

/-! ## Settings -/

/-- The switches of a guarded callable. -/
structure Settings where
  /-- Off: nothing is checked. -/
  enabled : Bool := true
  /-- Off: a violation is reported and the call goes on. -/
  strict : Bool := true
  /-- Off: reports also tell where in the checker a violation was found. -/
  cleanTraceback : Bool := true
deriving Repr, DecidableEq

namespace Settings

/-- The fields of the settings. -/
inductive Field where
  | enabled
  | strict
  | cleanTraceback
deriving Repr, DecidableEq

namespace Field

/-- The field of a name; the last one has two spellings. -/
def ofName? (name : String) : Option Field :=
  if name == "enabled" then some enabled
  else if name == "strict" then some strict
  else if name == "clean_traceback" || name == "cleanTraceback" then some cleanTraceback
  else none

/-- All fields, in the order in which a list of values gives them. -/
def all : List Field := [enabled, strict, cleanTraceback]

end Field

/-- The settings with one field set. -/
def set (s : Settings) : Field → Bool → Settings
  | .enabled, b => { s with enabled := b }
  | .strict, b => { s with strict := b }
  | .cleanTraceback, b => { s with cleanTraceback := b }

/-- The settings of some fields, the others being on; `none` when a field is
    given twice. -/
def ofFields? (fields : List (Field × Bool)) : Option Settings :=
  if (fields.map (·.1)).Nodup then some (fields.foldl (fun s f => s.set f.1 f.2) {}) else none

/-! ## Settings from a text -/

/-- A member of an object as a field. -/
def fieldOfMember? : String × Json → Option (Field × Bool)
  | (name, .bool b) => (Field.ofName? name).map (·, b)
  | _ => none

/-- An item of an array as a value. -/
def boolOfItem? : Json → Option Bool
  | .bool b => some b
  | _ => none

/-- The settings that a document holds. -/
def ofDocument? : Json → Option Settings
  | .object members => do
      let fields ← members.mapM fieldOfMember?
      ofFields? fields
  | .array items => do
      let values ← items.mapM boolOfItem?
      if values.length ≤ Field.all.length then ofFields? (Field.all.zip values) else none
  | _ => none

/-- The settings that a JSON text holds. -/
def ofJson? (text : String) : Option Settings := do
  let doc ← Json.parse? text
  ofDocument? doc

end Settings

end Conform

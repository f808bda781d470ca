/-
  Conform.Settings.Yaml

  Settings from a YAML text: a mapping of field names to truth values. A blank
  text and an empty document stand for the defaults.
-/

import Conform.Settings.Json
import Conform.Text.CharClass
import Conform.Yaml.Mapping

namespace Conform.Settings

/-- The truth value of a word. -/
def boolOfWord? (word : String) : Option Bool :=
  if ["true", "True", "TRUE"].contains word then some true
  else if ["false", "False", "FALSE"].contains word then some false
  else none

/-- The tag of truth values. -/
def boolTag : String := "tag:yaml.org,2002:bool"

/-- Whether a scalar may stand for a truth value: any plain one does, and a
    literal one with the tag for it. -/
def mayBeBool (s : Yaml.Scalar) : Bool :=
  s.style == .plain || (s.style == .literal && s.tag == some boolTag)

/-- The truth value of a scalar. -/
def boolOfScalar? (s : Yaml.Scalar) : Option Bool :=
  if mayBeBool s then boolOfWord? s.text else none

/-- An entry of a mapping as a field. -/
def fieldOfEntry? : Yaml.Scalar × Yaml.Scalar → Option (Field × Bool)
  | (k, v) => do return (← Field.ofName? k.text, ← boolOfScalar? v)

/-- The settings that a YAML text holds. -/
def ofYaml? (text : String) : Option Settings :=
  if text.toList.all Text.isBlank then some {}
  else do
    let entries ← Yaml.mapping? text
    ofFields? (← entries.mapM fieldOfEntry?)

end Conform.Settings

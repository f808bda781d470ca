/-
  Conform.Yaml.Mapping

  YAML texts that hold one mapping of scalars to scalars. Collections inside the
  mapping are refused, and so is a second document.
-/

import Conform.Yaml.TokenStream

namespace Conform.Yaml

/-- A scalar with its resolved tag. -/
structure Scalar where
  text : String
  style : Style
  tag : Option String
deriving Repr, DecidableEq

namespace Scalar

/-- The scalar that stands where none is written. -/
def missing : Scalar := ⟨"", .plain, none⟩

end Scalar

/-- A key or value as it is written. -/
inductive Node where
  | scalar (anchor : Option String) (s : Scalar)
  | alias (name : String)

/-! ## Directives -/

/-- What tag handles stand for. -/
abbrev Handles := List (String × String)

/-- The handles that need no directive. -/
def standardHandles : Handles := [("!", "!"), ("!!", "tag:yaml.org,2002:")]

/-- The directives before a document: at most one version, which has to be 1.1
    or 1.2, and no handle twice. -/
def directives? (hasVersion : Bool) (handles : Handles) :
    List Token → Option (Handles × List Token)
  | .version major minor :: rest =>
      if hasVersion || major != 1 || !(minor == 1 || minor == 2) then none
      else directives? true handles rest
  | .tagHandle handle lead :: rest =>
      if handles.any (·.1 == handle) then none
      else directives? hasVersion (handles ++ [(handle, lead)]) rest
  | rest => some (handles ++ standardHandles, rest)

/-- The full tag of a written one. -/
def resolve? (handles : Handles) (t : TagText) : Option String :=
  if t.handle.isEmpty then some t.suffix
  else (handles.lookup t.handle).map (· ++ t.suffix)

/-! ## Nodes -/

/-- The anchor and tag before a node, in any order. -/
def properties (tokens : List Token) : (Option String × Option TagText) × List Token :=
  match tokens with
  | .anchor a :: .tag t :: rest => ((some a, some t), rest)
  | .tag t :: .anchor a :: rest => ((some a, some t), rest)
  | .anchor a :: rest => ((some a, none), rest)
  | .tag t :: rest => ((none, some t), rest)
  | rest => ((none, none), rest)

/-- Whether a collection starts here. -/
def startsCollection : List Token → Bool
  | .flowSequenceStart :: _ | .flowMappingStart :: _ | .blockSequenceStart :: _
  | .blockMappingStart :: _ | .blockEntry :: _ => true
  | _ => false

/-- A scalar or alias. An anchor or tag alone stands for a missing scalar. -/
def node? (handles : Handles) (tokens : List Token) : Option (Node × List Token) :=
  match tokens with
  | .alias name :: rest => some (.alias name, rest)
  | _ => do
      let ((anchor, tag), rest) := properties tokens
      let tag ← tag.mapM (resolve? handles)
      match rest with
      | .scalar text style :: rest => return (.scalar anchor ⟨text, style, tag⟩, rest)
      | rest =>
          if startsCollection rest || (anchor.isNone && tag.isNone) then none
          else return (.scalar anchor { Scalar.missing with tag := tag }, rest)

/-- A node, or a missing scalar where one of some tokens comes next. -/
def nodeUnless? (ends : List Token) (handles : Handles) (tokens : List Token) :
    Option (Node × List Token) :=
  if tokens.head?.any ends.contains then some (.scalar none .missing, tokens)
  else node? handles tokens

/-! ## Entries -/

/-- The value after a key; without a colon it is missing. -/
def valueNode? (ends : List Token) (handles : Handles) : List Token → Option (Node × List Token)
  | .value :: rest => nodeUnless? ends handles rest
  | rest => some (.scalar none .missing, rest)

/-- The tokens before which a key or value of a block mapping is missing. -/
def blockEnds : List Token := [.key, .value, .blockEnd]

/-- The tokens before which a value of a flow mapping is missing. -/
def flowEnds : List Token := [.flowEntry, .flowMappingEnd]

/-- The entries of a block mapping, after its start. -/
def blockEntries? (handles : Handles) :
    Nat → List Token → Option (List (Node × Node) × List Token)
  | 0, _ => none
  | fuel + 1, tokens => do
      match tokens with
      | .blockEnd :: rest => return ([], rest)
      | .key :: rest =>
          let (k, rest) ← nodeUnless? blockEnds handles rest
          let (v, rest) ← valueNode? blockEnds handles rest
          let (entries, rest) ← blockEntries? handles fuel rest
          return ((k, v) :: entries, rest)
      | _ => none

/-- One entry of a flow mapping: a key with its value, or a key alone. -/
def flowEntry? (handles : Handles) : List Token → Option ((Node × Node) × List Token)
  | .key :: rest => do
      let (k, rest) ← nodeUnless? (.value :: flowEnds) handles rest
      let (v, rest) ← valueNode? flowEnds handles rest
      return ((k, v), rest)
  | rest => do
      let (k, rest) ← node? handles rest
      return ((k, .scalar none .missing), rest)

/-- The entries of a flow mapping from the second one on. -/
def moreFlowEntries? (handles : Handles) :
    Nat → List Token → Option (List (Node × Node) × List Token)
  | 0, _ => none
  | fuel + 1, tokens => do
      match tokens with
      | .flowMappingEnd :: rest => return ([], rest)
      | .flowEntry :: .flowMappingEnd :: rest => return ([], rest)
      | .flowEntry :: rest =>
          let (entry, rest) ← flowEntry? handles rest
          let (entries, rest) ← moreFlowEntries? handles fuel rest
          return (entry :: entries, rest)
      | _ => none

/-- The entries of a flow mapping, after its start. -/
def flowEntries? (handles : Handles) (tokens : List Token) :
    Option (List (Node × Node) × List Token) := do
  match tokens with
  | .flowMappingEnd :: rest => return ([], rest)
  | _ =>
      let (entry, rest) ← flowEntry? handles tokens
      let (entries, rest) ← moreFlowEntries? handles (rest.length + 1) rest
      return (entry :: entries, rest)

/-! ## Documents -/

/-- The mapping of a document as it is written, with the anchor before it. -/
structure WrittenMapping where
  anchor : Option String := none
  entries : List (Node × Node) := []

/-- The tokens that end a document or come before one. -/
def isOutsideDocument : List Token → Bool
  | [] | .version _ _ :: _ | .tagHandle _ _ :: _ | .documentStart :: _ | .documentEnd :: _ => true
  | _ => false

/-- The mapping that a document holds; an empty document holds one without
    entries. -/
def content? (handles : Handles) (tokens : List Token) : Option (WrittenMapping × List Token) := do
  if isOutsideDocument tokens then return ({}, tokens)
  let ((anchor, tag), rest) := properties tokens
  let tag ← tag.mapM (resolve? handles)
  match rest with
  | .blockMappingStart :: rest =>
      let (entries, rest) ← blockEntries? handles (rest.length + 1) rest
      return (⟨anchor, entries⟩, rest)
  | .flowMappingStart :: rest =>
      let (entries, rest) ← flowEntries? handles rest
      return (⟨anchor, entries⟩, rest)
  | .scalar _ _ :: _ | .alias _ :: _ => none
  | rest =>
      if startsCollection rest || (anchor.isNone && tag.isNone) then none
      else return (⟨anchor, []⟩, rest)

/-- The mapping that the only document of a text holds. The document may start
    without a mark, unless the text starts with the end of one. -/
def document? (tokens : List Token) : Option WrittenMapping := do
  let (m, rest) ← match tokens with
    | [] => some ({}, [])
    | .documentEnd :: _ => none
    | tokens =>
        if isOutsideDocument tokens then do
          let (handles, rest) ← directives? false [] tokens
          match rest with
          | .documentStart :: rest => content? handles rest
          | _ => none
        else content? standardHandles tokens
  if rest.all (· == .documentEnd) then some m else none

/-! ## Aliases -/

/-- The anchors met so far: the number of each name, and what each number stands
    for, which is nothing if it is no scalar. Numbers are given by how many names
    there are, so a number may be given again, and then stands for the later
    one. -/
structure Anchors where
  numbers : List (String × Nat) := []
  targets : List (Nat × Option Scalar) := []

namespace Anchors

/-- Notes an anchor. -/
def add (a : Anchors) (name : Option String) (target : Option Scalar) : Anchors :=
  match name with
  | none => a
  | some name =>
      let n := a.numbers.length
      { numbers := (name, n) :: a.numbers.filter (·.1 != name)
        targets := (n, target) :: a.targets }

end Anchors

/-- A key or value whose alias, if it is one, is given by the number of its
    anchor. -/
inductive Item where
  | scalar (s : Scalar)
  | ref (number : Nat)

namespace Item

/-- The scalar that an item stands for. -/
def scalar? (targets : List (Nat × Option Scalar)) : Item → Option Scalar
  | .scalar s => some s
  | .ref n => (targets.lookup n).join

end Item

/-- Notes the anchor of a node, or looks up its alias. -/
def number? (a : Anchors) : Node → Option (Item × Anchors)
  | .scalar anchor s => some (.scalar s, a.add anchor (some s))
  | .alias name => (a.numbers.lookup name).map fun n => (.ref n, a)

/-- Numbers the aliases of entries. -/
def numberAll? (a : Anchors) :
    List (Node × Node) → Option (List (Item × Item) × Anchors)
  | [] => some ([], a)
  | (k, v) :: rest => do
      let (k, a) ← number? a k
      let (v, a) ← number? a v
      let (items, a) ← numberAll? a rest
      return ((k, v) :: items, a)

/-- The entries of a mapping, with aliases replaced by what they stand for. -/
def WrittenMapping.entries? (m : WrittenMapping) : Option (List (Scalar × Scalar)) := do
  let (items, anchors) ← numberAll? (Anchors.add {} m.anchor none) m.entries
  items.mapM fun (k, v) => do
    return (← k.scalar? anchors.targets, ← v.scalar? anchors.targets)

/-- The mapping of scalars that a text holds. -/
def mapping? (text : String) : Option (List (Scalar × Scalar)) := do
  let m ← document? (← tokens? text)
  m.entries?

end Conform.Yaml

/-
  Conform.Yaml.TokenStream

  Splits a YAML text into tokens. Blocks are opened and closed by indentation.
  A key is known only when its colon is met, so the places where one may have
  started are kept: one per open collection, for a key on one line and of at
  most 1024 characters.
-/

import Conform.Yaml.Property

namespace Conform.Yaml

/-- A place where a key may have started. -/
structure PossibleKey where
  /-- The number of the token that the key would start with. -/
  number : Nat
  /-- Whether nothing but a key may stand here. -/
  required : Bool
  index : Nat
  line : Nat
  column : Nat

/-- A text that is being split: what is left, the tokens so far, and the open
    blocks and flow collections. -/
structure TokenStream where
  cursor : Cursor
  /-- The tokens so far, the last one first. -/
  tokens : List Token := []
  /-- The column of the innermost block, negative outside of any. -/
  indent : Int := -1
  /-- The columns of the blocks around it. -/
  indents : List Int := []
  /-- Whether a key may start here. -/
  keyAllowed : Bool := true
  /-- The possible keys, one for the blocks and one for each flow collection,
      the innermost first. -/
  keys : List (Option PossibleKey) := [none]

namespace TokenStream

/-- Whether a flow collection is open. -/
def inFlow (s : TokenStream) : Bool := s.keys.length > 1

/-- Adds a token. -/
def push (s : TokenStream) (t : Token) : TokenStream := { s with tokens := t :: s.tokens }

/-- Puts a token in front of the token with a given number. -/
def insertAt (s : TokenStream) (number : Nat) (t : Token) : TokenStream :=
  let later := s.tokens.length - number
  { s with tokens := s.tokens.take later ++ t :: s.tokens.drop later }

/-- Adds a token of some characters. -/
def pushOver (s : TokenStream) (n : Nat) (t : Token) : TokenStream :=
  { s with cursor := s.cursor.advance n }.push t

/-! ## Keys -/

/-- Whether a key that started here would have ended before the cursor. -/
def isStale (c : Cursor) (k : PossibleKey) : Bool :=
  k.line < c.line || k.index + 1024 < c.index

/-- Drops the possible keys that are out of reach; a required one must not be. -/
def dropStaleKeys? (s : TokenStream) : Option TokenStream :=
  if s.keys.any fun k => k.any fun k => isStale s.cursor k && k.required then none
  else
    some { s with keys := s.keys.map fun k => k.filter fun k => !isStale s.cursor k }

/-- Gives up the innermost possible key; a required one must not be. -/
def removeKey? (s : TokenStream) : Option TokenStream :=
  match s.keys with
  | key :: keys => if key.any (·.required) then none else some { s with keys := none :: keys }
  | [] => none

/-- Notes that a key may start here. -/
def saveKey? (s : TokenStream) : Option TokenStream := do
  if !s.keyAllowed then return s
  let s ← s.removeKey?
  let c := s.cursor
  let key : PossibleKey :=
    { number := s.tokens.length
      required := !s.inFlow && s.indent == c.column
      index := c.index, line := c.line, column := c.column }
  return { s with keys := some key :: s.keys.drop 1 }

/-! ## Blocks -/

/-- Opens a block at a column, unless one stands there; its first token has the
    given number. -/
def openBlock (s : TokenStream) (column : Nat) (number : Nat) (t : Token) : TokenStream :=
  if s.inFlow || s.indent ≥ column then s
  else { s with indents := s.indent :: s.indents, indent := column }.insertAt number t

/-- Closes the blocks that stand to the right of a column. -/
def closeBlocks (s : TokenStream) (column : Int) : TokenStream :=
  if s.inFlow then s else close s.indents s
where
  /-- Closes the innermost block and those of a list around it. -/
  close : List Int → TokenStream → TokenStream
    | [], s => s
    | outer :: around, s =>
        if s.indent > column then
          close around { s.push .blockEnd with indent := outer, indents := around }
        else s

/-! ## Marks -/

/-- Ends all blocks before something that stands between documents. -/
def leaveDocument? (s : TokenStream) : Option TokenStream := do
  let s ← (s.closeBlocks (-1)).removeKey?
  return { s with keyAllowed := false }

/-- A document mark. -/
def addDocumentMark? (s : TokenStream) (t : Token) : Option TokenStream := do
  return (← s.leaveDocument?).pushOver 3 t

/-- A directive. -/
def addDirective? (s : TokenStream) : Option TokenStream := do
  let s ← s.leaveDocument?
  let (t, c) ← directive s.cursor
  return { s with cursor := c }.push t

/-- The start of a flow collection, which may itself be a key. -/
def openFlow? (s : TokenStream) (t : Token) : Option TokenStream := do
  let s ← s.saveKey?
  return { s with keys := none :: s.keys, keyAllowed := true }.pushOver 1 t

/-- The end of a flow collection. -/
def closeFlow? (s : TokenStream) (t : Token) : Option TokenStream := do
  let s ← s.removeKey?
  let keys := if s.inFlow then s.keys.drop 1 else s.keys
  return { s with keys := keys, keyAllowed := false }.pushOver 1 t

/-- The comma between the items of a flow collection. -/
def addFlowEntry? (s : TokenStream) : Option TokenStream := do
  let s ← s.removeKey?
  return { s with keyAllowed := true }.pushOver 1 .flowEntry

/-- The hyphen before an item of a block sequence. -/
def addBlockEntry? (s : TokenStream) : Option TokenStream := do
  if !s.inFlow && !s.keyAllowed then none
  else
    let s := s.openBlock s.cursor.column s.tokens.length .blockSequenceStart
    let s ← s.removeKey?
    return { s with keyAllowed := true }.pushOver 1 .blockEntry

/-- The question mark before a key. -/
def addKey? (s : TokenStream) : Option TokenStream := do
  if !s.inFlow && !s.keyAllowed then none
  else
    let s := s.openBlock s.cursor.column s.tokens.length .blockMappingStart
    let s ← s.removeKey?
    return { s with keyAllowed := !s.inFlow }.pushOver 1 .key

/-- The colon before a value. If a key may have started before it, it did. -/
def addValue? (s : TokenStream) : Option TokenStream :=
  match s.keys with
  | some key :: keys =>
      let s := (s.insertAt key.number .key).openBlock key.column key.number .blockMappingStart
      some ({ s with keys := none :: keys, keyAllowed := false }.pushOver 1 .value)
  | _ =>
      if !s.inFlow && !s.keyAllowed then none
      else
        let s := s.openBlock s.cursor.column s.tokens.length .blockMappingStart
        some ({ s with keyAllowed := !s.inFlow }.pushOver 1 .value)

/-! ## Nodes -/

/-- An anchor or alias. -/
def addAnchor? (s : TokenStream) (t : String → Token) : Option TokenStream := do
  let s ← s.saveKey?
  let (name, c) ← anchorName (s.cursor.advance 1)
  return { s with cursor := c, keyAllowed := false }.push (t name)

/-- A tag. -/
def addTag? (s : TokenStream) : Option TokenStream := do
  let s ← s.saveKey?
  let (tag, c) ← tagText s.inFlow s.cursor
  return { s with cursor := c, keyAllowed := false }.push (.tag tag)

/-- A block scalar. -/
def addBlockScalar? (s : TokenStream) (isLiteral : Bool) : Option TokenStream := do
  let s ← s.removeKey?
  let (text, c) ← blockScalar isLiteral s.indent s.cursor
  let style : Style := if isLiteral then .literal else .folded
  return { s with cursor := c, keyAllowed := true }.push (.scalar (String.ofList text) style)

/-- A quoted scalar. -/
def addQuotedScalar? (s : TokenStream) (isSingle : Bool) : Option TokenStream := do
  let s ← s.saveKey?
  let (text, c) ← quotedScalar isSingle s.cursor
  return { s with cursor := c, keyAllowed := false }.push (.scalar (String.ofList text) .quoted)

/-- A plain scalar. A key may follow it on a new line. -/
def addPlainScalar? (s : TokenStream) : Option TokenStream := do
  let s ← s.saveKey?
  let ((text, broken), c) ← plainScalar s.inFlow (s.indent + 1).toNat s.cursor
  return { s with cursor := c, keyAllowed := broken }.push (.scalar (String.ofList text) .plain)

/-! ## The whole text -/

/-- Skips blanks, comments and line breaks up to the next token, and a byte order
    mark at the start of the text, which counts as a column. Tabs count as
    blanks only where no key may start. -/
def skipToToken : Nat → TokenStream → TokenStream
  | 0, s => s
  | fuel + 1, s =>
      let c := s.cursor
      let c := if c.index == 0 && atAny "\ufeff" c.rest then c.advance 1 else c
      let tabs := s.inFlow || !s.keyAllowed
      let c := (c.advanceWhile fun x => x == ' ' || (tabs && x == '\t')).skipComment
      if !c.rest.isEmpty && atLineEnd c.rest then
        skipToToken fuel { s with cursor := c.nextLine, keyAllowed := s.keyAllowed || !s.inFlow }
      else { s with cursor := c }

/-- Whether a plain scalar may start here. -/
def startsPlain (inFlow : Bool) (cs : List Char) : Bool :=
  (!atGap cs && !atAny "-?:,[]\x7b\x7d#&*!|>'\"%@`" cs) ||
    (atAny "-" cs && !((cs.drop 1).head?.any isBlank)) ||
    (!inFlow && atAny "?:" cs && !atGap (cs.drop 1))

/-- Adds the token that starts here. -/
def addToken? (s : TokenStream) : Option TokenStream :=
  let cs := s.cursor.rest
  let atStart := s.cursor.column == 0
  let beforeGap := atGap (cs.drop 1)
  if atStart && atAny "%" cs then s.addDirective?
  else if atStart && atMark "---" cs then s.addDocumentMark? .documentStart
  else if atStart && atMark "..." cs then s.addDocumentMark? .documentEnd
  else if atAny "[" cs then s.openFlow? .flowSequenceStart
  else if atAny "\x7b" cs then s.openFlow? .flowMappingStart
  else if atAny "]" cs then s.closeFlow? .flowSequenceEnd
  else if atAny "\x7d" cs then s.closeFlow? .flowMappingEnd
  else if atAny "," cs then s.addFlowEntry?
  else if atAny "-" cs && beforeGap then s.addBlockEntry?
  else if atAny "?" cs && (s.inFlow || beforeGap) then s.addKey?
  else if atAny ":" cs && (s.inFlow || beforeGap) then s.addValue?
  else if atAny "*" cs then s.addAnchor? .alias
  else if atAny "&" cs then s.addAnchor? .anchor
  else if atAny "!" cs then s.addTag?
  else if atAny "|" cs && !s.inFlow then s.addBlockScalar? true
  else if atAny ">" cs && !s.inFlow then s.addBlockScalar? false
  else if atAny "'" cs then s.addQuotedScalar? true
  else if atAny "\"" cs then s.addQuotedScalar? false
  else if startsPlain s.inFlow cs then s.addPlainScalar?
  else none

/-- Adds the tokens that are left; one step per token. -/
def run : Nat → TokenStream → Option (List Token)
  | 0, _ => none
  | fuel + 1, s => do
      let s := skipToToken (s.cursor.rest.length + 1) s
      let s ← s.dropStaleKeys?
      let s := s.closeBlocks s.cursor.column
      if s.cursor.rest.isEmpty then
        return (← s.leaveDocument?).tokens.reverse
      run fuel (← s.addToken?)

end TokenStream

/-- The tokens of a text. -/
def tokens? (text : String) : Option (List Token) :=
  let cs := text.toList
  if cs.all isAllowed then TokenStream.run (cs.length + 1) { cursor := { rest := cs } } else none

end Conform.Yaml

/-
  Conform.Declaration.Parser

  Reads a declaration from its tokens.

    union    := term ('|' term)*
    term     := '...' | name | name '[' arguments ']'
    literals := literal (',' literal)* ','?
    types    := union (',' union)* ','?

  Which arguments a name takes depends on the name; a module in front of it is
  dropped. An error is reported at the token after the last one read.
-/

import Conform.Declaration.Basic
import Conform.Declaration.Token

namespace Conform.Declaration

/-- The tokens ahead, and the byte offset at which the text ends. -/
structure TokenStream where
  ahead : List Lexeme
  finish : Nat

namespace TokenStream

/-- The next token, if there is one. -/
def peek? (s : TokenStream) : Option Token := s.ahead.head?.map (·.token)

/-- The offset of the next token, or of the end. -/
def offset (s : TokenStream) : Nat :=
  match s.ahead with
  | [] => s.finish
  | l :: _ => l.offset

/-- The stream after its next token. At the end it stays where it is. -/
def advance (s : TokenStream) : TokenStream := { s with ahead := s.ahead.tail }

/-- An error at the next token. -/
def error {α : Type} (s : TokenStream) (cause : String) : Except TextError α :=
  .error ⟨s.offset, cause⟩

/-- Whether the next token is the given one. -/
def isAt (s : TokenStream) (t : Token) : Bool := s.peek? == some t

end TokenStream

/-- Reads something off a stream. -/
abbrev Reader (α : Type) := TokenStream → Except TextError (α × TokenStream)

/-! ## Names -/

/-- The modules that may stand in front of a name. -/
def modules : List String := ["typing.", "builtins.", "collections.abc.", "types."]

/-- The rest of `name` after `start`, if it begins so. -/
def afterStart? (start name : String) : Option String :=
  if start.toList.isPrefixOf name.toList then
    some (String.ofList (name.toList.drop start.toList.length))
  else Option.none

/-- A name without the module in front of it. -/
def withoutModule (name : String) : String :=
  (modules.findSome? (afterStart? · name)).getD name

/-- Whether a name has no meaning without arguments. -/
def needsArguments (name : String) : Bool :=
  ["Optional", "Union", "Literal", "Type", "Annotated"].contains name

/-- The declaration of a name without arguments. -/
def ofName (name : String) : Declaration :=
  if name == "None" || name == "NoneType" then none
  else if name == "Any" || name == "object" then any
  else if name == "Sized" then sized
  else if name == "Callable" then callable
  else match Container.ofName? name with
    | some kind => concrete kind.tag
    | Option.none =>
        match TypeTag.ofTypeName? name with
        | some tag => concrete tag
        | Option.none => named name

/-! ## Arguments -/

/-- The literal value of a token. -/
def literalOf? : Token → Option Value
  | .str s => some (.str s)
  | .int n => some (.int n)
  | .float x => some (.float x)
  | .name n =>
      if n == "True" then some (.bool true)
      else if n == "False" then some (.bool false)
      else if n == "None" then some .none
      else Option.none
  | _ => Option.none

/-- One or more items with commas between them; a comma before a closing
    bracket ends them. -/
def separated {α : Type} (item : Reader α) : Nat → Reader (List α)
  | 0, s => s.error "expected a type"
  | fuel + 1, s => do
      let (first, s) ← item s
      if s.isAt .comma then
        let s := s.advance
        if s.isAt .rightBracket then return ([first], s)
        else
          let (more, s) ← separated item fuel s
          return (first :: more, s)
      else return ([first], s)

/-- A literal value. -/
def literalItem : Reader Value := fun s =>
  match s.peek?.bind literalOf? with
  | some v => .ok (v, s.advance)
  | Option.none => s.advance.error "expected a literal value"

/-- Everything up to the bracket that closes the current one. -/
def afterBalanced (finish : Nat) : Nat → List Lexeme → Except TextError (List Lexeme)
  | _, [] => .error ⟨finish, "expected `]`"⟩
  | depth, l :: rest =>
      match l.token with
      | .rightBracket => match depth with
          | 0 => .ok (l :: rest)
          | depth + 1 => afterBalanced finish depth rest
      | .leftBracket => afterBalanced finish (depth + 1) rest
      | _ => afterBalanced finish depth rest

/-- The type arguments of a container. An empty pair of parentheses stands for
    no arguments, for tuples only. -/
def typeArguments (nested : Reader Declaration) (fuel : Nat) (kind : Container) :
    Reader (List Declaration) := fun s =>
  if kind == .tuple && s.isAt .leftParen then
    let s := s.advance
    if s.isAt .rightParen then .ok ([], s.advance) else s.error "expected `)`"
  else separated nested fuel s

/-- The arguments of a name, after the opening bracket. -/
def arguments (nested : Reader Declaration) (fuel : Nat) (name : String) :
    Reader Declaration := fun s =>
  if name == "Literal" then do
    let (values, s) ← separated literalItem fuel s
    return (literal values, s)
  else if name == "Type" || name == "type" then
    match s.peek? with
    | some (.name raw) => .ok (typeOf (withoutModule raw), s.advance)
    | _ => s.advance.error "expected a class name inside `Type[...]`"
  else if name == "Optional" then do
    let (args, s) ← separated nested fuel s
    match args with
    | [d] => return (optional d, s)
    | _ => s.error "`Optional` takes exactly one type argument"
  else if name == "Union" then do
    let (args, s) ← separated nested fuel s
    return (unionOf args, s)
  else if name == "Callable" then do
    let ahead ← afterBalanced s.finish 0 s.ahead
    return (callable, { s with ahead })
  else match Container.ofName? name with
    | some kind => do
        let (args, s) ← typeArguments nested fuel kind s
        return (container kind args, s)
    | Option.none => s.error ("`" ++ name ++ "` is not subscriptable")

/-! ## Terms and unions -/

/-- A name with or without arguments, the name being read already. -/
def namedTerm (nested : Reader Declaration) (fuel : Nat) (name : String) :
    Reader Declaration := fun s =>
  if s.isAt .leftBracket then do
    let (d, s) ← arguments nested fuel name s.advance
    if s.isAt .rightBracket then return (d, s.advance) else s.error "expected `]`"
  else if needsArguments name then s.error ("`" ++ name ++ "` requires type arguments")
  else .ok (ofName name, s)

/-- A single member of a union. -/
def term (nested : Reader Declaration) (fuel : Nat) : Reader Declaration := fun s =>
  match s.peek? with
  | some .ellipsis => .ok (ellipsis, s.advance)
  | some (.name raw) => namedTerm nested fuel (withoutModule raw) s.advance
  | some (.str _) | some (.int _) | some (.float _) =>
      s.advance.error "literal values are only allowed inside `Literal[...]`"
  | _ => s.advance.error "expected a type"

/-- The members of a union after the first one. -/
def furtherMembers (member : Reader Declaration) : Nat → Reader (List Declaration)
  | 0, s => s.error "expected a type"
  | fuel + 1, s =>
      if s.isAt .pipe then do
        let (d, s) ← member s.advance
        let (more, s) ← furtherMembers member fuel s
        return (d :: more, s)
      else .ok ([], s)

/-- A union of terms; a single term stands for itself. The first argument
    bounds the nesting of brackets and the number of members; as each takes a
    token, one more than the number of tokens is enough. -/
def unionReader : Nat → Reader Declaration
  | 0, s => s.error "expected a type"
  | fuel + 1, s => do
      let (first, s) ← term (unionReader fuel) (fuel + 1) s
      let (more, s) ← furtherMembers (term (unionReader fuel) (fuel + 1)) (fuel + 1) s
      if more.isEmpty then return (first, s) else return (unionOf (first :: more), s)

/-- The declaration that a list of tokens spells. -/
def ofTokens (tokens : List Lexeme) (finish : Nat) : Except TextError Declaration := do
  let (d, s) ← unionReader (tokens.length + 1) ⟨tokens, finish⟩
  if s.ahead.isEmpty then return d else s.error "unexpected trailing input"

/-- The declaration that a text spells. -/
def parse (text : String) : Except TextError Declaration := do
  let tokens ← Token.tokenize text
  ofTokens tokens text.utf8ByteSize

end Conform.Declaration

/-
  Conform.Pattern.Footprint

  The memory that the automata of a pattern take. A pattern stands for two
  automata over bytes, one that reads forwards and marks what groups capture,
  and one that reads backwards. Their repetitions are written out, so a short
  pattern may need a large automaton; a pattern is valid only if both automata
  stay within ten mebibytes. Only the numbers of the states are followed here,
  not the automata themselves.

  Two structures save states. Literals that stand as alternatives are gathered
  in a trie that keeps their order: once a literal has ended at a node, later
  literals do not join the branches that the node had before, but open a new
  group of branches. And states of classes are shared through a table of limited
  size, where a key has one slot, found by its hash, a new entry pushes out the
  one that held its slot, and a new round starts with all slots free.
-/

import Conform.Pattern.Normal

namespace Conform

open Text (CharRanges)

/-! ## Tries of literals -/

/-- A node with its groups of branches: those closed by a literal that ends
    here, in order, and the open one. The branches of a group are sorted by
    their bytes. -/
inductive LiteralTrie where
  | node (closed : List (List (Nat × LiteralTrie))) (active : List (Nat × LiteralTrie))

namespace LiteralTrie

/-- A node without branches, where no literal ends. -/
def leaf : LiteralTrie := node [] []

/-- Whether a node has no branches. -/
def isLeaf : LiteralTrie → Bool
  | node closed active => active.isEmpty && closed.all List.isEmpty

/-- Changes the branch for a byte, which is a new leaf if there was none. -/
def updateBranch (byte : Nat) (f : LiteralTrie → LiteralTrie) :
    List (Nat × LiteralTrie) → List (Nat × LiteralTrie)
  | [] => [(byte, f leaf)]
  | (b, t) :: rest =>
      if b == byte then (b, f t) :: rest
      else if byte < b then (byte, f leaf) :: (b, t) :: rest
      else (b, t) :: updateBranch byte f rest

/-- Ends a literal at a node. A leaf where one has ended before does not change. -/
def endHere : LiteralTrie → LiteralTrie
  | node closed active =>
      if (node closed active).isLeaf && !closed.isEmpty then node closed active
      else node (closed ++ [active]) []

/-- Adds the bytes of a literal. -/
def add : List Nat → LiteralTrie → LiteralTrie
  | [], t => t.endHere
  | b :: bs, node closed active => node closed (updateBranch b (add bs) active)

/-- The trie of some literals, given by their bytes. -/
def ofLiterals (literals : List (List Nat)) : LiteralTrie :=
  literals.foldl (fun t bytes => add bytes t) leaf

/-! ## Size -/

/-- The parts of an automaton: states, alternatives between states, and edges
    that leave states with more than one. -/
structure Parts where
  states : Nat := 0
  alternatives : Nat := 0
  edges : Nat := 0

namespace Parts

/-- All parts of two automata. -/
def add (a b : Parts) : Parts :=
  ⟨a.states + b.states, a.alternatives + b.alternatives, a.edges + b.edges⟩

/-- A group of branches is one state, if it has any. -/
def ofGroup (branches : Nat) : Parts :=
  if branches == 0 then {}
  else ⟨1, 1, if branches == 1 then 0 else branches⟩

end Parts

mutual
/-- The parts that a node takes. A leaf takes none, since the branch to it leads
    to the common end. Any other node is a choice between its groups, with the
    common end between one group and the next. -/
def parts : LiteralTrie → Parts
  | node closed active =>
      if (node closed active).isLeaf then {}
      else Parts.add ⟨1, closed.length, 0⟩ ((groupParts active).add (groupsParts closed))

/-- The parts that some groups of branches take. -/
def groupsParts : List (List (Nat × LiteralTrie)) → Parts
  | [] => {}
  | g :: gs => (groupParts g).add (groupsParts gs)

/-- The parts that a group of branches takes. -/
def groupParts : List (Nat × LiteralTrie) → Parts
  | g => (Parts.ofGroup g.length).add (branchesParts g)

/-- The parts that the targets of some branches take. -/
def branchesParts : List (Nat × LiteralTrie) → Parts
  | [] => {}
  | (_, t) :: rest => t.parts.add (branchesParts rest)
end

end LiteralTrie

/-! ## Tables of limited size -/

/-- An entry of a table. -/
structure SlotEntry (κ : Type) where
  round : Nat
  key : κ
  value : Nat

/-- A table with a fixed number of slots. -/
structure SlotTable (κ : Type) where
  slots : Array (Option (SlotEntry κ))
  round : Nat := 0

namespace SlotTable

variable {κ : Type}

/-- A table with free slots. -/
def ofSize (n : Nat) : SlotTable κ := { slots := Array.replicate n none }

/-- Frees all slots. -/
def clear (t : SlotTable κ) : SlotTable κ := { t with round := t.round + 1 }

/-- The slot of a hash. -/
def slotOf (t : SlotTable κ) (hash : UInt64) : Nat := hash.toNat % t.slots.size

/-- The value of a key, if its slot holds it. -/
def find? [BEq κ] (t : SlotTable κ) (hash : UInt64) (key : κ) : Option Nat :=
  match t.slots[t.slotOf hash]? with
  | some (some e) => if e.round == t.round && e.key == key then some e.value else none
  | _ => none

/-- Puts an entry into the slot of its key. -/
def insert (t : SlotTable κ) (hash : UInt64) (key : κ) (value : Nat) : SlotTable κ :=
  let i := t.slotOf hash
  { t with slots := t.slots.setIfInBounds i (some ⟨t.round, key, value⟩) }

/-! ## Hashes -/

/-- The hash of no numbers. -/
def hashSeed : UInt64 := 14695981039346656037

/-- The hash of some numbers with another one after them. -/
def hashNext (h : UInt64) (n : Nat) : UInt64 := (h ^^^ n.toUInt64) * 1099511628211

/-- The hash of some numbers. -/
def hashOf (ns : List Nat) : UInt64 := ns.foldl hashNext hashSeed

end SlotTable

namespace Footprint

/-! ## Sizes in bytes -/

/-- The size of a state. -/
def stateSize : Nat := 32

/-- The size of an edge, in a state with a list of edges. -/
def edgeSize : Nat := 8

/-- The size of an alternative, in a state that chooses between others. -/
def alternativeSize : Nat := 4

/-- The largest automaton. -/
def limit : Nat := 0xa00000

/-! ## Automata under construction -/

/-- The direction in which an automaton reads. -/
inductive Direction where
  | forwards
  | backwards
deriving Repr, DecidableEq

/-- An edge for a range of bytes that leads to a state. -/
structure Edge where
  low : Nat
  high : Nat
  target : Nat
deriving Repr, DecidableEq

/-- The size of the automaton so far, and the tables in which states of the
    class under construction are looked up to be shared. -/
structure Assembly where
  states : Nat := 0
  /-- The bytes of edges and alternatives. -/
  extra : Nat := 0
  /-- States by their edges, when reading forwards. -/
  byEdges : SlotTable (List Edge) := .ofSize 10000
  /-- States by their only edge, when reading backwards. -/
  byEdge : SlotTable Edge := .ofSize 1000

/-- A construction, which fails when the automaton gets too large. -/
abbrev Build (α : Type) := StateT Assembly Option α

/-- Adds states with some bytes of edges and alternatives, and gives the number
    of the first one. -/
def addStates (count bytes : Nat) : Build Nat := fun a =>
  let states := a.states + count
  let extra := a.extra + bytes
  if states * stateSize + extra > limit then none
  else some (a.states, { a with states := states, extra := extra })

/-- Adds a state without edges and alternatives of its own. -/
def addState : Build Nat := addStates 1 0

/-- Adds alternatives to states that are there. -/
def addAlternatives (n : Nat) : Build Unit := do
  let _ ← addStates 0 (n * alternativeSize)

/-- How a part of an automaton ends: in a state that chooses, which takes one
    more alternative for what follows, or in one that leads on. -/
inductive Ending where
  | choice
  | plain

/-- Leads from the end of a part to another state. -/
def link : Ending → Build Unit
  | .choice => addAlternatives 1
  | .plain => pure ()

/-! ## Classes -/

/-- The byte ranges of the characters of a set. -/
def byteRangesOf (r : CharRanges) : List (List (Nat × Nat)) :=
  r.ranges.flatMap fun (low, high) => Text.Utf8.byteRanges low high

/-- A class of ASCII characters is one state with an edge for each range. -/
def addAsciiClass (r : CharRanges) : Build Unit := do
  let _ ← addState
  let _ ← addStates 1 (r.ranges.length * edgeSize)

/-- The state with the given edges, shared with an earlier one if the table
    still holds it. -/
def addNode (edges : List Edge) : Build Nat := do
  let hash := SlotTable.hashOf (edges.flatMap fun e => [e.low, e.high, e.target])
  match (← get).byEdges.find? hash edges with
  | some s => return s
  | none =>
      let s ← addStates 1 (edges.length * edgeSize)
      modify fun a => { a with byEdges := a.byEdges.insert hash edges s }
      return s

/-- A state on the way to the last character added: its finished edges, the
    last one first, and the bytes of the edge that leads on. -/
structure OpenNode where
  edges : List Edge
  last : Option (Nat × Nat)

namespace OpenNode

/-- The edges of a node whose open edge leads to a state. -/
def close (n : OpenNode) (target : Nat) : List Edge :=
  match n.last with
  | some (low, high) => ⟨low, high, target⟩ :: n.edges
  | none => n.edges

end OpenNode

/-- Adds the states of an open path, from its end on, where it leads to the
    state `exit`; gives the first one. -/
def closePath (exit : Nat) : List OpenNode → Build Nat
  | [] => pure exit
  | n :: path => do
      let target ← closePath exit path
      addNode (n.close target).reverse

/-- Adds a sequence of byte ranges to an open path, sharing the part that they
    have in common. -/
def extendPath (exit : Nat) : List OpenNode → List (Nat × Nat) → Build (List OpenNode)
  | n :: path, r :: rs => do
      if n.last == some r then
        return n :: (← extendPath exit path rs)
      else
        let target ← closePath exit path
        return ⟨n.close target, some r⟩ :: rs.map fun r => ⟨[], some r⟩
  | path, _ => pure path

/-- A class that is read forwards: states with the same edges are shared. -/
def addClassForwards (r : CharRanges) : Build Unit := do
  modify fun a => { a with byEdges := a.byEdges.clear }
  let exit ← addState
  let path ← (byteRangesOf r).foldlM (extendPath exit) [⟨[], none⟩]
  let _ ← closePath exit path

/-- The state with one edge, shared with an earlier one if the table still
    holds it. -/
def addStep (target : Nat) (range : Nat × Nat) : Build Nat := do
  let edge : Edge := ⟨range.1, range.2, target⟩
  let hash := SlotTable.hashOf [target, range.1, range.2]
  match (← get).byEdge.find? hash edge with
  | some s => return s
  | none =>
      let s ← addState
      modify fun a => { a with byEdge := a.byEdge.insert hash edge s }
      return s

/-- A class that is read backwards: a choice between its sequences, which share
    their ends. -/
def addClassBackwards (r : CharRanges) : Build Unit := do
  modify fun a => { a with byEdge := a.byEdge.clear }
  let _ ← addState
  let exit ← addState
  (byteRangesOf r).forM fun ranges => do
    let _ ← ranges.foldlM addStep exit
    addAlternatives 1

/-- A class. -/
def addClass (dir : Direction) (r : CharRanges) : Build Unit :=
  if r.isAscii then addAsciiClass r
  else match dir with
    | .forwards => addClassForwards r
    | .backwards => addClassBackwards r

/-! ## Runs and choices -/

/-- Parts after one another, with the ending of what stands before them. -/
def chainFrom (ending : Ending) : List (Build Ending) → Build Ending
  | [] => pure ending
  | part :: parts => do
      let next ← part
      link ending
      chainFrom next parts

/-- Parts after one another. -/
def chain : List (Build Ending) → Build Ending
  | [] => do
      let _ ← addState
      return .plain
  | part :: parts => do chainFrom (← part) parts

/-- One alternative of a choice. -/
def addAlternative (ending : Ending) : Build Unit := do
  addAlternatives 1
  link ending

/-- A choice between parts. -/
def choose : List (Build Ending) → Build Ending
  | [] => do
      let _ ← addState
      return .plain
  | [part] => part
  | first :: second :: parts => do
      let e₁ ← first
      let e₂ ← second
      let _ ← addStates 2 0
      addAlternative e₁
      addAlternative e₂
      parts.forM fun part => do addAlternative (← part)
      return .plain

/-- A choice between literals. -/
def chooseLiteral (dir : Direction) (literals : List (List Nat)) : Build Ending := do
  let literals := match dir with
    | .forwards => literals
    | .backwards => literals.map List.reverse
  let parts := (LiteralTrie.ofLiterals literals).parts
  let _ ← addStates (parts.states + 1)
    (parts.alternatives * alternativeSize + parts.edges * edgeSize)
  return .plain

/-! ## Repetitions -/

/-- A part `n` times more, with the ending of what stands before. -/
def repeatFrom (part : Build Ending) : Nat → Ending → Build Ending
  | 0, ending => pure ending
  | n + 1, ending => do
      let next ← part
      link ending
      repeatFrom part n next

/-- A part `n` times. -/
def exactly (part : Build Ending) : Nat → Build Ending
  | 0 => chain []
  | n + 1 => do repeatFrom part n (← part)

/-- A part at most once. -/
def optional (part : Build Ending) : Build Ending := do
  let _ ← addState
  let ending ← part
  let _ ← addState
  addAlternatives 2
  link ending
  return .plain

/-- A part at least `n` times. If it may match the empty text, zero or more
    times is one or more times, or not at all. -/
def atLeast (part : Build Ending) (mayBeEmpty : Bool) : Nat → Build Ending
  | 0 => do
      if mayBeEmpty then
        let ending ← part
        let _ ← addStates 3 0
        link ending
        addAlternatives 4
        return .plain
      else
        let _ ← addState
        addAlternative (← part)
        return .choice
  | 1 => do
      let ending ← part
      let _ ← addState
      addAlternative ending
      return .choice
  | n + 2 => do
      let before ← exactly part (n + 1)
      let ending ← part
      let _ ← addState
      link before
      addAlternative ending
      return .choice

/-- A part at most `n` times more, with the ending of what stands before. -/
def upToFrom (part : Build Ending) : Nat → Ending → Build Ending
  | 0, ending => do
      link ending
      return .plain
  | n + 1, ending => do
      let _ ← addState
      let next ← part
      link ending
      addAlternatives 2
      upToFrom part n next

/-- A part repeated. -/
def repeated (part : Build Ending) (mayBeEmpty : Bool) (least : Nat) : Option Nat → Build Ending
  | none => atLeast part mayBeEmpty least
  | some most =>
      if least == 0 && most == 1 then optional part
      else if least == most then exactly part least
      else do
        let before ← exactly part least
        let _ ← addState
        upToFrom part (most - least) before

/-! ## Patterns -/

/-- The bytes of a pattern that is a literal. -/
def literalBytes? : NormalPattern → Option (List Nat)
  | .literal codes => some (codes.flatMap Text.Utf8.encode)
  | _ => none

/-- What a group captures has a mark before and after it, reading forwards. -/
def captured (dir : Direction) (part : Build Ending) : Build Ending :=
  match dir with
  | .forwards => do
      let _ ← addState
      let ending ← part
      let _ ← addState
      link ending
      return .plain
  | .backwards => part

mutual
/-- A pattern in normal form. -/
def build (dir : Direction) : NormalPattern → Build Ending
  | .empty | .assertion _ => do
      let _ ← addState
      return .plain
  | .literal codes => do
      let _ ← addStates (codes.flatMap Text.Utf8.encode).length 0
      return .plain
  | .cls r => do
      addClass dir r
      return .plain
  | .capture _ p => captured dir (build dir p)
  | .rep p least most _ =>
      repeated (build dir p) (p.shortest.all (· == 0)) least most
  | .seq ps =>
      chain (match dir with
        | .forwards => builds dir ps
        | .backwards => (builds dir ps).reverse)
  | .alt ps =>
      match ps.mapM literalBytes? with
      | some literals => chooseLiteral dir literals
      | none => choose (builds dir ps)

/-- Some patterns in normal form. -/
def builds (dir : Direction) : List NormalPattern → List (Build Ending)
  | [] => []
  | p :: ps => build dir p :: builds dir ps
end

/-- What stands before a pattern: any bytes, unless it can only match at the
    end of the text where the automaton starts. -/
def addFront (anchored : Bool) : Build Ending := do
  if anchored then
    let _ ← addState
    return .plain
  else
    let _ ← addState
    addAsciiClass .full
    addAlternatives 1
    return .choice

/-- A whole automaton. -/
def automaton (dir : Direction) (p : NormalPattern) : Build Unit := do
  let anchored := match dir with
    | .forwards => p.isAnchored .textStart false
    | .backwards => p.isAnchored .textEnd true
  let front ← addFront anchored
  let ending ← captured dir (build dir p)
  let _ ← addState
  link ending
  link front

/-- Whether the automaton of a pattern stays within the limit. -/
def fitsIn (dir : Direction) (p : NormalPattern) : Bool := (automaton dir p {}).isSome

/-- Whether both automata of a pattern stay within the limit. -/
def fits (p : NormalPattern) : Bool := fitsIn .forwards p && fitsIn .backwards p

end Footprint

end Conform

import Manifest.Yaml.Scanner
/-!
# The nodes of a document

A node is a scalar with its style, a sequence or a mapping, each with an
optional tag, or an alias. The grammar reads one node from a list of tokens;
`document?` also requires that the text holds no second document.

Every anchor gets a number when it is met: the number of distinct anchor
names so far. An alias stands for the node that got its number last, which
may lie inside another node of that number.
-/

namespace Manifest.Yaml

inductive Node where
  | scalar (text : String) (style : ScalarStyle) (tag : Option String)
  | sequence (items : List Node) (tag : Option String)
  | mapping (entries : List (Node × Node)) (tag : Option String)
  | alias (number : Nat)
deriving Inhabited, Repr

/-- The node of a place where nothing is written. -/
def Node.absent : Node := .scalar "" .plain none

/-- A document: its root, what each anchor number stands for, the latest
first, and its size in events. -/
structure Document where
  root : Node
  anchors : List (Nat × Node)
  events : Nat

namespace Grammar

/-- The number of an anchor, and how many anchors were met before it. -/
structure Anchor where
  number : Nat
  order : Nat

structure State where
  tokens : List Token
  /-- Expansions of the tag handles declared for this document. -/
  handles : List (String × String) := []
  /-- The number of each anchor name, the latest first. -/
  names : List (String × Nat) := []
  /-- The nodes with an anchor, the one met last first. -/
  anchors : List (Anchor × Node) := []
  events : Nat := 0

abbrev Reader := StateT State Option

def peek : Reader (Option Token) := do return (← get).tokens.head?

def advance : Reader Unit := modify fun s => { s with tokens := s.tokens.drop 1 }

def countEvents (n : Nat) : Reader Unit := modify fun s => { s with events := s.events + n }

def reject {α : Type} : Reader α := fun _ => none

/-- Steps over the next token, which has to be this one. -/
def expect (t : Token) : Reader Unit := do
  if (← peek) = some t then advance else reject

/-- Is the next token one of these? -/
def nextIn (ts : List Token) : Reader Bool := do
  match ← peek with
  | some t => return ts.contains t
  | none => return false

def declareAnchor (name : String) : Reader Anchor := do
  let s ← get
  let number := (s.names.map Prod.fst).eraseDups.length
  set { s with names := (name, number) :: s.names }
  return ⟨number, s.names.length⟩

/-- Puts a node behind those that were met after it. -/
def insertAnchor (a : Anchor) (node : Node) : List (Anchor × Node) → List (Anchor × Node)
  | [] => [(a, node)]
  | (b, other) :: rest =>
    if a.order < b.order then (b, other) :: insertAnchor a node rest
    else (a, node) :: (b, other) :: rest

def anchorNode (anchor : Option Anchor) (node : Node) : Reader Node := do
  match anchor with
  | some a => modify fun s => { s with anchors := insertAnchor a node s.anchors }
  | none => pure ()
  return node

/-- The full tag of a handle and a suffix. -/
def expandTag (handle suffix : String) : Reader String := do
  if handle.isEmpty then return suffix
  else
    match (← get).handles.lookup handle with
    | some expansion => return expansion ++ suffix
    | none =>
      if handle = "!" then return "!" ++ suffix
      else if handle = "!!" then return "tag:yaml.org,2002:" ++ suffix
      else reject

/-- The anchor and the tag in front of a node, in either order. -/
def properties : Reader (Option String × Option String) := do
  let anchor? : Reader (Option String) := do
    match ← peek with
    | some (.anchor name) => advance; return some name
    | _ => return none
  let tag? : Reader (Option String) := do
    match ← peek with
    | some (.tag handle suffix) => advance; return some (← expandTag handle suffix)
    | _ => return none
  match ← anchor? with
  | some name => return (some name, ← tag?)
  | none =>
    match ← tag? with
    | some tag => return (← anchor?, some tag)
    | none => return (none, none)

mutual

/-- One node. A `block` node may be a block collection, and an `indentless`
one a sequence at the column of the mapping around it. -/
def node (block indentless : Bool) : (fuel : Nat) → Reader Node
  | 0 => reject
  | fuel + 1 => do
    match ← peek with
    | some (.alias name) =>
      advance
      countEvents 1
      match (← get).names.lookup name with
      | some number => return .alias number
      | none => reject
    | _ =>
      let (name, tag) ← properties
      let anchor ← name.mapM declareAnchor
      match ← peek with
      | some .blockEntry =>
        if indentless then
          anchorNode anchor (.sequence (← indentlessItems fuel) tag)
        else if name.isSome || tag.isSome then emptyNode anchor tag
        else reject
      | some (.scalar text style) =>
        advance
        countEvents 1
        let tag := if tag = some "!" then none else tag
        anchorNode anchor (.scalar text style tag)
      | some .flowSequenceStart =>
        advance
        anchorNode anchor (.sequence (← flowItems true fuel) tag)
      | some .flowMappingStart =>
        advance
        anchorNode anchor (.mapping (← flowEntries true fuel) tag)
      | some .blockSequenceStart =>
        if block then
          advance
          anchorNode anchor (.sequence (← blockItems fuel) tag)
        else if name.isSome || tag.isSome then emptyNode anchor tag
        else reject
      | some .blockMappingStart =>
        if block then
          advance
          anchorNode anchor (.mapping (← blockEntries fuel) tag)
        else if name.isSome || tag.isSome then emptyNode anchor tag
        else reject
      | _ => if name.isSome || tag.isSome then emptyNode anchor tag else reject

/-- The node of an anchor or a tag with nothing behind it. -/
def emptyNode (anchor : Option Anchor) (tag : Option String) : Reader Node := do
  countEvents 1
  anchorNode anchor (.scalar "" .plain tag)

/-- A block node, or the absent node if one of `stops` follows. -/
def blockNodeOr (stops : List Token) (indentless : Bool) : (fuel : Nat) → Reader Node
  | 0 => reject
  | fuel + 1 => do
    match ← peek with
    | some t =>
      if stops.contains t then
        countEvents 1
        return .absent
      else node true indentless fuel
    | none => node true indentless fuel

def flowNodeOr (stops : List Token) : (fuel : Nat) → Reader Node
  | 0 => reject
  | fuel + 1 => do
    match ← peek with
    | some t =>
      if stops.contains t then
        countEvents 1
        return .absent
      else node false false fuel
    | none => node false false fuel

def blockItems : (fuel : Nat) → Reader (List Node)
  | 0 => reject
  | fuel + 1 => do
    match ← peek with
    | some .blockEntry =>
      advance
      let item ← blockNodeOr [.blockEntry, .blockEnd] false fuel
      return item :: (← blockItems fuel)
    | some .blockEnd =>
      advance
      countEvents 2
      return []
    | _ => reject

def indentlessItems : (fuel : Nat) → Reader (List Node)
  | 0 => reject
  | fuel + 1 => do
    match ← peek with
    | some .blockEntry =>
      advance
      let item ← blockNodeOr [.blockEntry, .key, .value, .blockEnd] false fuel
      return item :: (← indentlessItems fuel)
    | _ =>
      countEvents 2
      return []

def blockEntries : (fuel : Nat) → Reader (List (Node × Node))
  | 0 => reject
  | fuel + 1 => do
    match ← peek with
    | some .key =>
      advance
      let k ← blockNodeOr [.key, .value, .blockEnd] true fuel
      let v ← blockValue fuel
      return (k, v) :: (← blockEntries fuel)
    | some .blockEnd =>
      advance
      countEvents 2
      return []
    | _ => reject

def blockValue : (fuel : Nat) → Reader Node
  | 0 => reject
  | fuel + 1 => do
    match ← peek with
    | some .value =>
      advance
      blockNodeOr [.key, .value, .blockEnd] true fuel
    | _ =>
      countEvents 1
      return .absent

/-- The items up to the closing bracket; a comma in front of all but the
first. -/
def flowItems (first : Bool) : (fuel : Nat) → Reader (List Node)
  | 0 => reject
  | fuel + 1 => do
    if (← peek) = some .flowSequenceEnd then
      advance
      countEvents 2
      return []
    else
      if !first then expect .flowEntry
      match ← peek with
      | some .flowSequenceEnd =>
        advance
        countEvents 2
        return []
      | some .key =>
        advance
        let pair ← flowPair fuel
        countEvents 2
        return .mapping [pair] none :: (← flowItems false fuel)
      | _ =>
        let item ← node false false fuel
        return item :: (← flowItems false fuel)

/-- A single pair among the items of a flow sequence. A key that is left out
takes the token behind it along. -/
def flowPair : (fuel : Nat) → Reader (Node × Node)
  | 0 => reject
  | fuel + 1 => do
    let stops : List Token := [.value, .flowEntry, .flowSequenceEnd]
    let k ←
      if ← nextIn stops then
        advance
        countEvents 1
        pure Node.absent
      else node false false fuel
    if (← peek) = some .value then
      advance
      return (k, ← flowNodeOr [.flowEntry, .flowSequenceEnd] fuel)
    else
      countEvents 1
      return (k, .absent)

def flowEntries (first : Bool) : (fuel : Nat) → Reader (List (Node × Node))
  | 0 => reject
  | fuel + 1 => do
    if (← peek) = some .flowMappingEnd then
      advance
      countEvents 2
      return []
    else
      if !first then expect .flowEntry
      match ← peek with
      | some .flowMappingEnd =>
        advance
        countEvents 2
        return []
      | some .key =>
        advance
        let k ← flowNodeOr [.value, .flowEntry, .flowMappingEnd] fuel
        let v ←
          if (← peek) = some .value then
            advance
            flowNodeOr [.flowEntry, .flowMappingEnd] fuel
          else
            countEvents 1
            pure Node.absent
        return (k, v) :: (← flowEntries false fuel)
      | _ =>
        let k ← node false false fuel
        countEvents 1
        return (k, .absent) :: (← flowEntries false fuel)

end

/-! ## Documents -/

def isDirective : Token → Bool
  | .version .. => true
  | .tagHandle .. => true
  | _ => false

/-- The declared handles; at most one version, which has to be 1.1 or 1.2,
and no handle twice. -/
def declaredHandles? (directives : List Token) : Option (List (String × String)) :=
  let versions := directives.filterMap fun
    | .version major minor => some (major, minor)
    | _ => none
  let handles := directives.filterMap fun
    | .tagHandle handle expansion => some (handle, expansion)
    | _ => none
  if 1 < versions.length || !versions.all (fun v => v = (1, 1) || v = (1, 2)) then none
  else if (handles.map Prod.fst).eraseDups.length < handles.length then none
  else some handles

/-- The root node of a document; nothing behind a start marker is the absent
node. -/
def root (explicit : Bool) (fuel : Nat) : Reader Node := do
  match ← peek with
  | none => countEvents 1; return .absent
  | some t =>
    if explicit && (t = .documentStart || t = .documentEnd || isDirective t) then
      countEvents 1
      return .absent
    else node true false fuel

/-- What follows the root: end markers, and no further document. -/
def finished? : List Token → Bool
  | [] => true
  | .documentEnd :: rest => finished? rest
  | _ => false

end Grammar

open Grammar in
/-- The one document of a text; a text without one stands for an absent node. -/
def document? (text : String) : Option Document := do
  let tokens ← tokens? text
  let directives := tokens.takeWhile isDirective
  let rest := tokens.dropWhile isDirective
  let explicit := !directives.isEmpty || rest.head? = some .documentStart
  let handles ← declaredHandles? directives
  if explicit && rest.head? ≠ some .documentStart then none
  else if !explicit && rest.isEmpty then
    some { root := .absent, anchors := [], events := 1 }
  else
    let body := if explicit then rest.drop 1 else rest
    let (root, s) ← (root explicit (4 * body.length + 4)).run { tokens := body, handles }
    if finished? s.tokens then
      pure { root, anchors := s.anchors.map fun (a, n) => (a.number, n), events := s.events }
    else none

end Manifest.Yaml

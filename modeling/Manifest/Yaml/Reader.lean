import Manifest.Yaml.Node
import Manifest.Yaml.Scalar
/-!
# Reading YAML values

A text is read into nodes and the nodes into values: plain scalars stand for
what their text says, aliases for the node they name. Collections nest at
most 128 deep, a mapping holds each key once, and aliases are followed at
most a hundred times per event of the document, so that no document unfolds
into an unbounded value.
-/

namespace Manifest.Yaml

/-! ## Tags -/

/-- The name of a local tag: what follows its exclamation mark. -/
def localTag? (tag : Option String) : Option String :=
  match tag.map String.toList with
  | some ['!'] => some "!"
  | some ('!' :: name) => some (String.ofList name)
  | _ => none

/-- The value of a scalar with one of the tags of the core schema, or with
any other tag that is not local. -/
def ofCoreTag? (tag text : String) : Option Yaml :=
  if tag = "tag:yaml.org,2002:bool" then (boolOf? text).map .bool
  else if tag = "tag:yaml.org,2002:int" then
    (intOf? text.toList).bind fun i =>
      if Yaml.fitsWord i then some (.int i) else none
  else if tag = "tag:yaml.org,2002:float" then (floatOf? text.toList).map .float
  else if tag = "tag:yaml.org,2002:null" then if isNullWord text then some .null else none
  else some (.string text)

/-- A scalar without regard to a local tag. -/
def ofScalar? (text : String) (style : ScalarStyle) : Option Yaml :=
  if style = .plain then ofPlain? text else some (.string text)

/-! ## Nodes -/

def maxDepth : Nat := 128

/-- Reading, with the number of aliases that may still be followed. -/
abbrev Resolver := StateT Nat Option

namespace Resolver

def reject {α : Type} : Resolver α := fun _ => none

/-- The node itself, or the one that an alias stands for. -/
def follow (d : Document) : Node → Resolver Node
  | .alias number => do
    let left ← get
    if left = 0 then reject
    else
      set (left - 1)
      match d.anchors.lookup number with
      | some node => return node
      | none => reject
  | node => return node

/-- Adds an entry; its key must be new. -/
def addEntry (entries : Entries) (k v : Yaml) : Resolver Entries :=
  if entries.any (fun (k', _) => same k k') then reject else return entries ++ [(k, v)]

end Resolver

/-- The value with its tag, if that is a local one. -/
def withTag (tag : Option String) (v : Yaml) : Yaml :=
  match localTag? tag with
  | some name => .tagged name v
  | none => v

/-- The value of a scalar node. -/
def scalarValue? (text : String) (style : ScalarStyle) (tag : Option String) : Option Yaml :=
  match localTag? tag, tag with
  | none, some tag => ofCoreTag? tag text
  | _, _ => (ofScalar? text style).map (withTag tag)

open Resolver in
/-- The value of a node inside which collections may nest `depth` deep. -/
def resolve (d : Document) : (depth : Nat) → Node → Resolver Yaml
  | 0, node => do
    match ← follow d node with
    | .scalar text style tag => StateT.lift (scalarValue? text style tag)
    | _ => reject
  | depth + 1, node => do
    match ← follow d node with
    | .scalar text style tag => StateT.lift (scalarValue? text style tag)
    | .sequence items tag =>
      let items ← items.mapM (resolve d depth)
      return withTag tag (.sequence items)
    | .mapping entries tag =>
      let entries ← entries.foldlM (fun done (k, v) => do
        let k ← resolve d depth k
        addEntry done k (← resolve d depth v)) []
      return withTag tag (.mapping entries)
    | _ => reject

/-- Reads the one value of a text; an empty text is null. -/
def read? (text : String) : Option Yaml := do
  let d ← document? text
  let (v, _) ← (resolve d maxDepth d.root).run (100 * d.events)
  pure v

end Manifest.Yaml

import Manifest.Files.Path
/-!
# Files

Documents are read from a view of the file system: what stands at a path, if
anything does. A view may be a tree held in memory, where a path is walked
step by step from the root of the tree.
-/

namespace Manifest

/-- What stands at a path. A file whose bytes are no text has no text. -/
inductive Files.Entry where
  | file (text : Option String)
  | directory
deriving DecidableEq, Repr

structure Files where
  find? : String → Option Files.Entry
  /-- The directory that a leading `~/` stands for. -/
  home : Option String := none

namespace Files

def isFile (files : Files) (path : String) : Bool :=
  match files.find? path with
  | some (.file _) => true
  | _ => false

def isDirectory (files : Files) (path : String) : Bool := files.find? path = some .directory

/-- The text of a file; nothing if there is none, or no file. -/
def read? (files : Files) (path : String) : Option String :=
  match files.find? path with
  | some (.file text) => text
  | _ => none

/-- A tree in memory: the entries by the steps that lead to them. Everything
above an entry is a directory. -/
abbrev Tree := List (List String × Entry)

namespace Tree

def entry? (tree : Tree) (place : List String) : Option Entry :=
  match tree.lookup place with
  | some e => some e
  | none => if tree.any fun (p, _) => place.isPrefixOf p then some .directory else none

/-- Walks on from a place, given innermost name first. Steps lead on only
from directories, and not above the root. -/
def walk (tree : Tree) : (place : List String) → (steps : List String) → Option (List String)
  | place, [] => some place
  | place, step :: rest =>
    let here := if place.isEmpty then some Entry.directory else entry? tree place.reverse
    if here ≠ some .directory then none
    else if step.isEmpty || step = "." then walk tree place rest
    else if step = ".." then
      match place with
      | [] => none
      | _ :: above => walk tree above rest
    else walk tree (step :: place) rest

/-- The entry at a relative path, or the root of the file system. -/
def find? (tree : Tree) (path : String) : Option Entry :=
  if path.isEmpty then none
  else if Path.isAbsolute path then
    if (Path.steps path).all fun step => step.isEmpty || step = "." || step = ".." then
      some .directory
    else none
  else
    match walk tree [] (Path.steps path) with
    | none => none
    | some [] => some .directory
    | some place => entry? tree place.reverse

def files (tree : Tree) (home : Option String) : Files := { find? := find? tree, home }

end Tree

end Files

end Manifest

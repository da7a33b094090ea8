import Manifest.Files
import Manifest.SourceMap
import Manifest.Yaml.Reader
import Manifest.Validation.Rule
/-!
# Source documents

A source document is a value together with the text it was read from. When it
is read from a file, every string `file:<path>` in it is replaced by the
contents of that file, except below a key `extends`. The contents are trimmed,
and each `${` in them that opens no expression is doubled, so that it stays
what it is.
-/

namespace Manifest

structure SourceDocument where
  path : Option String := none
  source : String
  value : Yaml
deriving DecidableEq

namespace SourceDocument

/-- The directory that paths inside the document start from. -/
def baseDirectory (d : SourceDocument) : Option String := d.path.bind Path.parent?

def parseValue (source : String) : Except Failure Yaml :=
  match Yaml.read? source with
  | some v => .ok v
  | none => .error .malformedDocument

/-- Reads a text that belongs to no file; references to files stay. -/
def parse (source : String) : Except Failure SourceDocument := do
  pure { source, value := ← parseValue source }

/-! ## References to files -/

/-- Doubles the dollar of every `${` without a second brace. -/
def escapeBraces : List Char → List Char
  | '$' :: '{' :: '{' :: rest => '$' :: '{' :: '{' :: escapeBraces rest
  | '$' :: '{' :: rest => '$' :: '$' :: '{' :: escapeBraces rest
  | c :: rest => c :: escapeBraces rest
  | [] => []

/-- The path behind the mark of a reference, if the text is one. -/
def reference? (text : String) : Option String :=
  (Text.dropStart? Validation.fileMark.toList text.toList).map String.ofList

/-- Where a reference leads. -/
def targetPath (files : Files) (base target : String) : String :=
  let target := Text.trim target.toList
  match Text.dropStart? ['~', '/'] target, files.home with
  | some rest, some home => Path.join home (String.ofList rest)
  | _, _ => Path.join base (String.ofList target)

/-- What a file stands for in a document. -/
def contents (text : String) : String := String.ofList (escapeBraces (Text.trim text.toList))

def missing (path text target : String) : Diagnostic :=
  { kind := .missingConfigSource, path, constraint := "file-ref",
    message := "referenced file " ++ target ++ " does not exist", value := text }

/-- The text that a string stands for, or the problem with it. A file that is
there but cannot be read ends the reading. -/
def substituteText (files : Files) (base path text : String) :
    Except Failure (String × List Diagnostic) :=
  match reference? text with
  | none => .ok (text, [])
  | some target =>
    let file := targetPath files base target
    if !files.isFile file then .ok (text, [missing path text file])
    else
      match files.read? file with
      | some text => .ok (contents text, [])
      | none => .error (.unreadable file)

mutual

/-- The value with its references replaced, and the references that lead
nowhere, in document order. -/
def substitute (files : Files) (base path : String) :
    Yaml → Except Failure (Yaml × List Diagnostic)
  | .string text => do
    let (text, problems) ← substituteText files base path text
    pure (.string text, problems)
  | .mapping entries => do
    let (entries, problems) ← substituteEntries files base path entries
    pure (.mapping entries, problems)
  | .sequence items => do
    let (items, problems) ← substituteItems files base path 0 items
    pure (.sequence items, problems)
  | .tagged tag value => do
    let (value, problems) ← substitute files base path value
    pure (.tagged tag value, problems)
  | value => .ok (value, [])

def substituteEntries (files : Files) (base path : String) :
    Yaml.Entries → Except Failure (Yaml.Entries × List Diagnostic)
  | [] => .ok ([], [])
  | (k, v) :: rest => do
    let key := k.asString?.getD ""
    let (v, here) ←
      if key = "extends" then .ok (v, [])
      else substitute files base (PropertyPath.join path key) v
    let (rest, later) ← substituteEntries files base path rest
    pure ((k, v) :: rest, here ++ later)

def substituteItems (files : Files) (base path : String) (index : Nat) :
    List Yaml → Except Failure (List Yaml × List Diagnostic)
  | [] => .ok ([], [])
  | item :: rest => do
    let (item, here) ← substitute files base (PropertyPath.item path index) item
    let (rest, later) ← substituteItems files base path (index + 1) rest
    pure (item :: rest, here ++ later)

end

mutual

/-- The files that the strings of a value refer to. -/
def targets (files : Files) (base : String) : Yaml → List String
  | .string text => ((reference? text).map (targetPath files base)).toList
  | .mapping entries => entryTargets files base entries
  | .sequence items => itemTargets files base items
  | .tagged _ value => targets files base value
  | _ => []

def entryTargets (files : Files) (base : String) : Yaml.Entries → List String
  | [] => []
  | (k, v) :: rest =>
    (if k.asString? = some "extends" then [] else targets files base v)
      ++ entryTargets files base rest

def itemTargets (files : Files) (base : String) : List Yaml → List String
  | [] => []
  | item :: rest => targets files base item ++ itemTargets files base rest

end

/-- The directory that references in a file start from. -/
def directoryOf (path : String) : String := (Path.parent? path).getD "."

/-- Reads a text that stands in a file, and what it refers to. -/
def parseAt (files : Files) (source path : String) : Except Failure SourceDocument := do
  let value ← parseValue source
  let (value, problems) ← substitute files (directoryOf path) "" value
  unlessInvalid (SourceMap.annotate source problems) { path, source, value }

/-! ## Finding documents -/

/-- The names a document may have in a directory, in order of precedence. -/
def fileNames : List String := ["component.yml", "component.yaml", "component.json"]

/-- The file of a document: the path itself, or a file in that directory. -/
def findFile (files : Files) (path : String) : Except Failure String :=
  if files.isFile path then .ok path
  else
    let candidates := if files.isDirectory path then fileNames.map (Path.join path) else []
    match candidates.find? files.isFile with
    | some file => .ok file
    | none => .error (.missingConfigSource path)

def readFile (files : Files) (path : String) : Except Failure String :=
  match files.read? path with
  | some text => .ok text
  | none => .error (.unreadable path)

/-- Finds and reads the document at a path. -/
def load (files : Files) (path : String) : Except Failure SourceDocument := do
  let file ← findFile files path
  parseAt files (← readFile files file) file

end SourceDocument

end Manifest

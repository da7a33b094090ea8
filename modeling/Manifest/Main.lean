import Manifest.CommandLine
/-!
# The program

Reads what a run depends on, and prints what it yields. A path is looked at
once, before the run: the settings, the documents that the arguments name or
that stand in a directory they name, and the files that those refer to.
-/

open Manifest

/-- What stands at a path; nothing if there is nothing. -/
def entryAt (path : String) : IO (Option Files.Entry) := do
  try
    let bytes ← IO.FS.readBinFile path
    pure (some (.file (String.fromUTF8? bytes)))
  catch
    | .noFileOrDirectory .. => pure none
    | .inappropriateType .. => pure (some .directory)
    | _ => pure (some (.file none))

/-- A view of the given paths only. -/
def viewOf (home : Option String) (entries : List (String × Files.Entry)) : Files where
  find? path := entries.lookup path
  home := home

def entriesAt (paths : List String) : IO (List (String × Files.Entry)) := do
  let found ← paths.mapM fun path => do pure ((← entryAt path).map (path, ·))
  pure (found.filterMap id)

/-- The files that the documents among the entries refer to. -/
def targetsIn (home : Option String) (entries : List (String × Files.Entry)) : List String :=
  entries.flatMap fun (path, entry) =>
    match entry with
    | .file (some text) =>
      match Yaml.read? text with
      | some value =>
        SourceDocument.targets (viewOf home []) (SourceDocument.directoryOf path) value
      | none => []
    | _ => []

def main (args : List String) : IO UInt32 := do
  let environment ← IO.getEnv "DECKHAND_CONFIG"
  let home ← IO.getEnv "HOME"
  let (settings, documents) :=
    match CommandLine.readRequest environment args with
    | .ok request => (request.settings.toList, CommandLine.documents request)
    | .error _ => ([], [])
  let entries ← entriesAt (documents.flatMap fun path =>
    path :: SourceDocument.fileNames.map (Path.join path))
  let targets ← entriesAt (targetsIn home entries)
  let files := viewOf home (entries ++ targets ++ (← entriesAt settings))
  let outcome := CommandLine.run environment files args
  IO.print outcome.output
  IO.eprint outcome.errors
  pure (UInt32.ofNat outcome.status)

import Manifest.Schema
import Manifest.Schema.Suggestion
import Manifest.Diagnostic
/-!
# Checking the shape of a document

The value tree is walked along the tables of fields. Every unknown key, value
of a wrong type, malformed key and missing required field gives a diagnostic
at its property path, in document order.
-/

namespace Manifest.Schema

open PropertyPath (join)

def problem (path constraint message : String) (value : Option String := none) : Diagnostic :=
  { kind := .schemaValidation, path, constraint, message, value }

def wrongType (path : String) (shape : Shape) : List Diagnostic :=
  [problem path "type" shape.expected]

/-- The keys that may be meant by a misspelt one are those of the table. -/
def unknownKey (object : ObjectName) (path key : String) : Diagnostic :=
  let hint :=
    match suggest? key ((fieldsOf object).map Field.name) with
    | some name => ". Did you mean \"" ++ name ++ "\"?"
    | none => ""
  problem path "unknown-key"
    ("\"" ++ key ++ "\" is not a valid " ++ object.text ++ " key" ++ hint) key

/-- The required fields of an object that are missing or null. -/
def missingFields (object : ObjectName) (path : String) (entries : Yaml.Entries) :
    List Diagnostic :=
  let isMissing (f : Field) : Bool :=
    f.required && ((Yaml.entry? f.name entries).all Yaml.isNull)
  ((fieldsOf object).filter isMissing).map fun f =>
    problem (join path f.name) "required" (f.name ++ " is required")

def badKey (keys : KeyGrammar) (path key : String) : List Diagnostic :=
  if keys.accepts key then []
  else [problem path "matches" ("\"" ++ key ++ "\" " ++ keys.description) key]

def badItems (path : String) (ok : Yaml → Bool) (items : List Yaml) : List Diagnostic :=
  (items.zipIdx.filter fun (item, _) => !ok item).map fun (_, index) =>
    problem (PropertyPath.item path index) "type" "list items must be strings"

mutual

/-- The problems of a value that is not null. -/
def checkShape (path : String) (shape : Shape) (value : Yaml) : List Diagnostic :=
  match shape, value with
  | .text, value => if value.isString then [] else wrongType path shape
  | .scalar, value => if value.isScalar then [] else wrongType path shape
  | .textList, .sequence items => badItems path Yaml.isString items
  | .textList, _ => wrongType path shape
  | .command, .sequence items => badItems path Yaml.isScalar items
  | .command, value => if value.isString then [] else wrongType path shape
  | .scalarOr _, .string _ => []
  | .scalarOr _, .int _ => []
  | .scalarOr _, .float _ => []
  | .scalarOr _, .bool _ => []
  | .object o, .mapping entries =>
    checkFields path o entries ++ missingFields o path entries
  | .textOr o, .mapping entries => checkFields path o entries ++ missingFields o path entries
  | .scalarOr o, .mapping entries => checkFields path o entries ++ missingFields o path entries
  | .object o, _ => [problem path "type" (o.text ++ " must be a mapping")]
  | .textOr o, value =>
    if value.isString then [] else [problem path "type" (o.text ++ " must be a mapping")]
  | .scalarOr o, _ => [problem path "type" (o.text ++ " must be a mapping")]
  | .dict keys values nullable, .mapping entries =>
    checkEntries path keys values nullable entries
  | .dict .., _ => wrongType path shape

/-- The problems of the fields of an object. -/
def checkFields (path : String) (object : ObjectName) : Yaml.Entries → List Diagnostic
  | [] => []
  | (k, v) :: rest =>
    (match k.keyText? with
      | none => [problem path "type" "keys must be strings"]
      | some key =>
        match field? object key with
        | none => [unknownKey object (join path key) key]
        | some f =>
          if v.isNull then
            if f.required || f.shape.acceptsNull then [] else wrongType (join path key) f.shape
          else checkShape (join path key) f.shape v)
      ++ checkFields path object rest

/-- The problems of the entries of a dictionary. -/
def checkEntries (path : String) (keys : KeyGrammar) (values : Shape) (nullable : Bool) :
    Yaml.Entries → List Diagnostic
  | [] => []
  | (k, v) :: rest =>
    (match k.keyText? with
      | none => [problem path "type" "keys must be strings"]
      | some key =>
        badKey keys (join path key) key
          ++ if v.isNull then if nullable then [] else wrongType (join path key) values
            else checkShape (join path key) values v)
      ++ checkEntries path keys values nullable rest

end

/-- The problems of the shape of a whole document. -/
def check (value : Yaml) : List Diagnostic := checkShape "" (.object .component) value

end Manifest.Schema

import Manifest.Delimiters
import Manifest.Perspective
import Manifest.SafeRef
import Manifest.Yaml.Reader
/-!
# Compiler settings

Settings are a small document of their own. They are read from nodes rather
than from values, so that a plain `3` is a text where a text is wanted. A
field that is left out has its default; a field given twice is an error.
-/

namespace Manifest

structure Settings where
  delimiters : Delimiters := {}
  maxRefLength : Nat := SafeRef.defaultMaxLength
  ignoredNamespaces : List String := ["architect", "environment"]
  defaultPerspectives : List Perspective := [.developer]
deriving DecidableEq, Repr

namespace Settings

open Yaml (Node Resolver Document)
open Yaml.Resolver (follow reject)

/-! ## Reading nodes -/

/-- The text of a scalar, however it is written. -/
def text (d : Document) (node : Node) : Resolver String := do
  match ← follow d node with
  | .scalar text _ _ => return text
  | _ => reject

/-- A natural number in plain style. -/
def natural (d : Document) (node : Node) : Resolver Nat := do
  match ← follow d node with
  | .scalar text .plain _ =>
    match Yaml.intOf? text.toList with
    | some (.ofNat n) => if text.startsWith "-" || pow2 64 ≤ n then reject else return n
    | _ => reject
  | _ => reject

def isAbsent (text : String) (style : Yaml.ScalarStyle) : Bool :=
  text.isEmpty && style = .plain

/-- The items of a sequence; nothing written counts as none. -/
def items (d : Document) (node : Node) : Resolver (List Node) := do
  match ← follow d node with
  | .sequence items _ => return items
  | .scalar text style _ => if isAbsent text style then return [] else reject
  | _ => reject

/-- The fields of a mapping by name, none of the known ones twice. -/
def fields (d : Document) (known : List String) (node : Node) :
    Resolver (List (String × Node)) := do
  let entries ←
    match ← follow d node with
    | .mapping entries _ => pure entries
    | .scalar text style _ => if isAbsent text style then pure [] else reject
    | _ => reject
  let named ← entries.mapM fun (k, v) => do return (← text d k, v)
  let named := named.filter fun (k, _) => known.contains k
  if (named.map Prod.fst).Nodup then return named else reject

/-- Is nothing written, or a word for it? -/
def isNull (text : String) (style : Yaml.ScalarStyle) : Bool :=
  style = .plain && (text.isEmpty || Yaml.isNullWord text)

/-- A perspective by its name, or by a tag that is its name on null. -/
def perspective (d : Document) (node : Node) : Resolver Perspective := do
  let name ←
    match ← follow d node with
    | .scalar text style tag =>
      match Yaml.localTag? tag with
      | some name => if isNull text style then pure name else reject
      | none => pure text
    | _ => reject
  match Perspective.ofName? name with
  | some p => return p
  | none => reject

/-- Reads a field if it is there. -/
def fieldOr {α : Type} (named : List (String × Node)) (name : String) (default : α)
    (read : Node → Resolver α) : Resolver α :=
  match named.lookup name with
  | some node => read node
  | none => return default

def readDelimiters (d : Document) (node : Node) : Resolver Delimiters := do
  let named ← fields d ["open", "close"] node
  let default : Delimiters := {}
  return {
    opening := ← fieldOr named "open" default.opening (text d)
    closing := ← fieldOr named "close" default.closing (text d) }

def readRoot (d : Document) : Resolver Settings := do
  let named ← fields d
    ["interpolation", "max_ref_length", "ignored_namespaces", "default_contexts"] d.root
  let default : Settings := {}
  return {
    delimiters := ← fieldOr named "interpolation" default.delimiters (readDelimiters d)
    maxRefLength := ← fieldOr named "max_ref_length" default.maxRefLength (natural d)
    ignoredNamespaces := ← fieldOr named "ignored_namespaces" default.ignoredNamespaces
      fun node => do (← items d node).mapM (text d)
    defaultPerspectives := ← fieldOr named "default_contexts" default.defaultPerspectives
      fun node => do (← items d node).mapM (perspective d) }

def parse? (source : String) : Option Settings := do
  let d ← Yaml.document? source
  let (s, _) ← (readRoot d).run (100 * d.events)
  pure s

/-! ## Checking -/

/-- Delimiters are not empty, and a ref has room for more than its digest. -/
def check (s : Settings) : Except Failure Settings :=
  if s.delimiters.opening.isEmpty || s.delimiters.closing.isEmpty then
    .error (.badConfiguration "interpolation delimiters must not be empty")
  else if s.maxRefLength ≤ SafeRef.reservedLength then
    .error (.badConfiguration
      ("max_ref_length " ++ toString s.maxRefLength ++ " is too small to hold a ref"))
  else .ok s

/-- Reads settings from a document. -/
def read (source : String) : Except Failure Settings :=
  match parse? source with
  | some s => s.check
  | none => .error (.badConfiguration "malformed compiler config")

def default : Settings := {}

/-- Settings that can be worked with. -/
structure Usable (s : Settings) : Prop where
  opening : s.delimiters.opening ≠ ""
  closing : s.delimiters.closing ≠ ""
  room : SafeRef.reservedLength < s.maxRefLength

/-- The check lets these pass, as they are, and no others. -/
theorem check_eq_ok_iff {s checked : Settings} :
    s.check = .ok checked ↔ s.Usable ∧ checked = s := by
  have hdelimiters : (s.delimiters.opening.isEmpty || s.delimiters.closing.isEmpty) = true
      ↔ s.delimiters.opening = "" ∨ s.delimiters.closing = "" := by
    rw [Bool.or_eq_true, String.isEmpty_iff, String.isEmpty_iff]
  rw [check]
  constructor
  · intro h
    split at h
    · cases h
    · next hdelims =>
        split at h
        · cases h
        · next hroom =>
            obtain ⟨hopening, hclosing⟩ := not_or.mp (mt hdelimiters.mpr hdelims)
            exact ⟨⟨hopening, hclosing, Nat.not_le.mp hroom⟩, (Except.ok.inj h).symm⟩
  · rintro ⟨⟨hopening, hclosing, hroom⟩, rfl⟩
    rw [if_neg (mt hdelimiters.mp (not_or.mpr ⟨hopening, hclosing⟩)),
      if_neg (Nat.not_le.mpr hroom)]

theorem usable_of_read {source : String} {s : Settings} (h : read source = .ok s) : s.Usable := by
  rw [read] at h
  split at h
  · obtain ⟨husable, rfl⟩ := check_eq_ok_iff.mp h
    exact husable
  · cases h

end Settings

end Manifest

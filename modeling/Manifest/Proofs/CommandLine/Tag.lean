import Manifest.CommandLine
import Manifest.Proofs.Context
import Manifest.Proofs.Interpolation.Names
/-!
# The tag of a rendered config

Rendering gives each layer the tag of the config below it, unless the layer
writes a tag itself (`tag_layer`). A layer may write null for its tag. That
counts as written and reads as none, so it resets the tag to the default. Up to
such layers a config has the last tag that is given (`tag_of_render`).
-/

namespace Manifest

/-! ## The tag that a document writes -/

namespace SourceDocument

/-- The tag in the root of the document, if one is written there; nothing for
null. -/
def writtenTag? (d : SourceDocument) : Option (Option String) :=
  match d.value with
  | .mapping entries => (Yaml.entry? "tag" entries).map Yaml.asString?
  | _ => none

/-- The tag that the document gives. Null gives none. -/
def givenTag? (d : SourceDocument) : Option String := d.writtenTag?.join

/-- The tag of a layer over a config with the given tag. -/
def tagOver (tag : String) (d : SourceDocument) : String :=
  (d.writtenTag?.getD (some tag)).getD Slug.defaultTag

variable {docs : List SourceDocument}

theorem tagOver_of_none {d : SourceDocument} (h : d.writtenTag? = none) (tag : String) :
    d.tagOver tag = tag := by
  rw [tagOver, h]
  rfl

theorem tagOver_of_some {d : SourceDocument} {written : Option String}
    (h : d.writtenTag? = some written) (tag : String) :
    d.tagOver tag = written.getD Slug.defaultTag := by
  rw [tagOver, h]
  rfl

/-- Of all layers the last one counts that writes a tag. -/
theorem foldl_tagOver (docs : List SourceDocument) (tag : String) :
    docs.foldl (fun tag d => d.tagOver tag) tag
      = ((docs.filterMap writtenTag?).getLast?.getD (some tag)).getD Slug.defaultTag := by
  induction docs using List.reverseRecOn with
  | nil => rfl
  | append_singleton docs d ih =>
      rw [List.foldl_concat, List.filterMap_append]
      cases hwritten : d.writtenTag? with
      | none =>
          rw [tagOver_of_none hwritten, ih, List.filterMap_cons_none hwritten, List.filterMap_nil,
            List.append_nil]
      | some written =>
          rw [tagOver_of_some hwritten, List.filterMap_cons_some hwritten, List.filterMap_nil,
            List.getLast?_concat]
          rfl

theorem filterMap_givenTag (docs : List SourceDocument) :
    docs.filterMap givenTag? = (docs.filterMap writtenTag?).filterMap id := by
  rw [List.filterMap_filterMap]
  rfl

/-- Where the last tag that is written is not null, it is the last one given. -/
theorem foldl_tagOver_of_given {tag : String}
    (h : (docs.filterMap writtenTag?).getLast? ≠ some none) :
    docs.foldl (fun tag d => d.tagOver tag) tag
      = (docs.filterMap givenTag?).getLast?.getD tag := by
  rw [foldl_tagOver, filterMap_givenTag]
  rcases List.eq_nil_or_concat' (docs.filterMap writtenTag?) with hnone | ⟨below, last, hlast⟩
  · rw [hnone]
    rfl
  · rw [hlast, List.getLast?_concat] at h
    rw [hlast, List.getLast?_concat, List.filterMap_append]
    cases last with
    | none => exact absurd rfl h
    | some given =>
        have hgiven : [some given].filterMap id = [given] := rfl
        rw [hgiven, List.getLast?_concat]
        rfl

theorem foldl_tagOver_of_null {tag : String}
    (h : (docs.filterMap writtenTag?).getLast? = some none) :
    docs.foldl (fun tag d => d.tagOver tag) tag = Slug.defaultTag := by
  rw [foldl_tagOver, h]
  rfl

end SourceDocument

/-! ## Compiling a layer -/

namespace Spec.Reader

theorem optional_of_ne_null {α : Type} {read : Yaml → Option α} {value : Yaml}
    (h : value ≠ .null) : optional read value = (read value).map some := by
  cases value with
  | null => exact absurd rfl h
  | bool | int | float | string | sequence | mapping | tagged => rfl

/-- A text that may be null is read as what it is, and null as none. -/
theorem asString?_of_optional {value : Yaml} {tag : Option String}
    (h : optional text? value = some tag) : value.asString? = tag := by
  by_cases hnull : value = .null
  · rw [hnull] at h ⊢
    exact Option.some.inj h
  · rw [optional_of_ne_null hnull] at h
    obtain ⟨text, htext, rfl⟩ := Option.map_eq_some_iff.mp h
    exact htext

end Spec.Reader

namespace Compiler

variable {s : Settings} {ps : Perspectives} {d : SourceDocument} {c : Config.Component}

theorem exists_mapping_of_compileDocument (h : compileDocument s ps d = .ok c) :
    ∃ entries, d.value = .mapping entries := by
  obtain ⟨spec, hspec, -⟩ := exists_outline h
  obtain ⟨fs, hvalue, -⟩ := rooted_of_parseSpec hspec
  exact ⟨_, hvalue⟩

/-- The tag of a config is the one that its document gives. -/
theorem tag_of_compileDocument (h : compileDocument s ps d = .ok c) :
    c.tag = d.givenTag?.getD Slug.defaultTag := by
  obtain ⟨spec, hspec, rfl⟩ := exists_outline h
  obtain ⟨fs, hvalue, hrooted⟩ := rooted_of_parseSpec hspec
  have hwritten : d.writtenTag? = (fs.lookup "tag").map Yaml.asString? := by
    rw [SourceDocument.writtenTag?, hvalue]
    exact congrArg (Option.map Yaml.asString?) (Yaml.entry?_entriesOf "tag" fs)
  have htag : d.givenTag? = spec.tag := by
    have hread := hrooted.tag
    rw [SourceDocument.givenTag?, hwritten]
    unfold Spec.Reader.field? Spec.Reader.fieldOr at hread
    cases hlookup : fs.lookup "tag" with
    | none =>
        rw [hlookup] at hread
        exact Option.some.inj hread
    | some value =>
        rw [hlookup] at hread
        exact Spec.Reader.asString?_of_optional hread
  rw [htag]
  rfl

end Compiler

theorem Yaml.entry?_concat (key : String) (value : Yaml) (entries : Yaml.Entries) :
    Yaml.entry? key (entries ++ [(.string key, value)])
      = some ((Yaml.entry? key entries).getD value) := by
  induction entries with
  | nil => exact if_pos rfl
  | cons entry rest ih =>
      obtain ⟨k, v⟩ := entry
      cases k with
      | string k =>
          rw [List.cons_append, Yaml.entry?, Yaml.entry?]
          split
          · rfl
          · exact ih
      | null | bool | int | float | sequence | mapping | tagged => exact ih

namespace CommandLine

variable {s : Settings} {files : Files} {base c : Config.Component} {d : SourceDocument}
  {tag : String}

/-- A layer that is a mapping writes a tag in any case. -/
theorem writtenTag?_withTag {entries : Yaml.Entries} (h : d.value = .mapping entries) :
    (withTag tag d).writtenTag? = some (d.writtenTag?.getD (some tag)) := by
  have hwritten : d.writtenTag? = (Yaml.entry? "tag" entries).map Yaml.asString? := by
    rw [SourceDocument.writtenTag?, h]
  have hlayer : withTag tag d = if (Yaml.entry? "tag" entries).isSome then d
      else { d with value := .mapping (entries ++ [(.string "tag", .string tag)]) } := by
    rw [withTag, h]
  cases hentry : Yaml.entry? "tag" entries with
  | none =>
      rw [hentry] at hwritten hlayer
      rw [hlayer, hwritten]
      refine (congrArg (Option.map Yaml.asString?) (Yaml.entry?_concat _ _ _)).trans ?_
      rw [hentry]
      rfl
  | some value =>
      rw [hentry] at hwritten hlayer
      rw [hlayer, hwritten]
      exact hwritten

theorem exists_mapping_of_withTag {entries : Yaml.Entries}
    (h : (withTag tag d).value = .mapping entries) : ∃ entries, d.value = .mapping entries := by
  unfold withTag at h
  split at h
  · next given hgiven => exact ⟨given, hgiven⟩
  · exact ⟨entries, h⟩

theorem tag_of_withTag (h : Compiler.compileDocument s (.only .operator) (withTag tag d) = .ok c) :
    c.tag = d.tagOver tag := by
  obtain ⟨entries, hlayer⟩ := Compiler.exists_mapping_of_compileDocument h
  obtain ⟨given, hgiven⟩ := exists_mapping_of_withTag hlayer
  rw [Compiler.tag_of_compileDocument h, SourceDocument.givenTag?, writtenTag?_withTag hgiven]
  rfl

/-! ## Layers -/

open Compiler (Composed)

/-- A layer goes over a config with the tag that it gives, and without one
keeps the tag below. -/
theorem tag_layer {path : String} (h : layer s files base path = .ok c) :
    ∃ d, SourceDocument.load files path = .ok d ∧ c.tag = d.tagOver base.tag
      ∧ (Composed base → Composed c) := by
  obtain ⟨d, hload, h⟩ := ok_of_bind_eq_ok h
  obtain ⟨upper, hupper, h⟩ := ok_of_bind_eq_ok h
  obtain rfl := Except.ok.inj h
  refine ⟨d, hload, ?_, fun hbase => .merged hbase (.compiled hupper)⟩
  rw [Config.Component.tag_merge (Compiler.named_of_compileDocument hupper) base]
  exact tag_of_withTag hupper

theorem layers_cons {path : String} {paths : List String} (h : layer s files base path = .ok c) :
    (path :: paths).foldlM (layer s files) base = paths.foldlM (layer s files) c := by
  rw [List.foldlM_cons, h]
  rfl

/-- The last layer that writes a tag has its way. -/
theorem tag_layers {paths : List String} (h : paths.foldlM (layer s files) base = .ok c)
    (hbase : Composed base) :
    ∃ docs, paths.mapM (SourceDocument.load files) = .ok docs ∧ Composed c
      ∧ c.tag = docs.foldl (fun tag d => d.tagOver tag) base.tag := by
  induction paths generalizing base with
  | nil =>
      obtain rfl := Except.ok.inj h
      exact ⟨[], rfl, hbase, rfl⟩
  | cons path paths ih =>
      rw [List.foldlM_cons] at h
      obtain ⟨above, habove, h⟩ := ok_of_bind_eq_ok h
      obtain ⟨d, hload, htag, hcomposed⟩ := tag_layer habove
      obtain ⟨docs, hdocs, hc, hfold⟩ := ih h (hcomposed hbase)
      refine ⟨d :: docs, ?_, hc, ?_⟩
      · rw [List.mapM_cons, hload, hdocs]
        rfl
      · rw [hfold, htag, List.foldl_cons]

/-! ## Rendering -/

/-- The config that is printed. -/
def rendered (s : Settings) (files : Files) (r : Render) : Except Failure Config.Component := do
  let base ← Compiler.compilePath s files (Compiler.defaultPerspectives s) r.path
  let c ← r.overrides.foldlM (layer s files) base
  if r.interpolate then interpolate s files r c else pure c

theorem render_eq (s : Settings) (files : Files) (r : Render) :
    render s files r
      = (rendered s files r).map fun c => .success (formatted r.format c) := by
  unfold render rendered
  cases Compiler.compilePath s files (Compiler.defaultPerspectives s) r.path with
  | error f => rfl
  | ok base =>
      dsimp only [bind, Except.bind]
      cases r.overrides.foldlM (layer s files) base with
      | error f => rfl
      | ok c =>
          cases r.interpolate with
          | false => rfl
          | true =>
              dsimp only
              cases interpolate s files r c <;> rfl

section Runs

variable {r : Render}
  (hbase : Compiler.compilePath s files (Compiler.defaultPerspectives s) r.path = .ok base)
  (hlayers : r.overrides.foldlM (layer s files) base = .ok c)

include hbase hlayers

theorem rendered_plain (h : r.interpolate = false) : rendered s files r = .ok c := by
  rw [rendered, hbase]
  show (r.overrides.foldlM (layer s files) base >>= _) = _
  rw [hlayers, h]
  rfl

theorem rendered_interpolated (h : r.interpolate = true) :
    rendered s files r = interpolate s files r c := by
  rw [rendered, hbase]
  show (r.overrides.foldlM (layer s files) base >>= _) = _
  rw [hlayers, h]
  rfl

end Runs

/-- A config that is interpolated for a request is named as before. -/
theorem named_of_rendering {r : Render} (h : base.Named) (hdelimiters : s.delimiters.Apart)
    (hok : interpolate s files r base = .ok c) :
    c.Named ∧ c.name = base.name ∧ c.tag = base.tag := by
  obtain ⟨dependencies, -, hok⟩ := ok_of_bind_eq_ok hok
  obtain ⟨context, -, hok⟩ := ok_of_bind_eq_ok hok
  exact Interpolation.named_of_interpolate h hdelimiters hok

/-- A rendered config has the tag of the last override that gives one, and the
base's where none does, unless an override without a later tag writes null for
it: then it has the default tag. Its ref is made of its name and that tag, and
so are the refs of its blocks, which have the same tag. -/
theorem tag_of_render {r : Render} {outcome : Outcome}
    (hdelimiters : r.interpolate = true → s.delimiters.Apart)
    (h : render s files r = .ok outcome) :
    ∃ base docs c,
      Compiler.compilePath s files (Compiler.defaultPerspectives s) r.path = .ok base
      ∧ r.overrides.mapM (SourceDocument.load files) = .ok docs
      ∧ rendered s files r = .ok c ∧ outcome = .success (formatted r.format c)
      ∧ ((docs.filterMap SourceDocument.writtenTag?).getLast? ≠ some none →
        c.tag = (docs.filterMap SourceDocument.givenTag?).getLast?.getD base.tag)
      ∧ ((docs.filterMap SourceDocument.writtenTag?).getLast? = some none →
        c.tag = Slug.defaultTag)
      ∧ c.reference = c.name ++ ":" ++ c.tag
      ∧ c.Identities fun key i =>
        i.tag = c.tag ∧ i.reference = c.name ++ "/" ++ key ++ ":" ++ c.tag := by
  rw [render_eq] at h
  obtain ⟨c, hrendered, houtcome⟩ := ok_of_map_eq_ok h
  have hrun := hrendered
  obtain ⟨base, hbase, hrun⟩ := ok_of_bind_eq_ok hrun
  obtain ⟨layered, hlayers, hrun⟩ := ok_of_bind_eq_ok hrun
  have hcomposed : Composed base := by
    obtain ⟨d, -, hcompiled⟩ := ok_of_bind_eq_ok hbase
    exact .compiled hcompiled
  obtain ⟨docs, hdocs, hlayered, hfold⟩ := tag_layers hlayers hcomposed
  have hnamed := Compiler.named_of_composed hlayered
  obtain ⟨hc, htag⟩ : c.Named ∧ c.tag = layered.tag := by
    cases hinterpolate : r.interpolate with
    | false =>
        rw [hinterpolate] at hrun
        obtain rfl : layered = c := Except.ok.inj hrun
        exact ⟨hnamed, rfl⟩
    | true =>
        rw [hinterpolate] at hrun
        obtain ⟨hc, -, htag⟩ := named_of_rendering hnamed (hdelimiters hinterpolate) hrun
        exact ⟨hc, htag⟩
  have htag := htag.trans hfold
  refine ⟨base, docs, c, hbase, hdocs, hrendered, houtcome.symm, fun hgiven => ?_, fun hnull => ?_,
    hc.reference_eq, ?_⟩
  · rw [htag]
    exact SourceDocument.foldl_tagOver_of_given hgiven
  · rw [htag]
    exact SourceDocument.foldl_tagOver_of_null hnull
  · refine hc.stamps.imp fun key i hi => ?_
    rw [hi]
    exact ⟨rfl, rfl⟩

/-! ### A shop with a tag -/

/-- Files by their names, all in one directory. -/
def filesOf (texts : List (String × String)) : Files where
  find? path := (texts.lookup path).map fun text => .file (some text)

def shopText : String :=
  "name: \"acme/shop\"\ntag: v1\n\"tasks\":\n  seed:\n    \"image\": \"seed:1\"\n"

def pinText : String := "name: \"acme/shop\"\ntag: v2\n"

def noteText : String := "name: \"acme/shop\"\n\"author\": ops\n"

def resetText : String := "name: \"acme/shop\"\ntag: ~\n"

def shopFiles : Files :=
  filesOf [("shop.yml", shopText), ("pin.yml", pinText), ("note.yml", noteText),
    ("reset.yml", resetText)]

def renderShop (overrides : List String) (interpolate : Bool) : Render where
  path := "shop.yml"
  overrides
  dependencies := []
  parameters := []
  interpolate
  format := .json

/-- What is loaded from a file of the shop. -/
def shopFile (path source : String) (rest : Yaml.Entries) : SourceDocument where
  path
  source
  value := .mapping ((.string "name", .string "acme/shop") :: rest)

def pinFile : SourceDocument := shopFile "pin.yml" pinText [(.string "tag", .string "v2")]

def noteFile : SourceDocument := shopFile "note.yml" noteText [(.string "author", .string "ops")]

def resetFile : SourceDocument := shopFile "reset.yml" resetText [(.string "tag", .null)]

theorem load_shopFiles :
    SourceDocument.load shopFiles "shop.yml" = .ok (shopFile "shop.yml" shopText
        [(.string "tag", .string "v1"), (.string "tasks", .mapping
          [(.string "seed", .mapping [(.string "image", .string "seed:1")])])])
      ∧ SourceDocument.load shopFiles "pin.yml" = .ok pinFile
      ∧ SourceDocument.load shopFiles "note.yml" = .ok noteFile
      ∧ SourceDocument.load shopFiles "reset.yml" = .ok resetFile := by
  decide +kernel

/-- The shop as it is compiled with a tag, and perhaps with an author. -/
def shopAt (tag : String) (author : Option String) : Config.Component where
  name := "acme/shop"
  tag
  reference := "acme/shop:" ++ tag
  author
  tasks := .ofList
    [("seed",
      { body :=
          { identity := ⟨"seed", "acme/shop/seed:" ++ tag, tag⟩
            image := "seed:1"
            extension := {} }
        debug := none })]

theorem compilePath_shop :
    Compiler.compilePath {} shopFiles (Compiler.defaultPerspectives {}) "shop.yml"
      = .ok (shopAt "v1" none) := by
  obtain ⟨hload, -⟩ := load_shopFiles
  rw [Compiler.compilePath, hload]
  rfl

theorem layer_pin :
    layer {} shopFiles (shopAt "v1" none) "pin.yml" = .ok (shopAt "v2" none) := by
  obtain ⟨-, hload, -⟩ := load_shopFiles
  rw [layer, hload]
  rfl

theorem layer_note :
    layer {} shopFiles (shopAt "v2" none) "note.yml" = .ok (shopAt "v2" "ops") := by
  obtain ⟨-, -, hload, -⟩ := load_shopFiles
  rw [layer, hload]
  rfl

theorem layer_reset :
    layer {} shopFiles (shopAt "v1" none) "reset.yml" = .ok (shopAt "latest" none) := by
  obtain ⟨-, -, -, hload⟩ := load_shopFiles
  rw [layer, hload]
  rfl

/-- The override gives no tag, and the rendered shop has lost its own. -/
theorem tag_lost_reset :
    Compiler.compilePath {} shopFiles (Compiler.defaultPerspectives {}) "shop.yml"
        = .ok (shopAt "v1" none)
      ∧ SourceDocument.load shopFiles "reset.yml" = .ok resetFile
      ∧ resetFile.givenTag? = none
      ∧ rendered {} shopFiles (renderShop ["reset.yml"] false) = .ok (shopAt "latest" none) := by
  obtain ⟨-, -, -, hload⟩ := load_shopFiles
  refine ⟨compilePath_shop, hload, rfl, ?_⟩
  have hlayers : (renderShop ["reset.yml"] false).overrides.foldlM (layer {} shopFiles)
      (shopAt "v1" none) = .ok (shopAt "latest" none) := by
    rw [renderShop, layers_cons layer_reset, List.foldlM_nil]
    rfl
  exact rendered_plain compilePath_shop hlayers rfl

theorem unopened_shop :
    ∀ text ∈ (shopAt "v2" "ops").toJson.texts, ({} : Delimiters).opensIn text = false := by
  have hall : ((shopAt "v2" "ops").toJson.texts.all
      fun text => !({} : Delimiters).opensIn text) = true := by decide
  intro text htext
  simpa using List.all_eq_true.mp hall text htext

/-- The tag is pinned, and a note says who did it. -/
def pinShop : Render := renderShop ["pin.yml", "note.yml"] true

theorem layers_pinShop :
    pinShop.overrides.foldlM (layer {} shopFiles) (shopAt "v1" none) = .ok (shopAt "v2" "ops") := by
  rw [pinShop, renderShop, layers_cons layer_pin, layers_cons layer_note, List.foldlM_nil]
  rfl

theorem exists_rendered_pinShop : ∃ c, rendered {} shopFiles pinShop = .ok c := by
  rw [rendered_interpolated (r := pinShop) compilePath_shop layers_pinShop rfl]
  have hscope : interpolate {} shopFiles pinShop (shopAt "v2" "ops")
      = Interpolation.interpolate
        (Compiler.scope {} ⟨Context.namespaces (shopAt "v2" "ops") {} .runtime []⟩)
        (shopAt "v2" "ops") := rfl
  rw [hscope]
  exact Interpolation.exists_of_unopened rfl unopened_shop

/-- The note that comes last has no tag, and so the tag of the pin stays. -/
theorem tag_pinShop : ({} : Settings).delimiters.Apart
    ∧ ∃ outcome c, render {} shopFiles pinShop = .ok outcome
      ∧ outcome = .success (formatted .json c) ∧ c.tag = "v2" := by
  obtain ⟨found, hfound⟩ := exists_rendered_pinShop
  have hrender : render {} shopFiles pinShop = .ok (.success (formatted .json found)) := by
    rw [render_eq, hfound]
    rfl
  have hload : pinShop.overrides.mapM (SourceDocument.load shopFiles)
      = .ok [pinFile, noteFile] := by
    obtain ⟨-, hpin, hnote, -⟩ := load_shopFiles
    rw [pinShop, renderShop, List.mapM_cons, List.mapM_cons, hpin, hnote]
    rfl
  obtain ⟨base, docs, c, -, hdocs, -, houtcome, hgiven, -⟩ :=
    tag_of_render (fun _ => apart_default) hrender
  obtain rfl := Except.ok.inj (hload.symm.trans hdocs)
  exact ⟨apart_default, _, c, hrender, houtcome, hgiven (by decide)⟩

end CommandLine

end Manifest

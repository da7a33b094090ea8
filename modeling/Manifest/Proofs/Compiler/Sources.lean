import Manifest.Proofs.Compiler.Exclusive
/-!
# Sources of overridden resources

An override that writes an image for a resource of a config leaves that image and no build,
one that writes neither an image nor a build leaves what is there, and one that writes a
build leaves that build and no image. The implicit build is the exception: the normalisation
gives it to whatever has no source, and so an overlay cannot tell whether it was written and
leaves what is there (`overridden_of_compileDocument`).
-/

namespace Manifest

/-! ## Sources of a merge -/

namespace Config

variable {X : Type}

namespace Body

/-- The image and the build of a body. -/
def source (b : Body X) : Option String × Option Build := (b.image, b.build)

/-- The source of a body stays as it is. What has none is built from where it is. -/
structure KeepsSource (base merged : Body X) : Prop where
  kept : base.image.isSome ∨ base.build.isSome → merged.source = base.source
  filled : base.image = none → base.build = none → merged.source = (none, some .implicit)

theorem sourceOver_congr {a a' b b' : Body X} (ha : a.source = a'.source)
    (hb : b.source = b'.source) : sourceOver a b = sourceOver a' b' := by
  obtain ⟨haImage, haBuild⟩ := Prod.mk.inj ha
  obtain ⟨hbImage, hbBuild⟩ := Prod.mk.inj hb
  rw [sourceOver, sourceOver, haImage, haBuild, hbImage, hbBuild]

theorem sourceOver_of_image {base upper : Body X} {image : String}
    (h : upper.image = some image) : sourceOver base upper = (some image, upper.build) := by
  rw [sourceOver, h]

theorem sourceOver_of_build {base upper : Body X} {build : Build} (himage : upper.image = none)
    (hbuild : upper.build = some build) :
    sourceOver base upper = if build.isImplicit then base.source else (none, some build) := by
  rw [sourceOver, himage, hbuild]
  rfl

variable [Layered X]

theorem source_overlay (a b : Body X) : (a.overlay b).source = sourceOver a b := rfl

theorem source_expand {b : Body X} (h : b.image.isSome ∨ b.build.isSome) :
    b.expand.source = b.source :=
  Prod.ext rfl (build_expand h)

theorem keepsSource_of_expand {base merged : Body X} (h : merged.source = base.expand.source) :
    base.KeepsSource merged where
  kept hsome := h.trans (source_expand hsome)
  filled himage hbuild := by rw [h, source, expand, himage, hbuild]; rfl

end Body

variable [Layered X] {base upper : Component} {d₁ d₂ : Dict (Resource X)} {key : String}
  {r u : Resource X}

theorem Resource.source_stamped (c : Component) (key : String) (r : Resource X) :
    (r.stamp c key).expand.body.source = r.body.expand.source := rfl

/-- A resource that lies below alone is expanded. -/
theorem exists_layered_of_none (hr : d₁.get? key = some r) (hnone : d₂.get? key = none) :
    ∃ m, (layered base upper d₁ d₂).get? key = some m
      ∧ m.body.source = r.body.expand.source := by
  rw [layered, stamped, Dict.get?_mapValues, Dict.get?_overlay, stamped, stamped,
    Dict.get?_mapValues, Dict.get?_mapValues, hr, hnone]
  refine ⟨_, rfl, ?_⟩
  rw [Resource.source_stamped]
  exact Body.source_expand r.body.isSome_source_expand

/-- One that both layers have takes the source of one of them. -/
theorem exists_layered_of_some (hr : d₁.get? key = some r) (hu : d₂.get? key = some u) :
    ∃ m, (layered base upper d₁ d₂).get? key = some m
      ∧ m.body.source = Body.sourceOver r.body.expand u.body.expand := by
  rw [layered, stamped, Dict.get?_mapValues, Dict.get?_overlay, stamped, stamped,
    Dict.get?_mapValues, Dict.get?_mapValues, hr, hu]
  refine ⟨_, rfl, ?_⟩
  rw [Resource.source_stamped, Body.source_expand, Resource.overlay_body, Body.source_overlay]
  · exact Body.sourceOver_congr rfl rfl
  · rw [Resource.overlay_body]
    exact Body.isSome_sourceOver r.body.isSome_source_expand

end Config

/-! ## What an override writes -/

/-- What is written is the build that a resource without a source has. -/
structure Spec.Build.IsDefault (b : Spec.Build) : Prop where
  context : b.context = some "."
  dockerfile : b.dockerfile = none
  target : b.target = none
  args : ∀ name value, b.args.get? name = some value → value = none

namespace Normalization

open Config (Body)

theorem texts_eq_empty_iff {d : Dict (Option Scalar)} :
    texts d = {} ↔ ∀ name value, d.get? name = some value → value = none := by
  constructor
  · intro hempty name value hvalue
    have hnone : (texts d).get? name = none := by rw [hempty]; rfl
    rw [texts, Dict.get?_filterMapValues, hvalue] at hnone
    exact Option.map_eq_none_iff.mp hnone
  · intro hnone
    have hkeys : (texts d).keys = [] := by
      rw [List.eq_nil_iff_forall_not_mem]
      intro name hname
      obtain ⟨text, htext⟩ := Dict.mem_keys_iff.mp hname
      rw [texts, Dict.get?_filterMapValues] at htext
      obtain ⟨value, hvalue, htext⟩ := Option.bind_eq_some_iff.mp htext
      rw [hnone name value hvalue] at htext
      cases htext
    refine Dict.eq_of_get? hkeys fun name => ?_
    rw [Dict.get?_eq_none_iff.mpr (hkeys ▸ List.not_mem_nil)]
    rfl

theorem isImplicit_build_iff {b : Spec.Build} : (build b).isImplicit = true ↔ b.IsDefault := by
  rw [Config.Build.isImplicit, decide_eq_true_iff, build, Config.Build.implicit,
    Config.Build.mk.injEq, texts_eq_empty_iff]
  exact ⟨fun ⟨hcontext, hdockerfile, htarget, hargs⟩ => ⟨hcontext, hdockerfile, htarget, hargs⟩,
    fun h => ⟨h.context, h.dockerfile, h.target, h.args⟩⟩

variable {X Y : Type} {d : Delimiters} {e : Extension X Y} {i : Config.Identity}

/-- What becomes of the source of a body over which an image or a build is written. -/
structure Overridden (image : Option String) (given : Option Spec.Build)
    (base merged : Body Y) : Prop where
  pulled : ∀ text, image = some text → merged.source = (some text, none)
  built : ∀ b, given = some b → ¬ b.IsDefault → merged.source = (none, some (build b))
  default : ∀ b, given = some b → b.IsDefault → base.KeepsSource merged
  untouched : image = none → given = none → base.KeepsSource merged

/-- A build that is written shows unless it is the implicit one. -/
theorem sourceOver_of_written {given : Spec.Body X} {b : Spec.Build}
    (hone : (body e d i given).OneSource) (hbuild : given.build = some b) (base : Body Y) :
    Body.sourceOver base (body e d i given)
      = if (build b).isImplicit then base.source else (none, some (build b)) := by
  have hupper : (body e d i given).build = some (build b) := by
    show buildOf given = _
    rw [buildOf, hbuild]
  cases hone with
  | image _ hnone => rw [hupper] at hnone; cases hnone
  | build hnone _ => exact Body.sourceOver_of_build hnone hupper

variable [Config.Layered Y] {base merged : Body Y}

theorem overridden_none (h : merged.source = base.expand.source) :
    Overridden none none base merged where
  pulled _ himage := nomatch himage
  built _ hbuild := nomatch hbuild
  default _ hbuild := nomatch hbuild
  untouched _ _ := Body.keepsSource_of_expand h

/-- A body that is normalised with one source is laid over another one. -/
theorem overridden_of_sourceOver {given : Spec.Body X} (hone : (body e d i given).OneSource)
    (h : merged.source = Body.sourceOver base.expand (body e d i given)) :
    Overridden given.image given.build base merged where
  pulled text himage := by
    have hupper : (body e d i given).image = some text := himage
    cases hone with
    | image _ hbuild => rw [h, Body.sourceOver_of_image hupper, hbuild]
    | build hnone _ => rw [hupper] at hnone; cases hnone
  built b hbuild hdefault := by
    rw [h, sourceOver_of_written hone hbuild, if_neg (mt isImplicit_build_iff.mp hdefault)]
  default b hbuild hdefault := by
    refine Body.keepsSource_of_expand ?_
    rw [h, sourceOver_of_written hone hbuild, if_pos (isImplicit_build_iff.mpr hdefault)]
  untouched himage hbuild := by
    -- The normalisation gives such a body the implicit build.
    have hupper : (body e d i given).build = some .implicit := by
      show buildOf given = _
      rw [buildOf, hbuild, himage]
    refine Body.keepsSource_of_expand ?_
    rw [h, Body.sourceOver_of_build himage hupper]
    rfl

/-- Resources that are normalised with one source each are laid over others. -/
theorem exists_overridden {given : Dict (Spec.Resource X)} {identity : String → Config.Identity}
    (hone : ∀ key u, (given.mapValues fun key u => resource e d (identity key) u).get? key
      = some u → u.body.OneSource)
    (base upper : Config.Component) {resources : Dict (Config.Resource Y)} {key : String}
    {r : Config.Resource Y} (hr : resources.get? key = some r) :
    ∃ m, (Config.layered base upper resources
        (given.mapValues fun key u => resource e d (identity key) u)).get? key = some m
      ∧ Overridden ((given.get? key).bind fun u => u.body.image)
          ((given.get? key).bind fun u => u.body.build) r.body m.body := by
  have hupper := Dict.get?_mapValues (fun key u => resource e d (identity key) u) given key
  cases hgiven : given.get? key with
  | none =>
      rw [hgiven] at hupper
      obtain ⟨m, hm, hsource⟩ := Config.exists_layered_of_none hr hupper
      exact ⟨m, hm, overridden_none hsource⟩
  | some u =>
      rw [hgiven] at hupper
      obtain ⟨m, hm, hsource⟩ := Config.exists_layered_of_some hr hupper
      have hsingle := hone key _ hupper
      have hexpand := Body.source_expand hsingle.isSome
      refine ⟨m, hm, overridden_of_sourceOver hsingle ?_⟩
      rw [hsource]
      exact Body.sourceOver_congr rfl hexpand

end Normalization

namespace Compiler

open Config (Component)
open Normalization (Overridden)

/-- A merge shows what the override writes for the image or the build of a service or a task
of the base, and what the base has where nothing is written. Only a build that is the
implicit one shows nothing, so that the base keeps what it has. -/
theorem overridden_of_compileDocument {s : Settings} {ps : Perspectives} {d : SourceDocument}
    {spec : Spec.Component} {upper : Component} (base : Component)
    (hcompiled : compileDocument s ps d = .ok upper) (hspec : parseSpec ps d = .ok spec) :
    (∀ key r, base.services.get? key = some r → ∃ m,
      (base.merge upper).services.get? key = some m
        ∧ Overridden ((spec.services.get? key).bind fun u => u.body.image)
            ((spec.services.get? key).bind fun u => u.body.build) r.body m.body)
    ∧ ∀ key t, base.tasks.get? key = some t → ∃ m,
      (base.merge upper).tasks.get? key = some m
        ∧ Overridden ((spec.tasks.get? key).bind fun u => u.body.image)
            ((spec.tasks.get? key).bind fun u => u.body.build) t.body m.body := by
  obtain ⟨hservices, htasks⟩ := accepted_resources hcompiled
  obtain ⟨read, hread, rfl⟩ := exists_outline hcompiled
  obtain rfl := Except.ok.inj (hspec.symm.trans hread)
  refine ⟨fun key r hr => ?_, fun key t ht => ?_⟩
  · exact Normalization.exists_overridden (fun key u hu => (hservices key u hu).body.oneSource)
      base _ hr
  · exact Normalization.exists_overridden (fun key u hu => (htasks key u hu).body.oneSource)
      base _ ht

/-! ### A kiln whose service is built again -/

/-- The kiln pulls an image, and an override has its service built in a directory. -/
def kilnDocument (source : String × Yaml) : SourceDocument where
  source := ""
  value := .mapping
    [(.string "name", .string "acme/kiln"),
      (.string "services", .mapping
        [(.string "api", .mapping [(.string source.1, source.2)])])]

def pulledKiln : SourceDocument := kilnDocument ("image", .string "api:1")

def builtKiln (context : String) : SourceDocument :=
  kilnDocument ("build", .mapping [(.string "context", .string context)])

def kilnWith (image : Option String) (build : Option Config.Build) : Component where
  name := "acme/kiln"
  tag := "latest"
  reference := "acme/kiln:latest"
  services := .ofList
    [("api",
      { body :=
          { identity := ⟨"api", "acme/kiln/api:latest", "latest"⟩, image, build, extension := {} }
        debug := none })]

def builtSpec (context : String) : Spec.Component where
  name := "acme/kiln"
  services := .ofList
    [("api", { body := { build := some { context }, extension := {} }, debug := none })]

theorem compileDocument_pulledKiln :
    compileDocument {} (.only .developer) pulledKiln = .ok (kilnWith "api:1" none) := rfl

theorem compileDocument_builtKiln :
    compileDocument {} (.only .operator) (builtKiln "./api")
      = .ok (kilnWith none (some { context := "./api" })) := rfl

theorem parseSpec_builtKiln :
    parseSpec (.only .operator) (builtKiln "./api") = .ok (builtSpec "./api") := rfl

/-- The image of the kiln gives way to a build in another directory. -/
theorem overridden_kiln :
    ∃ m, ((kilnWith "api:1" none).merge
        (kilnWith none (some { context := "./api" }))).services.get? "api" = some m
      ∧ m.body.source = (none, some { context := some "./api" }) := by
  obtain ⟨hservices, -⟩ := overridden_of_compileDocument (kilnWith "api:1" none)
    compileDocument_builtKiln parseSpec_builtKiln
  obtain ⟨m, hm, hsource⟩ := hservices "api" _ rfl
  have hwritten : ¬ Spec.Build.IsDefault { context := some "./api" } :=
    fun hdefault => absurd hdefault.context (by decide)
  exact ⟨m, hm, hsource.built { context := some "./api" } rfl hwritten⟩

/-- A build where the kiln is shows nothing, although it is written. -/
theorem image_kept_kiln :
    compileDocument {} (.only .developer) pulledKiln = .ok (kilnWith "api:1" none)
      ∧ compileDocument {} (.only .operator) (builtKiln ".")
        = .ok (kilnWith none (some { context := "." }))
      ∧ parseSpec (.only .operator) (builtKiln ".") = .ok (builtSpec ".")
      ∧ ((builtSpec ".").services.get? "api").bind (fun u => u.body.build)
        = some { context := some "." }
      ∧ ∃ m, ((kilnWith "api:1" none).merge
          (kilnWith none (some { context := "." }))).services.get? "api" = some m
        ∧ m.body.source = (some "api:1", none) :=
  ⟨compileDocument_pulledKiln, rfl, rfl, rfl, _, rfl, rfl⟩

end Compiler

end Manifest

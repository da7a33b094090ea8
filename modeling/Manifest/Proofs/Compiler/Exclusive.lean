import Manifest.Proofs.Compiler.Resources
/-!
# One source and one way to probe

A block of a compiled config has an image or a build and not both, and its
probe runs a command or sends requests, to a port at a path. The rules ask for
that within a layer, the normalisation fills in the missing source, and
overlays replace both pairs as a whole: of the upper source and the upper
probe, all or nothing comes through. So it holds of whatever is layered from
compiled configs (`exclusive_of_composed`).
-/

namespace Manifest

namespace Config

variable {X : Type}

/-! ## Sources -/

/-- The block has either an image or a build. -/
inductive Body.OneSource (b : Body X) : Prop
  | image (himage : b.image.isSome) (hbuild : b.build = none)
  | build (himage : b.image = none) (hbuild : b.build.isSome)

namespace Body

theorem OneSource.isSome {b : Body X} (h : b.OneSource) : b.image.isSome ∨ b.build.isSome := by
  cases h with
  | image himage hbuild => exact Or.inl himage
  | build himage hbuild => exact Or.inr hbuild

theorem OneSource.congr {Y : Type} {b : Body X} {b' : Body Y} (h : b.OneSource)
    (himage : b'.image = b.image) (hbuild : b'.build = b.build) : b'.OneSource := by
  cases h with
  | image hsome hnone => exact .image (himage ▸ hsome) (hbuild.trans hnone)
  | build hnone hsome => exact .build (himage.trans hnone) (hbuild ▸ hsome)

/-- The source of one of the layers comes through as a whole. -/
theorem sourceOver_cases (a b : Body X) :
    sourceOver a b = (a.image, a.build) ∨ sourceOver a b = (b.image, b.build) := by
  cases himage : b.image with
  | some image => exact Or.inr (by simp [sourceOver, himage])
  | none =>
      cases hbuild : b.build with
      | none => exact Or.inl (by simp [sourceOver, himage, hbuild])
      | some build =>
          by_cases himplicit : build.isImplicit
          · exact Or.inl (by simp [sourceOver, himage, hbuild, himplicit])
          · exact Or.inr (by simp [sourceOver, himage, hbuild, himplicit])

theorem stable_oneSource [Layered X] : Stable (OneSource (X := X)) where
  renamed h _ := h.congr rfl rfl
  expand h := h.congr rfl (build_expand h.isSome)
  overlay {a b} ha hb := by
    rcases sourceOver_cases a b with heq | heq
    · exact ha.congr (congrArg Prod.fst heq) (congrArg Prod.snd heq)
    · exact hb.congr (congrArg Prod.fst heq) (congrArg Prod.snd heq)

end Body

/-! ## Probes -/

/-- The upper probe decides which way it goes. -/
theorem Probe.Exclusive.over {upper : Probe} (h : upper.Exclusive) (base : Probe) :
    (base.overlay upper).Exclusive := by
  cases h with
  | command hcommand hpath hport =>
      refine .command ?_ ?_ ?_
      · simp [Probe.overlay, valueOver, hcommand]
      · simp [Probe.overlay, valueOver, hcommand, hpath]
      · simp [Probe.overlay, valueOver, hcommand, hport]
  | request hcommand hpath hport =>
      refine .request ?_ ?_ ?_
      · simp [Probe.overlay, valueOver, isRequest, hcommand, hpath]
      · simp [Probe.overlay, valueOver, hpath]
      · simp [Probe.overlay, valueOver, hport]

theorem ServiceExtension.Exclusive.overlay {x y : ServiceExtension} (hx : x.Exclusive)
    (hy : y.Exclusive) : (Layered.overlay x y).Exclusive := by
  intro p hp
  rcases Dict.eq_some_of_combine hp with hbase | hupper | ⟨base, upper, -, hupper, rfl⟩
  · exact hx p hbase
  · exact hy p hupper
  · exact (hy upper hupper).over base

/-- A service's block has one source, and its probe goes one way. -/
structure Body.Exclusive (b : Body ServiceExtension) : Prop where
  source : b.OneSource
  probe : b.extension.Exclusive

theorem Body.stable_exclusive : Stable Body.Exclusive where
  renamed h i := ⟨stable_oneSource.renamed h.source i, h.probe⟩
  expand h := ⟨stable_oneSource.expand h.source, h.probe.expand⟩
  overlay ha hb := ⟨stable_oneSource.overlay ha.source hb.source, ha.probe.overlay hb.probe⟩

end Config

/-! ## Compiled blocks -/

namespace Normalization

open Validation (ExtensionCheck applyRules objection_eq_none eq_false_of_objectIf
  validBody_of_checkBody)

variable {X Y : Type} {check : ExtensionCheck X} {e : Extension X Y} {ps : Perspectives}
  {d : Delimiters}

/-- What has no source gets the implicit build. -/
theorem Accepted.oneSource {b : Config.Body Y} (h : Accepted check e ps d b) : b.OneSource := by
  obtain ⟨path, i, r, valid, -⟩ := h
  have hrules := (validBody_of_checkBody valid).rules
  have hrule := objection_eq_none hrules (.tail _ (.head _)) rfl
  have hone : (r.body.image.isSome && r.body.build.isSome) = false := eq_false_of_objectIf hrule
  show Config.Body.OneSource { body e d i r.body with image := r.body.image, build := buildOf r.body }
  unfold buildOf
  cases himage : r.body.image with
  | some image =>
      cases hbuild : r.body.build with
      | some build => simp [himage, hbuild] at hone
      | none => exact .image rfl rfl
  | none =>
      cases r.body.build with
      | some build => exact .build rfl rfl
      | none => exact .build rfl rfl

theorem isSome_words? {d : Command.Dialect} {path : String} {c : Spec.Command}
    (h : commandProblems d path (some c) = []) : (words? d (some c)).isSome := by
  unfold commandProblems at h
  unfold words?
  rw [Option.map_some] at h
  rw [Option.bind_some]
  cases hwords : words d c with
  | ok args => rfl
  | error fault => rw [hwords] at h; cases h

theorem exclusive_probe {d : Command.Dialect} {path place : String} {p : Spec.Probe}
    (hrules : applyRules Validation.probeRules ps path p = [])
    (hproblems : commandProblems d place p.command = []) : (probe d p).Exclusive := by
  have hexclusive := eq_false_of_objectIf (objection_eq_none hrules (.head _) rfl)
  have hport := eq_false_of_objectIf (objection_eq_none hrules (.tail _ (.head _)) rfl)
  have hpath := eq_false_of_objectIf (objection_eq_none hrules (.tail _ (.tail _ (.head _))) rfl)
  refine Config.Probe.Exclusive.filled ?_
  cases hcommand : p.command with
  | some command =>
      rw [hcommand] at hexclusive hproblems
      simp only [Option.isSome_some, Bool.true_and, Bool.or_eq_false_iff,
        Option.isSome_eq_false_iff, Option.isNone_iff_eq_none] at hexclusive
      obtain ⟨hpath, hport⟩ := hexclusive
      exact .command (isSome_words? hproblems) hpath (congrArg text? hport)
  | none =>
      rw [hcommand] at hport hpath
      simp only [Option.isNone_none, Bool.true_and, Option.isNone_eq_false_iff] at hport hpath
      exact .request rfl hpath (Option.isSome_map.trans hport)

/-- The probe of a service was looked at if anything is written in it, and not
dropped. -/
theorem Accepted.exclusive {b : Config.Body Config.ServiceExtension}
    (h : Accepted Validation.checkService service ps d b) : b.Exclusive := by
  refine ⟨h.oneSource, ?_⟩
  obtain ⟨path, i, r, valid, normal⟩ := h
  intro p hp
  obtain ⟨written, hwritten, rfl⟩ := Option.map_eq_some_iff.mp hp
  have hprobe : r.body.extension.probe = some written :=
    Option.eq_some_of_filter_eq_some hwritten
  have hextension := (validBody_of_checkBody valid).extension
  simp only [Validation.checkService, List.append_eq_nil_iff, hprobe] at hextension
  obtain ⟨⟨-, hrules⟩, -⟩ := hextension
  obtain ⟨-, hproblems⟩ := List.append_eq_nil_iff.mp normal
  have hcommand : commandProblems (dialect d r.body)
      (PropertyPath.join (PropertyPath.join path "liveness_probe") "command") written.command
      = [] := by
    simpa only [service, hwritten] using hproblems
  exact exclusive_probe hrules hcommand

end Normalization

/-! ## Whatever is layered from compiled configs -/

namespace Compiler

open Config (Component Body)

/-- Configs that were compiled, from whatever documents, and merges of such
configs in any order. -/
inductive Composed : Component → Prop
  | compiled {s : Settings} {ps : Perspectives} {d : SourceDocument} {c : Component}
    (h : compileDocument s ps d = .ok c) : Composed c
  | merged {base upper : Component} (hbase : Composed base) (hupper : Composed upper) :
    Composed (base.merge upper)

theorem exclusive_of_compileDocument {s : Settings} {ps : Perspectives} {d : SourceDocument}
    {c : Component} (h : compileDocument s ps d = .ok c) :
    c.Blocks Body.Exclusive Body.OneSource := by
  obtain ⟨hservices, htasks⟩ := accepted_resources h
  refine ⟨fun key r hr => ?_, fun key t ht => ?_⟩
  · obtain ⟨hbody, hdebug⟩ := hservices key r hr
    exact ⟨hbody.exclusive, fun debug hsome => (hdebug debug hsome).imp_left (·.exclusive)⟩
  · obtain ⟨hbody, hdebug⟩ := htasks key t ht
    exact ⟨hbody.oneSource, fun debug hsome => (hdebug debug hsome).imp_left (·.oneSource)⟩

/-- However compiled configs are layered, each service, each task and each
debug block has one source, each probe goes one way, and no debug block has a
debug block. -/
theorem exclusive_of_composed {c : Component} (h : Composed c) :
    c.Blocks Body.Exclusive Body.OneSource := by
  induction h with
  | compiled h => exact exclusive_of_compileDocument h
  | merged _ _ hbase hupper =>
      exact hbase.merge Body.stable_exclusive Body.stable_oneSource hupper

/-! ### A gate and a fix that turns all of it around -/

def gateDocument : SourceDocument where
  source := ""
  value := .mapping
    [(.string "name", .string "acme/gate"),
      (.string "services", .mapping
        [(.string "api", .mapping
          [(.string "image", .string "api:1"),
            (.string "liveness_probe", .mapping
              [(.string "path", .string "/"), (.string "port", .string "80")]),
            (.string "debug", .mapping
              [(.string "liveness_probe", .mapping
                [(.string "command", .sequence [.string "ping"])])])])]),
      (.string "tasks", .mapping
        [(.string "sweep", .mapping [(.string "schedule", .string "@daily")])])]

/-- The fix builds what the gate pulls, and runs what it requests. -/
def fixDocument : SourceDocument where
  source := ""
  value := .mapping
    [(.string "name", .string "acme/gate"),
      (.string "services", .mapping
        [(.string "api", .mapping
          [(.string "build", .mapping [(.string "context", .string "./api")]),
            (.string "liveness_probe", .mapping
              [(.string "command", .sequence [.string "check"])]),
            (.string "debug", .mapping
              [(.string "image", .string "api:debug"),
                (.string "liveness_probe", .mapping
                  [(.string "path", .string "/debug"), (.string "port", .string "81")])])])])]

def gate : Component where
  name := "acme/gate"
  tag := "latest"
  reference := "acme/gate:latest"
  services := .ofList
    [("api",
      { body :=
          { identity := ⟨"api", "acme/gate/api:latest", "latest"⟩
            image := "api:1"
            extension := { probe := Config.Probe.filled { path := "/", port := "80" } } }
        debug := some
          { body :=
              { identity := ⟨"api", "acme/gate/api:latest", "latest"⟩
                build := Config.Build.implicit
                extension := { probe := Config.Probe.filled { command := some ["ping"] } } }
            debug := none } })]
  tasks := .ofList
    [("sweep",
      { body :=
          { identity := ⟨"sweep", "acme/gate/sweep:latest", "latest"⟩
            build := Config.Build.implicit
            extension := { schedule := "@daily" } }
        debug := none })]

def fix : Component where
  name := "acme/gate"
  tag := "latest"
  reference := "acme/gate:latest"
  services := .ofList
    [("api",
      { body :=
          { identity := ⟨"api", "acme/gate/api:latest", "latest"⟩
            build := some { context := "./api" }
            extension := { probe := Config.Probe.filled { command := some ["check"] } } }
        debug := some
          { body :=
              { identity := ⟨"api", "acme/gate/api:latest", "latest"⟩
                image := "api:debug"
                extension := { probe := Config.Probe.filled { path := "/debug", port := "81" } } }
            debug := none } })]

theorem compileDocument_gate :
    compileDocument {} (.only .developer) gateDocument = .ok gate := rfl

theorem compileDocument_fix :
    compileDocument {} (.only .operator) fixDocument = .ok fix := rfl

/-- Nothing of the gate's sources and ways to probe is left. -/
theorem exclusive_merge_gate_fix :
    (gate.merge fix).Blocks Body.Exclusive Body.OneSource
      ∧ (gate.merge fix).services.get? "api" = fix.services.get? "api" :=
  ⟨exclusive_of_composed (.merged (.compiled compileDocument_gate) (.compiled compileDocument_fix)),
    rfl⟩

end Compiler

end Manifest

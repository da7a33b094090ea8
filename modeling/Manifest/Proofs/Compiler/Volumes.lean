import Manifest.Proofs.Compiler.Resources
/-!
# Volumes under layering

A volume mounts a path of the host or one that the platform provides under a
key, and within a layer the rules let no volume have both. An overlay takes
the two fields one by one, without regard to each other. Paths of the host are
for debug blocks alone, so a merge of a developer's config and an operator's
can have both only in a volume of a debug block, and has them exactly where one
layer mounts a path and the other names a key (`clashes_merge_iff`).
-/

namespace Manifest

namespace Config

variable {X : Type}

/-! ## Where volumes are -/

inductive Block where
  | own
  | debug
deriving DecidableEq, Repr

namespace Resource

/-- The volume of that name in the resource's own block or in its debug
block. -/
def volume? (block : Block) (name : String) (r : Resource X) : Option Volume :=
  match block with
  | .own => r.body.volumes.get? name
  | .debug => r.debug.bind fun debug => debug.body.volumes.get? name

variable [Layered X]

theorem volume?_stamped (c : Component) (key : String) (block : Block) (name : String)
    (r : Resource X) : (r.stamp c key).expand.volume? block name = r.volume? block name := by
  obtain ⟨body, debug⟩ := r
  cases block with
  | own => rfl
  | debug => cases debug <;> rfl

theorem volume?_overlay (block : Block) (name : String) (a b : Resource X) :
    (a.overlay b).volume? block name
      = combine Volume.overlay (a.volume? block name) (b.volume? block name) := by
  cases block with
  | own =>
      show (a.overlay b).body.volumes.get? name = _
      rw [overlay_body]
      exact Dict.get?_overlay ..
  | debug =>
      show (a.overlay b).debug.bind _ = _
      rw [overlay_debug]
      refine Dict.bind_combine (fun x y => ?_) a.debug b.debug
      rw [overlay_body]
      exact Dict.get?_overlay ..

end Resource

/-- The place of a volume: a service or a task, a block of it, and a name. -/
structure Mount where
  isTask : Bool
  key : String
  block : Block
  name : String
deriving DecidableEq, Repr

def Component.volume? (c : Component) (m : Mount) : Option Volume :=
  if m.isTask then (c.tasks.get? m.key).bind fun t => t.volume? m.block m.name
  else (c.services.get? m.key).bind fun s => s.volume? m.block m.name

theorem volume?_layered [Layered X] (base upper : Component) (d₁ d₂ : Dict (Resource X))
    (m : Mount) :
    ((layered base upper d₁ d₂).get? m.key).bind (Resource.volume? m.block m.name)
      = combine Volume.overlay ((d₁.get? m.key).bind (Resource.volume? m.block m.name))
          ((d₂.get? m.key).bind (Resource.volume? m.block m.name)) := by
  have hstamped : ∀ (c : Component) (d : Dict (Resource X)),
      ((stamped c d).get? m.key).bind (Resource.volume? m.block m.name)
        = (d.get? m.key).bind (Resource.volume? m.block m.name) := by
    intro c d
    rw [stamped, Dict.get?_mapValues, Option.bind_map]
    congr 1
    funext r
    exact r.volume?_stamped c m.key m.block m.name
  rw [layered, hstamped, Dict.get?_overlay,
    Dict.bind_combine (Resource.volume?_overlay m.block m.name), hstamped, hstamped]

/-- Each volume of a merge is laid over the one at the same place below. -/
theorem Component.volume?_merge (base upper : Component) (m : Mount) :
    (base.merge upper).volume? m
      = combine Volume.overlay (base.volume? m) (upper.volume? m) := by
  unfold volume?
  split
  · exact volume?_layered base upper base.tasks upper.tasks m
  · exact volume?_layered base upper base.services upper.services m

/-! ## What a volume mounts -/

namespace Volume

/-- The volume has a path of the host, and a key of the platform. -/
def Clashes (v : Volume) : Prop := v.hostPath.isSome ∧ v.key.isSome

/-- One of the volumes has a path of the host, and the other one a key. -/
def Turns (base upper : Volume) : Prop :=
  base.hostPath.isSome ∧ upper.key.isSome ∨ base.key.isSome ∧ upper.hostPath.isSome

theorem clashes_overlay_iff {base upper : Volume} (hbase : ¬ base.Clashes)
    (hupper : ¬ upper.Clashes) : (base.overlay upper).Clashes ↔ base.Turns upper := by
  show (valueOver base.hostPath upper.hostPath).isSome ∧ (valueOver base.key upper.key).isSome ↔ _
  rw [isSome_valueOver, isSome_valueOver]
  constructor
  · rintro ⟨hbaseHost | hupperHost, hbaseKey | hupperKey⟩
    · exact absurd ⟨hbaseHost, hbaseKey⟩ hbase
    · exact Or.inl ⟨hbaseHost, hupperKey⟩
    · exact Or.inr ⟨hbaseKey, hupperHost⟩
    · exact absurd ⟨hupperHost, hupperKey⟩ hupper
  · rintro (⟨hbaseHost, hupperKey⟩ | ⟨hbaseKey, hupperHost⟩)
    · exact ⟨Or.inl hbaseHost, Or.inr hupperKey⟩
    · exact ⟨Or.inr hupperHost, Or.inl hbaseKey⟩

end Volume

/-- Where no volume of the layers clashes, one of a merge does only by a turn
from one layer to the other. -/
theorem Component.clashes_volume?_iff {base upper : Component} {m : Mount} {v : Volume}
    (hbase : ∀ b, base.volume? m = some b → ¬ b.Clashes)
    (hupper : ∀ u, upper.volume? m = some u → ¬ u.Clashes)
    (hv : (base.merge upper).volume? m = some v) :
    v.Clashes ↔ ∃ b u, base.volume? m = some b ∧ upper.volume? m = some u ∧ b.Turns u := by
  rw [volume?_merge] at hv
  cases hb : base.volume? m with
  | none =>
      rw [hb, Dict.none_combine] at hv
      simpa using hupper v hv
  | some b =>
      cases hu : upper.volume? m with
      | none =>
          rw [hb, hu, Dict.combine_none] at hv
          simpa using hbase v (hb.trans hv)
      | some u =>
          rw [hb, hu] at hv
          obtain rfl := Option.some.inj hv
          simpa using Volume.clashes_overlay_iff (hbase b hb) (hupper u hu)

end Config

/-! ## Volumes of a compiled config -/

namespace Config.Block

/-- What the block is looked at from. -/
def perspectives (ps : Perspectives) : Block → Perspectives
  | own => ps
  | debug => ps.insert .debug

end Config.Block

namespace Normalization

open Validation (ExtensionCheck applyRules volumeRules volumePerspectives objection_eq_none
  eq_false_of_objectIf validBody_of_checkBody)

variable {X Y : Type} {check : ExtensionCheck X} {e : Extension X Y} {ps : Perspectives}
  {d : Delimiters} {name : String} {v : Config.Volume}

theorem hostPath_volume (v : Spec.Volume) : (volume v).hostPath = v.hostPath? := by
  cases v <;> rfl

theorem key_volume (v : Spec.Volume) : (volume v).key = v.key? := by
  cases v <;> rfl

/-- The volume is what a volume without problems normalises to. -/
def AcceptedVolume (ps : Perspectives) (v : Config.Volume) : Prop :=
  ∃ path given, applyRules volumeRules (volumePerspectives ps) path given = [] ∧ volume given = v

theorem Accepted.volume {b : Config.Body Y} (h : Accepted check e ps d b)
    (hv : b.volumes.get? name = some v) : AcceptedVolume ps v := by
  obtain ⟨path, i, r, valid, -⟩ := h
  replace hv : (r.body.volumes.mapValues fun _ v => Normalization.volume v).get? name = some v := hv
  rw [Dict.get?_mapValues] at hv
  obtain ⟨given, hgiven, rfl⟩ := Option.map_eq_some_iff.mp hv
  exact ⟨_, given, (validBody_of_checkBody valid).volumes name given hgiven, rfl⟩

theorem AcceptedResource.volume {r : Config.Resource Y} (h : AcceptedResource check e ps d r)
    {block : Config.Block} (hv : r.volume? block name = some v) :
    AcceptedVolume (block.perspectives ps) v := by
  cases block with
  | own => exact h.body.volume hv
  | debug =>
      obtain ⟨debug, hdebug, hvolume⟩ := Option.bind_eq_some_iff.mp hv
      exact (h.debug debug hdebug).1.volume hvolume

theorem AcceptedVolume.not_clashes (h : AcceptedVolume ps v) : ¬ v.Clashes := by
  obtain ⟨path, given, hrules, rfl⟩ := h
  have hrule := objection_eq_none hrules (.tail _ (.tail _ (.head _))) rfl
  have hone : (given.hostPath?.isSome && given.key?.isSome) = false := eq_false_of_objectIf hrule
  rintro ⟨hhost, hkey⟩
  rw [hostPath_volume] at hhost
  rw [key_volume] at hkey
  rw [hhost, hkey] at hone
  cases hone

/-- Developers and operators mount no path of the host. -/
theorem AcceptedVolume.hostPath_eq_none {p : Perspective} (hp : p ≠ .debug)
    (h : AcceptedVolume (.only p) v) : v.hostPath = none := by
  obtain ⟨path, given, hrules, rfl⟩ := h
  have happlies :
      (volumePerspectives (.only p)).intersects [.developer, .operator] = true := by
    cases p with
    | developer => rfl
    | operator => rfl
    | debug => exact absurd rfl hp
  have hrule := objection_eq_none hrules (.head _) happlies
  rw [hostPath_volume]
  exact Option.map_eq_none_iff.mp hrule

end Normalization

namespace Compiler

open Config (Component Mount Block Volume)
open Normalization (AcceptedVolume)

theorem accepted_volume {s : Settings} {ps : Perspectives} {d : SourceDocument} {c : Component}
    (h : compileDocument s ps d = .ok c) {m : Mount} {v : Volume} (hv : c.volume? m = some v) :
    AcceptedVolume (m.block.perspectives ps) v := by
  obtain ⟨hservices, htasks⟩ := accepted_resources h
  unfold Component.volume? at hv
  split at hv
  · obtain ⟨t, ht, hvolume⟩ := Option.bind_eq_some_iff.mp hv
    exact (htasks m.key t ht).volume hvolume
  · obtain ⟨r, hr, hvolume⟩ := Option.bind_eq_some_iff.mp hv
    exact (hservices m.key r hr).volume hvolume

/-- In a layer no volume has both a path of the host and a key. In a merge no
volume of a resource's own block has both, and one of a debug block has both
exactly where one layer mounts a path of the host and the other names a key. -/
theorem clashes_merge_iff {s₁ s₂ : Settings} {d₁ d₂ : SourceDocument} {base upper : Component}
    (hbase : compileDocument s₁ (.only .developer) d₁ = .ok base)
    (hupper : compileDocument s₂ (.only .operator) d₂ = .ok upper) :
    (∀ m v, base.volume? m = some v ∨ upper.volume? m = some v → ¬ v.Clashes)
    ∧ ∀ m v, (base.merge upper).volume? m = some v →
      (m.block = .own → ¬ v.Clashes)
      ∧ (v.Clashes ↔ ∃ b u, base.volume? m = some b ∧ upper.volume? m = some u ∧ b.Turns u) := by
  have hlayers : ∀ m v, base.volume? m = some v ∨ upper.volume? m = some v → ¬ v.Clashes := by
    rintro m v (hv | hv)
    · exact (accepted_volume hbase hv).not_clashes
    · exact (accepted_volume hupper hv).not_clashes
  refine ⟨hlayers, fun m v hv => ?_⟩
  have hiff := Component.clashes_volume?_iff (fun b hb => hlayers m b (Or.inl hb))
    (fun u hu => hlayers m u (Or.inr hu)) hv
  refine ⟨fun hown hclashes => ?_, hiff⟩
  obtain ⟨b, u, hb, hu, hturns⟩ := hiff.mp hclashes
  have hbaseVolume := accepted_volume hbase hb
  have hupperVolume := accepted_volume hupper hu
  rw [hown] at hbaseVolume hupperVolume
  have hbaseHost : b.hostPath = none := hbaseVolume.hostPath_eq_none (by decide)
  have hupperHost : u.hostPath = none := hupperVolume.hostPath_eq_none (by decide)
  simp [Volume.Turns, hbaseHost, hupperHost] at hturns

/-! ### A bench whose sources move to the platform -/

def benchDocument : SourceDocument where
  source := ""
  value := .mapping
    [(.string "name", .string "acme/bench"),
      (.string "services", .mapping
        [(.string "api", .mapping
          [(.string "image", .string "api:1"),
            (.string "volumes", .mapping
              [(.string "data", .mapping [(.string "mount_path", .string "/data")])]),
            (.string "debug", .mapping
              [(.string "volumes", .mapping
                [(.string "src", .mapping
                    [(.string "mount_path", .string "/app"), (.string "host_path", .string "./src")]),
                  (.string "cache", .string "./cache")])])])])]

/-- The operator names a key for the sources and for the data. -/
def moveDocument : SourceDocument where
  source := ""
  value := .mapping
    [(.string "name", .string "acme/bench"),
      (.string "services", .mapping
        [(.string "api", .mapping
          [(.string "volumes", .mapping
              [(.string "data", .mapping [(.string "key", .string "disk")])]),
            (.string "debug", .mapping
              [(.string "volumes", .mapping
                [(.string "src", .mapping [(.string "key", .string "sources")]),
                  (.string "cache", .string "./tmp")])])])])]

def apiWith (image : Option String) (volumes debug : List (String × Volume)) : Config.Service where
  body :=
    { identity := ⟨"api", "acme/bench/api:latest", "latest"⟩
      image
      build := if image.isNone then some .implicit else none
      volumes := .ofList volumes
      extension := {} }
  debug := some
    { body :=
        { identity := ⟨"api", "acme/bench/api:latest", "latest"⟩
          build := some .implicit
          volumes := .ofList debug
          extension := {} }
      debug := none }

def bench : Component where
  name := "acme/bench"
  tag := "latest"
  reference := "acme/bench:latest"
  services := .ofList
    [("api", apiWith "api:1" [("data", { mountPath := "/data" })]
      [("src", { mountPath := "/app", hostPath := "./src" }), ("cache", { hostPath := "./cache" })])]

def move : Component where
  name := "acme/bench"
  tag := "latest"
  reference := "acme/bench:latest"
  services := .ofList
    [("api", apiWith none [("data", { key := "disk" })]
      [("src", { key := "sources" }), ("cache", { hostPath := "./tmp" })])]

theorem compileDocument_bench :
    compileDocument {} (.only .developer) benchDocument = .ok bench := rfl

theorem compileDocument_move :
    compileDocument {} (.only .operator) moveDocument = .ok move := rfl

def mountOf (block : Block) (name : String) : Mount := ⟨false, "api", block, name⟩

theorem volume?_sources : (bench.merge move).volume? (mountOf .debug "src")
    = some { mountPath := "/app", hostPath := "./src", key := "sources" } := rfl

/-- A volume of a merge of compiled configs that has a path of the host and a
key. -/
theorem clashes_bench_sources :
    compileDocument {} (.only .developer) benchDocument = .ok bench
      ∧ compileDocument {} (.only .operator) moveDocument = .ok move
      ∧ ∃ m v, (bench.merge move).volume? m = some v ∧ v.Clashes :=
  ⟨compileDocument_bench, compileDocument_move, _, _, volume?_sources, rfl, rfl⟩

/-- The other volumes of the merge have one of the two, and the sources have
both because they are turned from one to the other. -/
theorem clashes_bench :
    ¬ Volume.Clashes { mountPath := "/data", key := "disk" }
      ∧ ¬ Volume.Clashes { hostPath := "./tmp" }
      ∧ ∃ b u, bench.volume? (mountOf .debug "src") = some b
        ∧ move.volume? (mountOf .debug "src") = some u ∧ b.Turns u := by
  obtain ⟨-, hmerge⟩ := clashes_merge_iff compileDocument_bench compileDocument_move
  refine ⟨?_, ?_, ?_⟩
  · exact (hmerge (mountOf .own "data") { mountPath := "/data", key := "disk" } rfl).1 rfl
  · rw [(hmerge (mountOf .debug "cache") { hostPath := "./tmp" } rfl).2]
    rintro ⟨b, u, hb, hu, hturns⟩
    obtain rfl := Option.some.inj hb
    obtain rfl := Option.some.inj hu
    simp [Volume.Turns] at hturns
  · exact (hmerge (mountOf .debug "src") _ volume?_sources).2.mp ⟨rfl, rfl⟩

end Compiler

end Manifest

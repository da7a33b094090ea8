import Manifest.Compiler
import Manifest.Proofs.Layering.Grouping
/-!
# What an override leaves alone

An entry that both layers have is overlaid field by field: what the upper one
sets replaces what is below, and what it leaves unset is left alone. A field
with a default is the exception. The upper config is expanded before it is laid
over the other, so that where it has the entry at all, the field is set in it,
and what the lower one says there is lost. Image and build, the ways to probe
and the names go by rules of their own.
-/

namespace Manifest

namespace Config

variable {α X : Type}

/-! ## One field -/

/-- The field has what the upper layer sets, and else what is below. -/
structure Over (below upper merged : Option α) : Prop where
  set : upper.isSome → merged = upper
  unset : upper = none → merged = below

theorem over_valueOver (below upper : Option α) : Over below upper (valueOver below upper) where
  set h := Option.or_of_isSome h
  unset h := by rw [h, valueOver, Option.none_or]

/-- Whatever lies below, a default that is written down is what shows. -/
theorem over_getD (default : α) (upper : Option α) :
    Over (some default) upper (some (upper.getD default)) where
  set h := by
    obtain ⟨value, rfl⟩ := Option.isSome_iff_exists.mp h
    rfl
  unset h := by rw [h, Option.getD_none]

/-! ## Entries of both layers -/

/-- Where both layers have something, so has the merge, and it is related to
them. -/
def Nested (r : α → α → α → Prop) (below upper merged : Option α) : Prop :=
  ∀ b u, below = some b → upper = some u → ∃ m, merged = some m ∧ r b u m

end Config

open Config (Nested)

/-- The same at each key. -/
def Dict.Framed {α : Type} (r : α → α → α → Prop) (below upper merged : Dict α) : Prop :=
  ∀ key, Nested r (below.get? key) (upper.get? key) (merged.get? key)

namespace Config

variable {α X : Type}

theorem nested_combine {r : α → α → α → Prop} {f : α → α → α} (h : ∀ b u, r b u (f b u))
    (below upper : Option α) : Nested r below upper (combine f below upper) := by
  rintro b u rfl rfl
  exact ⟨f b u, rfl, h b u⟩

/-- The upper part is expanded before, and the overlay once more. -/
theorem nested_expanded {r : α → α → α → Prop} {f : α → α → α} {expand : α → α}
    (h : ∀ b u, r b u (expand (f b (expand u)))) (below upper : Option α) :
    Nested r below upper ((combine f below (upper.map expand)).map expand) := by
  rintro b u rfl rfl
  exact ⟨expand (f b (expand u)), rfl, h b u⟩

theorem framed_overlay {r : α → α → α → Prop} {f : α → α → α} (h : ∀ b u, r b u (f b u))
    (below upper : Dict α) : below.Framed r upper (below.overlay f upper) := by
  intro key b u hb hu
  rw [Dict.get?_overlay, hb, hu]
  exact ⟨f b u, rfl, h b u⟩

/-- Both layers are finished before, and their overlay is once more. -/
theorem framed_finishedOver {r : α → α → α → Prop} {f : α → α → α}
    (finish : Component → String → α → α) (base upper : Component)
    (h : ∀ key b u, r (finish base key b) u
      (finish (base.expand.overlay upper.expand) key
        (f (finish base key b) (finish upper key u))))
    (d₁ d₂ : Dict α) :
    (d₁.mapValues (finish base)).Framed r d₂ (finishedOver finish f base upper d₁ d₂) := by
  intro key b u hb hu
  rw [Dict.get?_mapValues] at hb
  obtain ⟨given, hgiven, rfl⟩ := Option.map_eq_some_iff.mp hb
  simp only [finishedOver, Dict.get?_mapValues, Dict.get?_overlay, hgiven, hu]
  exact ⟨_, rfl, h key given u⟩

/-! ## Parts of a config

Each structure has a field for each optional field that is overlaid by itself,
and says what lies below it: the default, where there is one. -/

/-- What the upper layer does not require has null for its default. -/
structure Parameter.Framed (below upper merged : Parameter) : Prop where
  required : Over below.required upper.required merged.required
  description : Over below.description upper.description merged.description
  default : Over (if upper.required = some false then some none else below.default)
    upper.default merged.default

structure Volume.Framed (below upper merged : Volume) : Prop where
  mountPath : Over below.mountPath upper.mountPath merged.mountPath
  hostPath : Over below.hostPath upper.hostPath merged.hostPath
  key : Over below.key upper.key merged.key
  description : Over below.description upper.description merged.description
  readonly : Over below.readonly upper.readonly merged.readonly

structure Interface.Framed (below upper merged : Interface) : Prop where
  description : Over below.description upper.description merged.description
  host : Over below.host upper.host merged.host
  port : Over below.port upper.port merged.port
  protocol : Over below.protocol upper.protocol merged.protocol
  username : Over below.username upper.username merged.username
  password : Over below.password upper.password merged.password
  url : Over below.url upper.url merged.url
  sticky : Over below.sticky upper.sticky merged.sticky

structure Ingress.Framed (below upper merged : Ingress) : Prop where
  enabled : Over (some true) upper.enabled merged.enabled
  subdomain : Over below.subdomain upper.subdomain merged.subdomain

structure ComponentInterface.Framed (below upper merged : ComponentInterface) : Prop where
  interface : below.interface.Framed upper.interface merged.interface
  ingress : Nested Ingress.Framed below.ingress upper.ingress merged.ingress

/-- All that is overlaid by itself has a default, so that nothing is seen of
the probe below. -/
structure Probe.Framed (upper merged : Probe) : Prop where
  successThreshold : Over (some "1") upper.successThreshold merged.successThreshold
  failureThreshold : Over (some "3") upper.failureThreshold merged.failureThreshold
  timeout : Over (some "5s") upper.timeout merged.timeout
  interval : Over (some "30s") upper.interval merged.interval
  initialDelay : Over (some "0s") upper.initialDelay merged.initialDelay

structure Metrics.Framed (below upper merged : Metrics) : Prop where
  cpu : Over below.cpu upper.cpu merged.cpu
  memory : Over below.memory upper.memory merged.memory

structure Scaling.Framed (below upper merged : Scaling) : Prop where
  minReplicas : Over below.minReplicas upper.minReplicas merged.minReplicas
  maxReplicas : Over below.maxReplicas upper.maxReplicas merged.maxReplicas
  metrics : below.metrics.Framed upper.metrics merged.metrics

structure ServiceExtension.Framed (below upper merged : ServiceExtension) : Prop where
  interfaces : below.interfaces.Framed Interface.Framed upper.interfaces merged.interfaces
  probe : Nested (fun _ => Probe.Framed) below.probe upper.probe merged.probe
  replicas : Over below.replicas upper.replicas merged.replicas
  scaling : Nested Scaling.Framed below.scaling upper.scaling merged.scaling

structure TaskExtension.Framed (below upper merged : TaskExtension) : Prop where
  schedule : Over below.schedule upper.schedule merged.schedule

structure Body.Framed (x : X → X → X → Prop) (below upper merged : Body X) : Prop where
  description : Over below.description upper.description merged.description
  command : Over below.command upper.command merged.command
  entrypoint : Over below.entrypoint upper.entrypoint merged.entrypoint
  volumes : below.volumes.Framed Volume.Framed upper.volumes merged.volumes
  cpu : Over below.cpu upper.cpu merged.cpu
  memory : Over below.memory upper.memory merged.memory
  extension : x below.extension upper.extension merged.extension

structure Resource.Framed (x : X → X → X → Prop) (below upper merged : Resource X) : Prop where
  body : below.body.Framed x upper.body merged.body
  debug : Nested (fun b u m => b.body.Framed x u.body m.body) below.debug upper.debug merged.debug

structure Component.Framed (below upper merged : Component) : Prop where
  instanceId : Over below.instanceId upper.instanceId merged.instanceId
  instanceName : Over below.instanceName upper.instanceName merged.instanceName
  instanceDate : Over below.instanceDate upper.instanceDate merged.instanceDate
  parent : Over below.parent upper.parent merged.parent
  localParent : Over below.localParent upper.localParent merged.localParent
  description : Over below.description upper.description merged.description
  author : Over below.author upper.author merged.author
  homepage : Over below.homepage upper.homepage merged.homepage
  parameters : below.parameters.Framed Parameter.Framed upper.parameters merged.parameters
  services : below.services.Framed (Resource.Framed ServiceExtension.Framed) upper.services
    merged.services
  tasks : below.tasks.Framed (Resource.Framed TaskExtension.Framed) upper.tasks merged.tasks
  interfaces : below.interfaces.Framed ComponentInterface.Framed upper.interfaces
    merged.interfaces

/-! ## Overlays -/

theorem Volume.framed_overlay (b u : Volume) : b.Framed u (b.overlay u) where
  mountPath := over_valueOver ..
  hostPath := over_valueOver ..
  key := over_valueOver ..
  description := over_valueOver ..
  readonly := over_valueOver ..

theorem Interface.framed_overlay (b u : Interface) : b.Framed u (b.overlay u) where
  description := over_valueOver ..
  host := over_valueOver ..
  port := over_valueOver ..
  protocol := over_valueOver ..
  username := over_valueOver ..
  password := over_valueOver ..
  url := over_valueOver ..
  sticky := over_valueOver ..

theorem Scaling.framed_overlay (b u : Scaling) : b.Framed u (b.overlay u) where
  minReplicas := over_valueOver ..
  maxReplicas := over_valueOver ..
  metrics := ⟨over_valueOver .., over_valueOver ..⟩

theorem Parameter.framed_overlay {b : Parameter} (hb : b.expand = b) (u : Parameter) :
    b.Framed u (b.overlay u.expand).expand := by
  rw [expand_overlay hb (expand_expand u), expand]
  split
  · rename_i hmissing
    rw [Bool.and_eq_true, decide_eq_true_iff, Option.isNone_iff_eq_none] at hmissing
    obtain ⟨hrequired, hdefault⟩ := hmissing
    refine ⟨over_valueOver .., over_valueOver .., ?_⟩
    rw [if_pos hrequired, hdefault]
    exact over_getD none none
  · rename_i hgiven
    refine ⟨over_valueOver .., over_valueOver .., ?_⟩
    split
    · rename_i hrequired
      -- It has a default of its own, or else it would have been given null.
      have hsome : u.default.isSome := by simpa [hrequired, Option.isSome_iff_ne_none] using hgiven
      obtain ⟨value, hvalue⟩ := Option.isSome_iff_exists.mp hsome
      show Over _ u.default (valueOver b.default u.default)
      rw [hvalue]
      exact over_valueOver (some none) (some value)
    · exact over_valueOver ..

theorem Ingress.framed_overlay (b u : Ingress) : b.Framed u (b.overlay u.expand).expand where
  enabled := by
    have hsame : (b.overlay u.expand).expand.enabled = some (u.enabled.getD true) := by
      obtain ⟨enabled, subdomain⟩ := u
      cases enabled <;> rfl
    rw [hsame]
    exact over_getD true u.enabled
  subdomain := over_valueOver ..

theorem ComponentInterface.framed_overlay (b u : ComponentInterface) :
    b.Framed u (b.overlay u.expand).expand where
  interface := Interface.framed_overlay ..
  ingress := nested_expanded Ingress.framed_overlay b.ingress u.ingress

theorem Probe.framed_overlay (b u : Probe) : u.Framed (b.overlay u.filled).filled where
  successThreshold := over_getD "1" u.successThreshold
  failureThreshold := over_getD "3" u.failureThreshold
  timeout := over_getD "5s" u.timeout
  interval := over_getD "30s" u.interval
  initialDelay := over_getD "0s" u.initialDelay

/-! ## Extensions -/

/-- What two extensions come to in a merge is framed. -/
def FramedLayered [Layered X] (x : X → X → X → Prop) : Prop :=
  ∀ b u : X, x b u (Layered.expand (Layered.overlay b (Layered.expand u)))

theorem framedLayered_service : FramedLayered ServiceExtension.Framed := fun b u =>
  { interfaces := Config.framed_overlay Interface.framed_overlay b.interfaces u.interfaces
    probe := nested_expanded Probe.framed_overlay b.probe u.probe
    replicas := over_valueOver ..
    scaling := nested_combine Scaling.framed_overlay b.scaling u.scaling }

theorem framedLayered_task : FramedLayered TaskExtension.Framed := fun _ _ =>
  ⟨over_valueOver ..⟩

/-! ## Resources -/

section Resources

variable [Layered X] {x : X → X → X → Prop}

theorem Body.framed_overlay (hx : FramedLayered x) (i j : Identity) (b u : Body X) :
    b.Framed x u { b.overlay { u with identity := i }.expand with identity := j }.expand where
  description := over_valueOver ..
  command := over_valueOver ..
  entrypoint := over_valueOver ..
  volumes := Config.framed_overlay Volume.framed_overlay b.volumes u.volumes
  cpu := over_valueOver ..
  memory := over_valueOver ..
  extension := hx b.extension u.extension

theorem Resource.framed_overlay (hx : FramedLayered x) (c upper : Component) (key : String)
    (b u : Resource X) :
    b.Framed x u ((b.overlay (u.stamp upper key).expand).stamp c key).expand where
  body := by
    rw [overlay_eq]
    exact Body.framed_overlay hx _ _ b.body u.body
  debug := by
    rw [overlay_eq]
    obtain ⟨bBody, bDebug⟩ := b
    obtain ⟨uBody, uDebug⟩ := u
    rintro bDebug uDebug rfl rfl
    refine ⟨_, rfl, ?_⟩
    dsimp only
    rw [overlay_body]
    exact Body.framed_overlay hx _ _ bDebug.body uDebug.body

end Resources

/-! ## Components -/

/-- Of an entry that both layers have, each field that is overlaid by itself is
in the merge as the upper config sets it. Where that one leaves it unset, it is
as in the expanded lower config, or it has its default, if it has one. -/
theorem Component.framed_merge (base upper : Component) :
    base.expand.Framed upper (base.merge upper) where
  instanceId := over_valueOver ..
  instanceName := over_valueOver ..
  instanceDate := over_valueOver ..
  parent := over_valueOver ..
  localParent := over_valueOver ..
  description := over_valueOver ..
  author := over_valueOver ..
  homepage := over_valueOver ..
  parameters := framed_finishedOver (fun _ _ => Parameter.expand) base upper
    (fun _ b u => Parameter.framed_overlay b.expand_expand u) base.parameters upper.parameters
  services := framed_finishedOver (fun c key s => (s.stamp c key).expand) base upper
    (fun key _ u => Resource.framed_overlay framedLayered_service _ upper key _ u)
    base.services upper.services
  tasks := framed_finishedOver (fun c key t => (t.stamp c key).expand) base upper
    (fun key _ u => Resource.framed_overlay framedLayered_task _ upper key _ u)
    base.tasks upper.tasks
  interfaces := framed_finishedOver (fun _ _ => ComponentInterface.expand) base upper
    (fun _ b u => ComponentInterface.framed_overlay b.expand u) base.interfaces upper.interfaces

end Config

namespace Compiler

open Config (Component)

/-! ### An address for a portal that is switched off -/

def portalDocument : SourceDocument where
  source := ""
  value := .mapping
    [(.string "name", .string "acme/portal"),
      (.string "interfaces", .mapping
        [(.string "public", .mapping
          [(.string "port", .int 80),
            (.string "ingress", .mapping [(.string "enabled", .bool false)])])])]

/-- The operator gives the ingress a subdomain and does not say more. -/
def addressDocument : SourceDocument where
  source := ""
  value := .mapping
    [(.string "name", .string "acme/portal"),
      (.string "interfaces", .mapping
        [(.string "public", .mapping
          [(.string "ingress", .mapping [(.string "subdomain", .string "app")])])])]

def portalWith (port : Option String) (ingress : Config.Ingress) : Component where
  name := "acme/portal"
  tag := "latest"
  reference := "acme/portal:latest"
  interfaces := .ofList [("public", { interface := { port }, ingress })]

def portal : Component := portalWith "80" { enabled := some false }

def address : Component := portalWith none { subdomain := "app" }

theorem compileDocument_portal :
    compileDocument {} (.only .developer) portalDocument = .ok portal := rfl

theorem compileDocument_address :
    compileDocument {} (.only .operator) addressDocument = .ok address := rfl

def publicIngress? (c : Component) : Option Config.Ingress :=
  (c.interfaces.get? "public").bind Config.ComponentInterface.ingress

/-- The override leaves it unset whether the ingress is enabled, and in the
merge it is enabled nevertheless. -/
theorem enabled_portal_address :
    compileDocument {} (.only .developer) portalDocument = .ok portal
      ∧ compileDocument {} (.only .operator) addressDocument = .ok address
      ∧ publicIngress? portal.expand = some { enabled := some false }
      ∧ publicIngress? address = some { enabled := none, subdomain := "app" }
      ∧ publicIngress? (portal.merge address) = some { enabled := some true, subdomain := "app" } :=
  ⟨compileDocument_portal, compileDocument_address, rfl, rfl, rfl⟩

end Compiler

end Manifest

import Manifest.Config.Equality
import Manifest.Proofs.Config.Rewritten
import Manifest.Proofs.Dict
/-!
# Configs with equal texts

A config that is rewritten with equal texts is the same config. Only the
order of its dictionaries may be another one, which does not count. Numbers
are the same as themselves because JSON holds no `NaN`.
-/

namespace Manifest

variable {α : Type} {r : α → α → Prop} {test : α → α → Bool} {d d' : Dict α}

theorem Scalar.Rewritten.same {v v' : Scalar} (h : v.Rewritten Eq v') (hstorable : v.Storable) :
    v.same v' = true := by
  cases h with
  | bool b => exact decide_eq_true rfl
  | int i => exact decide_eq_true rfl
  | string h => exact decide_eq_true (congrArg Scalar.string h)
  | float f =>
      cases f with
      | finite negative mantissa exponent => cases mantissa <;> simp [Scalar.same, Binary64.same]
      | infinite | notANumber => cases hstorable

/-! ## Dictionaries -/

namespace Dict.Rewritten

theorem mem_keys_iff (h : d.Rewritten r d') {key : String} : key ∈ d.keys ↔ key ∈ d'.keys := by
  rw [← not_iff_not, ← Dict.get?_eq_none_iff, ← Dict.get?_eq_none_iff]
  have hvalues := h.values key
  generalize d.get? key = a, d'.get? key = b at hvalues
  cases hvalues with
  | none => exact Iff.rfl
  | some => simp

theorem size_eq (h : d.Rewritten r d') : d.size = d'.size := by
  have hperm : d.keys.Perm d'.keys :=
    (List.perm_ext_iff_of_nodup d.nodup d'.nodup).mpr fun _ => h.mem_keys_iff
  simpa only [Dict.keys, List.length_map, Dict.size] using hperm.length_eq

theorem same (h : d.Rewritten r d') (heq : ∀ a ∈ d.values, ∀ b, r a b → test a b = true) :
    d.same test d' = true := by
  rw [Dict.same, decide_eq_true h.size_eq, Bool.true_and, List.all_eq_true]
  rintro ⟨key, a⟩ hmem
  have hvalues := h.values key
  rw [Dict.get?_eq_some_iff.mpr hmem] at hvalues
  obtain ⟨b, hb, hab⟩ := exists_of_rel hvalues
  simp only [hb]
  exact heq a (List.mem_map.mpr ⟨(key, a), hmem, rfl⟩) b hab

end Dict.Rewritten

namespace Config

theorem sameOption_of_rel {a b : Option α} (h : Option.Rel r a b)
    (heq : ∀ v, a = some v → ∀ w, r v w → test v w = true) : sameOption test a b = true := by
  cases h with
  | none => rfl
  | some hvw => exact heq _ rfl _ hvw

theorem same_texts {d d' : Dict String} (h : d.Rewritten Eq d') : d.same sameText d' = true :=
  h.same fun _ _ _ heq => decide_eq_true heq

theorem eq_of_forall₂ {a b : List String} (h : List.Forall₂ Eq a b) : a = b := by
  rwa [List.forall₂_eq_eq_eq] at h

/-! ## Records of texts -/

theorem Volume.Rewritten.eq {v v' : Volume} (h : v.Rewritten Eq v') : v = v' := by
  cases v
  cases v'
  simpa using ⟨eq_of_rel_eq h.mountPath, eq_of_rel_eq h.hostPath, eq_of_rel_eq h.key,
    eq_of_rel_eq h.description, eq_of_rel_eq h.readonly⟩

theorem Interface.Rewritten.eq {i i' : Interface} (h : i.Rewritten Eq i') : i = i' := by
  cases i
  cases i'
  simpa using ⟨eq_of_rel_eq h.description, eq_of_rel_eq h.host, eq_of_rel_eq h.port,
    eq_of_rel_eq h.protocol, eq_of_rel_eq h.username, eq_of_rel_eq h.password,
    eq_of_rel_eq h.url, eq_of_rel_eq h.sticky⟩

theorem Ingress.Rewritten.eq {i i' : Ingress} (h : i.Rewritten Eq i') : i = i' := by
  cases i
  cases i'
  simpa using ⟨h.enabled, eq_of_rel_eq h.subdomain⟩

theorem ComponentInterface.Rewritten.eq {i i' : ComponentInterface} (h : i.Rewritten Eq i') :
    i = i' := by
  cases i
  cases i'
  simpa using ⟨h.interface.eq, eq_of_rel h.ingress Ingress.Rewritten.eq⟩

theorem Probe.Rewritten.eq {p p' : Probe} (h : p.Rewritten Eq p') : p = p' := by
  cases p
  cases p'
  simpa using ⟨eq_of_rel_eq h.successThreshold, eq_of_rel_eq h.failureThreshold,
    eq_of_rel_eq h.timeout, eq_of_rel_eq h.interval, eq_of_rel_eq h.initialDelay,
    eq_of_rel_eq h.path, eq_of_rel_eq h.port, eq_of_rel h.command eq_of_forall₂⟩

theorem Metrics.Rewritten.eq {m m' : Metrics} (h : m.Rewritten Eq m') : m = m' := by
  cases m
  cases m'
  simpa using ⟨eq_of_rel_eq h.cpu, eq_of_rel_eq h.memory⟩

theorem Scaling.Rewritten.eq {s s' : Scaling} (h : s.Rewritten Eq s') : s = s' := by
  cases s
  cases s'
  simpa using ⟨eq_of_rel_eq h.minReplicas, eq_of_rel_eq h.maxReplicas, h.metrics.eq⟩

theorem Identity.Rewritten.eq {i i' : Identity} (h : i.Rewritten Eq i') : i = i' := by
  cases i
  cases i'
  simpa using ⟨h.name, h.reference, h.tag⟩

theorem TaskExtension.Rewritten.eq {x x' : TaskExtension} (h : x.Rewritten Eq x') : x = x' := by
  cases x
  cases x'
  simpa using eq_of_rel_eq h.schedule

/-! ## Records with dictionaries -/

theorem Parameter.Rewritten.same {p p' : Parameter} (h : p.Rewritten Eq p')
    (hstorable : ∀ value, p.default = some (some value) → value.Storable) :
    p.same p' = true := by
  have hdefault : sameOption (sameOption Scalar.same) p.default p'.default = true :=
    sameOption_of_rel h.default fun inner hinner _ hrel =>
      sameOption_of_rel hrel fun value hvalue _ hsame =>
        hsame.same (hstorable value (hinner.trans (congrArg some hvalue)))
  simp [Parameter.same, h.required, eq_of_rel_eq h.description, hdefault]

theorem Build.Rewritten.same {b b' : Build} (h : b.Rewritten Eq b') : b.same b' = true := by
  simp [Build.same, eq_of_rel_eq h.context, eq_of_rel_eq h.dockerfile, eq_of_rel_eq h.target,
    same_texts h.args]

theorem ServiceExtension.Rewritten.same {x x' : ServiceExtension} (h : x.Rewritten Eq x') :
    x.same x' = true := by
  have hinterfaces : x.interfaces.same (fun i j => decide (i = j)) x'.interfaces = true :=
    h.interfaces.same fun _ _ _ hij => decide_eq_true hij.eq
  simp [ServiceExtension.same, eq_of_rel h.probe Probe.Rewritten.eq,
    eq_of_rel_eq h.replicas, eq_of_rel h.scaling Scaling.Rewritten.eq, hinterfaces]

theorem TaskExtension.Rewritten.same {x x' : TaskExtension} (h : x.Rewritten Eq x') :
    x.same x' = true :=
  decide_eq_true h.eq

section Resources

variable {X : Type} {x : X → X → Prop} {test : X → X → Bool}

theorem Body.Rewritten.same {b b' : Body X} (h : b.Rewritten Eq x b')
    (heq : ∀ {v w}, x v w → test v w = true) : b.same test b' = true := by
  have hbuild : sameOption Build.same b.build b'.build = true :=
    sameOption_of_rel h.build fun _ _ _ hb => hb.same
  have hvolumes : b.volumes.same (fun v w => decide (v = w)) b'.volumes = true :=
    h.volumes.same fun _ _ _ hvw => decide_eq_true hvw.eq
  simp [Body.same, h.identity.eq, eq_of_rel_eq h.description, eq_of_rel_eq h.image,
    eq_of_rel h.command eq_of_forall₂, eq_of_rel h.entrypoint eq_of_forall₂, eq_of_rel_eq h.cpu,
    eq_of_rel_eq h.memory, eq_of_forall₂ h.dependsOn, hbuild, same_texts h.environment, hvolumes,
    same_texts h.labels, heq h.extension]

theorem Resource.Rewritten.same {r r' : Resource X} (h : r.Rewritten Eq x r')
    (heq : ∀ {v w}, x v w → test v w = true) : r.same test r' = true := by
  induction h with
  | plain body => exact body.same heq
  | debug body _ ih =>
      rw [Resource.same, body.same heq, ih]
      rfl

end Resources

/-- A config with the same texts is the same config. -/
theorem Component.Rewritten.same {c c' : Component} (h : c.Rewritten Eq c')
    (hstorable : c.Storable) : c.same c' = true := by
  have hparameters : c.parameters.same Parameter.same c'.parameters = true :=
    h.parameters.same fun p hp _ hsame => hsame.same (hstorable p hp)
  have hservices : c.services.same (Resource.same ServiceExtension.same) c'.services = true :=
    h.services.same fun _ _ _ hs => Resource.Rewritten.same hs ServiceExtension.Rewritten.same
  have htasks : c.tasks.same (Resource.same TaskExtension.same) c'.tasks = true :=
    h.tasks.same fun _ _ _ ht => Resource.Rewritten.same ht TaskExtension.Rewritten.same
  have hinterfaces : c.interfaces.same (fun i j => decide (i = j)) c'.interfaces = true :=
    h.interfaces.same fun _ _ _ hij => decide_eq_true hij.eq
  simp [Component.same, h.name, h.tag, h.reference, eq_of_rel_eq h.instanceId,
    eq_of_rel_eq h.instanceName, h.instanceDate, eq_of_rel_eq h.parent, eq_of_rel_eq h.localParent,
    eq_of_rel_eq h.description, eq_of_forall₂ h.keywords, eq_of_rel_eq h.author,
    eq_of_rel_eq h.homepage, hparameters, hservices, htasks, same_texts h.dependencies,
    hinterfaces]

end Config

end Manifest

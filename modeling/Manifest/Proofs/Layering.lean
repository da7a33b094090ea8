import Manifest.Proofs.Config.Consistent
/-!
# What layering keeps in order

Merging lays the resources of two configs over each other key by key, and a
list of one layer replaces that of the other. Each list of the merge is
therefore a list of one of the layers, and names a service as it did there.
Two things come from both layers together and are not looked at again: a key
that names a service in one layer and a task in the other names both in the
merge, and lists of both layers may close a circle that neither has alone.
-/

namespace Manifest.Config

variable {X : Type} {v : View} {x y : String}

/-! ## Lists of one resource -/

theorem listOver_eq {α : Type} (base upper : List α) :
    listOver base upper = base ∨ listOver base upper = upper := by
  unfold listOver
  split
  · exact Or.inl rfl
  · exact Or.inr rfl

/-- A list of a layer that another one replaces in both layers is replaced in
the end too. -/
theorem listOver_listOver {α : Type} (base upper baseDebug upperDebug : List α) :
    listOver (listOver base upper) (listOver baseDebug upperDebug) = listOver base baseDebug ∨
      listOver (listOver base upper) (listOver baseDebug upperDebug)
        = listOver upper upperDebug := by
  cases upperDebug with
  | cons d upperDebug => exact Or.inr rfl
  | nil =>
      cases baseDebug with
      | cons d baseDebug => exact Or.inl rfl
      | nil => exact listOver_eq base upper

namespace Resource

/-- The list of the debug block. -/
def debugList (r : Resource X) : List String :=
  match r.debug with
  | some debug => debug.body.dependsOn
  | none => []

theorem dependencies_debug (r : Resource X) :
    r.dependencies .debug = listOver r.body.dependsOn r.debugList := by
  obtain ⟨body, debug⟩ := r
  cases debug <;> rfl

theorem dependencies_stamp (c : Component) (key : String) (r : Resource X) (v : View) :
    (r.stamp c key).dependencies v = r.dependencies v := by
  obtain ⟨body, debug⟩ := r
  cases v with
  | declared => rfl
  | debug => cases debug <;> rfl

variable [Layered X]

theorem dependencies_expand (r : Resource X) (v : View) :
    r.expand.dependencies v = r.dependencies v := by
  obtain ⟨body, debug⟩ := r
  cases v with
  | declared => rfl
  | debug => cases debug <;> rfl

theorem dependsOn_overlay (base upper : Resource X) : (base.overlay upper).body.dependsOn
    = listOver base.body.dependsOn upper.body.dependsOn := by
  obtain ⟨base, baseDebug⟩ := base
  obtain ⟨upper, upperDebug⟩ := upper
  cases baseDebug <;> cases upperDebug <;> rfl

theorem debugList_overlay (base upper : Resource X) :
    (base.overlay upper).debugList = listOver base.debugList upper.debugList := by
  obtain ⟨base, baseDebug⟩ := base
  obtain ⟨upper, upperDebug⟩ := upper
  cases baseDebug with
  | none =>
      cases upperDebug with
      | none => rfl
      | some upperDebug =>
          show upperDebug.body.dependsOn = listOver [] upperDebug.body.dependsOn
          cases upperDebug.body.dependsOn <;> rfl
  | some baseDebug =>
      cases upperDebug with
      | none => rfl
      | some upperDebug => exact dependsOn_overlay baseDebug upperDebug

/-- Each list of an overlay is that of one of the layers in the same view. -/
theorem dependencies_overlay (base upper : Resource X) (v : View) :
    (base.overlay upper).dependencies v = base.dependencies v ∨
      (base.overlay upper).dependencies v = upper.dependencies v := by
  cases v with
  | declared =>
      have hown := listOver_eq base.body.dependsOn upper.body.dependsOn
      rwa [← dependsOn_overlay] at hown
  | debug =>
      simp only [dependencies_debug, dependsOn_overlay, debugList_overlay]
      exact listOver_listOver ..

end Resource

/-! ## Lists of a dictionary -/

variable [Layered X]

/-- Resources with the identity of a component and their defaults. -/
def stamped (c : Component) (resources : Dict (Resource X)) : Dict (Resource X) :=
  resources.mapValues fun key r => (r.stamp c key).expand

/-- The resources of `upper` over those of `base`, in a merge of their
components. -/
def layered (base upper : Component) (d₁ d₂ : Dict (Resource X)) : Dict (Resource X) :=
  stamped (base.expand.overlay upper.expand)
    ((stamped base d₁).overlay Resource.overlay (stamped upper d₂))

theorem keys_layered {base upper : Component} {d₁ d₂ : Dict (Resource X)} {key : String} :
    key ∈ (layered base upper d₁ d₂).keys ↔ key ∈ d₁.keys ∨ key ∈ d₂.keys := by
  rw [layered, stamped, Dict.keys_mapValues, Dict.mem_keys_overlay, stamped, stamped,
    Dict.keys_mapValues, Dict.keys_mapValues]

theorem exists_of_stamped {c : Component} {resources : Dict (Resource X)} {r : Resource X}
    (h : (stamped c resources).get? x = some r) :
    ∃ r', resources.get? x = some r' ∧ r.dependencies v = r'.dependencies v := by
  rw [stamped, Dict.get?_mapValues] at h
  obtain ⟨r', hr', rfl⟩ := Option.map_eq_some_iff.mp h
  exact ⟨r', hr', by rw [Resource.dependencies_expand, Resource.dependencies_stamp]⟩

theorem Lists.of_stamped {c : Component} {resources : Dict (Resource X)} {r : Resource X}
    (hr : (stamped c resources).get? x = some r) (hy : y ∈ r.dependencies v) :
    Lists resources v x y := by
  obtain ⟨r', hr', hlist⟩ := exists_of_stamped hr
  exact ⟨r', hr', hlist ▸ hy⟩

/-- What a resource of a merge depends on, it depends on in one of the layers. -/
theorem lists_layered {base upper : Component} {d₁ d₂ : Dict (Resource X)}
    (h : Lists (layered base upper d₁ d₂) v x y) : Lists d₁ v x y ∨ Lists d₂ v x y := by
  obtain ⟨r, hr, hy⟩ := h
  obtain ⟨merged, hmerged, hlist⟩ := exists_of_stamped hr
  rw [hlist] at hy
  rw [Dict.get?_overlay] at hmerged
  rcases Dict.eq_some_of_combine hmerged with hbase | hupper | ⟨b, u, hbase, hupper, rfl⟩
  · exact Or.inl (.of_stamped hbase hy)
  · exact Or.inr (.of_stamped hupper hy)
  · rcases Resource.dependencies_overlay b u v with heq | heq
    · rw [heq] at hy
      exact Or.inl (.of_stamped hbase hy)
    · rw [heq] at hy
      exact Or.inr (.of_stamped hupper hy)

/-! ## Components -/

namespace Component

variable {base upper : Component} {key : String}

theorem mem_services_merge :
    key ∈ (base.merge upper).services.keys ↔ key ∈ base.services.keys ∨ key ∈ upper.services.keys :=
  keys_layered

theorem mem_tasks_merge :
    key ∈ (base.merge upper).tasks.keys ↔ key ∈ base.tasks.keys ∨ key ∈ upper.tasks.keys :=
  keys_layered

theorem needs_merge (h : (base.merge upper).Needs v x y) :
    base.Needs v x y ∨ upper.Needs v x y := by
  rcases h with h | h
  · exact (lists_layered h).imp Or.inl Or.inl
  · exact (lists_layered h).imp Or.inr Or.inr

/-- The key names a service in one layer and a task in the other. -/
def Crosses (base upper : Component) (key : String) : Prop :=
  key ∈ base.services.keys ∧ key ∈ upper.tasks.keys ∨
    key ∈ base.tasks.keys ∧ key ∈ upper.services.keys

theorem crosses_iff (hbase : base.Consistent) (hupper : upper.Consistent) :
    key ∈ (base.merge upper).services.keys ∧ key ∈ (base.merge upper).tasks.keys ↔
      Crosses base upper key := by
  rw [mem_services_merge, mem_tasks_merge]
  constructor
  · rintro ⟨hservice | hservice, htask | htask⟩
    · exact absurd htask (hbase.apart key hservice)
    · exact Or.inl ⟨hservice, htask⟩
    · exact Or.inr ⟨htask, hservice⟩
    · exact absurd htask (hupper.apart key hservice)
  · rintro (⟨hservice, htask⟩ | ⟨htask, hservice⟩)
    · exact ⟨Or.inl hservice, Or.inr htask⟩
    · exact ⟨Or.inr hservice, Or.inl htask⟩

theorem service_of_needs_merge (hbase : base.Consistent) (hupper : upper.Consistent)
    (h : (base.merge upper).Needs v x y) : y ∈ (base.merge upper).services.keys := by
  rw [mem_services_merge]
  rcases needs_merge h with h | h
  · obtain ⟨hservice, -⟩ := hbase.services v x y h
    exact Or.inl hservice
  · obtain ⟨hservice, -⟩ := hupper.services v x y h
    exact Or.inr hservice

/-- Layers that do not cross and have no circle in common have a consistent
merge. -/
theorem consistent_merge (hbase : base.Consistent) (hupper : upper.Consistent)
    (hcrosses : ∀ key, ¬ Crosses base upper key)
    (hacyclic : ∀ v, Acyclic fun x y => base.Needs v x y ∨ upper.Needs v x y) :
    (base.merge upper).Consistent where
  apart := by
    intro key hservice htask
    exact hcrosses key ((crosses_iff hbase hupper).mp ⟨hservice, htask⟩)
  services := by
    intro v x y h
    have hservice := service_of_needs_merge hbase hupper h
    refine ⟨hservice, fun htask => ?_⟩
    exact hcrosses y ((crosses_iff hbase hupper).mp ⟨hservice, htask⟩)
  acyclic := by
    intro v
    exact (hacyclic v).of_le fun x y => needs_merge

end Component

end Manifest.Config

namespace Manifest.Compiler

open Config (Component)

/-- What a merge of two compiled configs keeps of their order: every entry of a
list names a service, and names a task as well only if its key crosses from
one layer to the other; every dependency is one of the layers', and every
circle of dependencies needs both of them. -/
theorem merge_of_compiled {s₁ s₂ : Settings} {ps₁ ps₂ : Perspectives} {d₁ d₂ : SourceDocument}
    {base upper : Component} (hbase : compileDocument s₁ ps₁ d₁ = .ok base)
    (hupper : compileDocument s₂ ps₂ d₂ = .ok upper) :
    (∀ key, key ∈ (base.merge upper).services.keys ∧ key ∈ (base.merge upper).tasks.keys ↔
      Component.Crosses base upper key)
    ∧ (∀ v x y, (base.merge upper).Needs v x y → y ∈ (base.merge upper).services.keys
      ∧ (y ∈ (base.merge upper).tasks.keys ↔ Component.Crosses base upper y))
    ∧ (∀ v x y, (base.merge upper).Needs v x y → base.Needs v x y ∨ upper.Needs v x y)
    ∧ (∀ v x, Relation.TransGen ((base.merge upper).Needs v) x x →
      (∃ a b, StepAround ((base.merge upper).Needs v) x a b ∧ ¬ base.Needs v a b)
      ∧ ∃ a b, StepAround ((base.merge upper).Needs v) x a b ∧ ¬ upper.Needs v a b)
    ∧ ((∀ key, ¬ Component.Crosses base upper key) →
      (∀ v, Acyclic fun x y => base.Needs v x y ∨ upper.Needs v x y) →
      (base.merge upper).Consistent) := by
  have hb := consistent_of_compileDocument hbase
  have hu := consistent_of_compileDocument hupper
  refine ⟨?_, ?_, ?_, ?_, ?_⟩
  · intro key
    exact Component.crosses_iff hb hu
  · intro v x y h
    have hservice := Component.service_of_needs_merge hb hu h
    refine ⟨hservice, fun htask => ?_, fun hcrosses => ?_⟩
    · exact (Component.crosses_iff hb hu).mp ⟨hservice, htask⟩
    · obtain ⟨-, htask⟩ := (Component.crosses_iff hb hu).mpr hcrosses
      exact htask
  · intro v x y h
    exact Component.needs_merge h
  · intro v x hcycle
    have houtsideBase := (hb.acyclic v).exists_step hcycle
    have houtsideUpper := (hu.acyclic v).exists_step hcycle
    exact ⟨houtsideBase, houtsideUpper⟩
  · intro hcrosses hacyclic
    exact Component.consistent_merge hb hu hcrosses hacyclic

/-! ## A shop and what is laid over it -/

def serviceOf (image : String) (dependsOn : List String) : Yaml :=
  .mapping [(.string "image", .string image),
    (.string "depends_on", .sequence (dependsOn.map .string))]

/-- A service or task named `key` as it is compiled. -/
def resourceOf {X : Type} (extension : X) (key image : String) (dependsOn : List String) :
    Config.Resource X where
  body :=
    { identity := ⟨key, "acme/shop/" ++ key ++ ":latest", "latest"⟩
      image := some image
      dependsOn
      extension }
  debug := none

def shopDocument : SourceDocument where
  source := ""
  value := .mapping
    [(.string "name", .string "acme/shop"),
      (.string "services", .mapping
        [(.string "api", serviceOf "api:1" ["db", "seed"]),
          (.string "db", serviceOf "db:1" []), (.string "seed", serviceOf "seed:1" [])])]

def shop : Component where
  name := "acme/shop"
  tag := "latest"
  reference := "acme/shop:latest"
  services := .ofList
    [("api", resourceOf {} "api" "api:1" ["db", "seed"]), ("db", resourceOf {} "db" "db:1" []),
      ("seed", resourceOf {} "seed" "seed:1" [])]

/-- The patch turns a list around, and has a task where the shop has a service. -/
def patchDocument : SourceDocument where
  source := ""
  value := .mapping
    [(.string "name", .string "acme/shop"),
      (.string "services", .mapping
        [(.string "api", serviceOf "api:1" []), (.string "db", serviceOf "db:1" ["api"])]),
      (.string "tasks", .mapping
        [(.string "seed", .mapping [(.string "image", .string "seed:2")])])]

def patch : Component where
  name := "acme/shop"
  tag := "latest"
  reference := "acme/shop:latest"
  services := .ofList
    [("api", resourceOf {} "api" "api:1" []), ("db", resourceOf {} "db" "db:1" ["api"])]
  tasks := .ofList [("seed", resourceOf {} "seed" "seed:2" [])]

theorem compileDocument_shop :
    compileDocument {} (.only .developer) shopDocument = .ok shop := rfl

theorem compileDocument_patch :
    compileDocument {} (.only .operator) patchDocument = .ok patch := rfl

/-- The list of the interface is the shop's and the one of the database is the
patch's. -/
theorem circle_merge_shop_patch :
    Relation.TransGen ((shop.merge patch).Needs .declared) "api" "api" := by
  have hout : (shop.merge patch).Needs .declared "api" "db" := by decide
  have hback : (shop.merge patch).Needs .declared "db" "api" := by decide
  exact .head hout (.single hback)

/-- A merge of compiled configs that is not consistent: a key is a service and
a task, a service depends on it, and there is a circle of dependencies. -/
theorem not_consistent_merge_shop_patch :
    compileDocument {} (.only .developer) shopDocument = .ok shop
      ∧ compileDocument {} (.only .operator) patchDocument = .ok patch
      ∧ ("seed" ∈ (shop.merge patch).services.keys ∧ "seed" ∈ (shop.merge patch).tasks.keys)
      ∧ (shop.merge patch).Needs .declared "api" "seed"
      ∧ Relation.TransGen ((shop.merge patch).Needs .declared) "api" "api"
      ∧ ¬ (shop.merge patch).Consistent :=
  ⟨compileDocument_shop, compileDocument_patch, by decide, by decide,
    circle_merge_shop_patch, fun h => h.acyclic .declared "api" circle_merge_shop_patch⟩

/-- An operator's change that has no lists. -/
def tuningDocument : SourceDocument where
  source := ""
  value := .mapping
    [(.string "name", .string "acme/shop"),
      (.string "services", .mapping [(.string "api", serviceOf "api:2" [])])]

def tuning : Component where
  name := "acme/shop"
  tag := "latest"
  reference := "acme/shop:latest"
  services := .ofList [("api", resourceOf {} "api" "api:2" [])]

theorem compileDocument_tuning :
    compileDocument {} (.only .operator) tuningDocument = .ok tuning := rfl

theorem not_needs_tuning (v : View) (x y : String) : ¬ tuning.Needs v x y := by
  rintro (⟨r, hr, hy⟩ | ⟨r, hr, hy⟩)
  · have hentries : tuning.services.entries = [("api", resourceOf {} "api" "api:2" [])] := rfl
    have hmem := Dict.get?_eq_some_iff.mp hr
    rw [hentries, List.mem_singleton] at hmem
    obtain ⟨rfl, rfl⟩ := Prod.mk.inj hmem
    cases v <;> cases hy
  · cases Dict.get?_eq_some_iff.mp hr

theorem merge_shop :
    ((shop.merge patch).Needs .declared "api" "db"
      ∧ "db" ∈ (shop.merge patch).services.keys ∧ Component.Crosses shop patch "seed"
      ∧ (shop.Needs .declared "api" "db" ∨ patch.Needs .declared "api" "db")
      ∧ ∃ a b, StepAround ((shop.merge patch).Needs .declared) "api" a b
        ∧ ¬ shop.Needs .declared a b)
      ∧ (shop.merge tuning).Consistent := by
  have hneeds : (shop.merge patch).Needs .declared "api" "db" := by decide
  have hseed : "seed" ∈ (shop.merge patch).services.keys
      ∧ "seed" ∈ (shop.merge patch).tasks.keys := by
    decide
  have hcrosses : ∀ key, ¬ Component.Crosses shop tuning key := by
    rintro key (⟨-, htask⟩ | ⟨htask, -⟩) <;> cases htask
  have hacyclic : ∀ v, Acyclic fun x y => shop.Needs v x y ∨ tuning.Needs v x y := by
    intro v
    have hshop := (consistent_of_compileDocument compileDocument_shop).acyclic v
    exact hshop.of_le fun x y h => h.resolve_right (not_needs_tuning v x y)
  obtain ⟨hkeys, hentries, hsteps, hcircles, -⟩ :=
    merge_of_compiled compileDocument_shop compileDocument_patch
  obtain ⟨-, -, -, -, hconsistent⟩ := merge_of_compiled compileDocument_shop compileDocument_tuning
  exact ⟨⟨hneeds, (hentries _ _ _ hneeds).1, (hkeys "seed").mp hseed, hsteps _ _ _ hneeds,
    (hcircles _ _ circle_merge_shop_patch).1⟩, hconsistent hcrosses hacyclic⟩

end Manifest.Compiler

import Mathlib.Data.List.Induction
import Manifest.Proofs.Compiler.Naming
/-!
# The account of a config under its overrides

Each merge takes the name of what is laid over, so a run of overrides leaves the
name of the last one (`name_layered`). Operators may write it without the
account, and then the refs of the resources have none either
(`names_of_overrides`).
-/

namespace Manifest

namespace Config.Component

variable {base c d : Component} {uppers : List Component}

/-- The configs laid over the base one after the other. -/
def layered (base : Component) (uppers : List Component) : Component := uppers.foldl merge base

@[simp] theorem layered_nil (base : Component) : base.layered [] = base := rfl

@[simp] theorem layered_concat (base : Component) (uppers : List Component) (upper : Component) :
    base.layered (uppers ++ [upper]) = (base.layered uppers).merge upper :=
  List.foldl_concat ..

theorem Named.layered (hbase : base.Named) (huppers : ∀ upper ∈ uppers, upper.Named) :
    (base.layered uppers).Named := by
  induction uppers using List.reverseRecOn with
  | nil => exact hbase
  | append_singleton uppers upper ih =>
      rw [layered_concat]
      have hbelow := ih fun other hother => huppers other (List.mem_append_left _ hother)
      exact hbelow.merge (huppers upper (List.mem_append_right _ (List.mem_singleton_self _)))

/-- The last name stays. -/
theorem name_layered (base : Component) (huppers : ∀ upper ∈ uppers, upper.Named) :
    (base.layered uppers).name = (uppers.getLast?.getD base).name := by
  rcases List.eq_nil_or_concat' uppers with rfl | ⟨below, upper, rfl⟩
  · rfl
  · rw [layered_concat, List.getLast?_concat]
    exact name_merge (huppers upper (List.mem_append_right _ (List.mem_singleton_self _))) _

theorem ownName_congr (h : c.name = d.name) : c.ownName = d.ownName :=
  congrArg (fun name => (splitName name).2) h

theorem account?_congr (h : c.name = d.name) : c.account? = d.account? :=
  congrArg (fun name => (splitName name).1) h

/-- Components that are called the same in their accounts have the same name if
they have the same account, or neither has one. -/
theorem Named.name_eq_iff (hc : c.Named) (hd : d.Named) (hown : c.ownName = d.ownName) :
    c.name = d.name ↔ c.account? = d.account? := by
  refine ⟨account?_congr, fun haccount => ?_⟩
  have hsplit := hc.split
  have hsplit' := hd.split
  rw [haccount, hown] at hsplit
  cases h : d.account? with
  | some account =>
      rw [h] at hsplit hsplit'
      obtain ⟨-, -, hname⟩ := hsplit
      obtain ⟨-, -, hname'⟩ := hsplit'
      rw [hname, hname']
  | none =>
      rw [h] at hsplit hsplit'
      rw [hsplit.2, hsplit'.2]

theorem ownName_layered (huppers : ∀ upper ∈ uppers, upper.Named)
    (hown : ∀ upper ∈ uppers, upper.ownName = base.ownName) :
    (base.layered uppers).ownName = base.ownName := by
  rw [ownName_congr (name_layered base huppers)]
  cases hlast : uppers.getLast? with
  | none => rfl
  | some upper => exact hown upper (List.mem_of_getLast? hlast)

end Config.Component

namespace Compiler

open Config (Component)

variable {s : Settings} {d : SourceDocument} {ds : List SourceDocument} {base : Component}
  {uppers : List Component}

/-- Operators lay documents of the same component over what a developer wrote.
The config has the name that the last of them has. So it keeps the developer's
name if and only if the last document has the same account, and the refs of
resources are services of the component if the last document has an account at
all. If it has none, such a ref lacks the account too. -/
theorem names_of_overrides (hbase : compileDocument s (.only .developer) d = .ok base)
    (huppers : ds.mapM (compileDocument s (.only .operator)) = .ok uppers)
    (hown : ∀ upper ∈ uppers, upper.ownName = base.ownName) :
    base.account?.isSome
      ∧ (base.layered uppers).name = (uppers.getLast?.getD base).name
      ∧ (base.layered uppers).ownName = base.ownName
      ∧ ((base.layered uppers).name = base.name
        ↔ (uppers.getLast?.getD base).account? = base.account?)
      ∧ (∀ account, (base.layered uppers).account? = some account →
        (base.layered uppers).Identities fun key i => Slug.read .serviceVersion i.reference
          = .ok (.ofServiceVersion account base.ownName key (base.layered uppers).tag))
      ∧ ((base.layered uppers).account? = none →
        (base.layered uppers).Identities fun key i => Slug.read .componentVersion i.reference
          = .ok (.ofComponentVersion base.ownName key (base.layered uppers).tag)) := by
  have hnamed : ∀ upper ∈ uppers, upper.Named := by
    intro upper hupper
    obtain ⟨_, -, hcompiled⟩ := exists_of_mem_mapM huppers hupper
    exact named_of_compileDocument hcompiled
  have hbaseNamed := named_of_compileDocument hbase
  have hlayered := hbaseNamed.layered hnamed
  have hname := Component.name_layered base hnamed
  have hsame := Component.ownName_layered hnamed hown
  refine ⟨isSome_account?_of_developer hbase rfl, hname, hsame, ?_, ?_, ?_⟩
  · rw [hlayered.name_eq_iff hbaseNamed hsame, Component.account?_congr hname]
  · intro account haccount
    refine hlayered.read_identities.imp fun key i hread => ?_
    rw [Component.resourceSlug, haccount, hsame] at hread
    exact hread
  · intro haccount
    refine hlayered.read_identities.imp fun key i hread => ?_
    rw [Component.resourceSlug, haccount, hsame] at hread
    exact hread

/-! ### A shop without its account -/

/-- The operator leaves the account out. -/
def briefDocument : SourceDocument where
  source := ""
  value := .mapping
    [(.string "name", .string "shop"),
      (.string "services", .mapping
        [(.string "api", .mapping [(.string "image", .string "api:2")])])]

def brief : Component where
  name := "shop"
  tag := "latest"
  reference := "shop:latest"
  services := .ofList
    [("api",
      { body :=
          { identity := ⟨"api", "shop/api:latest", "latest"⟩
            image := "api:2"
            extension := {} }
        debug := none })]

theorem compileDocument_brief :
    compileDocument {} (.only .operator) briefDocument = .ok brief := rfl

def apiReference? (c : Component) : Option String :=
  (c.services.get? "api").map fun s => s.body.identity.reference

/-- The override has the shop's own name, and the shop loses its account. -/
theorem account_lost_brief :
    compileDocument {} (.only .developer) shopDocument = .ok shop
      ∧ compileDocument {} (.only .operator) briefDocument = .ok brief
      ∧ brief.ownName = shop.ownName ∧ shop.name = "acme/shop"
      ∧ (shop.layered [brief]).name = "shop"
      ∧ apiReference? (shop.layered [brief]) = some "shop/api:latest"
      ∧ (Slug.read .serviceVersion "shop/api:latest").isOk = false :=
  ⟨compileDocument_shop, compileDocument_brief, rfl, rfl, rfl, rfl, rfl⟩

/-- A later document that has the account brings it back. -/
theorem names_brief_tuning :
    [briefDocument, tuningDocument].mapM (compileDocument {} (.only .operator))
        = .ok [brief, tuning]
      ∧ (∀ upper ∈ [brief, tuning], upper.ownName = shop.ownName)
      ∧ (shop.layered [brief, tuning]).name = shop.name
      ∧ (shop.layered [brief, tuning]).Identities fun key i => Slug.read .serviceVersion i.reference
        = .ok (.ofServiceVersion "acme" "shop" key "latest") := by
  have huppers : [briefDocument, tuningDocument].mapM (compileDocument {} (.only .operator))
      = .ok [brief, tuning] := rfl
  have hown : ∀ upper ∈ [brief, tuning], upper.ownName = shop.ownName := by
    intro upper hupper
    rcases List.mem_pair.mp hupper with rfl | rfl <;> rfl
  obtain ⟨-, -, -, hname, hrefs, -⟩ := names_of_overrides compileDocument_shop huppers hown
  exact ⟨huppers, hown, hname.mpr rfl, hrefs "acme" rfl⟩

end Compiler

end Manifest

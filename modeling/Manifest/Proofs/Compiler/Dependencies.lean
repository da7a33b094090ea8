import Manifest.Proofs.Compiler
import Manifest.Proofs.Dict
import Manifest.Proofs.Interpolation.Resolving
import Manifest.Proofs.ReferencePath
/-!
# What a component sees of a dependency

The context of a dependency is resolved by itself before it becomes part of
another one. What an expression stands for there, the same path below the
name of the dependency stands for here (`render_dependency`): the value has
been written down, so that nothing of the consumer is looked up in its place.
-/

namespace Manifest

/-! ## Contexts within contexts -/

namespace Context

open Json (Members)

variable {own : Context}

theorem distinct_exposed (h : own.toJson.Distinct) : own.exposed.toJson.Distinct := by
  obtain ⟨hnodup, hmembers⟩ := h
  refine ⟨(List.filter_sublist.map Prod.fst).nodup hnodup, ?_⟩
  rw [Json.membersDistinct_iff] at hmembers ⊢
  exact fun member hmember => hmembers member (List.mem_of_mem_filter hmember)

theorem reach_exposed {path : List String} (hne : path ≠ [])
    (hroot : path.headD "" ≠ "dependencies") :
    reach own.exposed.toJson path = reach own.toJson path := by
  cases path with
  | nil => exact absurd rfl hne
  | cons key path =>
      have hkey : key ≠ "dependencies" := hroot
      show (Json.member? key (Json.removeMember "dependencies" own.members)).bind _ = _
      rw [Json.member?_removeMember_of_ne hkey]
      rfl

/-- What is in canonical form has all its parts in canonical form. -/
theorem sorted_of_reach {value found : Json} {path : List String} (h : value.sorted = value)
    (hreach : reach value path = some found) : found.sorted = found := by
  have hdistinct : value.Distinct := h ▸ Json.distinct_sorted value
  have hsorted : reach value.sorted path = (reach value path).map Json.sorted :=
    reach_sorted hdistinct
  rw [h, hreach] at hsorted
  exact (Option.some.inj hsorted).symm

end Context

namespace Compiler

open Context (reach walk namespaces)
open Interpolation (Scope Rendering Fault ToldApart writtenPaths plainValue)

variable {s : Settings} {c : Config.Component} {dependencies : Context.Dependencies}
variable {context own : Context} {name : String}

/-- A context is made of the resolved contexts of all dependencies. -/
theorem exists_of_contextFor (h : contextFor s c dependencies = .ok context) : ∃ services,
    context = ⟨namespaces c (dependencies.mapValues fun _ own => (resolve s own).1) .runtime
      services⟩ := by
  obtain ⟨contexts, hcontexts, hcontext⟩ := ok_of_bind_eq_ok h
  obtain ⟨-, rfl⟩ := eq_of_unlessInvalid hcontexts
  obtain ⟨services, -, rfl⟩ := Context.exists_of_ofComponent hcontext
  exact ⟨services, by rw [Dict.mapValues_mapValues]⟩

/-- Below the name of a dependency stands all that it exposes. -/
theorem lookup?_dependency {services : Json.Members} {mode : Mode}
    (hdeclared : name ∈ c.dependencies.keys) (hown : dependencies.get? name = some own)
    (path : List String) :
    (⟨namespaces c dependencies mode services⟩ : Context).lookup? ("dependencies" :: name :: path)
      = walk own.exposed.toJson.sorted path := by
  rw [Context.lookup?_cons, Context.member?_dependencies, Option.bind_some, Context.walk_cons,
    Context.visible, Context.child?_dictJson, Dict.get?_filterMapValues]
  obtain ⟨tag, htag⟩ := Dict.mem_keys_iff.mp hdeclared
  rw [htag, Option.bind_some, hown]
  rfl

/-! ## Texts that are one expression -/

/-- A text that is one expression is rendered as what that stands for. -/
theorem render_expression {scope : Scope} {text : String} {e : Template.Expression}
    (hread : Template.read scope.delimiters text = .ok [.expression e])
    (memo : Interpolation.Memo) :
    ((scope.render text).run memo).1
      = (⟨"", []⟩ : Rendering).after e ((scope.evaluate scope.fuel [] e).run memo).1 := by
  unfold Scope.render Interpolation.renderWith
  rw [hread]
  show ((Interpolation.renderSegments _ [.expression e]).run memo).1 = _
  rw [Interpolation.renderSegments_expression]
  rfl

theorem after_eq_iff {e : Template.Expression} {outcome : Except Fault String} {value : String} :
    (⟨"", []⟩ : Rendering).after e outcome = ⟨value, []⟩ ↔ outcome = .ok value := by
  cases outcome with
  | error fault => simp [Rendering.after]
  | ok found => simp [Rendering.after]

theorem path_ne_nil {d : Delimiters} {text : String} {e : Template.Expression}
    (hread : Template.read d text = .ok [.expression e]) : e.path ≠ [] := by
  obtain ⟨inside, -, hpath⟩ :=
    Template.exists_inside_of_mem_expressions hread (List.mem_singleton_self e)
  obtain ⟨key, rest, heq, -⟩ := ReferencePath.exists_first_of_read? hpath
  rw [heq]
  exact List.cons_ne_nil key rest

/-- An expression of a text alone has the value of the reference, where paths
are told apart. -/
theorem value_of_render {scope : Scope} {text value : String} {e : Template.Expression}
    (hread : Template.read scope.delimiters text = .ok [.expression e])
    (hpaths : ToldApart (e.path :: writtenPaths scope.delimiters scope.context.toJson))
    (h : ((scope.render text).run []).1 = ⟨value, []⟩) : scope.value e = some value := by
  rw [render_expression hread, after_eq_iff] at h
  have hstart : Interpolation.Pending scope e.dotted scope.fuel
      (([] : List (List String)).map ReferencePath.text) := .start scope e.dotted
  obtain ⟨hvalue, -⟩ := Interpolation.evaluate_toOption hpaths (List.subset_cons_self ..) hstart
    (fun _ h => (List.not_mem_nil h).elim) (List.mem_cons_self ..) (List.mem_cons_self ..)
    (.nil scope _)
  rw [← hvalue]
  exact congrArg Except.toOption h

/-- An expression whose path leads to something that is not rendered stands for
that. -/
theorem render_plain {scope : Scope} {text value : String} {e : Template.Expression} {found : Json}
    (hread : Template.read scope.delimiters text = .ok [.expression e])
    (hfound : scope.context.lookup? e.path = some found)
    (hplain : plainValue "" found = .ok value)
    (hunopened : scope.delimiters.opensIn value = false) :
    ((scope.render text).run []).1 = ⟨value, []⟩ := by
  have htemplate : scope.template? found = none := by
    cases found with
    | string own =>
        obtain rfl := Except.ok.inj hplain
        simp [Scope.template?, hunopened]
    | null | bool | int | float | array | object => rfl
  have hplain' : plainValue e.dotted found = .ok value := by
    cases found with
    | string | bool | int | float => exact hplain
    | null | array | object => cases hplain
  rw [render_expression hread, after_eq_iff, Scope.fuel,
    Interpolation.evaluate_plain rfl List.not_mem_nil hfound htemplate]
  exact hplain'

/-- What an expression stands for in the context of a dependency, in canonical
form as contexts are, the same path below the name of the dependency stands for
in the context of each component that declares it, provided that the paths
written in the dependency are told apart, and that the value is not itself to
be rendered. -/
theorem render_dependency {e e' : Template.Expression} {text text' value : String}
    (hcontext : contextFor s c dependencies = .ok context)
    (hdeclared : name ∈ c.dependencies.keys) (hown : dependencies.get? name = some own)
    (hsorted : own.toJson.sorted = own.toJson)
    (htext : Template.read s.delimiters text = .ok [.expression e])
    (hroot : e.root ≠ "dependencies") (hreach : (reach own.toJson e.path).isSome)
    (hpaths : ToldApart (e.path :: writtenPaths s.delimiters own.toJson))
    (hvalue : (((scope s own).render text).run []).1 = ⟨value, []⟩)
    (hunopened : s.delimiters.opensIn value = false)
    (htext' : Template.read s.delimiters text' = .ok [.expression e'])
    (hpath' : e'.path = "dependencies" :: name :: e.path) :
    (((scope s context).render text').run []).1 = ⟨value, []⟩ := by
  obtain ⟨services, rfl⟩ := exists_of_contextFor hcontext
  have hne := path_ne_nil htext
  obtain ⟨found, hfound⟩ := Option.isSome_iff_exists.mp hreach
  have hdistinct : own.toJson.Distinct := hsorted ▸ Json.distinct_sorted own.toJson
  have hcontextPaths : ToldApart (writtenPaths s.delimiters own.toJson
      ++ writtenPaths s.delimiters own.toJson) := by
    intro p hp q hq
    rw [List.mem_append, or_self] at hp hq
    exact hpaths p (List.mem_cons_of_mem _ hp) q (List.mem_cons_of_mem _ hq)
  have hown' : (dependencies.mapValues fun _ own => (resolve s own).1).get? name
      = some (resolve s own).1 := by
    rw [Dict.get?_mapValues, hown]
    rfl
  have hvalue' : (scope s own).value e = some value := value_of_render htext hpaths hvalue
  obtain ⟨plain, hresolved, hplain, hcases⟩ := Interpolation.exists_reach_resolved
    (s := scope s own) hdistinct hcontextPaths hne hfound hvalue'
  have hdistinct' : (resolve s own).1.toJson.Distinct :=
    Interpolation.distinct_resolved (s := scope s own) hdistinct
  -- The value stays as it is when the consumer's context is put in canonical form.
  have hcanonical : plain.sorted = plain := by
    rcases hcases with rfl | rfl
    · exact Context.sorted_of_reach hsorted hfound
    · rfl
  have hexposed : reach (resolve s own).1.exposed.toJson.sorted e.path = some plain := by
    rw [Context.reach_sorted (Context.distinct_exposed hdistinct'),
      Context.reach_exposed hne hroot, show reach (resolve s own).1.toJson e.path = some plain
      from hresolved, Option.map_some, hcanonical]
  refine render_plain htext' ?_ hplain hunopened
  rw [hpath']
  exact (lookup?_dependency hdeclared hown' e.path).trans (Context.walk_of_reach hexposed)

/-- A component that depends on another one and has a parameter of its own. -/
def webConfig : Config.Component where
  name := "acme/web"
  tag := "latest"
  parameters := .ofList [("host", { default := some (some (.string "web")) })]
  dependencies := .ofList [("db", "latest")]

/-- An address that is put together from a host of the same name. -/
def databaseContext : Context :=
  ⟨[("parameters", .object
    [("host", .string "db"), ("url", .string "$\x7b\x7bparameters.host\x7d\x7d:80")])]⟩

/-- The host in the address is that of the dependency. -/
theorem render_dependency_database : ∃ context,
    contextFor {} webConfig (.ofList [("db", databaseContext)]) = .ok context
      ∧ (((scope {} context).render "$\x7b\x7bdependencies.db.parameters.url\x7d\x7d").run []).1
        = ⟨"db:80", []⟩ := by
  have hok : (contextFor {} webConfig (.ofList [("db", databaseContext)])).map (fun _ => ())
      = .ok () := by
    decide +kernel
  obtain ⟨context, hcontext, -⟩ := ok_of_map_eq_ok hok
  have htext : Template.read {} "$\x7b\x7bparameters.url\x7d\x7d"
      = .ok [.expression ⟨"$\x7b\x7bparameters.url\x7d\x7d".toList, ["parameters", "url"]⟩] := by
    decide +kernel
  have htext' : Template.read {} "$\x7b\x7bdependencies.db.parameters.url\x7d\x7d"
      = .ok [.expression ⟨"$\x7b\x7bdependencies.db.parameters.url\x7d\x7d".toList,
        ["dependencies", "db", "parameters", "url"]⟩] := by
    decide +kernel
  have hvalue :
      (((scope {} databaseContext).render "$\x7b\x7bparameters.url\x7d\x7d").run []).1.text = "db:80"
        ∧ (((scope {} databaseContext).render "$\x7b\x7bparameters.url\x7d\x7d").run []).1.faults
          = [] := by
    decide +kernel
  have hpaths : ToldApart (["parameters", "url"] :: writtenPaths {} databaseContext.toJson) := by
    decide +kernel
  exact ⟨context, hcontext, render_dependency hcontext (by decide) rfl rfl htext (by decide) rfl
    hpaths (congrArg₂ Rendering.mk hvalue.1 hvalue.2) (by decide) htext' rfl⟩

/-- A path that is written with a dot in a key, and leads nowhere, beside one
that leads somewhere. -/
def dottedContext : Context :=
  ⟨[("environment", .object [("x", .object [("y", .string "1")])]),
    ("parameters", .object [("a", .string "$\x7b\x7b parameters.q \x7d\x7d"),
      ("q", .string "$\x7b\x7b environment['x.y'] \x7d\x7d"),
      ("z", .string "$\x7b\x7b environment.x.y \x7d\x7d$\x7b\x7b parameters.q \x7d\x7d")])]⟩

/-- A component that has nothing but its dependency. -/
def consumerConfig : Config.Component where
  name := "acme/c"
  tag := "latest"
  reference := "acme/c:latest"
  dependencies := .ofList [("acme/d", "latest")]

/-- By itself the last parameter takes the value of the other path for both of
its expressions, but resolved after the others it does not. -/
theorem render_dependency_dotted :
    (((scope {} dottedContext).render "$\x7b\x7b parameters.z \x7d\x7d").run []).1.text = "11"
      ∧ ((contextFor {} consumerConfig (.ofList [("acme/d", dottedContext)])).toOption.map
        fun context => (((scope {} context).render
          "$\x7b\x7b dependencies['acme/d'].parameters.z \x7d\x7d").run []).1.text)
          = some "1$\x7b\x7b environment['x.y'] \x7d\x7d" :=
  ⟨by decide +kernel, by decide +kernel⟩

end Compiler

end Manifest

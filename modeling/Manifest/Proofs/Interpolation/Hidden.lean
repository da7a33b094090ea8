import Manifest.Interpolation.Component
import Manifest.Proofs.Context
import Manifest.Proofs.Dict
import Manifest.Proofs.Interpolation.Unresolved
/-!
# What a component does not see

Of other components, a component sees those that it declares, without what they depend
on themselves. Two sets of contexts that differ in nothing else make the same context of it
(`visible_congr`), so that no chain of references tells them apart. A path into what is
hidden leads nowhere (`lookup?_hidden`) and is reported (`hidden_dependencies`).
-/

namespace Manifest

namespace Context

open Config (Component)
open Json (Members)

variable {c : Component} {dependencies dependencies' : Dependencies}

/-- What is declared is seen without what it depends on, and nothing else is seen. -/
theorem visible_congr (h : ∀ name ∈ c.dependencies.keys,
      (dependencies.get? name).map exposed = (dependencies'.get? name).map exposed) :
    visible c dependencies = visible c dependencies' := by
  have hshown (own : Dependencies) : visible c own
      = membersOf (c.dependencies.entries.filterMap fun entry =>
          ((own.get? entry.1).map exposed).map fun context => (entry.1, context.toJson)) := by
    rw [visible, dictJson, Dict.filterMapValues, List.map_filterMap]
    refine congrArg membersOf (List.filterMap_congr fun entry _ => ?_)
    rw [Option.map_map, Option.map_map]
    rfl
  rw [hshown, hshown]
  refine congrArg membersOf (List.filterMap_congr fun entry hentry => ?_)
  rw [h entry.1 (List.mem_map_of_mem hentry)]

/-- The path goes to a dependency that is not declared, or on to the dependencies of
one. -/
def Hidden (c : Component) (path : List String) : Prop :=
  ∃ name rest, path = "dependencies" :: name :: rest
    ∧ (name ∉ c.dependencies.keys ∨ ∃ further, rest = "dependencies" :: further)

theorem lookup?_hidden {maxRefLength : Nat} {mode : Mode} {context : Context}
    (h : ofComponent c dependencies maxRefLength mode = .ok context) {path : List String}
    (hpath : Hidden c path) : context.lookup? path = none := by
  obtain ⟨services, -, rfl⟩ := exists_of_ofComponent h
  obtain ⟨name, rest, rfl, hhidden⟩ := hpath
  rw [lookup?_cons, member?_dependencies, Option.bind_some, walk_cons, visible, child?_dictJson,
    Dict.get?_filterMapValues]
  cases hdeclared : c.dependencies.get? name with
  | none => rfl
  | some tag =>
      rw [Option.bind_some]
      cases dependencies.get? name with
      | none => rfl
      | some own =>
          have hkey : name ∈ c.dependencies.keys := Dict.mem_keys_iff.mpr ⟨tag, hdeclared⟩
          obtain ⟨further, rfl⟩ := hhidden.resolve_left (not_not_intro hkey)
          have hnone : Json.member? "dependencies"
              (Json.sortedMembers [] (Json.removeMember "dependencies" own.members)) = none :=
            Json.member?_sorted_eq_none (Json.member?_removeMember_self ..) rfl
          show walk (.object (Json.sortedMembers []
            (Json.removeMember "dependencies" own.members))) ("dependencies" :: further) = none
          rw [walk_cons, child?, hnone, Option.bind_none]

end Context

namespace Interpolation

open Config (Component)
open Context (Dependencies Hidden exposed)
open Template (Expression written)

/-- Contexts that differ only in what a component does not declare, and in what its
dependencies depend on, interpolate every config alike. At run time, where dependencies
may not be missing, an interpolation that remembers nothing yet fails on every expression
that goes into what is hidden, and reports it as the first expression of any text. In a
whole value it is reported at each of its places, unless a path with the same written
form, in the value or in the context, leads somewhere. -/
theorem hidden_dependencies (c : Component) (dependencies : Dependencies) (maxRefLength : Nat)
    (mode : Mode) (delimiters : Delimiters) (ignored : List String) :
    (∀ dependencies' : Dependencies, (∀ name ∈ c.dependencies.keys,
        (dependencies.get? name).map exposed = (dependencies'.get? name).map exposed) →
      ∀ (mode' : Mode) (config : Component),
        (do
          let context ← Context.ofComponent c dependencies maxRefLength mode
          interpolate ⟨context, delimiters, ignored, mode'⟩ config)
        = (do
          let context ← Context.ofComponent c dependencies' maxRefLength mode
          interpolate ⟨context, delimiters, ignored, mode'⟩ config))
    ∧ ∀ context, Context.ofComponent c dependencies maxRefLength mode = .ok context →
      "dependencies" ∉ ignored → ∀ e : Expression, Hidden c e.path →
        let s : Scope := ⟨context, delimiters, ignored, .runtime⟩
        ((s.evaluate s.fuel [] e).run []).1 = .error (.missing e.dotted)
        ∧ (∀ path text rest, written delimiters text = e :: rest →
          unresolvedAt path e ∈ ((s.renderAt path text).run []).1.2)
        ∧ ∀ path (tree : Json) p text, (p, text) ∈ tree.leaves path → e ∈ written delimiters text →
          LeadsNowhere s (writtenPaths delimiters tree ++ writtenPaths delimiters context.toJson)
            e.dotted →
          unresolvedAt p e ∈ ((s.renderValue path tree).run []).1.2 := by
  constructor
  · intro dependencies' hsame mode' config
    have hcontext : Context.ofComponent c dependencies maxRefLength mode
        = Context.ofComponent c dependencies' maxRefLength mode := by
      rw [Context.ofComponent, Context.ofComponent, Context.visible_congr hsame]
    rw [hcontext]
  · intro context hcontext hignored e hhidden s
    have hunresolved : Unresolved s e := by
      refine ⟨Context.lookup?_hidden hcontext hhidden, ?_⟩
      obtain ⟨name, rest, hpath, -⟩ := hhidden
      simp [Scope.passesThrough, Expression.root, hpath, s, hignored]
    refine ⟨by rw [hunresolved.evaluate rfl], ?_, ?_⟩
    · intro path text rest hfirst
      exact hunresolved.mem_renderAt (hfirst.trans (List.nil_append _).symm) rfl (Or.inl rfl)
    · intro path tree p text hleaf he hname
      exact hunresolved.mem_renderValue hleaf he hname

/-- A component that depends on a database. -/
def reader : Component where
  name := "acme/reader"
  dependencies := .ofList [("acme/db", "latest")]

/-- A database with a parameter, and with what it depends on. -/
def database (own : Json.Members) : Context :=
  ⟨[("dependencies", .object own), ("parameters", .object [("url", .string "db:5432")])]⟩

/-- The key of a disk that the database depends on. -/
def diskKey : String :=
  "$\x7b\x7b dependencies['acme/db'].dependencies['acme/disk'].parameters.key \x7d\x7d"

theorem hidden_dependencies_of_reader :
    let disk : Json := .object [("parameters", .object [("key", .string "secret")])]
    let dependencies : Dependencies :=
      .ofList [("acme/db", database [("acme/disk", disk)]), ("acme/disk", database [])]
    (∀ config : Component,
      (do
        let context ← Context.ofComponent reader dependencies 63 .runtime
        interpolate ⟨context, {}, [], .runtime⟩ config)
      = (do
        let context ← Context.ofComponent reader (.ofList [("acme/db", database [])]) 63 .runtime
        interpolate ⟨context, {}, [], .runtime⟩ config))
    ∧ ∃ context e, Context.ofComponent reader dependencies 63 .runtime = .ok context
      ∧ written {} diskKey = [e]
      ∧ unresolvedAt "services.api.image" e
        ∈ (((⟨context, {}, [], .runtime⟩ : Scope).renderAt "services.api.image" diskKey).run
          []).1.2 := by
  intro disk dependencies
  obtain ⟨hsame, hreported⟩ := hidden_dependencies reader dependencies 63 .runtime {} []
  refine ⟨hsame _ ?_ .runtime, ?_⟩
  · intro name hname
    obtain rfl : name = "acme/db" := List.mem_singleton.mp hname
    rfl
  · obtain ⟨context, hcontext⟩ : ∃ context,
        Context.ofComponent reader dependencies 63 .runtime = .ok context := ⟨_, rfl⟩
    let e : Expression := ⟨diskKey.toList,
      ["dependencies", "acme/db", "dependencies", "acme/disk", "parameters", "key"]⟩
    have hwritten : written {} diskKey = [e] := by decide +kernel
    have hhidden : Hidden reader e.path := ⟨"acme/db", _, rfl, Or.inr ⟨_, rfl⟩⟩
    obtain ⟨-, hfirst, -⟩ := hreported context hcontext List.not_mem_nil e hhidden
    exact ⟨context, e, hcontext, hwritten, hfirst _ _ [] hwritten⟩

end Interpolation

end Manifest

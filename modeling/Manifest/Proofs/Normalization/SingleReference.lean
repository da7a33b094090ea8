import Manifest.Proofs.Compiler.Forwarding
import Manifest.Proofs.Normalization.Problems
import Manifest.Proofs.Template.Single
/-!
# What the shorthand generates

A shorthand is split at its delimiters and `.url`, and its target is copied into the six fields
of the interface; that it is a path of keys is never asked. If the shorthand is one expression
then so is each field, with the name of the field for the last key of the path, and otherwise
none is (`references_passedOn`). Both come down to the target: it has to be spelled as a path,
without a closing delimiter in it (`single_concat_iff`).
-/

namespace Manifest.Normalization

open Context (interfaceFields)
open ReferencePath (IsBare)
open Template (Single Spells)
open UrlShorthand (Matches)

variable {target text key name : String} {path : List String} {spec : Spec.Component}

/-! ## Fields of a target and its shorthand -/

theorem single_field_iff (htarget : ∀ c ∈ target.toList, Text.isBlank c = false)
    (hname : IsBare name) :
    Single (UrlShorthand.field {} target name) path
      ↔ ∃ keys, Spells target.toList keys ∧ path = keys ++ [name] := by
  have hspace : ∀ c ∈ [' '], Text.isBlank c = true := by
    rw [List.forall_mem_singleton]
    decide
  have hfield : UrlShorthand.field {} target name
      = String.ofList (({} : Delimiters).enclose
        ([' '] ++ (target.toList ++ '.' :: name.toList) ++ [' '])) := by
    have hblank : " ".toList = [' '] := String.toList_ofList
    have hperiod : ".".toList = ['.'] := String.toList_ofList
    rw [← String.toList_inj, UrlShorthand.field]
    simp only [Delimiters.enclose, String.toList_append, String.toList_ofList, hblank, hperiod,
      List.cons_append, List.nil_append, List.append_assoc]
  rw [hfield, Template.single_concat_iff hspace hspace htarget hname]

/-- The shorthand itself is the expression for the url of its target. -/
theorem single_trim_iff (h : Matches {} target text) :
    Single (String.ofList (Text.trim text.toList)) path
      ↔ ∃ keys, Spells target.toList keys ∧ path = keys ++ ["url"] := by
  obtain ⟨-, htarget, outer, inner, inner', outer', hblank, htext⟩ := h
  simp only [List.forall_mem_append] at hblank
  obtain ⟨⟨⟨houter, hinner⟩, hinner'⟩, houter'⟩ := hblank
  have hurl : ".url".toList = '.' :: "url".toList := by simp
  have htrim : Text.trim text.toList = ({} : Delimiters).enclose
      (inner ++ (target.toList ++ '.' :: "url".toList) ++ inner') := by
    have hsplit : text.toList = outer ++ ({} : Delimiters).enclose
        (inner ++ (target.toList ++ '.' :: "url".toList) ++ inner') ++ outer' := by
      rw [htext, String.toList_append, hurl, Delimiters.enclose]
      simp only [List.append_assoc]
    rw [hsplit]
    refine Text.trim_edged houter houter' ?_ ?_ ?_
    · rw [Delimiters.enclose, Delimiters.opening_default]
      exact List.cons_ne_nil _ _
    · rw [Delimiters.enclose, Delimiters.opening_default]
      rintro c ⟨⟩
      decide
    · rw [Delimiters.enclose, Delimiters.closing_default,
        List.getLast?_append_of_ne_nil _ (List.cons_ne_nil _ _)]
      rintro c ⟨⟩
      decide
  rw [htrim, Template.single_concat_iff hinner hinner' htarget (by decide)]

/-- A field of a target is one expression if the shorthand is, for the same path but the last
key. -/
theorem single_field_iff_trim (h : Matches {} target text) (hname : IsBare name) :
    Single (UrlShorthand.field {} target name) path
      ↔ ∃ whole, Single (String.ofList (Text.trim text.toList)) whole
        ∧ path = whole.dropLast ++ [name] := by
  simp only [single_field_iff h.2.1 hname, single_trim_iff h]
  constructor
  · rintro ⟨keys, hkeys, rfl⟩
    exact ⟨keys ++ ["url"], ⟨keys, hkeys, rfl⟩, by rw [List.dropLast_concat]⟩
  · rintro ⟨whole, ⟨keys, hkeys, rfl⟩, rfl⟩
    exact ⟨keys, hkeys, by rw [List.dropLast_concat]⟩

/-! ## Interfaces of the component -/

/-- The texts by which an interface is addressed. -/
def addressTexts (i : Config.Interface) : List (String × Option String) :=
  [("host", i.host), ("port", i.port), ("protocol", i.protocol), ("username", i.username),
    ("password", i.password), ("url", i.url)]

theorem addressTexts_passedOn (target : String) :
    addressTexts (passedOn {} target)
      = interfaceFields.map fun name => (name, some (UrlShorthand.field {} target name)) := rfl

theorem url_mem_shorthands (h : spec.interfaces.get? key = some (.value (.string text))) :
    .url key text ∈ shorthands spec := by
  rw [shorthands, List.mem_append, List.mem_flatMap]
  exact Or.inr ⟨_, Dict.get?_eq_some_iff.mp h, List.mem_singleton_self _⟩

/-- What is written for an interface of the component is reported unless it matches the
shorthand. If it does, each of the six texts of the interface is one expression exactly if the
shorthand is, and has its path with the name of the text for the last key. -/
theorem references_passedOn (h : spec.interfaces.get? key = some (.value (.string text))) :
    ((∀ target, ¬ Matches {} target text) → ∃ ds, component {} spec = .error (.invalid ds)
        ∧ ∃ problem ∈ ds, Shorthand.Reports {} (heading spec).reference (.url key text) problem)
      ∧ ∀ target config, Matches {} target text → component {} spec = .ok config →
        ∃ i, config.interfaces.get? key = some i
          ∧ ∀ entry ∈ addressTexts i.interface, ∃ written, entry.2 = some written
            ∧ ∀ path, Single written path
              ↔ ∃ whole, Single (String.ofList (Text.trim text.toList)) whole
                ∧ path = whole.dropLast ++ [entry.1] := by
  constructor
  · intro hnone
    obtain ⟨problem, hproblem, hreports⟩ :=
      (reported_problems {} spec).exists_of_mem (url_mem_shorthands h) hnone
    refine ⟨problems {} spec, ?_, problem, hproblem, hreports⟩
    rw [component_eq, if_neg (List.ne_nil_of_mem hproblem)]
  · intro target config hmatches hok
    obtain ⟨-, rfl⟩ := eq_of_unlessInvalid hok
    refine ⟨_, get?_interfaces_outline h (UrlShorthand.target?_of_matches hmatches), ?_⟩
    rw [addressTexts_passedOn, List.forall_mem_map]
    exact fun name hname => ⟨_, rfl, fun path =>
      single_field_iff_trim hmatches (Context.isBare_interfaceField hname)⟩

/-- A component with one interface. -/
def relay (text : String) : Spec.Component where
  name := "acct/hello"
  interfaces := .ofList [("public", .value (.string text))]

theorem get?_relay (text : String) :
    (relay text).interfaces.get? "public" = some (.value (.string text)) := rfl

def mainUrl : String := "$\x7b\x7b services.api.interfaces.main.url \x7d\x7d"

theorem references_relay : ∃ config i, component {} (relay mainUrl) = .ok config
    ∧ config.interfaces.get? "public" = some i
    ∧ ∀ entry ∈ addressTexts i.interface, ∃ written, entry.2 = some written
      ∧ Single written ["services", "api", "interfaces", "main", entry.1] := by
  have hmatches : Matches {} "services.api.interfaces.main" mainUrl :=
    UrlShorthand.matches_of_target? rfl
  have hok : component {} (relay mainUrl) = .ok (outline {} (relay mainUrl)) := rfl
  have hkeys : Spells "services.api.interfaces.main".toList
      ["services", "api", "interfaces", "main"] := by
    refine ⟨by decide, ⟨"services", [.dotted "api", .dotted "interfaces", .dotted "main"]⟩,
      ⟨by decide, ?_⟩, rfl, rfl⟩
    simp only [List.forall_mem_cons]
    exact ⟨.dotted (by decide), .dotted (by decide), .dotted (by decide), List.forall_mem_nil _⟩
  have hwhole := (single_trim_iff hmatches).mpr ⟨_, hkeys, rfl⟩
  obtain ⟨i, hi, htexts⟩ := (references_passedOn (get?_relay mainUrl)).2 _ _ hmatches hok
  refine ⟨_, i, hok, hi, fun entry hentry => ?_⟩
  obtain ⟨written, hwritten, hsingle⟩ := htexts entry hentry
  exact ⟨written, hwritten, (hsingle _).mpr ⟨_, hwhole, rfl⟩⟩

def twoUrls : String :=
  "$\x7b\x7bservices.api.interfaces.main.url\x7d\x7d"
    ++ "$\x7b\x7bservices.api.interfaces.admin.url\x7d\x7d"

/-- Two expressions in a row match the shorthand, for a target that begins in the one and ends
in the other, and so the texts of the interface are no single expressions. -/
theorem not_single_twoUrls : ∃ config i host, component {} (relay twoUrls) = .ok config
    ∧ config.interfaces.get? "public" = some i ∧ i.interface.host = some host
    ∧ ∀ path, ¬ Single host path := by
  have htarget : UrlShorthand.target? {} twoUrls
      = some ("services.api.interfaces.main.url\x7d\x7d"
        ++ "$\x7b\x7bservices.api.interfaces.admin") := rfl
  have hmatches := UrlShorthand.matches_of_target? htarget
  refine ⟨_, _, _, rfl, get?_interfaces_outline (get?_relay _) htarget, rfl, ?_⟩
  intro path hsingle
  obtain ⟨keys, hspells, -⟩ := (single_field_iff hmatches.2.1 (by decide)).mp hsingle
  exact hspells.1 (by decide)

end Manifest.Normalization

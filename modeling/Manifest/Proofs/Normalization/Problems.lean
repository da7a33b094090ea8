import Manifest.Normalization
import Manifest.Proofs.Dict
import Manifest.Proofs.Normalization.UrlShorthand
import Manifest.Proofs.Outcome
/-!
# Problems of normalising

Two kinds of text in a spec may fail to be spelt out: a command that is one line, and the text
of an interface of the component. These are its shorthands (`shorthands`), in document order.
Normalising reports those that are malformed, each by one diagnostic (`Reported`), and there is
a config exactly if there are none (`component_reports`).

The list of problems is built beside the config, block by block; each lemma here is about one
such part and the shorthands in it, and they are put together by `Reported.append` and
`Reported.flatMap`. A debug block inside of a debug block is in neither list.
-/

namespace Manifest

/-! ## Debug blocks of debug blocks -/

section Shallow

variable {X : Type}

/-- The resource, with no debug block inside of its debug block. -/
def Spec.Resource.shallow (r : Spec.Resource X) : Spec.Resource X where
  body := r.body
  debug := r.debug.map fun debug => { debug with debug := none }

/-- The spec, with no debug block inside of any debug block. -/
def Spec.Component.shallow (c : Spec.Component) : Spec.Component :=
  { c with
    services := c.services.mapValues fun _ s => s.shallow
    tasks := c.tasks.mapValues fun _ t => t.shallow }

end Shallow

namespace Normalization

open PropertyPath (join)

variable {X Y : Type} {d : Delimiters} {reference : String}

/-! ## Shorthands -/

/-- A text that normalising has to spell out, and where it stands. -/
inductive Shorthand where
  /-- A command line, in a block that declares some variables. -/
  | line (path : String) (declared : List String) (text : String)
  /-- An interface of the component. -/
  | url (key text : String)
deriving DecidableEq, Repr

namespace Shorthand

/-- The line does not end, or the text is for the url of nothing. -/
def Malformed (d : Delimiters) : Shorthand → Prop
  | line _ declared text => ∃ fault, Command.words ⟨d, declared⟩ text = .error fault
  | url _ text => ∀ target, ¬ UrlShorthand.Matches d target text

/-- What is reported of a malformed shorthand in the component of a reference. -/
inductive Reports (d : Delimiters) (reference : String) : Shorthand → Diagnostic → Prop where
  | line {path : String} {declared : List String} {text : String} {fault : Command.Fault}
      (h : Command.words ⟨d, declared⟩ text = .error fault) :
      Reports d reference (line path declared text)
        { kind := .schemaValidation
          path
          constraint := "shell-syntax"
          message := fault.message
          value := some text }
  | url {key text : String} (h : ∀ target, ¬ UrlShorthand.Matches d target text) :
      Reports d reference (url key text)
        { kind := .schemaValidation
          path := join "interfaces" key
          constraint := "interface-url"
          message := "Invalid interface url value for '" ++ reference ++ ".interfaces." ++ key
            ++ "'. Expected format: $\x7b\x7b services.<name>.interfaces.<name>.url \x7d\x7d."
          value := some text }

theorem malformed_url_iff {key text : String} :
    (url key text).Malformed d ↔ (UrlShorthand.target? d text).isNone = true := by
  rw [Option.isNone_iff_eq_none, ← Option.not_isSome_iff_eq_none, UrlShorthand.isSome_target?_iff,
    not_exists]
  rfl

theorem malformed_line_iff {path text : String} {declared : List String} :
    (line path declared text).Malformed d
      ↔ (Command.words ⟨d, declared⟩ text).toOption.isNone = true := by
  rw [Malformed]
  cases Command.words ⟨d, declared⟩ text with
  | error fault => exact ⟨fun _ => rfl, fun _ => ⟨fault, rfl⟩⟩
  | ok words => exact ⟨fun ⟨_, h⟩ => (nomatch h), fun h => (nomatch h)⟩

instance (d : Delimiters) : DecidablePred (Malformed d)
  | line _ _ _ => decidable_of_iff _ malformed_line_iff.symm
  | url _ _ => decidable_of_iff _ malformed_url_iff.symm

end Shorthand

/-! ## Document order -/

/-- The line of a command at a path. -/
def lineAt (path : String) (declared : List String) : Option Spec.Command → List Shorthand
  | some (.shell text) => [.line path declared text]
  | _ => []

/-- The lines of a block: its command, its entrypoint and the command of its probe. -/
def bodyLines (probe? : X → Option Spec.Probe) (path : String) (b : Spec.Body X) :
    List Shorthand :=
  lineAt (join path "command") b.environment.keys b.command
    ++ lineAt (join path "entrypoint") b.environment.keys b.entrypoint
    ++ lineAt (join (join path "liveness_probe") "command") b.environment.keys
      ((probe? b.extension).bind Spec.Probe.command)

/-- The lines of a resource, and then those of its debug block. -/
def resourceLines (probe? : X → Option Spec.Probe) (path : String) (r : Spec.Resource X) :
    List Shorthand :=
  bodyLines probe? path r.body
    ++ match r.debug with
      | some debug => bodyLines probe? (join path "debug") debug.body
      | none => []

def urlAt (key : String) : Spec.ComponentInterface → List Shorthand
  | .value (.string text) => [.url key text]
  | _ => []

/-- The shorthands of a spec in document order. Tasks have no probes. -/
def shorthands (c : Spec.Component) : List Shorthand :=
  c.services.entries.flatMap
      (fun entry => resourceLines Spec.ServiceExtension.probe (join "services" entry.1) entry.2)
    ++ c.tasks.entries.flatMap
      (fun entry => resourceLines (fun _ => none) (join "tasks" entry.1) entry.2)
    ++ c.interfaces.entries.flatMap fun entry => urlAt entry.1 entry.2

/-- Of the blocks of a service, the innermost is left out. -/
example :
    let sh (line : String) : Spec.Body Spec.ServiceExtension :=
      { entrypoint := some (.shell line), extension := {} }
    shorthands
        { name := "acme/hello"
          services := .ofList [("api", ⟨sh "a", some ⟨sh "b", some ⟨sh "c", none⟩⟩⟩)]
          interfaces := .ofList [("public", .value (.string "d")), ("admin", .value (.int 80))] }
      = [.line "services.api.entrypoint" [] "a", .line "services.api.debug.entrypoint" [] "b",
        .url "public" "d"] := rfl

/-! ## One diagnostic for each malformed shorthand -/

/-- The diagnostics are those of the malformed shorthands, one for each and in their order. -/
def Reported (d : Delimiters) (reference : String) (ss : List Shorthand)
    (ds : List Diagnostic) : Prop :=
  List.Forall₂ (Shorthand.Reports d reference) (ss.filter fun s => s.Malformed d) ds

variable {ss more : List Shorthand} {ds ds' : List Diagnostic}

theorem Reported.nil : Reported d reference [] [] := List.Forall₂.nil

theorem Reported.append (h : Reported d reference ss ds) (hmore : Reported d reference more ds') :
    Reported d reference (ss ++ more) (ds ++ ds') := by
  rw [Reported, List.filter_append]
  exact List.rel_append h hmore

theorem Reported.flatMap {α : Type} {f : α → List Shorthand} {g : α → List Diagnostic}
    (h : ∀ a, Reported d reference (f a) (g a)) (as : List α) :
    Reported d reference (as.flatMap f) (as.flatMap g) := by
  induction as with
  | nil => exact Reported.nil
  | cons a as ih =>
      rw [List.flatMap_cons, List.flatMap_cons]
      exact (h a).append ih

theorem Reported.malformed {s : Shorthand} {diagnostic : Diagnostic} (hs : s.Malformed d)
    (h : s.Reports d reference diagnostic) : Reported d reference [s] [diagnostic] := by
  rw [Reported, List.filter_cons_of_pos (by simpa using hs)]
  exact List.Forall₂.cons h List.Forall₂.nil

theorem Reported.wellFormed {s : Shorthand} (hs : ¬ s.Malformed d) :
    Reported d reference [s] [] := by
  rw [Reported, List.filter_cons_of_neg (by simpa using hs)]
  exact List.Forall₂.nil

/-- Nothing is reported exactly if no shorthand is malformed. -/
theorem Reported.eq_nil_iff (h : Reported d reference ss ds) :
    ds = [] ↔ ∀ s ∈ ss, ¬ s.Malformed d := by
  rw [← List.length_eq_zero_iff, ← h.length_eq, List.length_eq_zero_iff, List.filter_eq_nil_iff]
  simp only [decide_eq_true_eq]

/-- A malformed shorthand is reported. -/
theorem Reported.exists_of_mem {s : Shorthand} (h : Reported d reference ss ds) (hs : s ∈ ss)
    (hmalformed : s.Malformed d) : ∃ diagnostic ∈ ds, s.Reports d reference diagnostic :=
  exists_of_forall₂ h s (List.mem_filter.mpr ⟨hs, decide_eq_true hmalformed⟩)

/-! ## Commands -/

/-- A fault quotes the line that it is of. -/
theorem line_of_words {dialect : Command.Dialect} {text : String} {fault : Command.Fault}
    (h : Command.words dialect text = .error fault) : fault.line = text := by
  rw [Command.words] at h
  split at h
  · cases h
  · exact congrArg Command.Fault.line (Except.error.inj h).symm

theorem reported_command (path : String) (declared : List String) (c : Option Spec.Command) :
    Reported d reference (lineAt path declared c) (commandProblems ⟨d, declared⟩ path c) := by
  match c with
  | none => exact Reported.nil
  | some (.list args) => exact Reported.nil
  | some (.shell text) =>
      rw [lineAt, commandProblems, Option.map_some, words]
      cases h : Command.words ⟨d, declared⟩ text with
      | ok words =>
          refine Reported.wellFormed fun hmalformed => ?_
          obtain ⟨fault, hfault⟩ := hmalformed
          exact nomatch hfault.symm.trans h
      | error fault =>
          have hline := line_of_words h
          dsimp only
          rw [hline]
          exact Reported.malformed ⟨fault, h⟩ (.line h)

/-! ## Resources -/

/-- The problems of an extension are those of the command of its probe. -/
def ReportsProbe (e : Extension X Y) (probe? : X → Option Spec.Probe) : Prop :=
  ∀ d reference declared path x,
    Reported d reference
      (lineAt (join (join path "liveness_probe") "command") declared
        ((probe? x).bind Spec.Probe.command))
      (e.problems ⟨d, declared⟩ path x)

/-- A probe in which nothing is written has no command either. -/
theorem command_writtenProbe? (x : Spec.ServiceExtension) :
    (writtenProbe? x).bind Spec.Probe.command = x.probe.bind Spec.Probe.command := by
  rw [writtenProbe?]
  cases hprobe : x.probe with
  | none => rfl
  | some p =>
      rw [Option.filter_some]
      split
      · rfl
      · next hempty =>
          obtain rfl : p = {} := by simpa [Spec.Probe.isEmpty] using hempty
          rfl

theorem reportsProbe_service : ReportsProbe service Spec.ServiceExtension.probe := by
  intro d reference declared path x
  rw [← command_writtenProbe?, service]
  dsimp only
  cases writtenProbe? x with
  | none => exact Reported.nil
  | some p => exact reported_command _ declared p.command

theorem reportsProbe_task : ReportsProbe task fun _ => none := fun _ _ _ _ _ => Reported.nil

section Resources

variable {e : Extension X Y} {probe? : X → Option Spec.Probe}

theorem reported_body (he : ReportsProbe e probe?) (path : String) (b : Spec.Body X) :
    Reported d reference (bodyLines probe? path b) (bodyProblems e d path b) :=
  ((reported_command _ _ b.command).append (reported_command _ _ b.entrypoint)).append
    (he d reference b.environment.keys path b.extension)

theorem reported_resource (he : ReportsProbe e probe?) (path : String) (r : Spec.Resource X) :
    Reported d reference (resourceLines probe? path r) (resourceProblems e d path r) := by
  refine (reported_body he path r.body).append ?_
  cases r.debug with
  | none => exact Reported.nil
  | some debug => exact reported_body he (join path "debug") debug.body

end Resources

/-! ## Interfaces of the component -/

theorem reported_interface (key : String) (i : Spec.ComponentInterface) :
    Reported d reference (urlAt key i) (interfaceProblems d reference key i) := by
  match i with
  | .definition definition given => exact Reported.nil
  | .value (.string text) =>
      rw [urlAt, interfaceProblems, badShorthand?]
      cases h : (UrlShorthand.target? d text).isSome with
      | true =>
          refine Reported.wellFormed fun hmalformed => ?_
          obtain ⟨target, htarget⟩ := UrlShorthand.isSome_target?_iff.mp h
          exact hmalformed target htarget
      | false =>
          have hnone : ∀ target, ¬ UrlShorthand.Matches d target text := fun target hmatches =>
            Bool.eq_false_iff.mp h (UrlShorthand.isSome_target?_iff.mpr ⟨target, hmatches⟩)
          exact Reported.malformed hnone (.url hnone)
  | .value (.bool _) => exact Reported.nil
  | .value (.int _) => exact Reported.nil
  | .value (.float _) => exact Reported.nil

/-! ## Components -/

theorem reported_problems (d : Delimiters) (c : Spec.Component) :
    Reported d (heading c).reference (shorthands c) (problems d c) := by
  rw [shorthands, problems]
  refine (Reported.append ?_ ?_).append ?_
  · exact Reported.flatMap (fun _ => reported_resource reportsProbe_service _ _) _
  · exact Reported.flatMap (fun _ => reported_resource reportsProbe_task _ _) _
  · exact Reported.flatMap (fun _ => reported_interface _ _) _

/-- What debugs a debug block is not looked at. -/
theorem resourceProblems_shallow (e : Extension X Y) (path : String) (r : Spec.Resource X) :
    resourceProblems e d path r.shallow = resourceProblems e d path r := by
  obtain ⟨b, debug⟩ := r
  cases debug <;> rfl

theorem resource_shallow (e : Extension X Y) (i : Config.Identity) (r : Spec.Resource X) :
    resource e d i r.shallow = resource e d i r := by
  obtain ⟨b, debug⟩ := r
  cases debug <;> rfl

theorem component_shallow (d : Delimiters) (c : Spec.Component) :
    component d c.shallow = component d c := by
  have hproblems : problems d c.shallow = problems d c := by
    simp only [problems, Spec.Component.shallow, Dict.mapValues, List.flatMap_map,
      resourceProblems_shallow]
    rfl
  have houtline : outline d c.shallow = outline d c := by
    simp only [outline, Spec.Component.shallow, Dict.mapValues_mapValues, resource_shallow]
    rfl
  rw [component, component, hproblems, houtline]

theorem component_eq (d : Delimiters) (c : Spec.Component) : component d c
    = if problems d c = [] then .ok (outline d c) else .error (.invalid (problems d c)) := by
  rw [component, unlessInvalid]
  simp only [List.isEmpty_iff]

/-- Normalising reports every malformed shorthand of the spec, and nothing else: one diagnostic
for each, in document order. There is a config exactly if no shorthand is malformed. What a
debug block holds in its own debug block does not count. -/
theorem component_reports (d : Delimiters) (c : Spec.Component) :
    (∃ ds, Reported d (heading c).reference (shorthands c) ds
        ∧ component d c = if ds = [] then .ok (outline d c) else .error (.invalid ds))
      ∧ ((∃ config, component d c = .ok config) ↔ ∀ s ∈ shorthands c, ¬ s.Malformed d)
      ∧ component d c.shallow = component d c := by
  have hreported := reported_problems d c
  refine ⟨⟨_, hreported, component_eq d c⟩, ?_, component_shallow d c⟩
  rw [← hreported.eq_nil_iff, component_eq]
  constructor
  · rintro ⟨config, hok⟩
    by_contra hne
    rw [if_neg hne] at hok
    cases hok
  · intro hnil
    exact ⟨_, if_pos hnil⟩

end Normalization

end Manifest

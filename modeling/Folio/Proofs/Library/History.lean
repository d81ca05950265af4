import Folio.Library.Directory
import Folio.Proofs.Analysis.Inclusion

/-! Histories of libraries. Whatever templates and directories were added before, and whether that went through or not,
a name stands for one text for good, which either parses and is a template or does not and is kept with its error. So
those who ask a library for texts and those who ask it for templates see the same. -/
namespace Folio

open Template (include?)

/-! ### Surveys that come to a text that does not parse -/

namespace Survey

variable {ns : Namespace} {loader : Loader} {name text : String} {fault : ParseError}

/-- A search that asks for a text which does not parse ends there. -/
theorem Search.outcome_eq {waiting : List Inclusion} {requested found : List String} {s : Survey}
    (h : Search ns loader waiting requested found s) (load : loader.load name = .ok (some text))
    (parse : Template.parse text = .error fault) (fresh : name ∉ requested) (asked : name ∈ s.requested) :
    s.outcome = .error (.parse name fault) := by
  have fresh_concat {requested : List String} {other : String} (fresh : name ∉ requested) (ne : other ≠ name) :
      name ∉ requested ++ [other] := by
    simp [fresh, Ne.symm ne]
  induction h with
  | done => exact absurd asked fresh
  | seen _ _ ih => exact ih fresh asked
  | optional _ absent _ _ ih | absent _ absent _ _ ih =>
    exact ih (fresh_concat fresh fun e => by rw [e, load] at absent; cases absent) asked
  | unreadable _ failed _ ih => exact ih (fresh_concat fresh fun e => by rw [e, load] at failed; cases failed) asked
  | malformed _ loaded malformed =>
    obtain rfl : name = _ := by simpa [fresh] using asked
    obtain rfl := Option.some.inj (Except.ok.inj (load.symm.trans loaded))
    rw [Except.error.inj (parse.symm.trans malformed)]
  | stopped _ loaded parsed _ ih =>
    refine ih (fresh_concat fresh ?_) asked
    rintro rfl
    obtain rfl := Option.some.inj (Except.ok.inj (load.symm.trans loaded))
    cases parse.symm.trans parsed
  | @entered _ _ _ _ inside _ _ _ _ _ loaded parsed _ _ ih ih' =>
    by_cases met : name ∈ inside
    · have stopped := ih (fresh_concat fresh ?_) met
      · cases stopped
      rintro rfl
      obtain rfl := Option.some.inj (Except.ok.inj (load.symm.trans loaded))
      cases parse.symm.trans parsed
    · exact ih' met asked

theorem run_outcome_eq (finite : loader.IsFinite) (load : loader.load name = .ok (some text))
    (parse : Template.parse text = .error fault) {source : String} (asked : name ∈ (run source ns loader).requested) :
    (run source ns loader).outcome = .error (.parse name fault) := by
  have search : DepthFirst ns loader source (run source ns loader) := depthFirst_run source finite
  generalize run source ns loader = s at search asked
  cases search with
  | malformed => cases asked
  | searched _ search =>
    rw [search.outcome_eq load parse List.not_mem_nil asked]
    rfl

end Survey

namespace Library

/-! ### What is kept under a name -/

def rejected? (library : Library) (name : String) : Option Rejected :=
  Fields.find? name library.rejected

variable {library before after : Library} {name source : String}

theorem contains_eq_false_iff :
    library.contains name = false ↔ library.get? name = none ∧ library.rejected? name = none := by
  rw [contains, Bool.or_eq_false_iff, Option.isSome_eq_false_iff, Option.isSome_eq_false_iff, Option.isNone_iff_eq_none,
    Option.isNone_iff_eq_none]
  rfl

theorem source?_eq (library : Library) (name : String) : library.source? name =
    ((library.get? name).map (·.source)).or ((library.rejected? name).map (·.source)) := by
  rw [source?]
  cases library.get? name <;> rfl

theorem source?_eq_none_iff : library.source? name = none ↔ library.contains name = false := by
  rw [source?_eq, Option.or_eq_none_iff, Option.map_eq_none_iff, Option.map_eq_none_iff, contains_eq_false_iff]

theorem template?_eq (library : Library) (name : String) : library.template? name =
    match library.get? name, library.rejected? name with
    | some template, _ => .ok (some template)
    | none, some rejected => .error (.parse name rejected.error)
    | none, none => .ok none := rfl

/-- No name has both a template and a rejected text. Templates have the names they are found under and parse to their
nodes, and rejected texts fail to parse with their errors. -/
structure IsConsistent (library : Library) : Prop where
  apart : ∀ name, library.get? name = none ∨ library.rejected? name = none
  parses : ∀ name template, library.get? name = some template →
    template.name = name ∧ Template.parse template.source = .ok template.nodes
  rejects : ∀ name rejected, library.rejected? name = some rejected →
    Template.parse rejected.source = .error rejected.error

/-- What is kept under a name that was taken before is still kept under it. -/
structure Extends (before after : Library) : Prop where
  get?_eq : ∀ name, before.contains name = true → after.get? name = before.get? name
  rejected?_eq : ∀ name, before.contains name = true → after.rejected? name = before.rejected? name

theorem Extends.refl (library : Library) : library.Extends library :=
  ⟨fun _ _ => rfl, fun _ _ => rfl⟩

theorem Extends.contains (h : before.Extends after) (taken : before.contains name = true) :
    after.contains name = true := by
  have same : after.contains name = before.contains name := by
    change ((after.get? name).isSome || (after.rejected? name).isSome) = _
    rw [h.get?_eq name taken, h.rejected?_eq name taken]
    rfl
  rw [same, taken]

theorem Extends.trans {between : Library} (h : before.Extends between) (h' : between.Extends after) :
    before.Extends after where
  get?_eq name taken := (h'.get?_eq name (h.contains taken)).trans (h.get?_eq name taken)
  rejected?_eq name taken := (h'.rejected?_eq name (h.contains taken)).trans (h.rejected?_eq name taken)

theorem Extends.source?_eq (h : before.Extends after) (kept : before.source? name = some source) :
    after.source? name = some source := by
  have taken : before.contains name = true := by
    refine (Bool.eq_false_or_eq_true _).resolve_right fun free => ?_
    rw [source?_eq_none_iff.2 free] at kept
    cases kept
  rw [Library.source?_eq, h.get?_eq name taken, h.rejected?_eq name taken, ← Library.source?_eq, kept]

/-- The library becomes one that keeps all that was kept, and stays consistent. -/
structure Grows (before after : Library) : Prop where
  extended : before.Extends after
  consistent : before.IsConsistent → after.IsConsistent

theorem Grows.refl (library : Library) : library.Grows library :=
  ⟨.refl library, id⟩

theorem Grows.trans {between : Library} (h : before.Grows between) (h' : between.Grows after) : before.Grows after :=
  ⟨h.extended.trans h'.extended, h'.consistent ∘ h.consistent⟩

/-! ### One text more -/

/-- A template is stored under its name, which was free. -/
theorem grows_of_template {template : Template} (free : library.contains template.name = false) :
    library.Grows { library with templates := Fields.put template.name template library.templates } := by
  obtain ⟨-, unrejected⟩ := contains_eq_false_iff.1 free
  have found (name : String) :
      get? { library with templates := Fields.put template.name template library.templates } name =
        if name = template.name then some template else library.get? name := Fields.find?_put ..
  refine ⟨⟨fun name taken => ?_, fun _ _ => rfl⟩, fun h => ⟨fun name => ?_, fun name stored kept => ?_, h.rejects⟩⟩
  · rw [found, if_neg]
    rintro rfl
    rw [free] at taken
    cases taken
  · rw [found]
    split
    · rename_i e
      exact .inr (e ▸ unrejected)
    · exact h.apart name
  · rw [found] at kept
    split at kept
    · rename_i e
      cases kept
      exact ⟨e.symm, template.parsed⟩
    · exact h.parses name stored kept

/-- A text that does not parse is put aside under a name that was free. -/
theorem grows_of_rejected {error : ParseError} (free : library.contains name = false)
    (parse : Template.parse source = .error error) :
    library.Grows { library with rejected := Fields.put name ⟨source, error⟩ library.rejected } := by
  obtain ⟨missing, -⟩ := contains_eq_false_iff.1 free
  have found (other : String) :
      rejected? { library with rejected := Fields.put name ⟨source, error⟩ library.rejected } other =
        if other = name then some ⟨source, error⟩ else library.rejected? other := Fields.find?_put ..
  refine ⟨⟨fun _ _ => rfl, fun other taken => ?_⟩, fun h => ⟨fun other => ?_, h.parses, fun other rejected kept => ?_⟩⟩
  · rw [found, if_neg]
    rintro rfl
    rw [free] at taken
    cases taken
  · rw [found]
    split
    · rename_i e
      exact .inl (e ▸ missing)
    · exact h.apart other
  · rw [found] at kept
    split at kept
    · cases kept
      exact parse
    · exact h.rejects other rejected kept

/-! ### Commands -/

/-- What is done to a library. Files come in any order. -/
inductive Command where
  | add (name source : String)
  | addFiles (files : List (String × ByteArray))
  | addDirectory (files : FileTree) (path : String)

/-- The library after a command, and whether the command went through. -/
def Command.run (library : Library) : Command → Library × Except Error Unit
  | .add name source =>
    match library.add name source with
    | .ok added => (added, .ok ())
    | .error error => (library, .error error)
  | .addFiles files => (library.addFiles files).map id (·.map fun _ => ())
  | .addDirectory files path => (library.addDirectory files path).map id (·.map fun _ => ())

def run (library : Library) (commands : List Command) : Library :=
  commands.foldl (fun library command => (command.run library).1) library

/-- Reading a template succeeds with the template of this name and source, if there is one. -/
theorem read_eq_ok_iff {template : Template} :
    Template.read name source = .ok template ↔ template.name = name ∧ template.source = source := by
  rw [Template.read]
  split
  · rename_i nodes parsed
    constructor
    · intro e
      cases e
      exact ⟨rfl, rfl⟩
    · rintro ⟨rfl, rfl⟩
      obtain rfl : nodes = template.nodes := Except.ok.inj (parsed.symm.trans template.parsed)
      rfl
  · rename_i error failed
    constructor
    · intro e
      cases e
    · rintro ⟨-, rfl⟩
      cases failed.symm.trans template.parsed

/-- A template is added if its name is free and its text parses, and nothing else is. -/
theorem add_eq_ok_iff : library.add name source = .ok after ↔ library.contains name = false ∧
    ∃ template : Template, template.name = name ∧ template.source = source ∧
      after = { library with templates := Fields.put name template library.templates } := by
  rw [add]
  split
  · rename_i taken
    simp [taken]
  · rename_i free
    cases read : Template.read name source with
    | ok template =>
      have named := read_eq_ok_iff.1 read
      simp only [Bool.eq_false_iff.2 free, Except.ok.injEq, true_and]
      constructor
      · rintro rfl
        exact ⟨template, named.1, named.2, rfl⟩
      · rintro ⟨template', named', sourced', rfl⟩
        obtain rfl := Except.ok.inj ((read_eq_ok_iff.2 ⟨named', sourced'⟩).symm.trans read)
        rfl
    | error error =>
      constructor
      · intro e
        cases e
      · rintro ⟨-, template, named, sourced, -⟩
        cases read.symm.trans (read_eq_ok_iff.2 ⟨named, sourced⟩)

theorem addOrReject_cases {parses : Bool} (h : library.addOrReject name source = .ok (after, parses)) :
    library.contains name = false ∧
      ((∃ template : Template, template.name = name ∧ template.source = source ∧
        after = { library with templates := Fields.put name template library.templates }) ∨
      ∃ error, Template.parse source = .error error ∧
        after = { library with rejected := Fields.put name ⟨source, error⟩ library.rejected }) := by
  rw [addOrReject] at h
  split at h
  · cases h
  · rename_i free
    refine ⟨Bool.eq_false_iff.2 free, ?_⟩
    split at h
    · rename_i nodes parsed
      cases h
      exact .inl ⟨⟨name, source, nodes, parsed⟩, rfl, rfl, rfl⟩
    · rename_i error parsed
      cases h
      exact .inr ⟨error, parsed, rfl⟩

/-- A template goes in exactly if there is no text under its name yet and its text parses. Then that text is found, and
otherwise the library stays as it is. -/
theorem Command.run_add (library : Library) (name source : String) :
    let (after, result) := (add name source).run library
    (result = .ok () ↔ library.source? name = none ∧ ∃ nodes, Template.parse source = .ok nodes) ∧
      (result = .ok () → after.source? name = some source) ∧ ∀ error, result = .error error → after = library := by
  rw [run]
  cases added : library.add name source with
  | ok after =>
    obtain ⟨free, template, rfl, rfl, rfl⟩ := add_eq_ok_iff.1 added
    refine ⟨⟨fun _ => ⟨source?_eq_none_iff.2 free, template.nodes, template.parsed⟩, fun _ => rfl⟩, fun _ => ?_, ?_⟩
    · rw [source?, get?, Fields.find?_put_self]
    · intro error e
      cases e
  | error error =>
    refine ⟨⟨fun e => (by cases e), ?_⟩, fun e => (by cases e), fun _ _ => rfl⟩
    rintro ⟨free, nodes, parsed⟩
    cases added.symm.trans (add_eq_ok_iff.2 ⟨source?_eq_none_iff.1 free, ⟨name, source, nodes, parsed⟩, rfl, rfl, rfl⟩)

theorem grows_addFiles (files : List (String × ByteArray)) : library.Grows (library.addFiles files).1 := by
  induction files generalizing library with
  | nil => exact .refl library
  | cons file files ih =>
    obtain ⟨name, bytes⟩ := file
    rw [addFiles]
    split
    · exact .refl library
    · rename_i source _
      split
      · exact .refl library
      · rename_i added parses taken
        refine Grows.trans ?_ ih
        obtain ⟨free, ⟨template, rfl, -, rfl⟩ | ⟨error, parse, rfl⟩⟩ := addOrReject_cases taken
        · exact grows_of_template free
        · exact grows_of_rejected free parse

theorem grows_addDirectory (files : FileTree) (path : String) : library.Grows (library.addDirectory files path).1 := by
  rw [addDirectory]
  split
  · exact .refl library
  · exact grows_addFiles _

/-- Whatever a command does, and whether or not it goes through, the library only grows. -/
theorem Command.grows (command : Command) : library.Grows (command.run library).1 := by
  cases command with
  | add name source =>
    rw [Command.run]
    split
    · rename_i added
      obtain ⟨free, template, rfl, -, rfl⟩ := add_eq_ok_iff.1 added
      exact grows_of_template free
    · exact .refl library
  | addFiles files => exact grows_addFiles files
  | addDirectory files path => exact grows_addDirectory files path

theorem grows_run (commands : List Command) : library.Grows (library.run commands) := by
  induction commands generalizing library with
  | nil => exact .refl library
  | cons command commands ih => exact command.grows.trans ih

theorem isConsistent_empty (locale : Locale) : IsConsistent { empty with locale } :=
  ⟨fun _ => .inl rfl, fun _ _ kept => (by cases kept), fun _ _ kept => (by cases kept)⟩

/-! ### Those who ask -/

/-- A text is there for a name if those who ask for its template do not hear that there is none. -/
theorem exists_load_iff :
    (∃ text, library.loader.load name = .ok (some text)) ↔ library.setting.template? name ≠ .ok none := by
  change (∃ text, Except.ok (library.source? name) = .ok (some text)) ↔ library.template? name ≠ .ok none
  rw [source?_eq, template?_eq]
  cases library.get? name with
  | some template => simp
  | none => cases library.rejected? name <;> simp

variable {rejected : Rejected}

namespace IsConsistent

variable (h : library.IsConsistent) (kept : library.rejected? name = some rejected)
include h kept

theorem get?_eq_none : library.get? name = none :=
  (h.apart name).resolve_right (by rw [kept]; exact Option.some_ne_none _)

theorem template?_eq_error : library.setting.template? name = .error (.parse name rejected.error) := by
  change library.template? name = _
  rw [template?_eq, h.get?_eq_none kept, kept]

theorem load_eq : library.loader.load name = .ok (some rejected.source) := by
  change Except.ok (library.source? name) = _
  rw [source?_eq, h.get?_eq_none kept, kept]
  rfl

theorem require_eq_error : library.require name = .error (.parse name rejected.error) := by
  rw [require, Template.require, h.template?_eq_error kept]
  rfl

theorem include?_eq_error (jumps : Template.Jumps) (place : Template.Place) (ignoreMissing withContext : Bool)
    (context : Template.Context) :
    include? library.setting jumps place name ignoreMissing withContext context =
      (.error (.parse name rejected.error), context) := by
  rw [include?, h.template?_eq_error kept]
  rfl

end IsConsistent

/-- Whatever was added to a library before, it is consistent, a name keeps its text, a template that cannot be added
changes nothing, and there is a text under a name exactly if those who ask for the template do not hear that there is
none. A rejected text fails with its own error whether it is rendered, surveyed, or come to by a survey or a rendering
of another text. -/
theorem consistency_run (locale : Locale) (commands : List Command) :
    let library := run { empty with locale } commands
    library.IsConsistent ∧
    (∀ more name source, library.source? name = some source → (library.run more).source? name = some source) ∧
    (∀ name source, let (after, result) := (Command.add name source).run library
      (result = .ok () ↔ library.source? name = none ∧ ∃ nodes, Template.parse source = .ok nodes) ∧
      (result = .ok () → after.source? name = some source) ∧ ∀ error, result = .error error → after = library) ∧
    (∀ name, (∃ text, library.loader.load name = .ok (some text)) ↔ library.setting.template? name ≠ .ok none) ∧
    ∀ name rejected, library.rejected? name = some rejected →
      let error : RenderError := .parse name rejected.error
      (∀ globals, library.render name globals = .error error ∧ library.missing name globals = .error error) ∧
      (∀ source ns, name ∈ (Survey.run source ns library.loader).requested →
        (Survey.run source ns library.loader).outcome = .error error) ∧
      ∀ jumps place ignoreMissing withContext context,
        (include? library.setting jumps place name ignoreMissing withContext context).1 = .error error := by
  intro library
  have consistent : library.IsConsistent := (grows_run commands).consistent (isConsistent_empty locale)
  refine ⟨consistent, fun more name source kept => (grows_run more).extended.source?_eq kept,
    fun name source => Command.run_add library name source, fun _ => exists_load_iff,
    fun name rejected kept => ⟨fun globals => ⟨?_, ?_⟩, fun source ns asked => ?_, ?_⟩⟩
  · rw [render, consistent.require_eq_error kept]
    rfl
  · rw [missing, consistent.require_eq_error kept]
    rfl
  · exact Survey.run_outcome_eq (isFinite_loader library) (consistent.load_eq kept)
      (consistent.rejects name rejected kept) asked
  · intro jumps place ignoreMissing withContext context
    rw [consistent.include?_eq_error kept]

/-- A directory has a card that does not parse. A better one cannot take its name, and a menu that includes the card
cannot be surveyed. -/
theorem consistency_run_of_card :
    let commands : List Command :=
      [.addFiles [("card", "\x7b% if %\x7d".toUTF8), ("menu", "\x7b% include 'card' %\x7d".toUTF8)],
        .add "card" "\x7b\x7b dish \x7d\x7d"]
    let library := run { empty with locale := .english } commands
    ∃ rejected, library.rejected? "card" = some rejected ∧ rejected.source = "\x7b% if %\x7d" ∧
      library.render "card" .empty = .error (.parse "card" rejected.error) ∧
      (Survey.run "\x7b% include 'card' %\x7d" .empty library.loader).outcome = .error (.parse "card" rejected.error) := by
  intro commands library
  have isSome : (library.rejected? "card").isSome = true := by decide +kernel
  obtain ⟨rejected, kept⟩ := Option.isSome_iff_exists.1 isSome
  have source_eq : (library.rejected? "card").map (·.source) = some "\x7b% if %\x7d" := by decide +kernel
  rw [kept] at source_eq
  obtain ⟨-, -, -, -, fails⟩ := consistency_run .english commands
  obtain ⟨rendered, surveyed, -⟩ := fails "card" rejected kept
  exact ⟨rejected, kept, Option.some.inj source_eq, (rendered .empty).1, surveyed _ _ (by decide +kernel)⟩

end Library

end Folio

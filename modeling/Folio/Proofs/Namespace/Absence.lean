import Folio.Analysis.Placeholder
import Folio.Proofs.Namespace.Path
import Folio.Proofs.Template.Hygiene

/-! A variable that is undefined is as good as none. Namespaces that give every name the same value, `undefined` where
they have none, lead to the same behind every path, so that no text, no survey and no placeholder tells them apart. -/
namespace Folio

open Template (Setting)

theorem Fields.sorted_erase {α : Type} {fields : List (String × α)} (h : Sorted fields) (key : String) :
    Sorted (erase key fields) :=
  h.filter _

namespace Namespace

/-- The namespace without a variable. -/
def erase (ns : Namespace) (name : String) : Namespace :=
  ⟨Fields.erase name ns.fields, Fields.sorted_erase ns.sorted name⟩

theorem get?_erase (ns : Namespace) (name other : String) :
    (ns.erase name).get? other = if other = name then none else ns.get? other :=
  Fields.find?_erase ..

/-- The namespaces give every name the same value, `undefined` where they have none. -/
def Resembles (ns other : Namespace) : Prop :=
  ∀ name, (ns.get? name).getD .undefined = (other.get? name).getD .undefined

theorem resembles_insert_erase (ns : Namespace) (name : String) :
    (ns.insert name .undefined).Resembles (ns.erase name) := by
  intro other
  rw [get?_insert, get?_erase]
  split
  · rfl
  · rfl

namespace Resembles

variable {ns other : Namespace}

section Paths

variable (h : ns.Resembles other)
include h

theorem getD_at? (path : String) : (ns.at? path).getD .undefined = (other.at? path).getD .undefined := by
  obtain ⟨name, rest, hp⟩ := List.exists_cons_of_ne_nil (segments_ne_nil path)
  rw [getD_at?_of_segments ns hp, getD_at?_of_segments other hp, h name]

theorem hasValueAt_eq (path : String) : ns.hasValueAt path = other.hasValueAt path := by
  rw [ns.hasValueAt_eq, other.hasValueAt_eq, h.getD_at? path]

end Paths

/-! ### Expressions -/

section Expressions

open Folio.Expr

theorem known?_eq (h : ns.Resembles other) (locals : List String) : ∀ e : Expr,
    e.known? ns locals = e.known? other locals
  | .var name => by rw [known?, known?, h.getD_at? name]
  | .lookup base key => by
    rw [known?, known?, h.known?_eq locals base, h.known?_eq locals key]
    simp only [h.getD_at?]
  | .and left right | .or left right => by rw [known?, known?, h.known?_eq locals left, h.known?_eq locals right]
  | .not inner => by rw [known?, known?, h.known?_eq locals inner]
  | .isDefined target => by
    rw [known?, known?, h.known?_eq locals target]
    simp only [h.hasValueAt_eq]
  | .literal _ | .filter .. | .compare .. | .binary .. | .neg _ | .call .. | .test .. | .list _ | .dict _
  | .inlineIf .. => rfl

theorem missingPath_eq (h : ns.Resembles other) (locals : List String) (e : Expr) :
    e.missingPath ns locals = e.missingPath other locals := by
  rw [missingPath, missingPath]
  simp only [h.hasValueAt_eq]

mutual

theorem missing_eq (h : ns.Resembles other) (locals : List String) : ∀ e : Expr,
    e.missing ns locals = e.missing other locals
  | .literal _ => rfl
  | .var name => by rw [missing, missing, h.missingPath_eq locals]
  | .lookup base key => by
    rw [missing, missing, h.missingPath_eq locals, h.missing_eq locals base, h.missing_eq locals key]
  | .and left right | .or left right | .compare _ left right | .binary _ left right => by
    rw [missing, missing, h.missing_eq locals left, h.missing_eq locals right]
  | .not inner | .isDefined inner | .neg inner => by rw [missing, missing, h.missing_eq locals inner]
  | .filter name target args | .test name target args _ => by
    rw [missing, missing, h.missing_eq locals target, h.missingAll_eq locals args]
  | .call callee args => by rw [missing, missing, h.missing_eq locals callee, h.missingAll_eq locals args]
  | .list items => by rw [missing, missing, h.missingAll_eq locals items]
  | .dict entries => by rw [missing, missing, h.missingEntries_eq locals entries]
  | .inlineIf value condition otherwise => by
    rw [missing, missing, h.missing_eq locals value, h.missing_eq locals condition,
      h.missingOption_eq locals otherwise]

theorem missingAll_eq (h : ns.Resembles other) (locals : List String) : ∀ es : List Expr,
    missingAll ns locals es = missingAll other locals es
  | [] => rfl
  | e :: es => by rw [missingAll, missingAll, h.missing_eq locals e, h.missingAll_eq locals es]

theorem missingEntries_eq (h : ns.Resembles other) (locals : List String) : ∀ entries : List (Expr × Expr),
    missingEntries ns locals entries = missingEntries other locals entries
  | [] => rfl
  | (key, value) :: entries => by
    rw [missingEntries, missingEntries, h.missing_eq locals key, h.missing_eq locals value,
      h.missingEntries_eq locals entries]

theorem missingOption_eq (h : ns.Resembles other) (locals : List String) : ∀ e : Option Expr,
    missingOption ns locals e = missingOption other locals e
  | none => rfl
  | some e => by rw [missingOption, missingOption, h.missing_eq locals e]

end

end Expressions

/-! ### Templates -/

section Nodes

open Node

mutual

theorem walk_eq (h : ns.Resembles other) : ∀ (node : Node) (locals : List String),
    node.walk ns locals = node.walk other locals
  | .text _, _ | .assign .., _ | .extend _, _ | .importAs .., _ | .importFrom .., _ => rfl
  | .output e, locals => by rw [walk, walk, h.missing_eq locals e]
  | .branch arms otherwise, locals => by
    rw [walk, walk]
    exact h.walkArms_eq arms locals fun locals => h.walkOption_eq otherwise locals
  | .inclusion name ignoreMissing withContext, locals => by
    rw [walk, walk, Expr.knownText?, Expr.knownText?, h.known?_eq locals name]
  | .block _ body, locals => by rw [walk, walk, h.walkAll_eq body]
  | .loop targets _ body otherwise, locals => by rw [walk, walk, h.walkAll_eq body, h.walkOption_eq otherwise]
  | .define name params body, locals | .callBlock params name body, locals | .filterBlock name params body, locals => by
    rw [walk, walk, argumentFindings, argumentFindings, h.missingAll_eq locals, h.walkAll_eq body]

theorem walkAll_eq (h : ns.Resembles other) : ∀ (nodes : List Node) (locals : List String),
    walkAll ns locals nodes = walkAll other locals nodes
  | [], _ => rfl
  | node :: nodes, locals => by
    rw [walkAll, walkAll, h.walk_eq node]
    simp only [h.walkAll_eq nodes]

theorem walkArms_eq (h : ns.Resembles other) : ∀ (arms : List (Expr × List Node)) (locals : List String)
    {otherwise otherwise' : List String → Findings × List String},
    (∀ locals, otherwise locals = otherwise' locals) →
    walkArms ns locals arms otherwise = walkArms other locals arms otherwise'
  | [], locals, _, _, same => same locals
  | (condition, body) :: arms, locals, _, _, same => by
    rw [walkArms, walkArms, Expr.truth, Expr.truth, h.known?_eq locals condition, h.walkAll_eq body]
    simp only [h.walkArms_eq arms _ same]

theorem walkOption_eq (h : ns.Resembles other) : ∀ (body : Option (List Node)) (locals : List String),
    walkOption ns locals body = walkOption other locals body
  | none, _ => rfl
  | some body, locals => h.walkAll_eq body locals

end

end Nodes

section Observers

open Template (Terms Context document maxJumps)

variable (h : ns.Resembles other)
include h

theorem followWith_eq (loader : Loader) {goOn goOn' : List String → List String → List Inclusion → Survey}
    (same : ∀ requested found waiting, goOn requested found waiting = goOn' requested found waiting)
    (requested found : List String) (waiting : List Inclusion) :
    Survey.followWith ns loader goOn requested found waiting =
      Survey.followWith other loader goOn' requested found waiting := by
  induction waiting generalizing requested found with
  | nil => rfl
  | cons next waiting ih =>
    rw [Survey.followWith, Survey.followWith]
    simp only [ih, same, h.walkAll_eq]

theorem follow_eq (loader : Loader) (budget : Nat) (requested found : List String) (waiting : List Inclusion) :
    Survey.follow ns loader budget requested found waiting =
      Survey.follow other loader budget requested found waiting := by
  induction budget generalizing requested found waiting with
  | zero => exact h.followWith_eq loader (fun _ _ _ => rfl) requested found waiting
  | succ budget ih => exact h.followWith_eq loader ih requested found waiting

/-- Surveys of the namespaces ask for the same templates, find the same to be missing and fail in the same way. -/
theorem run_eq (source : String) (loader : Loader) : Survey.run source ns loader = Survey.run source other loader := by
  rw [Survey.run, Survey.run]
  simp only [h.walkAll_eq, h.follow_eq]

/-- Every template comes to the same from the namespaces, or fails in the same way. -/
theorem render_eq (setting : Setting) (template : Template) :
    template.render setting ns = template.render setting other := by
  let terms : Terms := .ending (fun _ => False) fun _ => False
  have covers : terms.Covers setting := Terms.covers_ending _ _ setting
  have alike : terms.Alike 0 (.ofNamespace ns) (.ofNamespace other) :=
    ⟨⟨h, fun _ => .inl rfl, nofun⟩, .same trivial nofun⟩
  have follows : terms.Follows 0 (document setting (.within setting maxJumps) template 0 0)
      (document setting (.within setting maxJumps) template 0 0) :=
    Terms.follows_document covers (covers.keep_within maxJumps (.inl rfl)) (fun _ _ _ _ => trivial)
      (.inl rfl) (.inl rfl)
  exact (follows.agree alike).eq (fun _ _ => id) fun _ _ => id

end Observers

end Resembles

/-- A variable that is undefined cannot be told from one that is absent, though the namespaces are not the same: texts
of templates, surveys with their requests, and placeholders without a value are the same, failures included. -/
theorem undefined_unobservable (ns : Namespace) (name : String) :
    let bound := ns.insert name .undefined
    let absent := ns.erase name
    (bound.get? name = some .undefined ∧ absent.get? name = none ∧
      ∀ other ≠ name, bound.get? other = ns.get? other ∧ absent.get? other = ns.get? other) ∧
    (∀ (setting : Setting) (template : Template), template.render setting bound = template.render setting absent) ∧
    (∀ (source : String) (locale : Locale),
      Template.renderText source bound locale = Template.renderText source absent locale) ∧
    (∀ (library : Library) (name source : String), library.render name bound = library.render name absent ∧
      library.renderText source bound = library.renderText source absent ∧
      library.missing name bound = library.missing name absent) ∧
    (∀ (source : String) (loader : Loader), Survey.run source bound loader = Survey.run source absent loader) ∧
    ∀ text : String, Placeholder.missing text bound = Placeholder.missing text absent := by
  intro bound absent
  have resembles : bound.Resembles absent := resembles_insert_erase ns name
  refine ⟨⟨?_, ?_, fun other ne => ⟨?_, ?_⟩⟩, resembles.render_eq, fun source locale => ?_,
    fun library name source => ⟨?_, ?_, ?_⟩, resembles.run_eq, fun text => ?_⟩
  · rw [get?_insert, if_pos rfl]
  · rw [get?_erase, if_pos rfl]
  · rw [get?_insert, if_neg ne]
  · rw [get?_erase, if_neg ne]
  · simp only [Template.renderText, resembles.render_eq]
  · simp only [Library.render, resembles.render_eq]
  · simp only [Library.renderText, resembles.render_eq]
  · simp only [Library.missing, resembles.run_eq]
  · simp only [Placeholder.missing, resembles.hasValueAt_eq]

end Namespace

end Folio

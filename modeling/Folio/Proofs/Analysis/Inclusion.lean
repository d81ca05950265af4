import Folio.Proofs.Analysis.Reach
import Folio.Proofs.Template.Characters
import Mathlib.Data.List.Nodup
import Mathlib.Data.List.Pairwise

/-! Coverage across inclusions. A survey walks a template once, under the names that the first inclusion of
its name carries. If every name stands in one inclusion only and none leads back to the template that the
survey starts with, that is the inclusion by which rendering comes to the template, and what rendering lacks
there is reported, unless an inclusion without context has hidden the namespace. -/
namespace Folio

open Template
open Node (AllBasic partsOfAll)

/-! ### Views behind inclusions -/

namespace Template

/-- What rendering sees of a namespace, behind an inclusion without context or elsewhere. -/
def seenOf (ns : Namespace) (isolated : Bool) : Namespace :=
  if isolated then .empty else ns

/-- The namespace has a variable of a condition in the moment that an inclusion without context hides. -/
def Moment.IsMisled (ns : Namespace) (moment : Moment) : Prop :=
  moment.view.isolated ∧ ∃ condition ∈ moment.node.conditions, ∃ name ∈ condition.inspected,
    name ∉ moment.view.bound ∧ (ns.get? name).isSome

instance (ns : Namespace) (moment : Moment) : Decidable (moment.IsMisled ns) :=
  inferInstanceAs (Decidable (_ ∧ ∃ condition ∈ moment.node.conditions, ∃ name ∈ condition.inspected, _ ∧ _))

/-- A condition is known alike in the namespace and in what rendering sees of it. -/
theorem Moment.truth_seenOf {ns : Namespace} {moment : Moment} (clear : ¬ moment.IsMisled ns)
    {condition : Expr} (m : condition ∈ moment.node.conditions) (h : condition.isCondition) :
    condition.truth ns moment.view.bound =
      condition.truth (seenOf ns moment.view.isolated) moment.view.bound := by
  cases isolated : moment.view.isolated with
  | false => rfl
  | true =>
    refine Expr.truth_congr h fun name mn free => ?_
    cases found : ns.get? name with
    | none => rfl
    | some value => exact absurd ⟨isolated, condition, m, name, mn, free, by simp [found]⟩ clear

end Template

/-! ### Libraries whose inclusions make a tree -/

namespace Library

variable {library : Library} {root : String} {ns : Namespace} {template : Template}

theorem mem_templates_of_get? {name : String} (h : library.get? name = some template) :
    (name, template) ∈ library.templates :=
  Fields.mem_of_find? h

theorem get?_of_template? {name : String} (h : library.setting.template? name = .ok (some template)) :
    library.get? name = some template := by
  change library.template? name = _ at h
  rw [template?] at h
  split at h
  · rename_i found
    cases h
    exact found
  · cases h
  · cases h

theorem load_eq {name : String} {inner : Template} (h : library.get? name = some inner) :
    library.loader.load name = .ok (some inner.source) := by
  change Except.ok (library.source? name) = _
  rw [source?, h]

theorem isFinite_loader (library : Library) : library.loader.IsFinite := by
  refine ⟨Fields.keys library.templates ++ Fields.keys library.rejected, by simp [loader, Fields.keys], ?_⟩
  intro name text h
  have h : library.source? name = some text := Except.ok.inj h
  rw [List.mem_append, ← Fields.isSome_find?_iff, ← Fields.isSome_find?_iff]
  rw [source?, get?] at h
  split at h
  · rename_i found
    exact .inl (by simp [found])
  · obtain ⟨rejected, found, -⟩ := Option.map_eq_some_iff.1 h
    exact .inr (by simp [found])

/-- The fixed names in the inclusions of all templates. -/
def included (library : Library) : List String :=
  library.templates.flatMap (fun entry => Node.includedNames entry.2.nodes)

/-- All templates parse and are basic, and no name stands in two inclusions, that of the root in none. -/
structure IsTree (library : Library) (root : String) : Prop where
  parsed : library.rejected = []
  basic : ∀ entry ∈ library.templates, AllBasic (partsOfAll entry.2.nodes)
  once : library.included.Nodup
  rootless : root ∉ library.included

instance (library : Library) (root : String) : Decidable (library.IsTree root) :=
  decidable_of_iff (library.rejected.isEmpty ∧ (∀ entry ∈ library.templates, AllBasic (partsOfAll entry.2.nodes)) ∧
      library.included.Nodup ∧ root ∉ library.included)
    ⟨fun ⟨parsed, basic, once, rootless⟩ => ⟨List.isEmpty_iff.1 parsed, basic, once, rootless⟩,
      fun tree => ⟨List.isEmpty_iff.2 tree.parsed, tree.basic, tree.once, tree.rootless⟩⟩

namespace IsTree

variable (tree : library.IsTree root)
include tree

theorem get?_of_load {name text : String} (h : library.loader.load name = .ok (some text)) :
    ∃ template, library.get? name = some template ∧ template.source = text := by
  have h : library.source? name = some text := Except.ok.inj h
  rw [source?] at h
  split at h
  · rename_i template found
    exact ⟨template, found, Option.some.inj h⟩
  · rw [tree.parsed] at h
    cases h

theorem isBasic_setting : library.setting.IsBasic :=
  fun _ _ h => tree.basic _ (mem_templates_of_get? (get?_of_template? h))

theorem basic_of_get? {name : String} (h : library.get? name = some template) :
    AllBasic (partsOfAll template.nodes) :=
  tree.basic _ (mem_templates_of_get? h)

theorem mem_includedNames {name : String} {locals : List String} {inclusion : Inclusion}
    (h : library.get? name = some template)
    (m : inclusion ∈ (Node.walkAll ns locals template.nodes).1.inclusions) :
    inclusion.name ∈ Node.includedNames template.nodes :=
  (Node.walkAll_names_sublist ns locals (tree.basic_of_get? h)).subset (List.mem_map_of_mem m)

/-- A walk comes to a name in one inclusion only. -/
theorem inclusion_eq {name : String} {locals : List String} {a b : Inclusion}
    (h : library.get? name = some template)
    (ha : a ∈ (Node.walkAll ns locals template.nodes).1.inclusions)
    (hb : b ∈ (Node.walkAll ns locals template.nodes).1.inclusions) (same : a.name = b.name) : a = b := by
  have once := (List.nodup_flatMap.1 tree.once).1 _ (mem_templates_of_get? h)
  have names := (Node.walkAll_names_sublist ns locals (tree.basic_of_get? h)).nodup once
  exact List.inj_on_of_nodup_map names ha hb same

/-- Two templates do not include the same name. -/
theorem name_eq {name other : String} {template' : Template} {included : String}
    (h : library.get? name = some template) (h' : library.get? other = some template')
    (m : included ∈ Node.includedNames template.nodes)
    (m' : included ∈ Node.includedNames template'.nodes) : name = other := by
  by_contra different
  have : Std.Symm (Function.onFun List.Disjoint
      (fun entry : String × Template => Node.includedNames entry.2.nodes)) :=
    ⟨fun _ _ apart _ here there => apart there here⟩
  have apart := (List.nodup_flatMap.1 tree.once).2.forall (mem_templates_of_get? h)
    (mem_templates_of_get? h') (fun e => different (Prod.mk.inj e).1)
  exact apart m m'

section Reached

variable (found : library.get? root = some template)
include found

theorem mem_included_of_reachable {inclusion : Inclusion} (h : Survey.Reachable ns library.loader
    (Node.walkAll ns [] template.nodes).1.inclusions inclusion) : inclusion.name ∈ library.included := by
  cases h with
  | first m =>
    exact List.mem_flatMap.2 ⟨_, mem_templates_of_get? found, tree.mem_includedNames found m⟩
  | inside _ load parse m =>
    obtain ⟨inner, found', rfl⟩ := tree.get?_of_load load
    cases inner.parsed.symm.trans parse
    exact List.mem_flatMap.2 ⟨_, mem_templates_of_get? found', tree.mem_includedNames found' m⟩

/-- The way to an inclusion from the root is determined by its name. -/
theorem eq_of_reachable {a b : Inclusion} (ha : Survey.Reachable ns library.loader
      (Node.walkAll ns [] template.nodes).1.inclusions a)
    (hb : Survey.Reachable ns library.loader (Node.walkAll ns [] template.nodes).1.inclusions b)
    (same : a.name = b.name) : a = b := by
  -- On the way to `a`: the name stands in one template only, and so both ways lead through that one.
  induction ha generalizing b with
  | first ma =>
    have here := tree.mem_includedNames found ma
    cases hb with
    | first mb => exact tree.inclusion_eq found ma mb same
    | inside reached load parse mb =>
      obtain ⟨inner, found', rfl⟩ := tree.get?_of_load load
      cases inner.parsed.symm.trans parse
      have there := tree.mem_includedNames found' mb
      have leads := tree.name_eq found found' here (same ▸ there)
      exact absurd (leads ▸ tree.mem_included_of_reachable found reached) tree.rootless
  | inside reached load parse ma ih =>
    obtain ⟨inner, found', rfl⟩ := tree.get?_of_load load
    cases inner.parsed.symm.trans parse
    have here := tree.mem_includedNames found' ma
    cases hb with
    | first mb =>
      have there := tree.mem_includedNames found mb
      have leads := tree.name_eq found found' (same ▸ there) here
      exact absurd (leads ▸ tree.mem_included_of_reachable found reached) tree.rootless
    | inside reached' load' parse' mb =>
      obtain ⟨inner', found'', rfl⟩ := tree.get?_of_load load'
      cases inner'.parsed.symm.trans parse'
      have there := tree.mem_includedNames found'' mb
      have outer := ih reached' (tree.name_eq found' found'' here (same ▸ there))
      subst outer
      cases found'.symm.trans found''
      exact tree.inclusion_eq found' ma mb same

/-- The report of a survey that has come to its end is closed. -/
theorem closed_of_complete (clear : Prop) {asked all : List String} (complete : Survey.Complete ns library.loader
      (Node.walkAll ns [] template.nodes).1.inclusions (Node.walkAll ns [] template.nodes).1.inclusions []
      (Node.walkAll ns [] template.nodes).1.missing asked all) :
    Report.Closed ⟨ns, all, fun inclusion => Survey.Reachable ns library.loader
        (Node.walkAll ns [] template.nodes).1.inclusions inclusion ∧ inclusion.name ∈ asked,
      seenOf ns, fun isolated => isolated → clear⟩ library.setting where
  basic := tree.isBasic_setting
  follows := by
    rintro inclusion inner ⟨reached, m⟩ h
    have load := load_eq (get?_of_template? h)
    rcases complete.explored _ m with m | ⟨same, reached', names, explored⟩
    · cases m
    · cases tree.eq_of_reachable found reached' reached names
      obtain ⟨missing, names⟩ := explored.of_text load inner.parsed
      refine ⟨missing, fun inside m => ⟨reached.inside load inner.parsed m, names ?_⟩⟩
      exact List.mem_map_of_mem m
  hidden := fun _ _ _ => rfl
  answers := fun _ isolated => nomatch isolated

end Reached

end IsTree

theorem missing_eq {name : String} (h : library.get? name = some template) :
    library.missing name ns = (Survey.run template.source ns library.loader).outcome := by
  have require : library.require name = .ok template := by
    change Template.require library.setting name = _
    have template? : library.setting.template? name = .ok (some template) := by
      change library.template? name = _
      rw [Library.template?, h]
    rw [Template.require, template?]
    rfl
  rw [missing, require]
  rfl

/-- The library of the texts under their names. -/
def ofList (texts : List (String × String)) : Except Error Library :=
  texts.foldlM (fun library text => library.add text.1 text.2) .empty

/-- Adds a template that is given by its characters under a name that is free. -/
def addChars (library : Library) (name : String) (chars : List Char) : Except Error Library :=
  if library.contains name then .error (.templateExists name)
  else
    match Template.readChars name chars with
    | .ok template => .ok { library with templates := Fields.put name template library.templates }
    | .error error => .error error

def ofChars (texts : List (String × List Char)) : Except Error Library :=
  texts.foldlM (fun library text => library.addChars text.1 text.2) .empty

/-- Texts under their names, and their characters under the same names. -/
inductive Written : List (String × String) → List (String × List Char) → Prop
  | nil : Written [] []
  | cons {name source : String} {chars : List Char} {texts : List (String × String)}
    {written : List (String × List Char)} (h : source = String.ofList chars) (rest : Written texts written) :
    Written ((name, source) :: texts) ((name, chars) :: written)

theorem ofList_eq_ofChars {texts : List (String × String)} {written : List (String × List Char)}
    (h : Written texts written) : ofList texts = ofChars written := by
  rw [ofList, ofChars]
  generalize empty = library
  induction h generalizing library with
  | nil => rfl
  | cons h _ ih =>
    rw [List.foldlM_cons, List.foldlM_cons, add, addChars, Template.read_eq_readChars h]
    exact congrArg _ (funext ih)

/-- The paths that rendering lacks and that are not reported, if rendering comes to its end. -/
def overlooked (library : Library) (root : String) (ns : Namespace) : Except RenderError (List String) := do
  let template ← library.require root
  let missing ← library.missing root ns
  discard (library.render root ns)
  let lacking := (template.moments library.setting ns).filterMap (Moment.lacking? library.setting)
  return lacking.filter (fun path => !missing.contains path)

end Library

end Folio

import Folio.Proofs.Template.Frame
import Folio.Proofs.Template.Moment

/-! The text of a template is what its moments show, one after the other, as long as no filter is laid over
a body. -/
namespace Folio

open Template
open Node (partsOfAll partsOfArms partsOfOption)

/-! ### Filters -/

namespace Node

def isFilterBlock : Node → Bool
  | .filterBlock _ _ _ => true
  | _ => false

/-- None of the nodes is a filter over a body. -/
def Unfiltered (nodes : List Node) : Prop :=
  ∀ node ∈ nodes, node.isFilterBlock = false

@[simp] theorem unfiltered_cons {node : Node} {nodes : List Node} :
    Unfiltered (node :: nodes) ↔ node.isFilterBlock = false ∧ Unfiltered nodes :=
  List.forall_mem_cons

@[simp] theorem unfiltered_append {nodes more : List Node} :
    Unfiltered (nodes ++ more) ↔ Unfiltered nodes ∧ Unfiltered more :=
  List.forall_mem_append

end Node

open Node (Unfiltered)

namespace Template

mutual

/-- The body of a block is a part of what the block stands in. -/
theorem partsOf_block_subset : ∀ {node : Node} {entry : String × List Node}, entry ∈ blocksOf node →
    partsOfAll entry.2 ⊆ node.parts
  | .block name body, entry, m => by
    rw [Node.parts]
    rcases List.mem_cons.1 m with rfl | m
    · exact List.subset_cons_self ..
    · exact List.subset_cons_of_subset _ (partsOf_blocks_subset m)
  | .text _, _, m | .output _, _, m | .branch .., _, m | .inclusion .., _, m | .loop .., _, m
  | .assign .., _, m | .extend _, _, m | .define .., _, m | .callBlock .., _, m | .filterBlock .., _, m
  | .importAs .., _, m | .importFrom .., _, m => by cases m

theorem partsOf_blocks_subset : ∀ {nodes : List Node} {entry : String × List Node},
    entry ∈ blocksIn nodes → partsOfAll entry.2 ⊆ partsOfAll nodes
  | [], _, m => by cases m
  | node :: nodes, entry, m => by
    rw [partsOfAll]
    rcases List.mem_append.1 m with m | m
    · exact List.subset_append_of_subset_left _ (partsOf_block_subset m)
    · exact List.subset_append_of_subset_right _ (partsOf_blocks_subset m)

end

/-- The bodies that replace blocks have no filters in them. -/
def Place.Unfiltered (place : Place) : Prop :=
  ∀ entry ∈ place.overrides, Node.Unfiltered (partsOfAll entry.2)

/-- The templates that can be reached have no filters in them. -/
def Setting.Unfiltered (setting : Setting) : Prop :=
  ∀ ⦃name template⦄, setting.template? name = .ok (some template) →
    Node.Unfiltered (partsOfAll template.nodes)

/-! ### What is shown -/

/-- What a node shows by itself. -/
def Moment.shown (setting : Setting) (moment : Moment) : String :=
  match moment.node with
  | .text _ | .output _ | .callBlock _ _ _ =>
    match (renderNode setting moment.jumps moment.place moment.node moment.context).1 with
    | .ok text => text
    | .error _ => ""
  | _ => ""

/-- What moments show, one after the other. -/
def shown (setting : Setting) (moments : List Moment) : String :=
  String.join (moments.map (Moment.shown setting))

section Shows

variable {setting : Setting} {α : Type}

@[simp] theorem shown_nil : shown setting [] = "" :=
  String.join_nil

@[simp] theorem shown_cons (moment : Moment) (moments : List Moment) :
    shown setting (moment :: moments) = moment.shown setting ++ shown setting moments := by
  simp [shown]

@[simp] theorem shown_append (before after : List Moment) :
    shown setting (before ++ after) = shown setting before ++ shown setting after := by
  simp [shown]

/-- If the action gives a text, it is empty. -/
def Quiet (action : Rendering String) : Prop :=
  ∀ ⦃context text after⦄, action context = (.ok text, after) → text = ""

/-- If the action gives a text, the moments show it. -/
def Shows (setting : Setting) (action : Rendering String) (moments : Context → List Moment) : Prop :=
  ∀ ⦃context text after⦄, action context = (.ok text, after) → shown setting (moments context) = text

theorem Shows.throw (error : RenderError) (moments : Context → List Moment) :
    Shows setting (throw error) moments := by
  intro context text after h
  cases h

theorem Shows.empty : Shows setting (pure "") (fun _ => []) := by
  intro context text after h
  cases h
  exact shown_nil

theorem Quiet.pure : Quiet (pure "") := by
  intro context text after h
  cases h
  rfl

theorem Quiet.bind {action : Rendering α} {next : α → Rendering String} (hn : ∀ value, Quiet (next value)) :
    Quiet (action >>= next) := by
  intro context text after h
  obtain ⟨value, between, -, rest⟩ := run_bind h
  exact hn value rest

theorem Shows.bind {action : Rendering α} {next : α → Rendering String}
    {moments : α → Context → List Moment} (hn : ∀ value, Shows setting (next value) (moments value)) :
    Shows setting (action >>= next) (following action moments) := by
  intro context text after h
  obtain ⟨value, between, first, rest⟩ := run_bind h
  rw [following, first]
  exact hn value rest

theorem Shows.seq {first second : Rendering String} {before after : Context → List Moment}
    (hf : Shows setting first before) (hs : Shows setting second after) :
    Shows setting (do let text ← first; return text ++ (← second))
      (fun context => before context ++ following first (fun _ => after) context) := by
  intro context text last h
  obtain ⟨one, between, h1, h⟩ := run_bind h
  obtain ⟨two, last', h2, h⟩ := run_bind h
  cases h
  rw [shown_append, hf h1, following, h1]
  simp only [hs h2]

theorem Shows.inScope {scope : Scope} {action : Rendering String} {moments : Context → List Moment}
    (h : Shows setting action moments) :
    Shows setting (Rendering.inScope scope action) (fun context => moments (context.push scope)) := by
  intro context text after run
  obtain ⟨inner, run, -⟩ := run_inScope run
  exact h run

theorem Shows.isolated {inside : Context} {action : Rendering String} {moments : Context → List Moment}
    (h : Shows setting action moments) :
    Shows setting (Rendering.isolated inside action) (fun _ => moments inside) := by
  intro context text after run
  exact h (Prod.ext (Prod.mk.inj run).1 rfl)

end Shows

section Bodies

variable {setting : Setting} {jumps : Jumps}
variable {elsewhere : Place → View → List Node → Context → List Moment}

/-- The moments of bodies that stand elsewhere show their texts. -/
def ShowsElsewhere (setting : Setting) (jumps : Jumps)
    (elsewhere : Place → View → List Node → Context → List Moment) : Prop :=
  ∀ ⦃place nodes⦄, place.Unfiltered → Node.Unfiltered (partsOfAll nodes) → ∀ view,
    Shows setting (jumps.body place nodes) (elsewhere place view nodes)

theorem shows_forEach {targets : List String} {body : Rendering String} {inside : Context → List Moment}
    (hb : Shows setting body inside) (length : Nat) (items : List Value) :
    ∀ {index done context text after}, forEach targets body length index items done context = (.ok text, after) →
      done ++ shown setting (momentsOfEach targets body inside length index items context) = text := by
  induction items with
  | nil =>
    intro index done context text after h
    cases h
    simp [momentsOfEach]
  | cons item items ih =>
    intro index done context text after h
    rw [forEach] at h
    obtain ⟨scope, hs, h⟩ := run_lift_bind h
    obtain ⟨one, between, bodyRun, h⟩ := run_bind h
    obtain ⟨inner, run, rfl⟩ := run_inScope bodyRun
    have rest := ih h
    rw [momentsOfEach, hs]
    simp only [shown_append, hb run, following, run]
    rw [← String.append_assoc]
    exact rest

theorem template?_of_require {name : String} {template : Template}
    (h : require setting name = .ok template) : setting.template? name = .ok (some template) := by
  rw [require] at h
  cases found : setting.template? name with
  | error error => rw [found] at h; cases h
  | ok template? =>
    rw [found] at h
    cases template? with
    | none => cases h
    | some other => cases h; rfl

theorem shows_layOut (plain : setting.Unfiltered) (he : ShowsElsewhere setting jumps elsewhere)
    (start : String) (view : View) (allowed : Nat) {place : Place} {nodes : List Node} (hp : place.Unfiltered)
    (hn : Node.Unfiltered (partsOfAll nodes)) : Shows setting (layOut setting jumps start allowed place nodes)
      (momentsOfLayers setting jumps elsewhere view allowed place nodes) := by
  intro context text after h
  rw [layOut.eq_def] at h
  rw [momentsOfLayers.eq_def]
  cases parent : parent? nodes with
  | none =>
    rw [parent] at h
    exact he hp hn view h
  | some e =>
    rw [parent] at h
    obtain ⟨name, between, run, h⟩ := run_bind h
    obtain ⟨outer, found, h⟩ := run_lift_bind h
    have found := template?_of_require found
    simp only [following, run]
    cases allowed with
    | zero => cases h
    | succ allowed =>
      simp only [found]
      refine shows_layOut plain he start view allowed ?_ (plain found) h
      intro entry m
      rcases List.mem_append.1 m with m | m
      · exact hp entry m
      · exact fun part inside => hn part (partsOf_blocks_subset m inside)
termination_by allowed

theorem shows_document (plain : setting.Unfiltered) (he : ShowsElsewhere setting jumps elsewhere)
    {template : Template} (hn : Node.Unfiltered (partsOfAll template.nodes)) (depth calls : Nat) (view : View) :
    Shows setting (document setting jumps template depth calls)
      (momentsOfDocument setting jumps elsewhere template depth calls view) :=
  shows_layOut plain he template.name view _ (fun _ m => absurd m List.not_mem_nil) hn

theorem shows_include? (plain : setting.Unfiltered) (he : ShowsElsewhere setting jumps elsewhere)
    (place : Place) (view : View) (name : String) (ignoreMissing withContext : Bool) :
    Shows setting (include? setting jumps place name ignoreMissing withContext)
      (momentsOfInclusion setting jumps elsewhere place view name withContext) := by
  intro context text after h
  rw [include?] at h
  obtain ⟨template?, found, h⟩ := run_lift_bind h
  rw [momentsOfInclusion, found]
  cases template? with
  | none =>
    cases ignoreMissing with
    | true => cases h; exact shown_nil
    | false => cases h
  | some included =>
    have inside := shows_document plain he (plain found) (place.depth + 1) place.calls
      (view.inInclusion withContext)
    by_cases deep : maxNesting ≤ place.depth
    · simp only [deep, if_true] at h
      cases h
    · simp only [deep, if_false] at h ⊢
      cases withContext with
      | true => exact inside.inScope h
      | false => exact inside.isolated h

section Nodes

/-- A node whose moment shows nothing of its own, in front of the moments of what it renders. -/
theorem Shows.after {node : Node} {place : Place} {view : View} {action : Rendering String}
    {moments : Context → List Moment}
    (silent : ∀ context, Moment.shown setting ⟨jumps, place, view, node, context⟩ = "")
    (h : Shows setting action moments) :
    Shows setting action (fun context => ⟨jumps, place, view, node, context⟩ :: moments context) := by
  intro context text after run
  rw [shown_cons, silent, h run, String.empty_append]

/-- A node that gives no text. -/
theorem shows_quiet (node : Node) {place : Place} {view : View}
    (silent : ∀ context, Moment.shown setting ⟨jumps, place, view, node, context⟩ = "")
    (quiet : Quiet (renderNode setting jumps place node)) :
    Shows setting (renderNode setting jumps place node)
      (fun context => [⟨jumps, place, view, node, context⟩]) := by
  intro context text after h
  rw [shown_cons, silent, shown_nil, quiet h]
  rfl

/-- A node that shows its own text. -/
theorem shows_self (node : Node) {place : Place} {view : View}
    (self : ∀ {context text after}, renderNode setting jumps place node context = (.ok text, after) →
      Moment.shown setting ⟨jumps, place, view, node, context⟩ = text) :
    Shows setting (renderNode setting jumps place node)
      (fun context => [⟨jumps, place, view, node, context⟩]) := by
  intro context text after h
  rw [shown_cons, shown_nil, self h, String.append_empty]

set_option linter.unusedSectionVars false

variable (plain : setting.Unfiltered) (he : ShowsElsewhere setting jumps elsewhere) {place : Place}
variable (hp : place.Unfiltered)
include plain he hp

mutual

theorem shows_momentsOf : ∀ {node : Node} (view : View), Node.Unfiltered node.parts →
    Shows setting (renderNode setting jumps place node)
      (momentsOf setting jumps elsewhere place view node)
  | .text content, view, _ => shows_self (.text content) fun h => by simp only [Moment.shown, h]
  | .output e, view, _ => shows_self (.output e) fun h => by simp only [Moment.shown, h]
  | .callBlock params call body, view, _ =>
    shows_self (.callBlock params call body) fun h => by simp only [Moment.shown, h]
  | .branch arms otherwise, view, clear => by
    simp only [Node.parts, Node.unfiltered_cons, Node.unfiltered_append] at clear
    exact (shows_momentsOfArms view clear.2.1 (shows_momentsOfOption view clear.2.2)).after fun _ => rfl
  | .inclusion name ignoreMissing withContext, view, _ =>
    (Shows.bind fun (name : Value) => shows_include? plain he place view name.text ignoreMissing withContext).after
      fun _ => rfl
  | .block name body, view, clear => by
    simp only [Node.parts, Node.unfiltered_cons] at clear
    intro context text after h
    rw [renderNode] at h
    rw [momentsOf, shown_cons]
    cases replaced : place.overrides.lookup name with
    | none =>
      rw [replaced] at h
      exact shows_momentsOfAll view clear.2 h
    | some replacement =>
      rw [replaced] at h
      obtain ⟨before, after, found, -⟩ := List.lookup_eq_some_iff.1 replaced
      exact he hp (hp (name, replacement) (by simp [found])) view h
  | .loop targets items body otherwise, view, clear => by
    simp only [Node.parts, Node.unfiltered_cons, Node.unfiltered_append] at clear
    refine (Shows.bind fun value => ?_).after fun _ => rfl
    intro context text after h
    obtain ⟨list, found, h⟩ := run_lift_bind h
    rw [found]
    cases empty : list.isEmpty with
    | true =>
      simp only [empty, if_true] at h ⊢
      exact shows_momentsOfOption view clear.2.2 h
    | false =>
      simp only [empty] at h ⊢
      exact shows_forEach (shows_momentsOfAll (view.inLoop targets) clear.2.1) _ _ h
  | .assign name value, view, _ => shows_quiet (.assign name value) (fun _ => rfl)
      (Quiet.bind fun _ => Quiet.bind fun _ => Quiet.pure)
  | .extend parent, view, _ => shows_quiet (.extend parent) (fun _ => rfl) Quiet.pure
  | .define name params body, view, _ => shows_quiet (.define name params body) (fun _ => rfl)
      (Quiet.bind fun _ => Quiet.pure)
  | .importAs template group, view, _ => shows_quiet (.importAs template group) (fun _ => rfl)
      (Quiet.bind fun _ => Quiet.bind fun _ => Quiet.pure)
  | .importFrom template names, view, _ => shows_quiet (.importFrom template names) (fun _ => rfl)
      (Quiet.bind fun _ => Quiet.bind fun _ => Quiet.pure)
  | .filterBlock .., _, clear => by cases clear _ (Node.self_mem_parts _)

theorem shows_momentsOfAll : ∀ {nodes : List Node} (view : View), Node.Unfiltered (partsOfAll nodes) →
    Shows setting (renderNodes setting jumps place nodes)
      (momentsOfAll setting jumps elsewhere place view nodes)
  | [], _, _ => .empty
  | node :: nodes, view, clear => by
    rw [partsOfAll, Node.unfiltered_append] at clear
    exact (shows_momentsOf view clear.1).seq (shows_momentsOfAll view clear.2)

theorem shows_momentsOfArms : ∀ {arms : List (Expr × List Node)} {otherwise : Rendering String}
    {rest : Context → List Moment} (view : View), Node.Unfiltered (partsOfArms arms) →
    Shows setting otherwise rest → Shows setting (renderArms setting jumps place arms otherwise)
      (momentsOfArms setting jumps elsewhere place view arms rest)
  | [], _, _, _, _, ho => ho
  | (condition, body) :: arms, otherwise, rest, view, clear, ho => by
    rw [partsOfArms, Node.unfiltered_append] at clear
    refine Shows.bind fun value => ?_
    intro context text after h
    cases holds : value.isTruthy with
    | true =>
      simp only [holds, if_true] at h ⊢
      exact shows_momentsOfAll view clear.1 h
    | false =>
      simp only [holds] at h ⊢
      exact shows_momentsOfArms view clear.2 ho h

theorem shows_momentsOfOption : ∀ {body : Option (List Node)} (view : View),
    Node.Unfiltered (partsOfOption body) → Shows setting (renderOption setting jumps place body)
      (momentsOfOption setting jumps elsewhere place view body)
  | none, _, _ => .empty
  | some body, view, clear => by
    rw [partsOfOption] at clear
    exact shows_momentsOfAll view clear

end

end Nodes

end Bodies

/-- However deep the jumps, the moments of a body show its text. -/
theorem showsElsewhere_within {setting : Setting} (plain : setting.Unfiltered) (n : Nat) :
    ShowsElsewhere setting (.within setting n) (momentsWithin setting n) := by
  induction n with
  | zero => exact fun _ _ _ _ _ => .throw _ _
  | succ n ih => exact fun _ _ hp clear view => shows_momentsOfAll plain ih hp view clear

/-- The text of a template is what its moments show, one after the other. -/
theorem shown_moments {setting : Setting} (plain : setting.Unfiltered) {template : Template}
    (clear : Node.Unfiltered (partsOfAll template.nodes)) {globals : Namespace} {text : String}
    (h : template.render setting globals = .ok text) : shown setting (template.moments setting globals) = text :=
  shows_document plain (showsElsewhere_within plain maxJumps) clear 0 0 .outermost (Prod.ext h rfl)

end Template

end Folio

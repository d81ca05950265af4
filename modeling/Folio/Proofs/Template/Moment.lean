import Folio.Template.Render

/-! The moments of rendering: the nodes that it comes to, one after the other, each with the context that
it finds. Inclusions and parents are followed into the templates that they lead to, and bodies of macros are
not. -/
namespace Folio.Template

/-- What is visible of the loops around a node: the names that they bind, and whether an inclusion without
context hides everything around it. -/
structure View where
  bound : List String
  isolated : Bool

namespace View

/-- What a template sees that is not included. -/
def outermost : View :=
  ⟨[], false⟩

/-- What the body of a loop sees. -/
def inLoop (view : View) (targets : List String) : View :=
  { view with bound := view.bound ++ targets ++ [loopName] }

/-- What an included template sees. -/
def inInclusion (view : View) (withContext : Bool) : View :=
  if withContext then view else ⟨[], true⟩

end View

/-- Rendering comes to a node. -/
structure Moment where
  jumps : Jumps
  place : Place
  view : View
  node : Node
  context : Context

/-- What follows an action, which is nothing if the action fails. -/
def following {α : Type} (action : Rendering α) (next : α → Context → List Moment) (context : Context) :
    List Moment :=
  match action context with
  | (.ok value, after) => next value after
  | (.error _, _) => []

/-- The moments of a loop from an item on. -/
def momentsOfEach (targets : List String) (body : Rendering String) (inside : Context → List Moment)
    (length : Nat) : Nat → List Value → Context → List Moment
  | _, [], _ => []
  | index, item :: items, context =>
    match bindTargets targets item with
    | .error _ => []
    | .ok scope =>
      let within := context.push (Fields.put loopName (progress index length) scope)
      inside within ++
        following body (fun _ after => momentsOfEach targets body inside length (index + 1) items after.pop) within

section Nodes

variable (setting : Setting) (jumps : Jumps) (elsewhere : Place → View → List Node → Context → List Moment)

/-- The moments of a document whose parents are followed. -/
def momentsOfLayers (view : View) (allowed : Nat) (place : Place) (nodes : List Node) (context : Context) :
    List Moment :=
  match parent? nodes with
  | none => elsewhere place view nodes context
  | some e =>
    following (evaluate setting jumps place e) (fun name context =>
      match allowed with
      | 0 => []
      | allowed + 1 =>
        match setting.template? name.text with
        | .ok (some parent) =>
          momentsOfLayers view allowed ⟨place.overrides ++ blocksIn nodes, place.depth + 1, place.calls⟩
            parent.nodes context
        | _ => []) context

def momentsOfDocument (template : Template) (depth calls : Nat) (view : View) : Context → List Moment :=
  momentsOfLayers setting jumps elsewhere view (maxNesting - depth) ⟨[], depth, calls⟩ template.nodes

def momentsOfInclusion (place : Place) (view : View) (name : String) (withContext : Bool)
    (context : Context) : List Moment :=
  match setting.template? name with
  | .ok (some included) =>
    if maxNesting ≤ place.depth then []
    else
      momentsOfDocument setting jumps elsewhere included (place.depth + 1) place.calls
        (view.inInclusion withContext) (if withContext then context.push [] else .ofNamespace .empty)
  | _ => []

mutual

/-- The moments of a node, the node itself first. -/
def momentsOf (place : Place) (view : View) : Node → Context → List Moment
  | .branch arms otherwise, context =>
    ⟨jumps, place, view, .branch arms otherwise, context⟩ ::
      momentsOfArms place view arms (momentsOfOption place view otherwise) context
  | .inclusion name ignoreMissing withContext, context =>
    ⟨jumps, place, view, .inclusion name ignoreMissing withContext, context⟩ ::
      following (evaluate setting jumps place name)
        (fun name => momentsOfInclusion setting jumps elsewhere place view name.text withContext) context
  | .block name body, context =>
    ⟨jumps, place, view, .block name body, context⟩ ::
      match place.overrides.lookup name with
      | some replacement => elsewhere place view replacement context
      | none => momentsOfAll place view body context
  | .loop targets items body otherwise, context =>
    ⟨jumps, place, view, .loop targets items body otherwise, context⟩ ::
      following (evaluate setting jumps place items) (fun value context =>
        match loopItems targets value with
        | .error _ => []
        | .ok items =>
          if items.isEmpty then momentsOfOption place view otherwise context
          else momentsOfEach targets (renderNodes setting jumps place body)
            (momentsOfAll place (view.inLoop targets) body) items.length 0 items context) context
  | .filterBlock name args body, context =>
    ⟨jumps, place, view, .filterBlock name args body, context⟩ :: momentsOfAll place view body context
  | node, context => [⟨jumps, place, view, node, context⟩]

def momentsOfAll (place : Place) (view : View) : List Node → Context → List Moment
  | [], _ => []
  | node :: nodes, context =>
    momentsOf place view node context ++
      following (renderNode setting jumps place node) (fun _ => momentsOfAll place view nodes) context

/-- The moments of the first arm whose condition holds. -/
def momentsOfArms (place : Place) (view : View) :
    List (Expr × List Node) → (Context → List Moment) → Context → List Moment
  | [], otherwise, context => otherwise context
  | (condition, body) :: arms, otherwise, context =>
    following (evaluate setting jumps place condition) (fun value context =>
      if value.isTruthy then momentsOfAll place view body context
      else momentsOfArms place view arms otherwise context) context

def momentsOfOption (place : Place) (view : View) : Option (List Node) → Context → List Moment
  | none, _ => []
  | some body, context => momentsOfAll place view body context

end

end Nodes

/-- The moments of bodies that are reached by at most so many nested jumps. -/
def momentsWithin (setting : Setting) : Nat → Place → View → List Node → Context → List Moment
  | 0, _, _, _, _ => []
  | n + 1, place, view, nodes, context =>
    momentsOfAll setting (.within setting n) (momentsWithin setting n) place view nodes context

/-- The moments in which a template is rendered for a namespace. -/
def moments (setting : Setting) (template : Template) (globals : Namespace) : List Moment :=
  momentsOfDocument setting (.within setting maxJumps) (momentsWithin setting maxJumps) template 0 0
    .outermost (.ofNamespace globals)

end Folio.Template

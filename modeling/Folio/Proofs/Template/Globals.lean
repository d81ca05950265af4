import Folio.Proofs.Analysis.Scope
import Folio.Proofs.Template.Scoping

/-! The namespace under a rendering. A template that needs no other one is rendered over one namespace from its start to
its end, in the bodies of macros too; so a variable that nothing has bound has its value from there. -/
namespace Folio.Template

/-! ### Variables that are not bound -/

section Unbound

variable {context : Context} {name : String}

theorem Context.not_binds_iff : ¬ context.Binds name ↔ ∀ scope ∈ context.scopes, Fields.find? name scope = none := by
  simp only [Binds, not_exists, not_and, Option.not_isSome_iff_eq_none]

theorem Context.lookup_of_not_binds (free : ¬ context.Binds name) :
    context.lookup name = (context.globals.get? name).getD .undefined := by
  rw [lookup, List.findSome?_eq_none_iff.2 (not_binds_iff.1 free), Option.none_or]

/-- A variable that nothing has bound is shown as the namespace has it. -/
theorem renderNode_output_var {setting : Setting} {jumps : Jumps} {place : Place} (free : ¬ context.Binds name) :
    (renderNode setting jumps place (.output (.var name)) context).1 =
      .ok ((context.globals.get? name).getD .undefined).text := by
  have shown : (renderNode setting jumps place (.output (.var name)) context).1 = .ok (context.lookup name).text := rfl
  rw [shown, Context.lookup_of_not_binds free]

end Unbound

/-! ### The namespace of all moments -/

/-- All moments find the namespace that is there at the start. -/
def Steady (moments : Context → List Moment) : Prop :=
  ∀ context, ∀ moment ∈ moments context, moment.context.globals = context.globals

namespace Steady

variable {α : Type} {moments : Context → List Moment}

theorem nil : Steady (fun _ => []) :=
  nofun

theorem append {more : Context → List Moment} (h : Steady moments) (hm : Steady more) :
    Steady (fun context => moments context ++ more context) :=
  fun context => List.forall_mem_append.2 ⟨h context, hm context⟩

/-- The moment of a node in front of those of its bodies. -/
theorem cons (h : Steady moments) (jumps : Jumps) (place : Place) (view : View) (node : Node) :
    Steady (fun context => ⟨jumps, place, view, node, context⟩ :: moments context) :=
  fun context => List.forall_mem_cons.2 ⟨rfl, h context⟩

theorem following {action : Rendering α} {next : α → Context → List Moment}
    (leaves : ∀ context, (action context).2.globals = context.globals) (h : ∀ value, Steady (next value)) :
    Steady (following action next) := by
  intro context moment m
  obtain ⟨value, after, run, m⟩ := mem_following m
  have kept := leaves context
  rw [run] at kept
  exact (h value after moment m).trans kept

end Steady

section Nodes

set_option linter.unusedSectionVars false

variable {locale : Locale} {jumps : Jumps} {elsewhere : Place → View → List Node → Context → List Moment}
variable (hj : jumps.LeaveOuter) (he : ∀ place view nodes, Steady (elsewhere place view nodes))
include hj he

theorem steady_following_evaluate (place : Place) (e : Expr) {next : Value → Context → List Moment}
    (h : ∀ value, Steady (next value)) : Steady (following (evaluate (.alone locale) jumps place e) next) :=
  .following (fun context => by rw [keeps_evaluate]) h

theorem steady_momentsOfEach {targets : List String} {body : Rendering String} {inside : Context → List Moment}
    (hb : Rendering.Leaves Context.SameOuter body) (hi : Steady inside) (length : Nat) (items : List Value) :
    ∀ index, Steady (momentsOfEach targets body inside length index items) := by
  induction items with
  | nil => exact fun _ => .nil
  | cons item items ih =>
    intro index context
    cases bound : bindTargets targets item with
    | error cause => simp only [momentsOfEach, bound, List.not_mem_nil, false_implies, implies_true]
    | ok scope =>
      simp only [momentsOfEach, bound]
      exact (hi.append (.following (fun within => (hb.related within).globals) fun _ after => ih (index + 1) after.pop))
        (context.push (Fields.put loopName (progress index length) scope))

mutual

theorem steady_momentsOf (place : Place) : ∀ (view : View) (node : Node),
    Steady (momentsOf (.alone locale) jumps elsewhere place view node)
  | view, .branch arms otherwise =>
    (steady_momentsOfArms place view arms (steady_momentsOfOption place view otherwise)).cons jumps place view _
  | view, .inclusion template ignoreMissing withContext =>
    (steady_following_evaluate hj he place template fun _ => .nil).cons jumps place view _
  | view, .block title body => by
    have inside : Steady (fun context => match place.overrides.lookup title with
        | some replacement => elsewhere place view replacement context
        | none => momentsOfAll (.alone locale) jumps elsewhere place view body context) := by
      cases place.overrides.lookup title with
      | none => exact steady_momentsOfAll place view body
      | some replacement => exact he place view replacement
    exact inside.cons jumps place view _
  | view, .loop targets items body otherwise => by
    refine Steady.cons (steady_following_evaluate hj he place items fun value => ?_) jumps place view _
    cases loopItems targets value with
    | error cause => exact .nil
    | ok items =>
      cases items with
      | nil => exact steady_momentsOfOption place view otherwise
      | cons item items =>
        exact steady_momentsOfEach hj he (leaves_renderNodes hj body)
          (steady_momentsOfAll place (view.inLoop targets) body) _ _ 0
  | view, .filterBlock filter args body =>
    (steady_momentsOfAll place view body).cons jumps place view _
  | view, .text _ | view, .output _ | view, .assign .. | view, .extend _ | view, .define .. | view, .callBlock ..
  | view, .importAs .. | view, .importFrom .. => Steady.nil.cons jumps place view _

theorem steady_momentsOfAll (place : Place) : ∀ (view : View) (nodes : List Node),
    Steady (momentsOfAll (.alone locale) jumps elsewhere place view nodes)
  | _, [] => .nil
  | view, node :: nodes =>
    (steady_momentsOf place view node).append
      (.following (fun context => ((leaves_renderNode hj node).related context).globals) fun _ =>
        steady_momentsOfAll place view nodes)

theorem steady_momentsOfArms (place : Place) : ∀ (view : View) (arms : List (Expr × List Node))
    {otherwise : Context → List Moment}, Steady otherwise →
    Steady (momentsOfArms (.alone locale) jumps elsewhere place view arms otherwise)
  | _, [], _, ho => ho
  | view, (condition, body) :: arms, _, ho => by
    refine steady_following_evaluate hj he place condition fun value => ?_
    cases value.isTruthy with
    | true => exact steady_momentsOfAll place view body
    | false => exact steady_momentsOfArms place view arms ho

theorem steady_momentsOfOption (place : Place) : ∀ (view : View) (body : Option (List Node)),
    Steady (momentsOfOption (.alone locale) jumps elsewhere place view body)
  | _, none => .nil
  | view, some body => steady_momentsOfAll place view body

end

/-- A template that extends another one fails before it comes to anything. -/
theorem steady_momentsOfDocument (template : Template) (depth calls : Nat) (view : View) :
    Steady (momentsOfDocument (.alone locale) jumps elsewhere template depth calls view) := by
  rw [show momentsOfDocument (.alone locale) jumps elsewhere template depth calls view = _ from
    funext (momentsOfLayers.eq_def _ _ _ _ _ _ _)]
  cases parent? template.nodes with
  | none => exact he _ view template.nodes
  | some e =>
    refine steady_following_evaluate hj he _ e fun value => ?_
    cases maxNesting - depth with
    | zero => exact .nil
    | succ allowed => exact .nil

end Nodes

/-- From whatever context the rendering of nodes starts, all moments find its namespace, however deep the jumps. -/
theorem steady_momentsWithin (locale : Locale) (n : Nat) : ∀ (place : Place) (view : View) (nodes : List Node),
    Steady (momentsWithin (.alone locale) n place view nodes) := by
  induction n with
  | zero => exact fun _ _ _ => .nil
  | succ n ih => exact fun place view nodes => steady_momentsOfAll (leaveOuter_within _ n) ih place view nodes

/-- Rendering a template by itself comes to the moment, in the template or in a body that is rendered over the same
namespace, as those of macros are. -/
inductive Arises (locale : Locale) (template : Template) (globals : Namespace) (moment : Moment) : Prop
  | inTemplate (m : moment ∈ template.moments (.alone locale) globals)
  | inBody {n : Nat} {place : Place} {view : View} {nodes : List Node} {context : Context}
      (start : context.globals = globals) (m : moment ∈ momentsWithin (.alone locale) n place view nodes context)

theorem Arises.globals_eq {locale : Locale} {template : Template} {globals : Namespace} {moment : Moment}
    (h : Arises locale template globals moment) : moment.context.globals = globals := by
  cases h with
  | inTemplate m =>
    exact steady_momentsOfDocument (leaveOuter_within _ maxJumps) (steady_momentsWithin locale maxJumps) template 0 0
      .outermost _ moment m
  | inBody start m => exact (steady_momentsWithin locale _ _ _ _ _ moment m).trans start

end Folio.Template

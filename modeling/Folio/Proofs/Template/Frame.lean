import Folio.Proofs.Template.Part
import Folio.Template.Render

/-! Templates that leave the context as they found it. -/
namespace Folio.Template

namespace Rendering

variable {α β : Type}

/-- The action leaves the context as it was, also when it fails. -/
def Keeps (action : Rendering α) : Prop :=
  ∀ context, (action context).2 = context

theorem Keeps.pure (value : α) : Keeps (pure value) :=
  fun _ => rfl

theorem Keeps.throw (error : RenderError) : Keeps (throw error : Rendering α) :=
  fun _ => rfl

theorem Keeps.lift (result : Except RenderError α) : Keeps (liftM result) := by
  intro context
  cases result <;> rfl

theorem Keeps.get : Keeps (get : Rendering Context) :=
  fun _ => rfl

theorem Keeps.bind {action : Rendering α} {next : α → Rendering β} (ha : Keeps action)
    (hn : ∀ value, Keeps (next value)) : Keeps (action >>= next) := by
  intro context
  have kept := ha context
  change (ExceptT.bindCont next (action context).1 (action context).2).2 = context
  rw [kept]
  cases (action context).1 with
  | error error => rfl
  | ok value => exact hn value context

theorem Keeps.lift_bind {result : Except RenderError α} {next : α → Rendering β}
    (hn : ∀ value, result = .ok value → Keeps (next value)) : Keeps (liftM result >>= next) := by
  intro context
  cases result with
  | error error => rfl
  | ok value => exact hn value rfl context

theorem Keeps.inScope {scope : Scope} {action : Rendering α} (ha : Keeps action) :
    Keeps (inScope scope action) := by
  intro context
  change ((action (context.push scope)).2).pop = context
  rw [ha]
  rfl

theorem Keeps.isolated (inside : Context) (action : Rendering α) : Keeps (isolated inside action) :=
  fun _ => rfl

end Rendering

/-! ### Runs that succeed -/

section Runs

variable {α β : Type}

theorem lift_apply (result : Except RenderError α) (context : Context) :
    (liftM result : Rendering α) context = (result, context) := by
  cases result with
  | error cause => rfl
  | ok value => rfl

theorem run_bind {action : Rendering α} {next : α → Rendering β} {context after : Context}
    {value : β} (h : (action >>= next) context = (.ok value, after)) :
    ∃ first between, action context = (.ok first, between) ∧ next first between = (.ok value, after) := by
  change ExceptT.bindCont next (action context).1 (action context).2 = _ at h
  rcases step : action context with ⟨first | first, between⟩
  · rw [step] at h
    cases h
  · rw [step] at h
    exact ⟨first, between, rfl, h⟩

theorem run_lift_bind {result : Except RenderError α} {next : α → Rendering β}
    {context after : Context} {value : β}
    (h : (liftM result >>= next : Rendering β) context = (.ok value, after)) :
    ∃ first, result = .ok first ∧ next first context = (.ok value, after) := by
  cases result with
  | error error => cases h
  | ok first => exact ⟨first, rfl, h⟩

theorem run_inScope {scope : Scope} {action : Rendering α} {context after : Context} {value : α}
    (h : Rendering.inScope scope action context = (.ok value, after)) :
    ∃ inner, action (context.push scope) = (.ok value, inner) ∧ inner.pop = after := by
  change ((action (context.push scope)).1, (action (context.push scope)).2.pop) = _ at h
  rw [Prod.mk.injEq] at h
  exact ⟨_, Prod.ext h.1 rfl, h.2⟩

end Runs

open Rendering (Keeps)
open Node (AllBasic partsOfAll partsOfArms partsOfOption)

/-- All templates that can be reached are basic. -/
def Setting.IsBasic (setting : Setting) : Prop :=
  ∀ ⦃name template⦄, setting.template? name = .ok (some template) → AllBasic (partsOfAll template.nodes)

/-- A template that extends none has no parent. -/
theorem parent?_eq_none_of_notMem {nodes : List Node} (single : ∀ parent, .extend parent ∉ partsOfAll nodes) :
    parent? nodes = none := by
  rw [parent?, List.findSome?_eq_none_iff]
  intro node m
  cases node with
  | extend parent => exact absurd (Node.mem_partsOfAll.2 ⟨_, m, Node.self_mem_parts _⟩) (single parent)
  | _ => rfl

theorem parent?_eq_none {nodes : List Node} (basic : AllBasic (partsOfAll nodes)) : parent? nodes = none :=
  parent?_eq_none_of_notMem fun _ m => by cases basic _ m

variable {setting : Setting} {jumps : Jumps}

theorem evaluate_apply (place : Place) (e : Expr) (context : Context) :
    evaluate setting jumps place e context = (eval setting jumps place.calls context e, context) :=
  lift_apply (eval setting jumps place.calls context e) context

theorem evaluate_bind {α : Type} {place : Place} {e : Expr} {context : Context} {value : Value}
    (h : eval setting jumps place.calls context e = .ok value) (next : Value → Rendering α) :
    (evaluate setting jumps place e >>= next) context = next value context := by
  change ExceptT.bindCont next (eval setting jumps place.calls context e) context = _
  rw [h]
  rfl

theorem run_evaluate_bind {α : Type} {place : Place} {e : Expr} {next : Value → Rendering α} {context after : Context}
    {result : α} (h : (evaluate setting jumps place e >>= next) context = (.ok result, after)) :
    ∃ value, eval setting jumps place.calls context e = .ok value ∧ next value context = (.ok result, after) := by
  obtain ⟨value, between, run, h⟩ := run_bind h
  rw [evaluate_apply, Prod.mk.injEq] at run
  obtain ⟨he, rfl⟩ := run
  exact ⟨value, he, h⟩

theorem run_evaluateAll_bind {α : Type} {place : Place} {es : List Expr} {next : List Value → Rendering α}
    {context after : Context} {result : α}
    (h : (evaluateAll setting jumps place es >>= next) context = (.ok result, after)) :
    ∃ values, evalAll setting jumps place.calls context es = .ok values ∧
      next values context = (.ok result, after) := by
  obtain ⟨values, between, run, h⟩ := run_bind h
  have run : (evalAll setting jumps place.calls context es, context) = (.ok values, between) :=
    (lift_apply (evalAll setting jumps place.calls context es) context).symm.trans run
  rw [Prod.mk.injEq] at run
  obtain ⟨he, rfl⟩ := run
  exact ⟨values, he, h⟩

theorem keeps_evaluate (place : Place) (e : Expr) : Keeps (evaluate setting jumps place e) :=
  Keeps.get.bind fun _ => .lift _

theorem keeps_evaluateAll (place : Place) (es : List Expr) : Keeps (evaluateAll setting jumps place es) :=
  Keeps.get.bind fun _ => .lift _

theorem keeps_forEach {targets : List String} {body : Rendering String} (hb : Keeps body) (length : Nat)
    (items : List Value) : ∀ index done, Keeps (forEach targets body length index items done) := by
  induction items with
  | nil => exact fun _ _ => .pure _
  | cons item items ih =>
    intro index done
    rw [forEach]
    exact (Keeps.lift _).bind fun scope => hb.inScope.bind fun text => ih _ _

theorem keeps_document {template : Template} (basic : AllBasic (partsOfAll template.nodes))
    (hb : ∀ place, place.overrides = [] → Keeps (jumps.body place template.nodes)) (depth calls : Nat) :
    Keeps (document setting jumps template depth calls) := by
  rw [document, layOut, parent?_eq_none basic]
  exact hb _ rfl

/-- Bodies that stand elsewhere leave the context as it was, if they are basic and replace no blocks. -/
def Jumps.Keep (jumps : Jumps) : Prop :=
  ∀ ⦃place nodes⦄, place.overrides = [] → AllBasic (partsOfAll nodes) → Keeps (jumps.body place nodes)

theorem keeps_include? (ht : setting.IsBasic) (hj : jumps.Keep) (place : Place) (name : String)
    (ignoreMissing withContext : Bool) :
    Keeps (include? setting jumps place name ignoreMissing withContext) := by
  rw [include?]
  refine .lift_bind fun found h => ?_
  cases found with
  | none =>
    cases ignoreMissing with
    | true => exact .pure _
    | false => exact .throw _
  | some included =>
    have text : Keeps (document setting jumps included (place.depth + 1) place.calls) :=
      keeps_document (ht h) (fun place plain => hj plain (ht h)) _ _
    have seen : Keeps (if withContext then Rendering.inScope [] (document setting jumps included
        (place.depth + 1) place.calls) else Rendering.isolated (.ofNamespace .empty) (document setting jumps
        included (place.depth + 1) place.calls)) := by
      cases withContext with
      | true => exact text.inScope
      | false => exact .isolated _ _
    by_cases deep : maxNesting ≤ place.depth
    · simp only [deep, if_true]
      exact (Keeps.throw _).bind fun _ => seen
    · simp only [deep, if_false]
      exact seen

section Nodes

set_option linter.unusedSectionVars false

variable (ht : setting.IsBasic) (hj : jumps.Keep) {place : Place} (plain : place.overrides = [])
include ht hj plain

mutual

theorem keeps_renderNode : ∀ {node : Node}, AllBasic node.parts → Keeps (renderNode setting jumps place node)
  | .text _, _ => .pure _
  | .output _, _ => (keeps_evaluate place _).bind fun _ => .pure _
  | .branch arms otherwise, basic => by
    simp only [Node.parts, Node.allBasic_cons, Node.allBasic_append] at basic
    rw [renderNode]
    exact keeps_renderArms basic.2.1 (keeps_renderOption basic.2.2)
  | .inclusion name ignoreMissing withContext, _ =>
    (keeps_evaluate place name).bind fun _ => keeps_include? ht hj place _ ignoreMissing withContext
  | .block name body, basic => by
    simp only [Node.parts, Node.allBasic_cons] at basic
    rw [renderNode, plain]
    exact keeps_renderNodes basic.2
  | .loop targets items body otherwise, basic => by
    simp only [Node.parts, Node.allBasic_cons, Node.allBasic_append] at basic
    rw [renderNode]
    refine (keeps_evaluate place items).bind fun value => (Keeps.lift _).bind fun items => ?_
    split
    · exact keeps_renderOption basic.2.2
    · exact keeps_forEach (keeps_renderNodes basic.2.1) _ _ _ _
  | .filterBlock name args body, basic => by
    simp only [Node.parts, Node.allBasic_cons] at basic
    rw [renderNode]
    exact (keeps_renderNodes basic.2).bind fun content => (keeps_evaluateAll place args).bind fun args =>
      (Keeps.lift _).bind fun _ => .pure _
  | .assign .., basic | .extend _, basic | .define .., basic | .callBlock .., basic | .importAs .., basic
  | .importFrom .., basic => by cases basic _ (Node.self_mem_parts _)

theorem keeps_renderNodes : ∀ {nodes : List Node}, AllBasic (partsOfAll nodes) →
    Keeps (renderNodes setting jumps place nodes)
  | [], _ => .pure _
  | node :: nodes, basic => by
    rw [Node.partsOfAll, Node.allBasic_append] at basic
    rw [renderNodes]
    exact (keeps_renderNode basic.1).bind fun text => (keeps_renderNodes basic.2).bind fun _ => .pure _

theorem keeps_renderArms : ∀ {arms : List (Expr × List Node)} {otherwise : Rendering String},
    AllBasic (partsOfArms arms) → Keeps otherwise → Keeps (renderArms setting jumps place arms otherwise)
  | [], _, _, ho => ho
  | (condition, body) :: arms, otherwise, basic, ho => by
    rw [Node.partsOfArms, Node.allBasic_append] at basic
    rw [renderArms]
    refine (keeps_evaluate place condition).bind fun value => ?_
    split
    · exact keeps_renderNodes basic.1
    · exact keeps_renderArms basic.2 ho

theorem keeps_renderOption : ∀ {body : Option (List Node)}, AllBasic (partsOfOption body) →
    Keeps (renderOption setting jumps place body)
  | none, _ => .pure _
  | some body, basic => keeps_renderNodes (by rwa [Node.partsOfOption] at basic)

end

end Nodes

/-- Basic templates leave the context as it was, however deep they include one another. -/
theorem keep_within (ht : setting.IsBasic) (n : Nat) : (Jumps.within setting n).Keep := by
  induction n with
  | zero => exact fun _ _ _ _ => Keeps.throw _
  | succ n ih => exact fun _ _ plain basic => keeps_renderNodes ht ih plain basic

end Folio.Template

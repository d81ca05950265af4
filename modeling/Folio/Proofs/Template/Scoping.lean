import Folio.Proofs.Template.Frame
import Mathlib.Order.Defs.Unbundled

/-! The scopes around what is rendered. Loops, inclusions and macros open scopes and close them again, also when
something fails inside, so a node leaves as many scopes as it finds and binds variables in the innermost one at most. A
loop that has an item and an inclusion bind none that is seen behind them. -/
namespace Folio.Template

namespace Context

variable {before after : Context}

/-- The same variables in the same scopes. What macros are known may differ. -/
structure SameScopes (before after : Context) : Prop where
  globals : after.globals = before.globals
  scopes : after.scopes = before.scopes

/-- As many scopes over the same namespace, of which the innermost may have other variables. -/
structure SameOuter (before after : Context) : Prop where
  globals : after.globals = before.globals
  depth : after.scopes.length = before.scopes.length
  outer : after.scopes.tail = before.scopes.tail

instance : IsPreorder Context SameScopes where
  refl _ := ⟨rfl, rfl⟩
  trans _ _ _ h h' := ⟨h'.globals.trans h.globals, h'.scopes.trans h.scopes⟩

instance : IsPreorder Context SameOuter where
  refl _ := ⟨rfl, rfl, rfl⟩
  trans _ _ _ h h' := ⟨h'.globals.trans h.globals, h'.depth.trans h.depth, h'.outer.trans h.outer⟩

theorem SameScopes.sameOuter (h : before.SameScopes after) : before.SameOuter after := by
  refine ⟨h.globals, ?_, ?_⟩
  · rw [h.scopes]
  · rw [h.scopes]

theorem SameScopes.lookup_eq (h : before.SameScopes after) (name : String) :
    after.lookup name = before.lookup name := by
  unfold lookup
  rw [h.globals, h.scopes]

/-- What was opened on top is all that may have changed. -/
theorem SameOuter.pop {scope : Scope} (h : (before.push scope).SameOuter after) : before.SameScopes after.pop :=
  ⟨h.globals, h.outer⟩

theorem sameOuter_assign (context : Context) (name : String) (value : Value) :
    context.SameOuter (context.assign name value) := by
  unfold assign
  split
  · exact refl context
  · rename_i scope outer scopes
    constructor <;> simp [scopes]

theorem sameScopes_bindMacro (context : Context) (name : String) (callable : Callable) :
    context.SameScopes (context.bindMacro name callable) :=
  ⟨rfl, rfl⟩

end Context

open Context (SameScopes SameOuter sameOuter_assign sameScopes_bindMacro)

namespace Rendering

variable {α β : Type} {R : Context → Context → Prop} {action : Rendering α}

/-- The context that the action leaves is related to the one that it finds, also when it fails. -/
structure Leaves (R : Context → Context → Prop) (action : Rendering α) : Prop where
  related : ∀ context, R context (action context).2

theorem Keeps.leaves [IsPreorder Context R] (h : Keeps action) : Leaves R action := by
  constructor
  intro context
  rw [h context]
  exact refl context

theorem Leaves.modify {f : Context → Context} (h : ∀ context, R context (f context)) :
    Leaves R (modify f : Rendering Unit) :=
  ⟨h⟩

theorem Leaves.bind [IsPreorder Context R] {next : α → Rendering β} (ha : Leaves R action)
    (hn : ∀ value, Leaves R (next value)) : Leaves R (action >>= next) := by
  constructor
  intro context
  change R context (ExceptT.bindCont next (action context).1 (action context).2).2
  cases (action context).1 with
  | error cause => exact ha.related context
  | ok value => exact IsTrans.trans _ _ _ (ha.related context) ((hn value).related _)

/-- An action that ends before it comes to what changes the context. -/
theorem Leaves.after [IsPreorder Context R] {next : α → Rendering β} (ha : Keeps action)
    (hn : ∀ value, Leaves R (next value)) : Leaves R (action >>= next) :=
  ha.leaves.bind hn

/-- An action in a scope of its own may bind variables in that scope. -/
theorem Leaves.inScope {scope : Scope} (h : Leaves SameOuter action) : Leaves SameScopes (inScope scope action) := by
  constructor
  intro context
  show context.SameScopes (action (context.push scope)).2.pop
  exact (h.related (context.push scope)).pop

theorem Leaves.sameOuter (h : Leaves SameScopes action) : Leaves SameOuter action :=
  ⟨fun context => (h.related context).sameOuter⟩

end Rendering

open Rendering (Keeps Leaves)

/-- Bodies that stand elsewhere bind variables in the innermost scope at most. -/
def Jumps.LeaveOuter (jumps : Jumps) : Prop :=
  ∀ place nodes, Leaves SameOuter (jumps.body place nodes)

/-- Rendering the node here binds no variable around it: the node is an inclusion, or a loop that has an item. -/
inductive Secludes (setting : Setting) (jumps : Jumps) (place : Place) (context : Context) : Node → Prop
  | inclusion (name : Expr) (ignoreMissing withContext : Bool) :
      Secludes setting jumps place context (.inclusion name ignoreMissing withContext)
  | loop {targets : List String} {e : Expr} {value item : Value} {items : List Value} {body : List Node}
      {otherwise : Option (List Node)} (evaluates : eval setting jumps place.calls context e = .ok value)
      (iterates : loopItems targets value = .ok (item :: items)) :
      Secludes setting jumps place context (.loop targets e body otherwise)

variable {setting : Setting} {jumps : Jumps} {place : Place}

/-! ### Loops and documents -/

theorem leaves_forEach {targets : List String} {body : Rendering String} (hb : Leaves SameOuter body) (length : Nat)
    (items : List Value) : ∀ index done, Leaves SameScopes (forEach targets body length index items done) := by
  induction items with
  | nil => exact fun _ _ => (Keeps.pure _).leaves
  | cons item items ih =>
    intro index done
    unfold forEach
    apply Leaves.after (Keeps.lift _)
    intro scope
    apply Leaves.bind hb.inScope
    intro text
    exact ih _ _

section Documents

variable (hj : jumps.LeaveOuter)
include hj

theorem leaves_layOut (start : String) (allowed : Nat) : ∀ (place : Place) (nodes : List Node),
    Leaves SameOuter (layOut setting jumps start allowed place nodes) := by
  induction allowed with
  | zero =>
    intro place nodes
    unfold layOut
    split
    · exact hj place nodes
    · apply Leaves.after (keeps_evaluate _ _)
      intro name
      exact Leaves.after (Keeps.lift _) fun parent => (Keeps.throw _).leaves
  | succ allowed ih =>
    intro place nodes
    unfold layOut
    split
    · exact hj place nodes
    · apply Leaves.after (keeps_evaluate _ _)
      intro name
      exact Leaves.after (Keeps.lift _) fun parent => ih _ _

theorem leaves_document (template : Template) (depth calls : Nat) :
    Leaves SameOuter (document setting jumps template depth calls) :=
  leaves_layOut hj _ _ _ _

theorem leaves_include? (place : Place) (name : String) (ignoreMissing withContext : Bool) :
    Leaves SameScopes (include? setting jumps place name ignoreMissing withContext) := by
  unfold include?
  apply Leaves.after (Keeps.lift _)
  intro found
  cases found with
  | none =>
    cases ignoreMissing with
    | true => exact (Keeps.pure _).leaves
    | false => exact (Keeps.throw _).leaves
  | some included =>
    have text : Leaves SameOuter (document setting jumps included (place.depth + 1) place.calls) :=
      leaves_document hj _ _ _
    have shown : Leaves SameScopes (if withContext then
        Rendering.inScope [] (document setting jumps included (place.depth + 1) place.calls)
        else Rendering.isolated (.ofNamespace .empty)
          (document setting jumps included (place.depth + 1) place.calls)) := by
      cases withContext with
      | true => exact text.inScope
      | false => exact (Keeps.isolated _ _).leaves
    dsimp only
    split
    · exact Leaves.after (Keeps.throw _) fun _ => shown
    · exact shown

end Documents

/-! ### Macros -/

theorem keeps_callWith (place : Place) (params : List Param) (body : List Node) (call : Expr) :
    Keeps (callWith setting jumps place params body call) := by
  unfold callWith
  apply Keeps.get.bind
  intro context
  dsimp only
  split
  · split
    · apply (keeps_evaluateAll _ _).bind
      intro args
      exact .lift _
    · exact .throw _
  · exact .throw _

theorem keeps_imported (place : Place) (template : Expr) : Keeps (imported setting jumps place template) := by
  unfold imported
  apply (keeps_evaluate _ _).bind
  intro name
  exact (Keeps.lift _).bind fun template => .pure _

theorem leaves_bindImported (offered : List Definition) (names : List (String × String)) :
    Leaves SameScopes (bindImported offered names) := by
  induction names with
  | nil => exact (Keeps.pure _).leaves
  | cons entry names ih =>
    obtain ⟨name, shown⟩ := entry
    unfold bindImported
    split
    · exact (Leaves.modify fun context => sameScopes_bindMacro context _ _).bind fun _ => ih
    · exact Leaves.after (Keeps.throw _) fun _ => ih

theorem sameScopes_foldl_bindMacro (group : String) (offered : List Definition) (context : Context) :
    context.SameScopes (offered.foldl (fun context definition =>
      context.bindMacro (group ++ "." ++ definition.name) ⟨definition, []⟩) context) := by
  induction offered generalizing context with
  | nil => exact refl context
  | cons definition offered ih => exact IsTrans.trans _ _ _ (sameScopes_bindMacro context _ _) (ih _)

/-! ### Nodes -/

section Nodes

set_option linter.unusedSectionVars false

variable (hj : jumps.LeaveOuter)
include hj

mutual

theorem leaves_renderNode : ∀ node : Node, Leaves SameOuter (renderNode setting jumps place node)
  | .text _ => (Keeps.pure _).leaves
  | .output e => by
    unfold renderNode
    exact Leaves.after (keeps_evaluate _ _) fun value => (Keeps.pure _).leaves
  | .branch arms otherwise => by
    unfold renderNode
    exact leaves_renderArms arms (leaves_renderOption otherwise)
  | .inclusion name ignoreMissing withContext => by
    unfold renderNode
    exact Leaves.after (keeps_evaluate _ _) fun name => (leaves_include? hj _ _ _ _).sameOuter
  | .block name body => by
    unfold renderNode
    split
    · exact hj place _
    · exact leaves_renderNodes body
  | .loop targets items body otherwise => by
    unfold renderNode
    apply Leaves.after (keeps_evaluate _ _)
    intro value
    apply Leaves.after (Keeps.lift _)
    intro items
    split
    · exact leaves_renderOption otherwise
    · exact (leaves_forEach (leaves_renderNodes body) _ _ _ _).sameOuter
  | .assign name value => by
    unfold renderNode
    apply Leaves.after (keeps_evaluate _ _)
    intro value
    exact (Leaves.modify fun context => sameOuter_assign context name value).bind fun _ => (Keeps.pure _).leaves
  | .extend _ => (Keeps.pure _).leaves
  | .define name params body => by
    unfold renderNode
    exact (Leaves.modify fun context => (sameScopes_bindMacro context name _).sameOuter).bind fun _ =>
      (Keeps.pure _).leaves
  | .callBlock params call body => (keeps_callWith place params body call).leaves
  | .filterBlock name args body => by
    unfold renderNode
    apply (leaves_renderNodes body).bind
    intro content
    apply Leaves.after (keeps_evaluateAll _ _)
    intro values
    exact Leaves.after (Keeps.lift _) fun value => (Keeps.pure _).leaves
  | .importAs template group => by
    unfold renderNode
    apply Leaves.after (keeps_imported _ _)
    intro offered
    exact (Leaves.modify fun context => (sameScopes_foldl_bindMacro group offered context).sameOuter).bind fun _ =>
      (Keeps.pure _).leaves
  | .importFrom template names => by
    unfold renderNode
    apply Leaves.after (keeps_imported _ _)
    intro offered
    exact (leaves_bindImported offered names).sameOuter.bind fun _ => (Keeps.pure _).leaves

theorem leaves_renderNodes : ∀ nodes : List Node, Leaves SameOuter (renderNodes setting jumps place nodes)
  | [] => (Keeps.pure _).leaves
  | node :: nodes => by
    unfold renderNodes
    apply (leaves_renderNode node).bind
    intro text
    exact (leaves_renderNodes nodes).bind fun more => (Keeps.pure _).leaves

theorem leaves_renderArms : ∀ (arms : List (Expr × List Node)) {otherwise : Rendering String},
    Leaves SameOuter otherwise → Leaves SameOuter (renderArms setting jumps place arms otherwise)
  | [], _, ho => ho
  | (condition, body) :: arms, _, ho => by
    unfold renderArms
    apply Leaves.after (keeps_evaluate _ _)
    intro value
    split
    · exact leaves_renderNodes body
    · exact leaves_renderArms arms ho

theorem leaves_renderOption : ∀ body : Option (List Node), Leaves SameOuter (renderOption setting jumps place body)
  | none => (Keeps.pure _).leaves
  | some body => leaves_renderNodes body

end

end Nodes

/-- Bodies that are reached through more and more jumps bind variables in the innermost scope at most. -/
theorem leaveOuter_within (setting : Setting) (n : Nat) : (Jumps.within setting n).LeaveOuter := by
  induction n with
  | zero => exact fun _ _ => (Keeps.throw _).leaves
  | succ n ih => exact fun _ nodes => leaves_renderNodes ih nodes

/-- A loop that has an item leaves the scopes as they were, and so does an inclusion. -/
theorem sameScopes_of_secludes (hj : jumps.LeaveOuter) {context : Context} {node : Node}
    (h : Secludes setting jumps place context node) :
    context.SameScopes (renderNode setting jumps place node context).2 := by
  cases h with
  | inclusion name ignoreMissing withContext =>
    unfold renderNode
    exact (Leaves.after (keeps_evaluate _ _) fun name => leaves_include? hj _ _ _ _).related context
  | loop evaluates iterates =>
    rename_i targets e value item items body otherwise
    have turns : renderNode setting jumps place (.loop targets e body otherwise) context =
        forEach targets (renderNodes setting jumps place body) (items.length + 1) 0 (item :: items) "" context := by
      rw [renderNode, evaluate_bind evaluates, iterates]
      rfl
    rw [turns]
    exact (leaves_forEach (leaves_renderNodes hj body) _ _ _ _).related context

/-- However a node is rendered, and whether it fails or not, there are as many scopes behind it as before, and all but
the innermost have the same variables. Behind an inclusion, and behind a loop that has an item, every variable has the
value that it had before. -/
theorem renderNode_scopes (setting : Setting) (n : Nat) (place : Place) (node : Node) (context : Context) :
    let after := (renderNode setting (.within setting n) place node context).2
    after.scopes.length = context.scopes.length ∧ after.scopes.tail = context.scopes.tail ∧
      (Secludes setting (.within setting n) place context node → ∀ name, after.lookup name = context.lookup name) := by
  have hj := leaveOuter_within setting n
  have kept : context.SameOuter (renderNode setting (.within setting n) place node context).2 :=
    (leaves_renderNode hj node).related context
  refine ⟨kept.depth, kept.outer, fun h name => ?_⟩
  exact (sameScopes_of_secludes hj h).lookup_eq name

theorem renderNode_scopes_of_failing_loop :
    let loop : Node := .loop ["item"] (.list [.literal (.string "1")])
      [.assign "x" (.var "item"), .output (.call (.var "f") [])] none
    let context := (Context.ofNamespace .empty).assign "x" (.string "0")
    let run := renderNode (.alone .english) (.within (.alone .english) 1) ⟨[], 0, 0⟩ loop context
    Secludes (.alone .english) (.within (.alone .english) 1) ⟨[], 0, 0⟩ context loop ∧
      run.1 = .error .notCallable ∧ run.2.lookup "x" = .string "0" := by
  intro loop context run
  have secludes : Secludes (.alone .english) (.within (.alone .english) 1) ⟨[], 0, 0⟩ context loop := by
    apply Secludes.loop
    · show eval _ _ 0 context _ = .ok (.seq [.string "1"])
      rfl
    · exact loopItems.eq_1 ..
  refine ⟨secludes, ?_, ?_⟩
  · show run.1 = _
    rfl
  · exact (renderNode_scopes (.alone .english) 1 ⟨[], 0, 0⟩ loop context).2.2 secludes "x"

end Folio.Template

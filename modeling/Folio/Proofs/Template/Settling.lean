import Folio.Library
import Folio.Proofs.Template.Operation

/-! Rendering with a bounded number of nested jumps. A rendering that is allowed too few of them is unsettled;
once it is not, more jumps change nothing, so what a template renders to does not depend on how many there are. -/
namespace Folio.Template

/-! ### Results -/

/-- Rendering has come to a result, be it an error: it has not run out of jumps. -/
def Settled {α : Type} (result : Except RenderError α) : Prop :=
  result ≠ .error .unsettled

namespace Settled

variable {α β : Type} {result : Except RenderError α}

theorem ok (value : α) : Settled (.ok value) :=
  nofun

theorem error {cause : RenderError} (h : cause ≠ .unsettled) : Settled (.error cause : Except RenderError α) :=
  fun same => h (Except.error.inj same)

theorem bind {f : α → Except RenderError β} (h : Settled result) (hf : ∀ value, Settled (f value)) :
    Settled (result >>= f) := by
  cases result with
  | error cause => exact error fun same => h (congrArg Except.error same)
  | ok value => exact hf value

theorem map_iff (f : α → β) : Settled (result.map f) ↔ Settled result := by
  cases result with
  | error cause => exact ⟨fun h same => h (congrArg (Except.map f) same), fun h same => h (by cases same; rfl)⟩
  | ok value => exact ⟨fun _ => ok value, fun _ => ok (f value)⟩

end Settled

/-! ### Approximation -/

/-- The first result is unsettled, or both are the same. -/
def Approximates {α : Type} (a b : Except RenderError α) : Prop :=
  a = .error .unsettled ∨ a = b

namespace Approximates

variable {α β : Type} {a b : Except RenderError α}

theorem refl (a : Except RenderError α) : Approximates a a :=
  .inr rfl

theorem eq_of_settled (h : Approximates a b) (settled : Settled a) : b = a := by
  rcases h with h | h
  · exact absurd h settled
  · exact h.symm

theorem bind {f g : α → Except RenderError β} (h : Approximates a b) (hf : ∀ value, Approximates (f value) (g value)) :
    Approximates (a >>= f) (b >>= g) := by
  rcases h with rfl | rfl
  · exact .inl rfl
  · cases a with
    | error error => exact refl _
    | ok value => exact hf value

end Approximates

namespace Rendering

variable {α β : Type}

/-- From every context the first action is unsettled, or both do the same. -/
def Approximates (a b : Rendering α) : Prop :=
  ∀ context, (a context).1 = .error .unsettled ∨ a context = b context

namespace Approximates

variable {a b : Rendering α}

theorem refl (a : Rendering α) : Approximates a a :=
  fun _ => .inr rfl

theorem lift {a b : Except RenderError α} (h : Template.Approximates a b) :
    Approximates (liftM a) (liftM b) := by
  intro context
  rcases h with rfl | rfl
  · exact .inl rfl
  · exact .inr rfl

theorem bind {f g : α → Rendering β} (h : Approximates a b) (hf : ∀ value, Approximates (f value) (g value)) :
    Approximates (a >>= f) (b >>= g) := by
  intro context
  change (ExceptT.bindCont f (a context).1 (a context).2).1 = _ ∨
    ExceptT.bindCont f (a context).1 (a context).2 = ExceptT.bindCont g (b context).1 (b context).2
  rcases h context with h | h
  · rw [h]
    exact .inl rfl
  · rw [← h]
    cases (a context).1 with
    | error error => exact .inr rfl
    | ok value => exact hf value _

theorem ite {c : Prop} [Decidable c] {a' b' : Rendering α} (h : Approximates a b) (h' : Approximates a' b') :
    Approximates (if c then a else a') (if c then b else b') := by
  split
  · exact h
  · exact h'

theorem inScope (scope : Scope) (h : Approximates a b) :
    Approximates (Rendering.inScope scope a) (Rendering.inScope scope b) := by
  intro context
  change (a (context.push scope)).1 = _ ∨
    ((a (context.push scope)).1, (a (context.push scope)).2.pop) =
      ((b (context.push scope)).1, (b (context.push scope)).2.pop)
  exact (h (context.push scope)).imp_right fun h => by rw [h]

theorem isolated (inside : Context) (h : Approximates a b) :
    Approximates (Rendering.isolated inside a) (Rendering.isolated inside b) := by
  intro context
  change (a inside).1 = _ ∨ ((a inside).1, context) = ((b inside).1, context)
  exact (h inside).imp_right fun h => by rw [h]

theorem forEach (targets : List String) {a b : Rendering String} (h : Approximates a b) (length : Nat)
    (items : List Value) : ∀ index done,
    Approximates (Template.forEach targets a length index items done)
      (Template.forEach targets b length index items done) := by
  induction items with
  | nil => exact fun _ _ => .refl _
  | cons item items ih =>
    intro index done
    rw [Template.forEach, Template.forEach]
    exact (refl _).bind fun scope => (h.inScope _).bind fun text => ih _ _

end Approximates

end Rendering

/-- Wherever the first jumps settle, the second ones lead to the same. -/
structure Jumps.Approximate (a b : Jumps) : Prop where
  value : ∀ calls context e, Approximates (a.value calls context e) (b.value calls context e)
  body : ∀ place nodes, Rendering.Approximates (a.body place nodes) (b.body place nodes)

section Jumps

set_option linter.unusedSectionVars false

variable {setting : Setting} {a b : Jumps} (h : a.Approximate b)
include h

/-! ### Expressions -/

theorem approximates_bindParams (calls : Nat) (context : Context) (params : List Param) :
    ∀ (args : List Value) (bound : Scope),
      Approximates (bindParams a calls context params args bound) (bindParams b calls context params args bound) := by
  induction params with
  | nil => exact fun _ _ => .refl _
  | cons param params ih =>
    rintro (_ | ⟨arg, args⟩) bound
    · rw [bindParams, bindParams]
      refine .bind ?_ fun value => ih _ _
      cases param.default with
      | none => exact .refl _
      | some e => exact h.value calls context e
    · exact ih _ _

theorem approximates_invoke (calls : Nat) (callable : Callable) (args : List Value) (context : Context)
    (caller : Option Callable) :
    Approximates (invoke a calls callable args context caller) (invoke b calls callable args context caller) := by
  rw [invoke, invoke]
  split
  · exact .inr rfl
  · refine (approximates_bindParams h calls context _ _ _).bind fun bound => ?_
    exact (h.body _ _ _).imp_right fun same => congrArg Prod.fst same

mutual

theorem approximates_eval (calls : Nat) (context : Context) :
    ∀ e, Approximates (eval setting a calls context e) (eval setting b calls context e)
  | .literal _ | .var _ => .refl _
  | .lookup left right | .compare _ left right | .binary _ left right => by
    rw [eval, eval]
    exact (approximates_eval calls context left).bind fun _ =>
      (approximates_eval calls context right).bind fun _ => .refl _
  | .and left right | .or left right => by
    rw [eval, eval]
    refine (approximates_eval calls context left).bind fun value => ?_
    split
    · first | exact approximates_eval calls context right | exact .refl _
    · first | exact approximates_eval calls context right | exact .refl _
  | .not inner | .isDefined inner | .neg inner => by
    rw [eval, eval]
    exact (approximates_eval calls context inner).bind fun _ => .refl _
  | .filter _ target args | .test _ target args _ => by
    rw [eval, eval]
    exact (approximates_eval calls context target).bind fun _ =>
      (approximates_evalAll calls context args).bind fun _ => .refl _
  | .call callee args => by
    have all := approximates_evalAll calls context args
    rw [eval, eval]
    split
    · exact all.bind fun args => (approximates_invoke h calls _ args context none).bind fun _ => .refl _
    · rw [callFunction.eq_def, callFunction.eq_def]
      split
      · exact all.bind fun _ => .refl _
      · exact .refl _
  | .list items => by
    rw [eval, eval]
    exact (approximates_evalAll calls context items).bind fun _ => .refl _
  | .dict entries => by
    rw [eval, eval]
    exact (approximates_evalEntries calls context entries).bind fun _ => .refl _
  | .inlineIf value condition otherwise => by
    rw [eval, eval]
    refine (approximates_eval calls context condition).bind fun holds => ?_
    split
    · exact approximates_eval calls context value
    · exact approximates_evalOption calls context otherwise

theorem approximates_evalAll (calls : Nat) (context : Context) :
    ∀ es, Approximates (evalAll setting a calls context es) (evalAll setting b calls context es)
  | [] => .refl _
  | e :: es => by
    rw [evalAll, evalAll]
    exact (approximates_eval calls context e).bind fun _ =>
      (approximates_evalAll calls context es).bind fun _ => .refl _

theorem approximates_evalEntries (calls : Nat) (context : Context) :
    ∀ entries, Approximates (evalEntries setting a calls context entries) (evalEntries setting b calls context entries)
  | [] => .refl _
  | (key, value) :: entries => by
    rw [evalEntries, evalEntries]
    exact (approximates_eval calls context key).bind fun _ => (approximates_eval calls context value).bind fun _ =>
      (approximates_evalEntries calls context entries).bind fun _ => .refl _

theorem approximates_evalOption (calls : Nat) (context : Context) :
    ∀ e?, Approximates (evalOption setting a calls context e?) (evalOption setting b calls context e?)
  | none => .refl _
  | some e => approximates_eval calls context e

end

/-! ### Nodes -/

theorem approximates_evaluate (place : Place) (e : Expr) :
    Rendering.Approximates (evaluate setting a place e) (evaluate setting b place e) :=
  (Rendering.Approximates.refl get).bind fun context => .lift (approximates_eval h place.calls context e)

theorem approximates_evaluateAll (place : Place) (es : List Expr) :
    Rendering.Approximates (evaluateAll setting a place es) (evaluateAll setting b place es) :=
  (Rendering.Approximates.refl get).bind fun context => .lift (approximates_evalAll h place.calls context es)

theorem approximates_layOut (start : String) (allowed : Nat) : ∀ (place : Place) (nodes : List Node),
    Rendering.Approximates (layOut setting a start allowed place nodes)
      (layOut setting b start allowed place nodes) := by
  induction allowed with
  | zero =>
    intro place nodes
    rw [layOut.eq_def, layOut.eq_def]
    split
    · exact h.body _ _
    · exact (approximates_evaluate h place _).bind fun _ => .refl _
  | succ allowed ih =>
    intro place nodes
    rw [layOut.eq_def, layOut.eq_def]
    split
    · exact h.body _ _
    · exact (approximates_evaluate h place _).bind fun _ => (Rendering.Approximates.refl _).bind fun _ => ih _ _

theorem approximates_document (template : Template) (depth calls : Nat) :
    Rendering.Approximates (document setting a template depth calls) (document setting b template depth calls) :=
  approximates_layOut h _ _ _ _

theorem approximates_include? (place : Place) (name : String) (ignoreMissing withContext : Bool) :
    Rendering.Approximates (include? setting a place name ignoreMissing withContext)
      (include? setting b place name ignoreMissing withContext) := by
  rw [include?, include?]
  refine (Rendering.Approximates.refl _).bind fun found => ?_
  cases found with
  | none => exact .refl _
  | some included =>
    have text : Rendering.Approximates (document setting a included (place.depth + 1) place.calls)
        (document setting b included (place.depth + 1) place.calls) := approximates_document h _ _ _
    have seen := (text.inScope []).ite (c := withContext = true) (text.isolated (.ofNamespace .empty))
    exact .ite (.bind (.refl _) fun _ => seen) seen

theorem approximates_callWith (place : Place) (params : List Param) (body : List Node) (call : Expr) :
    Rendering.Approximates (callWith setting a place params body call)
      (callWith setting b place params body call) := by
  rw [callWith, callWith]
  refine (Rendering.Approximates.refl get).bind fun context => ?_
  split
  · split
    · exact (approximates_evaluateAll h place _).bind fun args =>
        .lift (approximates_invoke h place.calls _ args context _)
    · exact .refl _
  · exact .refl _

theorem approximates_imported (place : Place) (template : Expr) :
    Rendering.Approximates (imported setting a place template) (imported setting b place template) :=
  (approximates_evaluate h place template).bind fun _ => .refl _

mutual

theorem approximates_renderNode (place : Place) : ∀ node,
    Rendering.Approximates (renderNode setting a place node) (renderNode setting b place node)
  | .text _ | .extend _ | .define .. => .refl _
  | .output e => (approximates_evaluate h place e).bind fun _ => .refl _
  | .branch arms otherwise => by
    rw [renderNode, renderNode]
    exact approximates_renderArms place arms (approximates_renderOption place otherwise)
  | .inclusion name ignoreMissing withContext =>
    (approximates_evaluate h place name).bind fun _ => approximates_include? h place _ _ _
  | .block name body => by
    rw [renderNode, renderNode]
    split
    · exact h.body _ _
    · exact approximates_renderNodes place body
  | .loop targets items body otherwise => by
    rw [renderNode, renderNode]
    refine (approximates_evaluate h place items).bind fun value => (Rendering.Approximates.refl _).bind fun items => ?_
    exact .ite (approximates_renderOption place otherwise)
      ((approximates_renderNodes place body).forEach targets _ _ _ _)
  | .assign _ value => (approximates_evaluate h place value).bind fun _ => .refl _
  | .callBlock params call body => approximates_callWith h place params body call
  | .filterBlock _ args body => by
    rw [renderNode, renderNode]
    exact (approximates_renderNodes place body).bind fun _ => (approximates_evaluateAll h place args).bind fun _ =>
      .refl _
  | .importAs template _ => (approximates_imported h place template).bind fun _ => .refl _
  | .importFrom template _ => (approximates_imported h place template).bind fun _ => .refl _

theorem approximates_renderNodes (place : Place) : ∀ nodes,
    Rendering.Approximates (renderNodes setting a place nodes) (renderNodes setting b place nodes)
  | [] => .refl _
  | node :: nodes => by
    rw [renderNodes, renderNodes]
    exact (approximates_renderNode place node).bind fun _ => (approximates_renderNodes place nodes).bind fun _ =>
      .refl _

theorem approximates_renderArms (place : Place) : ∀ arms {otherwise otherwise' : Rendering String},
    Rendering.Approximates otherwise otherwise' →
    Rendering.Approximates (renderArms setting a place arms otherwise) (renderArms setting b place arms otherwise')
  | [], _, _, ho => ho
  | (condition, body) :: arms, _, _, ho => by
    rw [renderArms, renderArms]
    exact (approximates_evaluate h place condition).bind fun _ =>
      .ite (approximates_renderNodes place body) (approximates_renderArms place arms ho)

theorem approximates_renderOption (place : Place) : ∀ body,
    Rendering.Approximates (renderOption setting a place body) (renderOption setting b place body)
  | none => .refl _
  | some body => approximates_renderNodes place body

end

end Jumps

/-! ### Operations -/

theorem settled_of_operational {α : Type} {result : Except RenderError α} (h : Operational result) :
    Settled result := by
  intro same
  cases h same

theorem settled_test (value : Value) (args : List Value) (test : String) : Settled (value.test test args) := by
  intro same
  rcases test_of_error same with h | ⟨h, -⟩
  · cases h
  · cases h

/-! ### Templates by name -/

theorem settled_require {setting : Setting} (settled : ∀ name, Settled (setting.template? name)) (name : String) :
    Settled (require setting name) :=
  (settled name).bind fun found => by
    cases found with
    | none => exact .error nofun
    | some template => exact .ok _

theorem require_of_template? {setting : Setting} {name : String} {template : Template}
    (found : setting.template? name = .ok (some template)) : require setting name = .ok template := by
  rw [require, found]
  rfl

theorem settled_template? (library : Library) (name : String) : Settled (library.setting.template? name) := by
  change Settled (library.template? name)
  rw [Library.template?]
  split
  · exact .ok _
  · exact .error nofun
  · exact .ok _

/-! ### Budgets -/

/-- Whatever settles within a number of jumps is the same with more of them. -/
theorem approximate_within (setting : Setting) {n m : Nat} (le : n ≤ m) :
    (Jumps.within setting n).Approximate (.within setting m) := by
  induction n generalizing m with
  | zero => exact ⟨fun _ _ _ => .inl rfl, fun _ _ _ => .inl rfl⟩
  | succ n ih =>
    obtain ⟨m, rfl⟩ : ∃ k, m = k + 1 := ⟨m - 1, by omega⟩
    have inner := ih (m := m) (by omega)
    exact ⟨fun calls context e => approximates_eval inner calls context e,
      fun place nodes => approximates_renderNodes inner place nodes⟩

/-- The text of a template for a namespace, if so many nested jumps are allowed. -/
def renderWithin (setting : Setting) (budget : Nat) (template : Template) (globals : Namespace) :
    Except RenderError String :=
  (document setting (Jumps.within setting budget) template 0 0 (.ofNamespace globals)).1

theorem render_eq_renderWithin (setting : Setting) (template : Template) (globals : Namespace) :
    template.render setting globals = renderWithin setting maxJumps template globals :=
  rfl

variable {setting : Setting} {template : Template} {globals : Namespace}

theorem renderWithin_eq_of_le {n m : Nat} (le : n ≤ m)
    (settled : Settled (renderWithin setting n template globals)) :
    renderWithin setting m template globals = renderWithin setting n template globals := by
  have h : Rendering.Approximates (document setting (.within setting n) template 0 0)
      (document setting (.within setting m) template 0 0) := approximates_document (approximate_within setting le) _ _ _
  exact Approximates.eq_of_settled ((h _).imp_right fun same => congrArg Prod.fst same) settled

/-- Rendering ends: from some number of allowed jumps on, it comes to one result. -/
def Ends (setting : Setting) (template : Template) (globals : Namespace) : Prop :=
  ∃ result, Settled result ∧ ∃ enough, ∀ budget, enough ≤ budget →
    renderWithin setting budget template globals = result

theorem ends_iff : Ends setting template globals ↔
    ∃ budget, Settled (renderWithin setting budget template globals) := by
  constructor
  · rintro ⟨result, settled, enough, same⟩
    exact ⟨enough, by rwa [same enough (Nat.le_refl _)]⟩
  · rintro ⟨budget, settled⟩
    exact ⟨_, settled, budget, fun _ le => renderWithin_eq_of_le le settled⟩

end Folio.Template

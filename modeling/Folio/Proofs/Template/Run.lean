import Folio.Proofs.Template.Frame
import Folio.Proofs.Template.Moment
import Folio.Proofs.Template.Part
import Folio.Proofs.Template.Settling

/-! What holds at every moment of rendering. A rendering fails with whatever one of its moments fails with, and
what every node keeps holds wherever rendering comes to. -/
namespace Folio

/-- The node binds or calls macros, or shows what stands elsewhere. -/
def Node.reaches : Node → Bool
  | .inclusion .. | .block .. | .define .. | .callBlock .. | .importAs .. | .importFrom .. => true
  | _ => false

namespace Template

open Node (partsOfAll partsOfArms partsOfOption)

/-! ### Failures -/

/-- The node fails when rendering comes to it. -/
def Moment.Fails (setting : Setting) (moment : Moment) (cause : RenderError) : Prop :=
  (renderNode setting moment.jumps moment.place moment.node moment.context).1 = .error cause

/-- The action fails with whatever one of its moments fails with. -/
def Breaks {α : Type} (setting : Setting) (action : Rendering α) (moments : Context → List Moment) : Prop :=
  ∀ ⦃context moment cause⦄, moment ∈ moments context → moment.Fails setting cause →
    (action context).1 = .error cause

theorem mem_following {α : Type} {action : Rendering α} {next : α → Context → List Moment} {context : Context}
    {moment : Moment} (m : moment ∈ following action next context) :
    ∃ value after, action context = (.ok value, after) ∧ moment ∈ next value after := by
  rw [following] at m
  split at m
  · exact ⟨_, _, ‹_›, m⟩
  · cases m

namespace Breaks

variable {setting : Setting} {α β : Type} {action : Rendering α} {moments : Context → List Moment}

theorem none : Breaks setting action (fun _ => []) :=
  nofun

theorem append {more : Context → List Moment} (h : Breaks setting action moments)
    (hm : Breaks setting action more) : Breaks setting action (fun context => moments context ++ more context) := by
  intro context moment cause m fails
  rcases List.mem_append.1 m with m | m
  · exact h m fails
  · exact hm m fails

/-- What the first action comes to. -/
theorem first (h : Breaks setting action moments) (next : α → Rendering β) :
    Breaks setting (action >>= next) moments := by
  intro context moment cause m fails
  have failed := h m fails
  change (ExceptT.bindCont next (action context).1 (action context).2).1 = _
  rw [failed]
  rfl

/-- What follows the first action. -/
theorem next {next : α → Rendering β} {later : α → Context → List Moment}
    (h : ∀ value, Breaks setting (next value) (later value)) :
    Breaks setting (action >>= next) (following action later) := by
  intro context moment cause m fails
  obtain ⟨value, after, run, m⟩ := mem_following m
  change (ExceptT.bindCont next (action context).1 (action context).2).1 = _
  rw [run]
  exact h value m fails

theorem bind {next : α → Rendering β} {later : α → Context → List Moment} (h : Breaks setting action moments)
    (hn : ∀ value, Breaks setting (next value) (later value)) :
    Breaks setting (action >>= next) (fun context => moments context ++ following action later context) :=
  (h.first next).append (.next hn)

theorem lift_bind {result : Except RenderError α} {next : α → Rendering β}
    (h : ∀ value, result = .ok value → Breaks setting (next value) moments) (hm : ∀ cause, result = .error cause →
      ∀ context, moments context = []) : Breaks setting (liftM result >>= next) moments := by
  intro context moment cause m fails
  cases result with
  | error cause =>
    rw [hm cause rfl] at m
    cases m
  | ok value => exact h value rfl m fails

/-- The moment of a node in front of those of its bodies. -/
theorem after {jumps : Jumps} {place : Place} {view : View} {node : Node}
    (h : Breaks setting (renderNode setting jumps place node) moments) :
    Breaks setting (renderNode setting jumps place node)
      (fun context => ⟨jumps, place, view, node, context⟩ :: moments context) := by
  intro context moment cause m fails
  rcases List.mem_cons.1 m with rfl | m
  · exact fails
  · exact h m fails

theorem inScope (scope : Scope) (h : Breaks setting action moments) :
    Breaks setting (Rendering.inScope scope action) (fun context => moments (context.push scope)) :=
  fun _ _ _ m fails => h m fails

theorem isolated (inside : Context) (h : Breaks setting action moments) :
    Breaks setting (Rendering.isolated inside action) (fun _ => moments inside) :=
  fun _ _ _ m fails => h m fails

end Breaks

theorem following_inScope {α : Type} (scope : Scope) (action : Rendering α) (next : α → Context → List Moment)
    (context : Context) : following (Rendering.inScope scope action) next context =
      following action (fun value after => next value after.pop) (context.push scope) := by
  rw [following, following, show Rendering.inScope scope action context =
    ((action (context.push scope)).1, (action (context.push scope)).2.pop) from rfl]
  rcases action (context.push scope) with ⟨_ | _, after⟩
  · rfl
  · rfl

section Bodies

variable {setting : Setting} {jumps : Jumps}
variable {elsewhere : Place → View → List Node → Context → List Moment}

theorem breaks_forEach {targets : List String} {body : Rendering String} {inside : Context → List Moment}
    (h : Breaks setting body inside) (length : Nat) (items : List Value) : ∀ index done,
    Breaks setting (forEach targets body length index items done)
      (momentsOfEach targets body inside length index items) := by
  induction items with
  | nil => exact fun _ _ => .none
  | cons item items ih =>
    intro index done
    rw [forEach]
    refine .lift_bind (fun scope bound => ?_) fun cause failed context => by rw [momentsOfEach, failed]
    have rest := (h.inScope (Fields.put loopName (progress index length) scope)).bind
      fun text => ih (index + 1) (done ++ text)
    simpa only [momentsOfEach, bound, following_inScope] using rest

/-- The bodies that stand elsewhere fail with whatever one of their moments fails with. -/
def BreaksElsewhere (setting : Setting) (jumps : Jumps)
    (elsewhere : Place → View → List Node → Context → List Moment) : Prop :=
  ∀ place view nodes, Breaks setting (jumps.body place nodes) (elsewhere place view nodes)

section Nodes

set_option linter.unusedSectionVars false

variable (he : BreaksElsewhere setting jumps elsewhere)
include he

theorem breaks_layOut (start : String) (view : View) (allowed : Nat) : ∀ (place : Place) (nodes : List Node),
    Breaks setting (layOut setting jumps start allowed place nodes)
      (momentsOfLayers setting jumps elsewhere view allowed place nodes) := by
  induction allowed with
  | zero =>
    intro place nodes
    rw [layOut.eq_def, funext (momentsOfLayers.eq_def _ _ _ _ _ _ _)]
    cases parent? nodes with
    | none => exact he place view nodes
    | some e => exact .next fun name => .none
  | succ allowed ih =>
    intro place nodes
    rw [layOut.eq_def, funext (momentsOfLayers.eq_def _ _ _ _ _ _ _)]
    cases parent? nodes with
    | none => exact he place view nodes
    | some e =>
      refine .next fun name => ?_
      rw [require]
      cases setting.template? name.text with
      | error cause => exact .none
      | ok found =>
        cases found with
        | none => exact .none
        | some parent => exact ih _ _

theorem breaks_document (template : Template) (depth calls : Nat) (view : View) :
    Breaks setting (document setting jumps template depth calls)
      (momentsOfDocument setting jumps elsewhere template depth calls view) :=
  breaks_layOut he _ _ _ _ _

theorem breaks_include? (place : Place) (view : View) (name : String) (ignoreMissing withContext : Bool) :
    Breaks setting (include? setting jumps place name ignoreMissing withContext)
      (momentsOfInclusion setting jumps elsewhere place view name withContext) := by
  rw [include?, funext (momentsOfInclusion.eq_def _ _ _ _ _ _ _)]
  cases setting.template? name with
  | error cause => exact .none
  | ok found =>
    cases found with
    | none => exact .none
    | some included =>
      have inside := breaks_document he included (place.depth + 1) place.calls (view.inInclusion withContext)
      by_cases deep : maxNesting ≤ place.depth
      · simp only [deep, if_true]
        exact .none
      · simp only [deep, if_false]
        cases withContext with
        | true => exact inside.inScope []
        | false => exact inside.isolated (.ofNamespace .empty)

mutual

theorem breaks_momentsOf (place : Place) : ∀ (view : View) (node : Node),
    Breaks setting (renderNode setting jumps place node) (momentsOf setting jumps elsewhere place view node)
  | view, .text content | view, .output e | view, .assign name value | view, .extend parent
  | view, .define name params body | view, .callBlock params call body | view, .importAs template group
  | view, .importFrom template names => Breaks.none.after
  | view, .branch arms otherwise =>
    (breaks_momentsOfArms place view arms (breaks_momentsOfOption place view otherwise)).after
  | view, .inclusion name ignoreMissing withContext =>
    (Breaks.next fun (name : Value) => breaks_include? he place view name.text ignoreMissing withContext).after
  | view, .block name body => by
    rw [funext (momentsOf.eq_def _ _ _ _ _ _)]
    refine Breaks.after ?_
    rw [renderNode]
    cases place.overrides.lookup name with
    | some replacement => exact he place view replacement
    | none => exact breaks_momentsOfAll place view body
  | view, .loop targets items body otherwise => by
    rw [funext (momentsOf.eq_def _ _ _ _ _ _)]
    refine Breaks.after ?_
    rw [renderNode]
    refine .next fun value => ?_
    cases loopItems targets value with
    | error cause => exact .none
    | ok items =>
      change Breaks setting (if items.isEmpty then _ else _) (fun context => if items.isEmpty then _ else _)
      cases items.isEmpty with
      | true => exact breaks_momentsOfOption place view otherwise
      | false => exact breaks_forEach (breaks_momentsOfAll place (view.inLoop targets) body) _ _ _ _
  | view, .filterBlock name args body => by
    rw [funext (momentsOf.eq_def _ _ _ _ _ _)]
    refine Breaks.after ?_
    rw [renderNode]
    exact (breaks_momentsOfAll place view body).first _

theorem breaks_momentsOfAll (place : Place) : ∀ (view : View) (nodes : List Node),
    Breaks setting (renderNodes setting jumps place nodes) (momentsOfAll setting jumps elsewhere place view nodes)
  | _, [] => .none
  | view, node :: nodes =>
    (breaks_momentsOf place view node).bind fun _ => (breaks_momentsOfAll place view nodes).first _

theorem breaks_momentsOfArms (place : Place) : ∀ (view : View) (arms : List (Expr × List Node))
    {otherwise : Rendering String} {rest : Context → List Moment}, Breaks setting otherwise rest →
    Breaks setting (renderArms setting jumps place arms otherwise)
      (momentsOfArms setting jumps elsewhere place view arms rest)
  | _, [], _, _, ho => ho
  | view, (condition, body) :: arms, _, _, ho => by
    rw [renderArms, funext (momentsOfArms.eq_def _ _ _ _ _ _ _)]
    refine .next fun value => ?_
    cases value.isTruthy with
    | true => exact breaks_momentsOfAll place view body
    | false => exact breaks_momentsOfArms place view arms ho

theorem breaks_momentsOfOption (place : Place) : ∀ (view : View) (body : Option (List Node)),
    Breaks setting (renderOption setting jumps place body)
      (momentsOfOption setting jumps elsewhere place view body)
  | _, none => .none
  | view, some body => breaks_momentsOfAll place view body

end

end Nodes

end Bodies

/-- However deep the jumps, a body fails with whatever one of its moments fails with. -/
theorem breaksElsewhere_within (setting : Setting) (n : Nat) :
    BreaksElsewhere setting (.within setting n) (momentsWithin setting n) := by
  induction n with
  | zero => exact fun _ _ _ => .none
  | succ n ih => exact fun place view nodes => breaks_momentsOfAll ih place view nodes

/-- A rendering fails with whatever one of its moments fails with. -/
theorem render_eq_error {setting : Setting} {template : Template} {globals : Namespace} {moment : Moment}
    {cause : RenderError} (m : moment ∈ template.moments setting globals) (fails : moment.Fails setting cause) :
    template.render setting globals = .error cause :=
  breaks_document (breaksElsewhere_within setting maxJumps) template 0 0 .outermost m fails

/-! ### Templates without a parent -/

section Single

variable {template : Template} (single : parent? template.nodes = none) (setting : Setting)
include single

theorem document_eq (jumps : Jumps) : document setting jumps template 0 0 = jumps.body ⟨[], 0, 0⟩ template.nodes := by
  rw [document, layOut.eq_def, single]

theorem moments_eq (globals : Namespace) : template.moments setting globals =
    momentsWithin setting maxJumps ⟨[], 0, 0⟩ .outermost template.nodes (.ofNamespace globals) := by
  rw [moments, momentsOfDocument, momentsOfLayers.eq_def, single]

end Single

/-! ### Invariants -/

/-- From a context with the invariant the action fails only for an admitted cause, leaves a context with the
invariant, and comes only to moments with their property. -/
structure Runs {α : Type} (admitted : RenderError → Prop) (invariant : Context → Prop) (property : Moment → Prop)
    (action : Rendering α) (moments : Context → List Moment) : Prop where
  cause : ∀ ⦃context cause⦄, invariant context → (action context).1 = .error cause → admitted cause
  after : ∀ ⦃context⦄, invariant context → invariant (action context).2
  moment : ∀ ⦃context⦄, invariant context → ∀ moment ∈ moments context, property moment

namespace Runs

variable {admitted : RenderError → Prop} {invariant : Context → Prop} {property : Moment → Prop} {α β : Type}
variable {action : Rendering α} {moments : Context → List Moment}

theorem pure (value : α) : Runs admitted invariant property (pure value) (fun _ => []) :=
  ⟨nofun, fun _ h => h, nofun⟩

theorem throw {cause : RenderError} (h : admitted cause) :
    Runs admitted invariant property (throw cause : Rendering α) (fun _ => []) :=
  ⟨fun _ _ _ same => Except.error.inj same ▸ h, fun _ h => h, nofun⟩

theorem lift {result : Except RenderError α} (h : ∀ cause, result = .error cause → admitted cause) :
    Runs admitted invariant property (liftM result) (fun _ => []) := by
  cases result with
  | error cause => exact .throw (h cause rfl)
  | ok value => exact .pure value

theorem modify {f : Context → Context} (h : ∀ ⦃context⦄, invariant context → invariant (f context)) :
    Runs admitted invariant property (modify f) (fun _ => []) :=
  ⟨nofun, h, nofun⟩

theorem bind {next : α → Rendering β} {later : α → Context → List Moment}
    (h : Runs admitted invariant property action moments)
    (hn : ∀ value, Runs admitted invariant property (next value) (later value)) :
    Runs admitted invariant property (action >>= next)
      (fun context => moments context ++ following action later context) := by
  have split (context : Context) : (action >>= next) context =
      ExceptT.bindCont next (action context).1 (action context).2 := rfl
  refine ⟨fun context cause hc failed => ?_, fun context hc => ?_, fun context hc moment m => ?_⟩
  · rw [split] at failed
    cases first : (action context).1 with
    | error other =>
      rw [first] at failed
      cases failed
      exact h.cause hc first
    | ok value =>
      rw [first] at failed
      exact (hn value).cause (h.after hc) failed
  · have kept := h.after hc
    rw [split]
    cases (action context).1 with
    | error cause => exact kept
    | ok value => exact (hn value).after kept
  · rcases List.mem_append.1 m with m | m
    · exact h.moment hc moment m
    · obtain ⟨value, after, run, m⟩ := mem_following m
      have kept := h.after hc
      rw [run] at kept
      exact (hn value).moment kept moment m

/-- The second action alone comes to moments. -/
theorem next {next : α → Rendering β} {later : α → Context → List Moment}
    (h : Runs admitted invariant property action (fun _ => []))
    (hn : ∀ value, Runs admitted invariant property (next value) (later value)) :
    Runs admitted invariant property (action >>= next) (following action later) :=
  h.bind hn

/-- The first action alone comes to moments. -/
theorem first {next : α → Rendering β} (h : Runs admitted invariant property action moments)
    (hn : ∀ value, Runs admitted invariant property (next value) (fun _ => [])) :
    Runs admitted invariant property (action >>= next) moments := by
  have both := h.bind hn
  exact ⟨both.cause, both.after, h.moment⟩

theorem lift_bind {result : Except RenderError α} {next : α → Rendering β} {moments : Context → List Moment}
    (hn : ∀ value, result = .ok value → Runs admitted invariant property (next value) moments)
    (hm : ∀ cause, result = .error cause → admitted cause ∧ ∀ context, moments context = []) :
    Runs admitted invariant property (liftM result >>= next) moments := by
  cases result with
  | error cause =>
    obtain ⟨ha, hm⟩ := hm cause rfl
    refine ⟨fun _ _ _ same => Except.error.inj same ▸ ha, fun _ hc => hc, fun context _ moment m => ?_⟩
    rw [hm context] at m
    cases m
  | ok value => exact hn value rfl

/-- The moment of a node in front of those of its bodies. -/
theorem cons {here : Context → Moment} (h : Runs admitted invariant property action moments)
    (hh : ∀ ⦃context⦄, invariant context → property (here context)) :
    Runs admitted invariant property action (fun context => here context :: moments context) :=
  ⟨h.cause, h.after, fun _ hc => List.forall_mem_cons.2 ⟨hh hc, h.moment hc⟩⟩

theorem inScope {scope : Scope} (push : ∀ ⦃context⦄, invariant context → invariant (context.push scope))
    (pop : ∀ ⦃context⦄, invariant context → invariant context.pop)
    (h : Runs admitted invariant property action moments) :
    Runs admitted invariant property (Rendering.inScope scope action)
      (fun context => moments (context.push scope)) :=
  ⟨fun _ _ hc failed => h.cause (push hc) failed, fun _ hc => pop (h.after (push hc)),
    fun _ hc => h.moment (push hc)⟩

theorem isolated {inside : Context} (hi : invariant inside) (h : Runs admitted invariant property action moments) :
    Runs admitted invariant property (Rendering.isolated inside action) (fun _ => moments inside) :=
  ⟨fun _ _ _ failed => h.cause hi failed, fun _ hc => hc, fun _ _ => h.moment hi⟩

end Runs

/-- What nodes at a place have to keep to themselves, apart from those that reach elsewhere, for every rendering of them
to keep it. -/
structure Maintains (setting : Setting) (jumps : Jumps) (place : Place) (allowed : Node → Prop)
    (admitted : RenderError → Prop) (invariant : Context → Prop) (property : Moment → Prop) : Prop where
  operation : ∀ ⦃cause⦄, cause ≠ .unsettled → admitted cause
  value : ∀ ⦃context⦄, invariant context → ∀ e cause,
    eval setting jumps place.calls context e = .error cause → admitted cause
  assign : ∀ ⦃context⦄, invariant context → ∀ name value, invariant (context.assign name value)
  push : ∀ ⦃context⦄, invariant context → ∀ scope, invariant (context.push scope)
  pop : ∀ ⦃context⦄, invariant context → invariant context.pop
  moment : ∀ ⦃view node context⦄, allowed node → invariant context → property ⟨jumps, place, view, node, context⟩

section Maintains

variable {setting : Setting} {jumps : Jumps} {elsewhere : Place → View → List Node → Context → List Moment}
variable {place : Place} {allowed : Node → Prop} {admitted : RenderError → Prop} {invariant : Context → Prop}
variable {property : Moment → Prop} (hm : Maintains setting jumps place allowed admitted invariant property)
include hm

theorem Maintains.values {context : Context} (hc : invariant context) : ∀ es cause,
    evalAll setting jumps place.calls context es = .error cause → admitted cause := by
  intro es
  induction es with
  | nil => exact nofun
  | cons e es ih =>
    intro cause failed
    rw [evalAll] at failed
    cases value : eval setting jumps place.calls context e with
    | error other =>
      rw [value] at failed
      exact Except.error.inj failed ▸ hm.value hc e other value
    | ok first =>
      rw [value] at failed
      cases rest : evalAll setting jumps place.calls context es with
      | error other =>
        rw [rest] at failed
        exact Except.error.inj failed ▸ ih other rest
      | ok others =>
        rw [rest] at failed
        cases failed

theorem Maintains.failed {α : Type} {result : Except RenderError α} {cause : RenderError} (h : Operational result)
    (failed : result = .error cause) : admitted cause :=
  hm.operation fun same => settled_of_operational h (same ▸ failed)

theorem Maintains.evaluate (e : Expr) :
    Runs admitted invariant property (evaluate setting jumps place e) (fun _ => []) :=
  ⟨fun _ _ hc failed => hm.value hc e _ failed, fun _ hc => by rwa [keeps_evaluate place e], nofun⟩

theorem Maintains.evaluateAll (es : List Expr) :
    Runs admitted invariant property (evaluateAll setting jumps place es) (fun _ => []) :=
  ⟨fun _ _ hc failed => hm.values hc es _ failed, fun _ hc => by rwa [keeps_evaluateAll place es], nofun⟩

theorem Maintains.inScope {α : Type} {action : Rendering α} {moments : Context → List Moment} (scope : Scope)
    (h : Runs admitted invariant property action moments) :
    Runs admitted invariant property (Rendering.inScope scope action)
      (fun context => moments (context.push scope)) :=
  h.inScope (fun _ hc => hm.push hc scope) hm.pop

theorem Maintains.forEach {targets : List String} {body : Rendering String} {inside : Context → List Moment}
    (h : Runs admitted invariant property body inside) (length : Nat) (items : List Value) : ∀ index done,
    Runs admitted invariant property (forEach targets body length index items done)
      (momentsOfEach targets body inside length index items) := by
  induction items with
  | nil => exact fun _ _ => .pure _
  | cons item items ih =>
    intro index done
    rw [Template.forEach]
    refine .lift_bind (fun scope bound => ?_) fun cause failed =>
      ⟨hm.failed (operational_bindTargets item targets) failed, fun context => by rw [momentsOfEach, failed]⟩
    have rest := (hm.inScope (Fields.put loopName (progress index length) scope) h).bind
      fun text => ih (index + 1) (done ++ text)
    simpa only [momentsOfEach, bound, following_inScope] using rest

section Nodes

set_option linter.unusedSectionVars false

variable (leaf : ∀ ⦃node⦄, allowed node → node.reaches → ∀ view,
  Runs admitted invariant property (renderNode setting jumps place node)
    (momentsOf setting jumps elsewhere place view node))
include leaf

mutual

theorem Maintains.runs_momentsOf : ∀ {node : Node} (view : View), (∀ part ∈ node.parts, allowed part) →
    Runs admitted invariant property (renderNode setting jumps place node)
      (momentsOf setting jumps elsewhere place view node)
  | .text content, view, ok => (Runs.pure content).cons fun _ => hm.moment (ok _ (Node.self_mem_parts _))
  | .extend parent, view, ok => (Runs.pure "").cons fun _ => hm.moment (ok _ (Node.self_mem_parts _))
  | .output e, view, ok =>
    ((hm.evaluate e).first fun _ => .pure _).cons fun _ => hm.moment (ok _ (Node.self_mem_parts _))
  | .assign name value, view, ok =>
    ((hm.evaluate value).first fun _ => (Runs.modify fun _ hc => hm.assign hc name _).first fun _ => .pure _).cons
      fun _ => hm.moment (ok _ (Node.self_mem_parts _))
  | .branch arms otherwise, view, ok => by
    have self := ok _ (Node.self_mem_parts _)
    simp only [Node.parts, List.forall_mem_cons, List.forall_mem_append] at ok
    rw [renderNode, funext (momentsOf.eq_def _ _ _ _ _ _)]
    exact (runs_momentsOfArms view ok.2.1 (runs_momentsOfOption view ok.2.2)).cons fun _ => hm.moment self
  | .loop targets items body otherwise, view, ok => by
    have self := ok _ (Node.self_mem_parts _)
    simp only [Node.parts, List.forall_mem_cons, List.forall_mem_append] at ok
    rw [renderNode, funext (momentsOf.eq_def _ _ _ _ _ _)]
    refine Runs.cons ((hm.evaluate items).next fun value => ?_) fun _ => hm.moment self
    refine .lift_bind (fun items found => ?_) fun cause failed =>
      ⟨hm.failed (operational_loopItems value targets) failed, fun context => by rw [failed]⟩
    simp only [found]
    cases items.isEmpty with
    | true => exact runs_momentsOfOption view ok.2.2
    | false => exact hm.forEach (runs_momentsOfAll (view.inLoop targets) ok.2.1) _ _ _ _
  | .filterBlock name args body, view, ok => by
    have self := ok _ (Node.self_mem_parts _)
    simp only [Node.parts, List.forall_mem_cons] at ok
    rw [renderNode, funext (momentsOf.eq_def _ _ _ _ _ _)]
    refine Runs.cons ((runs_momentsOfAll view ok.2).first fun content => ?_) fun _ => hm.moment self
    exact (hm.evaluateAll args).first fun args =>
      (Runs.lift fun _ => hm.failed (operational_filter _ args name setting.locale)).first fun _ => .pure _
  | .inclusion .., view, ok | .block .., view, ok | .define .., view, ok | .callBlock .., view, ok
  | .importAs .., view, ok | .importFrom .., view, ok => leaf (ok _ (Node.self_mem_parts _)) rfl view

theorem Maintains.runs_momentsOfAll : ∀ {nodes : List Node} (view : View), (∀ part ∈ partsOfAll nodes, allowed part) →
    Runs admitted invariant property (renderNodes setting jumps place nodes)
      (momentsOfAll setting jumps elsewhere place view nodes)
  | [], _, _ => .pure _
  | node :: nodes, view, ok => by
    rw [partsOfAll, List.forall_mem_append] at ok
    exact (runs_momentsOf view ok.1).bind fun text => (runs_momentsOfAll view ok.2).first fun _ => .pure _

theorem Maintains.runs_momentsOfArms : ∀ {arms : List (Expr × List Node)} {otherwise : Rendering String}
    {rest : Context → List Moment} (view : View), (∀ part ∈ partsOfArms arms, allowed part) →
    Runs admitted invariant property otherwise rest →
    Runs admitted invariant property (renderArms setting jumps place arms otherwise)
      (momentsOfArms setting jumps elsewhere place view arms rest)
  | [], _, _, _, _, ho => ho
  | (condition, body) :: arms, otherwise, rest, view, ok, ho => by
    rw [partsOfArms, List.forall_mem_append] at ok
    rw [renderArms, funext (momentsOfArms.eq_def _ _ _ _ _ _ _)]
    refine (hm.evaluate condition).next fun value => ?_
    cases value.isTruthy with
    | true => exact runs_momentsOfAll view ok.1
    | false => exact runs_momentsOfArms view ok.2 ho

theorem Maintains.runs_momentsOfOption : ∀ {body : Option (List Node)} (view : View),
    (∀ part ∈ partsOfOption body, allowed part) →
    Runs admitted invariant property (renderOption setting jumps place body)
      (momentsOfOption setting jumps elsewhere place view body)
  | none, _, _ => .pure _
  | some body, view, ok => by
    rw [partsOfOption] at ok
    exact runs_momentsOfAll view ok

end

end Nodes

end Maintains

end Template

end Folio

import Folio.Proofs.Template.Globals
import Folio.Proofs.Template.Invocation

/-! Variables that a template does not bind. Such a variable is seen in the namespace alone, wherever rendering comes
to, in the bodies of macros too; so a template that stands by itself comes to the same when the text of the variable is
written in place of each of its outputs. -/
namespace Folio

/-! ### Nodes with a text in place of a variable -/

/-- The expression is the variable. -/
def Expr.isVar (name : String) : Expr → Bool
  | .var other => other = name
  | _ => false

namespace Node

/-- The variables that a node binds in a body of its own or for the nodes after it. -/
def binders : Node → List String
  | .assign name _ => [name]
  | node => node.bodies.flatMap (·.1)

/-- No node binds the variable. -/
def Spare (name : String) (nodes : List Node) : Prop :=
  ∀ part ∈ partsOfAll nodes, name ∉ part.binders

instance (name : String) (nodes : List Node) : Decidable (Spare name nodes) :=
  inferInstanceAs (Decidable (∀ part ∈ partsOfAll nodes, name ∉ part.binders))

section Fill

variable (name text : String)

mutual

/-- The node with a text in place of every output of the variable. -/
def fill : Node → Node
  | .output e => if e.isVar name then .text text else .output e
  | .branch arms otherwise => .branch (fillArms arms) (fillOption otherwise)
  | .block title body => .block title (fillAll body)
  | .loop targets items body otherwise => .loop targets items (fillAll body) (fillOption otherwise)
  | .define macroName params body => .define macroName params (fillAll body)
  | .callBlock params call body => .callBlock params call (fillAll body)
  | .filterBlock filter args body => .filterBlock filter args (fillAll body)
  | node => node

def fillAll : List Node → List Node
  | [] => []
  | node :: nodes => fill node :: fillAll nodes

def fillArms : List (Expr × List Node) → List (Expr × List Node)
  | [] => []
  | (condition, body) :: arms => (condition, fillAll body) :: fillArms arms

def fillOption : Option (List Node) → Option (List Node)
  | none => none
  | some body => some (fillAll body)

end

theorem parent?_fillAll (nodes : List Node) : Template.parent? (fillAll name text nodes) = Template.parent? nodes := by
  induction nodes with
  | nil => rfl
  | cons node nodes ih =>
    rw [Template.parent?, Template.parent?] at ih
    rw [fillAll, Template.parent?, Template.parent?, List.findSome?_cons, List.findSome?_cons, ih]
    cases node with
    | output e => cases shown : e.isVar name <;> simp [fill, shown]
    | _ => rfl

end Fill

end Node

theorem Fields.mapValues_put {α β : Type} (f : α → β) (key : String) (value : α) (fields : List (String × α)) :
    mapValues f (put key value fields) = put key (f value) (mapValues f fields) := by
  induction fields with
  | nil => rfl
  | cons field rest ih =>
    obtain ⟨k, v⟩ := field
    have step : mapValues f ((k, v) :: rest) = (k, f v) :: mapValues f rest := rfl
    rw [put, step, put]
    split
    · rfl
    · split
      · rfl
      · rw [← ih]
        rfl

namespace Template

open Node (Spare partsOfAll partsOfArms partsOfOption)

/-! ### Contexts -/

section Contexts

variable (name text : String)

def Callable.fill (callable : Callable) : Callable :=
  { callable with definition := { callable.definition with body := Node.fillAll name text callable.definition.body } }

/-- The variable is bound neither around the callable nor in it. -/
structure Callable.Spares (callable : Callable) : Prop where
  captured : Fields.find? name callable.captured = none
  params : ∀ param ∈ callable.definition.params, param.name ≠ name
  body : Spare name callable.definition.body

namespace Context

def fill (context : Context) : Context :=
  { context with macros := Fields.mapValues (Callable.fill name text) context.macros }

/-- The variable has its text from the namespace, and nothing else binds it. -/
structure Shows (context : Context) : Prop where
  text_eq : ((context.globals.get? name).getD .undefined).text = text
  free : ∀ scope ∈ context.scopes, Fields.find? name scope = none
  spares : ∀ {path callable}, context.macro? path = some callable → callable.Spares name

variable {name text} {context : Context}

/-- What a path names in the context it names with the text in its macros, if it names a macro at all. -/
theorem bind_macro?_fill (path? : Option String) : path?.bind (context.fill name text).macro? =
    (path?.bind context.macro?).map (Callable.fill name text) := by
  cases path? with
  | none => rfl
  | some path => exact Fields.find?_mapValues ..

theorem fill_bindMacro (path : String) (callable : Callable) :
    (context.bindMacro path callable).fill name text =
      (context.fill name text).bindMacro path (callable.fill name text) := by
  rw [fill, bindMacro, Fields.mapValues_put]
  rfl

theorem fill_assign (other : String) (value : Value) :
    (context.assign other value).fill name text = (context.fill name text).assign other value := by
  unfold assign fill
  dsimp only
  split <;> rfl

namespace Shows

theorem text_lookup (h : context.Shows name text) : (context.lookup name).text = text := by
  rw [lookup_of_not_binds (not_binds_iff.2 h.free)]
  exact h.text_eq

theorem bindMacro (h : context.Shows name text) {callable : Callable} (spares : callable.Spares name) (path : String) :
    (context.bindMacro path callable).Shows name text := by
  refine ⟨h.text_eq, h.free, fun {other found} known => ?_⟩
  rw [macro?, Context.bindMacro, Fields.find?_put] at known
  split at known
  · cases known
    exact spares
  · exact h.spares known

theorem withScopes (h : context.Shows name text) {scopes : List Scope}
    (free : ∀ scope ∈ scopes, Fields.find? name scope = none) : { context with scopes }.Shows name text :=
  ⟨h.text_eq, free, h.spares⟩

theorem push (h : context.Shows name text) {scope : Scope} (free : Fields.find? name scope = none) :
    (context.push scope).Shows name text :=
  h.withScopes (List.forall_mem_cons.2 ⟨free, h.free⟩)

theorem pop (h : context.Shows name text) : context.pop.Shows name text :=
  h.withScopes fun scope m => h.free scope (List.mem_of_mem_tail m)

theorem assign (h : context.Shows name text) {other : String} (ne : name ≠ other) (value : Value) :
    (context.assign other value).Shows name text := by
  unfold Context.assign
  split
  · exact h
  · rename_i scope outer scopes
    have free := h.free
    rw [scopes, List.forall_mem_cons] at free
    refine h.withScopes (List.forall_mem_cons.2 ⟨?_, free.2⟩)
    rw [Fields.find?_put_ne ne, free.1]

theorem find?_locals (h : context.Shows name text) : Fields.find? name context.locals = none := by
  have free := h.free
  rw [locals]
  generalize context.scopes = scopes at free ⊢
  induction scopes with
  | nil => rfl
  | cons scope scopes ih =>
    rw [List.forall_mem_cons] at free
    have absent (fields : Scope) : Fields.find? name fields = none ↔ name ∉ Fields.keys fields := by
      rw [← Fields.isSome_find?_iff, Option.not_isSome_iff_eq_none]
    rw [List.foldr_cons, absent, Fields.mem_keys_putAll, not_or, ← absent, ← absent]
    exact ⟨ih free.2, free.1⟩

end Shows

end Context

end Contexts

/-! ### Renderings -/

section Renderings

variable (name text : String)

/-- In a context that shows the text, the second action comes to what the first comes to, and it leaves the context
that the first leaves, with the text in its macros. -/
structure Fills {α : Type} (action filled : Rendering α) : Prop where
  run : ∀ ⦃context⦄, context.Shows name text →
    filled (context.fill name text) = ((action context).1, (action context).2.fill name text)
  after : ∀ ⦃context⦄, context.Shows name text → (action context).2.Shows name text

/-- What stands elsewhere comes to the same with the text in its macros and bodies. -/
structure Jumps.Fill (jumps : Jumps) : Prop where
  value : ∀ ⦃context⦄, context.Shows name text → ∀ calls e,
    jumps.value calls (context.fill name text) e = jumps.value calls context e
  body : ∀ place, place.overrides = [] → ∀ nodes, Spare name nodes →
    Fills name text (jumps.body place nodes) (jumps.body place (Node.fillAll name text nodes))

variable {name text} {α β : Type} {action filled : Rendering α}

namespace Fills

theorem of_keeps {result result' : Context → Except RenderError α}
    (eq : ∀ context, action context = (result context, context))
    (eq' : ∀ context, filled context = (result' context, context))
    (same : ∀ ⦃context⦄, context.Shows name text → result' (context.fill name text) = result context) :
    Fills name text action filled := by
  constructor
  · intro context h
    rw [eq, eq', same h]
  · intro context h
    rwa [eq]

theorem lift (result : Except RenderError α) : Fills name text (liftM result) (liftM result) :=
  .of_keeps (lift_apply result) (lift_apply result) fun _ _ => rfl

theorem pure (value : α) : Fills name text (pure value) (pure value) :=
  lift (.ok value)

theorem throw (cause : RenderError) : Fills name text (throw cause : Rendering α) (throw cause) :=
  lift (.error cause)

theorem ite {c : Prop} [Decidable c] {other filled' : Rendering α} (h : Fills name text action filled)
    (ho : Fills name text other filled') :
    Fills name text (if c then action else other) (if c then filled else filled') := by
  split
  · exact h
  · exact ho

theorem bind {next next' : α → Rendering β} (h : Fills name text action filled)
    (hn : ∀ value, Fills name text (next value) (next' value)) :
    Fills name text (action >>= next) (filled >>= next') := by
  have split (action : Rendering α) (next : α → Rendering β) (context : Context) :
      (action >>= next) context = ExceptT.bindCont next (action context).1 (action context).2 := rfl
  constructor
  · intro context hc
    have after := h.after hc
    rw [split, split, h.run hc]
    cases (action context).1 with
    | error cause => rfl
    | ok value => exact (hn value).run after
  · intro context hc
    have after := h.after hc
    rw [split]
    cases (action context).1 with
    | error cause => exact after
    | ok value => exact (hn value).after after

theorem lift_bind {result : Except RenderError α} {next next' : α → Rendering β}
    (hn : ∀ value, result = .ok value → Fills name text (next value) (next' value)) :
    Fills name text (liftM result >>= next) (liftM result >>= next') := by
  cases result with
  | error cause => exact .throw cause
  | ok value => exact hn value rfl

theorem modify {f g : Context → Context}
    (run : ∀ ⦃context⦄, context.Shows name text → g (context.fill name text) = (f context).fill name text)
    (after : ∀ ⦃context⦄, context.Shows name text → (f context).Shows name text) :
    Fills name text (modify f : Rendering Unit) (modify g) :=
  ⟨fun _ h => congrArg (Prod.mk _) (run h), after⟩

theorem inScope {scope : Scope} (free : Fields.find? name scope = none) (h : Fills name text action filled) :
    Fills name text (Rendering.inScope scope action) (Rendering.inScope scope filled) := by
  have run (action : Rendering α) (context : Context) : Rendering.inScope scope action context =
    ((action (context.push scope)).1, (action (context.push scope)).2.pop) := rfl
  constructor
  · intro context hc
    have pushed : (context.fill name text).push scope = (context.push scope).fill name text := rfl
    rw [run, run, pushed, h.run (hc.push free)]
    rfl
  · intro context hc
    rw [run]
    exact (h.after (hc.push free)).pop

theorem forEach {targets : List String} (free : name ∉ targets ++ [loopName]) {action filled : Rendering String}
    (h : Fills name text action filled) (length : Nat) (items : List Value) : ∀ index done,
    Fills name text (forEach targets action length index items done)
      (forEach targets filled length index items done) := by
  rw [List.mem_append, not_or, List.mem_singleton] at free
  induction items with
  | nil => exact fun _ _ => .pure _
  | cons item items ih =>
    intro index done
    rw [Template.forEach, Template.forEach]
    refine .lift_bind fun scope bound => ?_
    have absent : Fields.find? name (Fields.put loopName (progress index length) scope) = none := by
      rw [Fields.find?_put_ne free.2, ← Option.not_isSome_iff_eq_none]
      exact fun found => free.1 (mem_targets_of_bindTargets bound found)
    exact (h.inScope absent).bind fun text => ih _ _

end Fills

end Renderings

section Bodies

set_option linter.unusedSectionVars false

variable {name text : String} {setting : Setting} {jumps : Jumps} (hj : jumps.Fill name text)
include hj

/-! ### Expressions -/

section Expressions

variable {calls : Nat} {context : Context} (h : context.Shows name text)
include h

theorem bindParams_fill (params : List Param) : ∀ (args : List Value) (bound : Scope),
    bindParams jumps calls (context.fill name text) params args bound = bindParams jumps calls context params args bound := by
  induction params with
  | nil => exact fun _ _ => rfl
  | cons param params ih =>
    rintro (_ | ⟨arg, args⟩) bound
    · have same : jumps.value calls (context.fill name text) = jumps.value calls context :=
        funext fun e => hj.value h calls e
      simp only [bindParams, same, ih]
    · exact ih args _

omit hj h in
theorem find?_bindParams {params : List Param} (spare : ∀ param ∈ params, param.name ≠ name) :
    ∀ {args : List Value} {bound scope : Scope}, Fields.find? name bound = none →
      bindParams jumps calls context params args bound = .ok scope → Fields.find? name scope = none := by
  induction params with
  | nil =>
    intro args bound scope free same
    cases same
    exact free
  | cons param params ih =>
    rw [List.forall_mem_cons] at spare
    have put {bound : Scope} (free : Fields.find? name bound = none) (value : Value) :
        Fields.find? name (Fields.put param.name value bound) = none := by
      rw [Fields.find?_put_ne spare.1.symm, free]
    rintro (_ | ⟨arg, args⟩) bound scope free same
    · rw [bindParams] at same
      cases value : param.default.elim (.ok .undefined) (jumps.value calls context) with
      | error cause =>
        rw [value] at same
        cases same
      | ok value' =>
        rw [value] at same
        exact ih spare.2 (put free value') same
    · exact ih spare.2 (put free arg) same

theorem invoke_fill (calls : Nat) {callable : Callable} (spares : callable.Spares name) (args : List Value)
    {caller : Option Callable} (sparesCaller : ∀ called ∈ caller, called.Spares name) :
    invoke jumps calls (callable.fill name text) args (context.fill name text) (caller.map (Callable.fill name text)) =
      invoke jumps calls callable args context caller := by
  rw [invoke, invoke]
  split
  · rfl
  · have params : (callable.fill name text).definition.params = callable.definition.params := rfl
    rw [params, bindParams_fill hj h]
    cases bound : bindParams jumps calls context callable.definition.params args [] with
    | error cause => rfl
    | ok scope =>
      have free : ∀ visible ∈ [scope, callable.captured], Fields.find? name visible = none := by
        rw [List.forall_mem_cons, List.forall_mem_singleton]
        exact ⟨find?_bindParams spares.params rfl bound, spares.captured⟩
      have inside := h.withScopes free
      have body := hj.body ⟨[], 0, calls + 1⟩ rfl _ spares.body
      cases caller with
      | none =>
        have same := congrArg Prod.fst (body.run inside)
        exact same
      | some called =>
        have known := inside.bindMacro (sparesCaller called rfl) callerName
        have same := congrArg Prod.fst (body.run known)
        rw [Context.fill_bindMacro] at same
        exact same

mutual

theorem eval_fill : ∀ e, eval setting jumps calls (context.fill name text) e = eval setting jumps calls context e
  | .literal _ | .var _ => rfl
  | .lookup left right | .and left right | .or left right | .compare _ left right | .binary _ left right => by
    simp only [eval, eval_fill left, eval_fill right]
  | .not inner | .isDefined inner | .neg inner => by simp only [eval, eval_fill inner]
  | .filter _ target args | .test _ target args _ => by simp only [eval, eval_fill target, evalAll_fill args]
  | .call callee args => by
    rw [eval, eval, Context.bind_macro?_fill, evalAll_fill args]
    cases found : callee.path?.bind context.macro? with
    | none => rfl
    | some callable =>
      obtain ⟨path, -, known⟩ := Option.bind_eq_some_iff.1 found
      have none_spares : ∀ called ∈ (none : Option Callable), called.Spares name := fun _ m => by cases m
      have same (args : List Value) := invoke_fill hj h calls (h.spares known) args none_spares
      rw [Option.map_none] at same
      simp only [Option.map_some, same]
  | .list items => by simp only [eval, evalAll_fill items]
  | .dict entries => by simp only [eval, evalEntries_fill entries]
  | .inlineIf value condition otherwise => by
    simp only [eval, eval_fill condition, eval_fill value, evalOption_fill otherwise]

theorem evalAll_fill : ∀ es,
    evalAll setting jumps calls (context.fill name text) es = evalAll setting jumps calls context es
  | [] => rfl
  | e :: es => by simp only [evalAll, eval_fill e, evalAll_fill es]

theorem evalEntries_fill : ∀ entries,
    evalEntries setting jumps calls (context.fill name text) entries = evalEntries setting jumps calls context entries
  | [] => rfl
  | (key, value) :: entries => by
    simp only [evalEntries, eval_fill key, eval_fill value, evalEntries_fill entries]

theorem evalOption_fill : ∀ e,
    evalOption setting jumps calls (context.fill name text) e = evalOption setting jumps calls context e
  | none => rfl
  | some e => eval_fill e

end

end Expressions

/-! ### Nodes -/

section Nodes

variable {locale : Locale}

theorem fills_evaluate (place : Place) (e : Expr) :
    Fills name text (evaluate setting jumps place e) (evaluate setting jumps place e) :=
  .of_keeps (evaluate_apply place e) (evaluate_apply place e) fun _ h => eval_fill hj h e

theorem fills_evaluateAll (place : Place) (es : List Expr) :
    Fills name text (evaluateAll setting jumps place es) (evaluateAll setting jumps place es) :=
  .of_keeps (fun context => lift_apply (evalAll setting jumps place.calls context es) context)
    (fun context => lift_apply (evalAll setting jumps place.calls context es) context) fun _ h => evalAll_fill hj h es

theorem fills_output (place : Place) (e : Expr) : Fills name text (renderNode setting jumps place (.output e))
    (renderNode setting jumps place (Node.fill name text (.output e))) := by
  have shown : Fills name text (renderNode setting jumps place (.output e)) (renderNode setting jumps place (.output e)) := by
    rw [renderNode]
    exact (fills_evaluate hj place e).bind fun _ => .pure _
  rw [Node.fill]
  split
  · rename_i same
    cases e with
    | var other =>
      obtain rfl : other = name := of_decide_eq_true same
      exact .of_keeps (fun _ => rfl) (fun _ => rfl) fun _ h => congrArg Except.ok h.text_lookup.symm
    | _ => cases same
  · exact shown

theorem fills_callWith (place : Place) {params : List Param} (spare : ∀ param ∈ params, param.name ≠ name)
    {body : List Node} (spareBody : Spare name body) (call : Expr) :
    Fills name text (callWith setting jumps place params body call)
      (callWith setting jumps place params (Node.fillAll name text body) call) := by
  refine .of_keeps (fun _ => callWith_apply place params body call) (fun _ => callWith_apply place params _ call) ?_
  intro context h
  cases call with
  | call callee args =>
    rw [calledWith, calledWith, Context.bind_macro?_fill, evalAll_fill hj h]
    cases found : callee.path?.bind context.macro? with
    | none => rfl
    | some callable =>
      obtain ⟨path, -, known⟩ := Option.bind_eq_some_iff.1 found
      have spares : ∀ called ∈ some (⟨⟨callerName, params, body⟩, context.locals⟩ : Callable), called.Spares name := by
        rintro _ ⟨⟩
        exact ⟨h.find?_locals, spare, spareBody⟩
      have same (args : List Value) := invoke_fill hj h place.calls (h.spares known) args spares
      exact bind_congr same
  | _ => rfl

/-- Without other templates nothing is imported. -/
theorem fills_imported_bind (place : Place) (template : Expr) {α : Type} (f g : List Definition → Rendering α) :
    Fills name text (imported (.alone locale) jumps place template >>= f)
      (imported (.alone locale) jumps place template >>= g) := by
  rw [imported, bind_assoc, bind_assoc]
  exact (fills_evaluate hj place template).bind fun value => .throw (.missingTemplate value.text)

/-- Without other templates a document with a parent fails. -/
theorem fills_layOut (title : String) (allowed : Nat) {nodes : List Node} (spare : Spare name nodes) :
    Fills name text (layOut (.alone locale) jumps title allowed ⟨[], 0, 0⟩ nodes)
      (layOut (.alone locale) jumps title allowed ⟨[], 0, 0⟩ (Node.fillAll name text nodes)) := by
  rw [layOut.eq_def, layOut.eq_def, Node.parent?_fillAll]
  cases parent? nodes with
  | none => exact hj.body ⟨[], 0, 0⟩ rfl nodes spare
  | some e => exact (fills_evaluate hj ⟨[], 0, 0⟩ e).bind fun value => .throw (.missingTemplate value.text)

variable {place : Place} (plain : place.overrides = [])
include plain

mutual

theorem fills_renderNode : ∀ node : Node, (∀ part ∈ node.parts, name ∉ part.binders) →
    Fills name text (renderNode (.alone locale) jumps place node)
      (renderNode (.alone locale) jumps place (node.fill name text))
  | .text _, _ | .extend _, _ => .pure _
  | .output e, _ => fills_output hj place e
  | .assign other value, spare => by
    have ne : name ≠ other := fun same => spare _ (Node.self_mem_parts _) (List.mem_singleton.2 same)
    show Fills name text _ (renderNode (.alone locale) jumps place (.assign other value))
    rw [renderNode]
    exact (fills_evaluate hj place value).bind fun value =>
      (Fills.modify (fun _ _ => (Context.fill_assign other value).symm) fun _ h => h.assign ne value).bind fun _ => .pure _
  | .branch arms otherwise, spare => by
    simp only [Node.parts, List.forall_mem_cons, List.forall_mem_append] at spare
    rw [Node.fill, renderNode, renderNode]
    exact fills_renderArms arms spare.2.1 (fills_renderOption otherwise spare.2.2)
  | .inclusion template ignoreMissing withContext, _ => by
    show Fills name text _ (renderNode (.alone locale) jumps place (.inclusion template ignoreMissing withContext))
    rw [renderNode]
    refine (fills_evaluate hj place template).bind fun value => ?_
    cases ignoreMissing with
    | true => exact .pure ""
    | false => exact .throw (.missingTemplate value.text)
  | .block title body, spare => by
    simp only [Node.parts, List.forall_mem_cons] at spare
    rw [Node.fill, renderNode, renderNode, plain]
    exact fills_renderNodes body spare.2
  | .loop targets items body otherwise, spare => by
    have free : name ∉ targets ++ [loopName] := fun m =>
      spare _ (Node.self_mem_parts _) (List.mem_append_left _ m)
    simp only [Node.parts, List.forall_mem_cons, List.forall_mem_append] at spare
    rw [Node.fill, renderNode, renderNode]
    refine (fills_evaluate hj place items).bind fun value => (Fills.lift _).bind fun items => ?_
    exact .ite (fills_renderOption otherwise spare.2.2) (.forEach free (fills_renderNodes body spare.2.1) _ _ _ _)
  | .define macroName params body, spare => by
    have self := spare _ (Node.self_mem_parts _)
    have free : ∀ param ∈ params, param.name ≠ name := fun param m same =>
      self (List.mem_append_left _ (List.mem_append_left _ (same ▸ List.mem_map_of_mem m)))
    simp only [Node.parts, List.forall_mem_cons] at spare
    have spares : Callable.Spares name ⟨⟨macroName, params, body⟩, []⟩ := ⟨rfl, free, spare.2⟩
    rw [Node.fill, renderNode, renderNode]
    refine (Fills.modify (fun context _ => ?_) fun _ h => h.bindMacro spares macroName).bind fun _ => .pure _
    exact (Context.fill_bindMacro macroName ⟨⟨macroName, params, body⟩, []⟩).symm
  | .callBlock params call body, spare => by
    have self := spare _ (Node.self_mem_parts _)
    have free : ∀ param ∈ params, param.name ≠ name := fun param m same =>
      self (List.mem_append_left _ (same ▸ List.mem_map_of_mem m))
    simp only [Node.parts, List.forall_mem_cons] at spare
    rw [Node.fill, renderNode, renderNode]
    exact fills_callWith hj place free spare.2 call
  | .filterBlock filter args body, spare => by
    simp only [Node.parts, List.forall_mem_cons] at spare
    rw [Node.fill, renderNode, renderNode]
    exact (fills_renderNodes body spare.2).bind fun content => (fills_evaluateAll hj place args).bind fun values =>
      (Fills.lift _).bind fun _ => .pure _
  | .importAs template group, _ => by
    show Fills name text _ (renderNode (.alone locale) jumps place (.importAs template group))
    rw [renderNode]
    exact fills_imported_bind hj place template _ _
  | .importFrom template names, _ => by
    show Fills name text _ (renderNode (.alone locale) jumps place (.importFrom template names))
    rw [renderNode]
    exact fills_imported_bind hj place template _ _

theorem fills_renderNodes : ∀ nodes : List Node, (∀ part ∈ partsOfAll nodes, name ∉ part.binders) →
    Fills name text (renderNodes (.alone locale) jumps place nodes)
      (renderNodes (.alone locale) jumps place (Node.fillAll name text nodes))
  | [], _ => .pure _
  | node :: nodes, spare => by
    rw [partsOfAll, List.forall_mem_append] at spare
    rw [Node.fillAll, renderNodes, renderNodes]
    exact (fills_renderNode node spare.1).bind fun _ => (fills_renderNodes nodes spare.2).bind fun _ => .pure _

theorem fills_renderArms : ∀ (arms : List (Expr × List Node)) {otherwise filled : Rendering String},
    (∀ part ∈ partsOfArms arms, name ∉ part.binders) → Fills name text otherwise filled →
    Fills name text (renderArms (.alone locale) jumps place arms otherwise)
      (renderArms (.alone locale) jumps place (Node.fillArms name text arms) filled)
  | [], _, _, _, ho => ho
  | (condition, body) :: arms, _, _, spare, ho => by
    rw [partsOfArms, List.forall_mem_append] at spare
    rw [Node.fillArms, renderArms, renderArms]
    exact (fills_evaluate hj place condition).bind fun _ =>
      .ite (fills_renderNodes body spare.1) (fills_renderArms arms spare.2 ho)

theorem fills_renderOption : ∀ body : Option (List Node), (∀ part ∈ partsOfOption body, name ∉ part.binders) →
    Fills name text (renderOption (.alone locale) jumps place body)
      (renderOption (.alone locale) jumps place (Node.fillOption name text body))
  | none, _ => .pure _
  | some body, spare => fills_renderNodes body spare

end

end Nodes

end Bodies

/-! ### Templates -/

section Templates

variable (locale : Locale)

/-- However deep the jumps, what stands elsewhere comes to the same. -/
theorem fill_within (name text : String) (n : Nat) : (Jumps.within (.alone locale) n).Fill name text := by
  induction n with
  | zero => exact ⟨fun _ _ _ _ => rfl, fun _ _ _ _ => .throw .unsettled⟩
  | succ n ih => exact ⟨fun _ h _ e => eval_fill ih h e, fun _ plain nodes spare => fills_renderNodes ih plain nodes spare⟩

/-- The text of the nodes of a template that stands by itself. -/
def textAlone (title : String) (nodes : List Node) (globals : Namespace) : Except RenderError String :=
  (layOut (.alone locale) (.within (.alone locale) maxJumps) title maxNesting ⟨[], 0, 0⟩ nodes (.ofNamespace globals)).1

theorem render_alone (template : Template) (globals : Namespace) :
    template.render (.alone locale) globals = textAlone locale template.name template.nodes globals :=
  rfl

/-- A template that does not bind a variable comes to the same with the text that the variable has in the namespace in
place of each of its outputs. -/
theorem textAlone_fillAll {name : String} {nodes : List Node} (spare : Spare name nodes) (title : String) (globals : Namespace) :
    textAlone locale title (Node.fillAll name ((globals.get? name).getD .undefined).text nodes) globals =
      textAlone locale title nodes globals := by
  generalize shown : ((globals.get? name).getD .undefined).text = text
  have start : (Context.ofNamespace globals).Shows name text :=
    ⟨shown, fun scope m => by cases List.mem_singleton.1 m; rfl, fun known => by cases known⟩
  have fills : Fills name text
      (layOut (.alone locale) (.within (.alone locale) maxJumps) title maxNesting ⟨[], 0, 0⟩ nodes) _ :=
    fills_layOut (fill_within locale name text maxJumps) title maxNesting spare
  have same := congrArg Prod.fst (fills.run start)
  exact same

end Templates

end Template

end Folio

import Folio.Proofs.Template.Characters
import Folio.Proofs.Template.Hygiene

/-! The body of a call block. A macro finds the macros of the place that calls it, and the body of the call block
around that place is one of them, under the name `caller`; so a macro that is called without a call block may render the
body of another one, and a body finds itself in place of the one around it. Wherever no body is asked for that the place
would not know without call blocks, calls come to the same in both ways. -/
namespace Folio.Template

open Node (partsOfAll)

/-- The context without the body of a call block. -/
def Context.uncalled (context : Context) : Context :=
  { context with macros := Fields.erase callerName context.macros }

theorem Context.macro?_uncalled (context : Context) (name : String) :
    context.uncalled.macro? name = if name = callerName then none else context.macro? name :=
  Fields.find?_erase callerName name context.macros

section Akin

variable {first second : RenderError → Prop} {context context' : Context}

theorem akin_uncalled (ends : ∀ ⦃cause : RenderError⦄, cause.isUncallable → first cause)
    (globals : context.globals = context'.globals)
    (macros : ∀ name ≠ callerName, context.macro? name = context'.macro? name) :
    (Terms.ending first second).Akin context.uncalled context' := by
  refine ⟨fun name => congrArg (fun globals => (globals.get? name).getD .undefined) globals, fun name => ?_,
    fun _ callable _ => ⟨trivial, Terms.admitsDefinition_free callable.definition⟩⟩
  rw [Context.macro?_uncalled]
  by_cases called : name = callerName
  · rw [if_pos called]
    exact .inr ⟨called, rfl, ends rfl, ends rfl⟩
  · rw [if_neg called]
    exact .inl (macros name called)

/-- Two contexts differ only in the body of a call block. -/
theorem akin_of_uncalled_eq (ends : ∀ ⦃cause : RenderError⦄, cause.isUncallable → first cause)
    (same : context.uncalled = context'.uncalled) : (Terms.ending first second).Akin context.uncalled context' := by
  refine akin_uncalled ends ?_ fun name other => ?_
  · change context.uncalled.globals = context'.uncalled.globals
    rw [same]
  · have known := congrArg (·.macro? name) same
    simpa only [Context.macro?_uncalled, if_neg other] using known

end Akin

/-! ### Macros that show the body of a call block -/

/-- Shows what the body of the call block comes to. -/
def showCaller : Node :=
  .output (.call (.var callerName) [])

/-- The context of a macro's body without arguments. -/
def Context.inside (context : Context) (captured : Scope) : Context :=
  { context with scopes := [[], captured] }

/-- A call of a macro without parameters. -/
theorem invoke_nil (jumps : Jumps) (calls : Nat) (name : String) (body : List Node) (captured : Scope)
    (context : Context) (caller : Option Callable) :
    invoke jumps calls ⟨⟨name, [], body⟩, captured⟩ [] context caller =
      if maxNesting ≤ calls then .error (.macroTooDeep name)
      else (jumps.body ⟨[], 0, calls + 1⟩ body
        (caller.elim (context.inside captured) ((context.inside captured).bindMacro callerName))).1 := by
  rw [invoke]
  split
  · rfl
  · rfl

/-- A macro that does nothing but show the body of its call block. -/
def passThrough (name : String) : Callable :=
  ⟨⟨name, [], [showCaller]⟩, []⟩

section Show

variable {setting : Setting} {jumps : Jumps} {place : Place} {context : Context} {name : String} {body : List Node}
variable {captured : Scope}

theorem renderNode_showCaller (known : context.macro? callerName = some ⟨⟨name, [], body⟩, captured⟩) :
    renderNode setting jumps place showCaller context =
      (if maxNesting ≤ place.calls then .error (.macroTooDeep name)
        else (jumps.body ⟨[], 0, place.calls + 1⟩ body (context.inside captured)).1, context) := by
  have shown (result : Except RenderError String) :
      (result >>= fun text => .ok (.string text)).map Value.text = result := by
    cases result with
    | error cause => rfl
    | ok text => rfl
  have path : (Expr.var callerName).path?.bind context.macro? = some ⟨⟨name, [], body⟩, captured⟩ := known
  rw [showCaller, renderNode_output, eval, path]
  change (((invoke jumps place.calls ⟨⟨name, [], body⟩, captured⟩ [] context none) >>= fun text =>
    Except.ok (Value.string text)).map Value.text, context) = _
  rw [shown, invoke_nil]
  rfl

theorem renderNodes_singleton (node : Node) :
    (renderNodes setting jumps place [node] context).1 = (renderNode setting jumps place node context).1 := by
  change (ExceptT.bindCont (fun text => pure (text ++ "") : String → Rendering String)
    (renderNode setting jumps place node context).1 (renderNode setting jumps place node context).2).1 = _
  cases (renderNode setting jumps place node context).1 with
  | error cause => rfl
  | ok text => exact congrArg Except.ok String.append_empty

theorem renderNodes_cons_error {node : Node} {nodes : List Node} {cause : RenderError}
    (failed : (renderNode setting jumps place node context).1 = .error cause) :
    (renderNodes setting jumps place (node :: nodes) context).1 = .error cause := by
  have step (next : String → Rendering String) :
      ((renderNode setting jumps place node >>= next) context).1 = .error cause := by
    change (ExceptT.bindCont next (renderNode setting jumps place node context).1
      (renderNode setting jumps place node context).2).1 = _
    rw [failed]
    rfl
  rw [renderNodes]
  exact step _

end Show

/-! ### Calls without a call block -/

section Calls

variable (setting : Setting) (n calls : Nat) {context context' : Context} {callable : Callable} {values : List Value}

/-- If a call does not fail, without call blocks, for want of a macro, then the body of a call block changes nothing. -/
theorem invoke_eq_of_uncalled (same : context.uncalled = context'.uncalled)
    (enough : callable.definition.params.length ≤ values.length)
    (callables : ∀ ⦃cause⦄, invoke (.within setting n) calls callable values context.uncalled none = .error cause →
      ¬cause.isUncallable) :
    invoke (.within setting n) calls callable values context.uncalled none =
      invoke (.within setting n) calls callable values context' none := by
  let first (cause : RenderError) : Prop := cause.isUncallable
  have akin : (Terms.ending first fun _ => False).Akin context.uncalled context' :=
    akin_of_uncalled_eq (fun _ => id) same
  exact (agree_invoke_of_enough setting n calls akin enough none).eq callables fun _ _ => id

end Calls

/-- A call without a call block comes to the same in any two contexts that differ only in the body of a call block,
unless, where none is known, it fails for want of a macro. A macro that starts with the body of a call block does fail
there, and one that only shows the body shows whatever it finds. -/
theorem call_eq_of_uncalled (setting : Setting) (n calls : Nat) :
    (∀ context context' callee callable args args' values, Context.uncalled context = Context.uncalled context' →
      (Expr.path? callee).bind (Context.uncalled context).macro? = some callable →
      evalAll setting (.within setting n) calls context args = .ok values →
      evalAll setting (.within setting n) calls context' args' = .ok values →
      callable.definition.params.length ≤ values.length →
      (∀ cause, invoke (.within setting n) calls callable values context.uncalled none = .error cause →
        ¬cause.isUncallable) →
      eval setting (.within setting n) calls context (.call callee args) =
        eval setting (.within setting n) calls context' (.call callee args')) ∧
    (∀ context name rest, calls < maxNesting →
      invoke (.within setting (n + 1)) calls ⟨⟨name, [], showCaller :: rest⟩, []⟩ [] (Context.uncalled context) none =
        .error .notCallable) ∧
    ∀ context name text, calls + 1 < maxNesting →
      let called := Context.bindMacro context callerName ⟨⟨callerName, [], [.text text]⟩, []⟩
      called.uncalled = context.uncalled ∧
        invoke (.within setting (n + 2)) calls (passThrough name) [] called none = .ok text := by
  refine ⟨?_, fun context name rest admitted => ?_, fun context name text admitted => ⟨?_, ?_⟩⟩
  · intro context context' callee callable args args' values same known ha ha' enough callables
    have knows (context : Context) (known : callee.path?.bind context.uncalled.macro? = some callable) :
        callee.path?.bind context.macro? = some callable := by
      obtain ⟨path, named, found⟩ := Option.bind_eq_some_iff.1 known
      rw [Context.macro?_uncalled] at found
      split at found
      · cases found
      · rw [named]
        exact found
    have value (context : Context) (args : List Expr) (known : callee.path?.bind context.macro? = some callable)
        (ha : evalAll setting (.within setting n) calls context args = .ok values) :
        eval setting (.within setting n) calls context (.call callee args) =
          (invoke (.within setting n) calls callable values context none).map Value.string := by
      rw [eval, known, ha]
      rfl
    rw [value context args (knows context known) ha, value context' args' (knows context' (same ▸ known)) ha',
      ← invoke_eq_of_uncalled setting n calls rfl enough callables,
      ← invoke_eq_of_uncalled setting n calls same enough callables]
  · have absent : (Expr.var callerName).path?.bind ((context.uncalled.inside []).macro?) = none :=
      context.macro?_uncalled callerName
    rw [invoke_nil, if_neg (by omega)]
    refine renderNodes_cons_error ?_
    rw [showCaller, renderNode_output, Option.elim_none, eval, absent]
    rfl
  · exact congrArg (Context.mk context.globals context.scopes) (Fields.erase_put callerName _ context.macros)
  · let called := context.bindMacro callerName ⟨⟨callerName, [], [.text text]⟩, []⟩
    have known : (called.inside []).macro? callerName = some ⟨⟨callerName, [], [.text text]⟩, []⟩ :=
      Fields.find?_put_self ..
    have shown : ((Jumps.within setting (n + 2)).body ⟨[], 0, calls + 1⟩ [showCaller] (called.inside [])).1 = _ :=
      renderNodes_singleton showCaller
    rw [passThrough, invoke_nil, if_neg (by omega), Option.elim_none, shown, renderNode_showCaller known,
      if_neg (by simp only; omega)]
    change (renderNodes setting (.within setting n) ⟨[], 0, calls + 2⟩ [.text text] _).1 = _
    rw [renderNodes_singleton]
    rfl

/-- A macro that shows its argument is called with and without the body of a call block around. -/
theorem call_eq_of_greeting :
    let callable : Callable := ⟨⟨"m", [⟨"x", none⟩], [.text "hi ", .output (.var "x")]⟩, []⟩
    let context := (Context.ofNamespace .empty).bindMacro "m" callable
    let called := context.bindMacro callerName ⟨⟨callerName, [], [.text "body"]⟩, []⟩
    let call : Expr := .call (.var "m") [.literal (.int 7)]
    eval (.alone .english) (.within (.alone .english) 1) 0 called call = .ok (.string "hi 7") ∧
      eval (.alone .english) (.within (.alone .english) 1) 0 context call = .ok (.string "hi 7") := by
  intro callable context called call
  have value (context : Context) : evalAll (.alone .english) (.within (.alone .english) 1) 0 context
      [.literal (.int 7)] = .ok [.int 7] := rfl
  have shown : eval (.alone .english) (.within (.alone .english) 1) 0 context call = .ok (.string "hi 7") := rfl
  have same := (call_eq_of_uncalled (.alone .english) 1 0).1 called context (.var "m") _ [.literal (.int 7)]
    [.literal (.int 7)] [.int 7] rfl rfl (value _) (value _) (Nat.le_refl 1) nofun
  exact ⟨same.trans shown, shown⟩

/-- A macro that is called without a call block shows the body of the call block around the place. -/
theorem call_of_enclosing_body :
    let source := "\x7b% macro inner() %\x7d\x7b\x7b caller() \x7d\x7d\x7b% endmacro %\x7d" ++
      "\x7b% macro outer() %\x7d[\x7b\x7b inner() \x7d\x7d]\x7b% endmacro %\x7d" ++
      "\x7b% call outer() %\x7dbody\x7b% endcall %\x7d"
    let context := (Context.ofNamespace .empty).bindMacro "inner" (passThrough "inner")
    let called := context.bindMacro callerName ⟨⟨callerName, [], [.text "body"]⟩, []⟩
    let call : Expr := .call (.var "inner") []
    called.uncalled = context.uncalled ∧
      eval (.alone .english) (.within (.alone .english) 2) 0 called call = .ok (.string "body") ∧
      eval (.alone .english) (.within (.alone .english) 2) 0 context call = .error .notCallable ∧
      renderText source .empty .english = .ok "[body]" := by
  intro source context called call
  have shown : (renderText source .empty .english).toOption = some "[body]" := by
    rw [renderText, read_eq_readChars (Text.append_eq_ofList (Text.append_eq_ofList rfl rfl) rfl)]
    decide +kernel
  refine ⟨rfl, rfl, rfl, ?_⟩
  cases text : renderText source .empty .english with
  | error cause =>
    rw [text] at shown
    cases shown
  | ok text =>
    rw [text] at shown
    exact congrArg Except.ok (Option.some.inj shown)

/-! ### Call blocks of macros that show their body -/

/-- The context of the body of a call block of such a macro. -/
def Context.called (context : Context) (body : List Node) : Context :=
  (context.bindMacro callerName ⟨⟨callerName, [], body⟩, context.locals⟩).inside context.locals

section CallBlock

variable {setting : Setting} {place : Place} {context : Context} {name : String} {body : List Node}

/-- The body of the call block is rendered two calls deeper, unless something nests too deep. -/
theorem renderNode_callBlock (known : context.macro? name = some (passThrough name)) (body : List Node) (n : Nat) :
    (∃ cause : RenderError, cause.isLimit ∧ (renderNode setting (.within setting n) place
      (.callBlock [] (.call (.var name) []) body) context).1 = .error cause) ∨
    ∃ m, (renderNode setting (.within setting n) place (.callBlock [] (.call (.var name) []) body) context).1 =
      (renderNodes setting (.within setting m) ⟨[], 0, place.calls + 2⟩ body (context.called body)).1 := by
  let caller : Callable := ⟨⟨callerName, [], body⟩, context.locals⟩
  have path : (Expr.var name).path?.bind context.macro? = some (passThrough name) := known
  have called : ((context.inside []).bindMacro callerName caller).macro? callerName = some caller :=
    Fields.find?_put_self ..
  have block : (renderNode setting (.within setting n) place (.callBlock [] (.call (.var name) []) body) context).1 =
      invoke (.within setting n) place.calls (passThrough name) [] context (some caller) := by
    rw [renderNode, callWith_apply, calledWith, path]
    rfl
  rw [block, passThrough, invoke_nil]
  by_cases deep : maxNesting ≤ place.calls
  · rw [if_pos deep]
    exact .inl ⟨_, rfl, rfl⟩
  rw [if_neg deep]
  cases n with
  | zero => exact .inl ⟨.unsettled, rfl, rfl⟩
  | succ n =>
    have body : ((Jumps.within setting (n + 1)).body ⟨[], 0, place.calls + 1⟩ [showCaller]
        ((context.inside []).bindMacro callerName caller)).1 = _ := renderNodes_singleton showCaller
    rw [Option.elim_some, body, renderNode_showCaller called]
    by_cases deeper : maxNesting ≤ place.calls + 1
    · rw [if_pos deeper]
      exact .inl ⟨_, rfl, rfl⟩
    rw [if_neg deeper]
    cases n with
    | zero => exact .inl ⟨.unsettled, rfl, rfl⟩
    | succ n => exact .inr ⟨n, rfl⟩

/-- A body that shows what its own name stands for leads back to itself. -/
theorem renderNodes_forwarding {rest : List Node} {captured : Scope} (n : Nat) : ∀ (place : Place) {context : Context},
    context.macro? callerName = some ⟨⟨callerName, [], showCaller :: rest⟩, captured⟩ →
      ∃ cause : RenderError, cause.isLimit ∧
        (renderNodes setting (.within setting n) place (showCaller :: rest) context).1 = .error cause := by
  induction n with
  | zero =>
    intro place context known
    by_cases deep : maxNesting ≤ place.calls
    · refine ⟨.macroTooDeep callerName, rfl, renderNodes_cons_error ?_⟩
      rw [renderNode_showCaller known, if_pos deep]
    · refine ⟨.unsettled, rfl, renderNodes_cons_error ?_⟩
      rw [renderNode_showCaller known, if_neg deep]
      rfl
  | succ n ih =>
    intro place context known
    by_cases deep : maxNesting ≤ place.calls
    · refine ⟨.macroTooDeep callerName, rfl, renderNodes_cons_error ?_⟩
      rw [renderNode_showCaller known, if_pos deep]
    · -- One call deeper, the body finds itself under its own name again.
      have inner : (context.inside captured).macro? callerName = some _ := known
      obtain ⟨cause, limit, failed⟩ := ih ⟨[], 0, place.calls + 1⟩ inner
      refine ⟨cause, limit, renderNodes_cons_error ?_⟩
      rw [renderNode_showCaller known, if_neg deep]
      exact failed

/-- What a context shows, it shows with all of its variables in one scope. -/
theorem level_locals (proper : context.Proper) : Level (fun _ => True) 0 context.scopes [[], context.locals] := by
  have sorted := proper.sorted
  cases scopes : context.scopes with
  | nil => exact absurd scopes proper.nonempty
  | cons inner outer =>
    have locals : context.locals = overlaid (inner :: outer) := congrArg overlaid scopes
    -- The stacks are not the same, but every name is found in both, or in none.
    have found (name : String) : (inner :: outer).findSome? (Fields.find? name) =
        [[], context.locals].findSome? (Fields.find? name) := by
      rw [← find?_overlaid (scopes ▸ sorted), ← locals, List.findSome?_cons, Fields.find?_nil, List.findSome?_cons]
      cases Fields.find? name context.locals with
      | none => rfl
      | some value => rfl
    have flat : ∀ scope ∈ [[], context.locals], Fields.Sorted scope := by
      simp only [List.forall_mem_cons, locals]
      exact ⟨.nil, sorted_overlaid _, fun _ m => by cases m⟩
    refine .ground trivial (fun _ _ => trivial) (sorted inner (scopes ▸ List.mem_cons_self)) .nil found ?_
    refine Fields.eq_of_find? (sorted_overlaid _) (sorted_overlaid _) fun name => ?_
    rw [find?_overlaid (scopes ▸ sorted), find?_overlaid flat, found]

/-- The failures that end the comparison of a body of a call block with the body in place. -/
def endsBody (cause : RenderError) : Prop :=
  cause.isUncallable ∨ cause.isLimit

/-- In place, where no body of a call block is known, a body is rendered as it is in the call block. -/
theorem agree_called (setting : Setting) (place : Place) (proper : context.Proper)
    (plain : ∀ blockName inner, .block blockName inner ∉ partsOfAll body) (n m : Nat) :
    (Terms.ending endsBody (·.isLimit)).Agree
      (renderNodes setting (.within setting n) place body context.uncalled).1
      (renderNodes setting (.within setting m) ⟨[], 0, place.calls + 2⟩ body (context.called body)).1 := by
  let t : Terms := Terms.ending endsBody (·.isLimit)
  have lenient : t.Lenient := fun _ limit => ⟨.inr limit, limit⟩
  have covers : t.Covers setting := Terms.covers_ending _ _ setting
  have other (name : String) (other : name ≠ callerName) : context.macro? name = (context.called body).macro? name :=
    (Fields.find?_put_ne other _ context.macros).symm
  have level := level_locals proper
  have alike : t.Alike 0 context.uncalled (context.called body) := ⟨akin_uncalled (fun _ => .inl) rfl other, level⟩
  have near : t.Near place ⟨[], 0, place.calls + 2⟩ := ⟨.inr lenient, .inr lenient⟩
  have admits : ∀ part ∈ partsOfAll body, t.AdmitsAt place ⟨[], 0, place.calls + 2⟩ part := by
    refine fun part m => ⟨fun _ _ => trivial, fun blockName inner same => ?_⟩
    exact absurd (same ▸ m) (plain blockName inner)
  exact (Terms.follows_renderNodes covers (covers.keep_within n (.inr lenient)) near admits).agree alike

/-- Nodes that do not fail, without call blocks, for want of a macro come to the same with them. -/
theorem renderNodes_eq_of_uncalled (n : Nat) (nonempty : context.scopes ≠ []) (nodes : List Node)
    (callables : ∀ ⦃cause⦄, (renderNodes setting (.within setting n) place nodes context.uncalled).1 = .error cause →
      ¬cause.isUncallable) :
    (renderNodes setting (.within setting n) place nodes context.uncalled).1 =
      (renderNodes setting (.within setting n) place nodes context).1 := by
  let t : Terms := Terms.ending (·.isUncallable) fun _ => False
  have covers : t.Covers setting := Terms.covers_ending _ _ setting
  have level : Level (fun _ => True) 0 context.scopes context.scopes := by
    obtain ⟨inner, outer, scopes⟩ := List.exists_cons_of_ne_nil nonempty
    rw [scopes]
    exact .same trivial fun _ _ => trivial
  have alike : t.Alike 0 context.uncalled context := ⟨akin_uncalled (fun _ => id) rfl fun _ _ => rfl, level⟩
  exact ((Terms.follows_free covers n place nodes).agree alike).eq callables fun _ _ => id

end CallBlock

/-- The body of a call block of a macro that only shows it, without blocks, is rendered as it would be in place: if it
does not fail, where no body of a call block is known, for want of a macro, and if nothing nests too deep. A body that
starts with the text of the body around the place never comes to a text. -/
theorem callBlock_eq_inPlace (setting : Setting) (n : Nat) (place : Place) {context : Context} (proper : context.Proper)
    {name : String} (known : context.macro? name = some (passThrough name)) :
    (∀ body : List Node, (∀ blockName inner, .block blockName inner ∉ partsOfAll body) →
      (∀ cause, (renderNodes setting (.within setting n) place body context.uncalled).1 = .error cause →
        ¬cause.isUncallable) →
      (∀ cause, (renderNodes setting (.within setting n) place body context).1 = .error cause → ¬cause.isLimit) →
      (∀ cause, (renderNode setting (.within setting n) place (.callBlock [] (.call (.var name) []) body)
        context).1 = .error cause → ¬cause.isLimit) →
      (renderNode setting (.within setting n) place (.callBlock [] (.call (.var name) []) body) context).1 =
        (renderNodes setting (.within setting n) place body context).1) ∧
    ∀ rest text, (renderNode setting (.within setting n) place
      (.callBlock [] (.call (.var name) []) (showCaller :: rest)) context).1 ≠ .ok text := by
  refine ⟨fun body plain callables shallow shallow' => ?_, fun rest text shown => ?_⟩
  · have uncalled := renderNodes_eq_of_uncalled n proper.nonempty body callables
    rcases renderNode_callBlock known body n with ⟨cause, limit, failed⟩ | ⟨m, called⟩
    · exact absurd limit (shallow' cause failed)
    · -- The call block is compared with the body in place without a caller, and that one with the body in place.
      have agree := agree_called setting place proper plain n m
      rw [← uncalled] at shallow ⊢
      rw [called] at shallow' ⊢
      exact (agree.eq (fun cause failed => not_or.2 ⟨callables cause failed, shallow cause failed⟩) shallow').symm
  · rcases renderNode_callBlock known (showCaller :: rest) n with ⟨cause, limit, failed⟩ | ⟨m, called⟩
    · rw [failed] at shown
      cases shown
    · have body : (context.called (showCaller :: rest)).macro? callerName = some _ := Fields.find?_put_self ..
      obtain ⟨cause, -, failed⟩ := renderNodes_forwarding m ⟨[], 0, place.calls + 2⟩ body
      rw [called, failed] at shown
      cases shown

/-- A body without the one around it is rendered as in place, inside a macro with a body of its own. -/
theorem callBlock_of_greeting :
    let context := (((Context.ofNamespace .empty).bindMacro "w" (passThrough "w")).bindMacro callerName
      ⟨⟨callerName, [], [.text "OUT"]⟩, []⟩).assign "x" (.int 7)
    let body : List Node := [.text "hi ", .output (.var "x")]
    (renderNode (.alone .english) (.within (.alone .english) 2) ⟨[], 0, 1⟩ (.callBlock [] (.call (.var "w") []) body)
      context).1 = .ok "hi 7" ∧
    (renderNodes (.alone .english) (.within (.alone .english) 2) ⟨[], 0, 1⟩ body context).1 = .ok "hi 7" := by
  intro context body
  have sorted : Fields.Sorted ([] : Scope) := .nil
  have proper : context.Proper :=
    (((proper_ofNamespace .empty).bindMacro sorted (.inr rfl)).bindMacro sorted (.inl rfl)).assign "x" (.int 7)
  have known : context.macro? "w" = some (passThrough "w") := rfl
  have plain (blockName : String) (inner : List Node) : .block blockName inner ∉ partsOfAll body := by
    simp [body, partsOfAll, Node.parts]
  have shown : (renderNodes (.alone .english) (.within (.alone .english) 2) ⟨[], 0, 1⟩ body context).1 = .ok "hi 7" :=
    rfl
  have settles (cause : RenderError) (failed : .ok "hi 7" = Except.error cause) (limit : cause.isLimit) : False := by
    cases failed
  have same := (callBlock_eq_inPlace (.alone .english) 2 ⟨[], 0, 1⟩ proper known).1 body plain nofun settles settles
  exact ⟨same.trans shown, shown⟩

/-- In a call block, the body in place of the one around it is itself: it comes to another text where it changes what it
finds. -/
theorem callBlock_of_outer_body :
    let text (name content : String) : Callable := ⟨⟨name, [], [.text content]⟩, []⟩
    let known := ((Context.ofNamespace .empty).bindMacro "w" (passThrough "w")).bindMacro "stop" (text "stop" "n")
    let context := known.bindMacro callerName (text callerName "OUT")
    let body : List Node := [.branch [(.compare .eq (.call (.var "stop") []) (.literal (.string "y")), [.text "done"])]
      (some [.inclusion (.literal (.string "defs")) false true, showCaller])]
    let library := Library.empty.add "defs" "\x7b% macro stop() %\x7dy\x7b% endmacro %\x7d"
    library.toOption.map (fun library =>
      ((renderNode library.setting (.within library.setting 9) ⟨[], 0, 1⟩ (.callBlock [] (.call (.var "w") []) body)
        context).1.toOption,
      (renderNodes library.setting (.within library.setting 9) ⟨[], 0, 1⟩ body context).1.toOption)) =
        some (some "done", some "OUT") := by
  decide +kernel

end Folio.Template

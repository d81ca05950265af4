import Folio.Proofs.Template.Frame
import Folio.Proofs.Template.Named
import Folio.Proofs.Template.Operation

/-! Two renderings side by side. They run in contexts that show the same variables, at depths that may differ, and one
of them may not know a macro that the other one does: the body of a call block. What they come to is the same, unless
one of them fails in a way that ends the comparison. -/
namespace Folio

namespace RenderError

/-- Something nests too deep. -/
def isLimit : RenderError → Bool
  | .inclusionTooDeep _ | .parentsTooDeep _ | .macroTooDeep _ | .unsettled => true
  | _ => false

/-- What is called is no macro. -/
def isUncallable : RenderError → Bool
  | .notCallable | .callTarget => true
  | _ => false

end RenderError

namespace Template

/-- A test in the expression can, somewhere, be made of the least integer and minus one. -/
def Overflows (setting : Setting) : Expr → Prop
  | .test name target args _ => ∃ jumps calls context value values,
    eval setting jumps calls context target = .ok value ∧ evalAll setting jumps calls context args = .ok values ∧
      IsLeastByMinusOne name value values
  | _ => False

/-- The terms on which two renderings are compared. -/
structure Terms where
  /-- The failures of the first rendering that end the comparison. -/
  first : RenderError → Prop
  /-- The failures of the second rendering that end it. -/
  second : RenderError → Prop
  /-- The failures that both may come to. -/
  common : RenderError → Prop
  /-- The expressions that may be evaluated. -/
  admits : Expr → Prop
  /-- What may be known under a name. -/
  knows : String → Callable → Prop
  /-- The scopes that may be open. -/
  opens : Scope → Prop

namespace Terms

variable (t : Terms)

/-- Nesting too deep ends the comparison. -/
def Lenient : Prop :=
  ∀ ⦃cause : RenderError⦄, cause.isLimit → t.first cause ∧ t.second cause

/-- Two depths that are the same, if depths count. -/
def Close (m n : Nat) : Prop :=
  m = n ∨ t.Lenient

theorem Close.map {t : Terms} {m n : Nat} (h : t.Close m n) (f : Nat → Nat) : t.Close (f m) (f n) :=
  h.imp_left (congrArg f)

structure Near (place place' : Place) : Prop where
  depth : t.Close place.depth place'.depth
  calls : t.Close place.calls place'.calls

/-! ### Results -/

section Results

variable {α β : Type}

/-- The comparison has ended. -/
def Ended (a b : Except RenderError α) : Prop :=
  (∃ cause, t.first cause ∧ a = .error cause) ∨ ∃ cause, t.second cause ∧ b = .error cause

/-- The results are the same. -/
def Same (a b : Except RenderError α) : Prop :=
  a = b ∧ ∀ ⦃cause⦄, a = .error cause → t.common cause

def Agree (a b : Except RenderError α) : Prop :=
  t.Ended a b ∨ t.Same a b

variable {t} {a b : Except RenderError α}

theorem Ended.bind (h : t.Ended a b) (f g : α → Except RenderError β) : t.Ended (a >>= f) (b >>= g) := by
  rcases h with ⟨cause, hc, rfl⟩ | ⟨cause, hc, rfl⟩
  · exact .inl ⟨cause, hc, rfl⟩
  · exact .inr ⟨cause, hc, rfl⟩

namespace Agree

theorem ok (value : α) : t.Agree (.ok value) (.ok value) :=
  .inr ⟨rfl, nofun⟩

theorem error {cause : RenderError} (h : t.common cause) :
    t.Agree (.error cause : Except RenderError α) (.error cause) :=
  .inr ⟨rfl, fun _ same => Except.error.inj same ▸ h⟩

theorem self (h : ∀ ⦃cause⦄, a = .error cause → t.common cause) : t.Agree a a :=
  .inr ⟨rfl, h⟩

theorem bind {f g : α → Except RenderError β} (h : t.Agree a b)
    (hf : ∀ value, a = .ok value → t.Agree (f value) (g value)) : t.Agree (a >>= f) (b >>= g) := by
  rcases h with ended | ⟨rfl, common⟩
  · exact .inl (ended.bind f g)
  · cases a with
    | error cause => exact error (common rfl)
    | ok value => exact hf value rfl

/-- What nests too deep fails, and what does not goes on. -/
theorem limit {m n : Nat} (close : t.Close m n) (cause : RenderError) (deep : cause.isLimit) (hc : t.common cause)
    (h : t.Agree a b) :
    t.Agree (if maxNesting ≤ m then .error cause else a) (if maxNesting ≤ n then .error cause else b) := by
  rcases close with rfl | lenient
  · split
    · exact error hc
    · exact h
  · by_cases first : maxNesting ≤ m
    · rw [if_pos first]
      exact .inl (.inl ⟨cause, (lenient deep).1, rfl⟩)
    · by_cases second : maxNesting ≤ n
      · rw [if_pos second]
        exact .inl (.inr ⟨cause, (lenient deep).2, rfl⟩)
      · rwa [if_neg first, if_neg second]

/-- What neither rendering fails with does not end the comparison. -/
theorem eq (h : t.Agree a b) (ha : ∀ ⦃cause⦄, a = .error cause → ¬t.first cause)
    (hb : ∀ ⦃cause⦄, b = .error cause → ¬t.second cause) : a = b := by
  rcases h with (⟨cause, hc, same⟩ | ⟨cause, hc, same⟩) | same
  · exact absurd hc (ha same)
  · exact absurd hc (hb same)
  · exact same.1

end Agree

end Results

end Terms

/-! ### Scopes -/

/-- The variables that scopes show, where inner ones hide outer ones. -/
def overlaid (scopes : List Scope) : Scope :=
  scopes.foldr (fun scope visible => Fields.putAll visible scope) []

theorem sorted_overlaid (scopes : List Scope) : Fields.Sorted (overlaid scopes) := by
  induction scopes with
  | nil => exact .nil
  | cons scope scopes ih => exact Fields.sorted_putAll ih scope

theorem find?_overlaid {scopes : List Scope} (sorted : ∀ scope ∈ scopes, Fields.Sorted scope) (name : String) :
    Fields.find? name (overlaid scopes) = scopes.findSome? (Fields.find? name) := by
  induction scopes with
  | nil => rfl
  | cons scope scopes ih =>
    rw [List.forall_mem_cons] at sorted
    rw [show overlaid (scope :: scopes) = Fields.putAll (overlaid scopes) scope from rfl,
      Fields.find?_putAll sorted.1, ih sorted.2, List.findSome?_cons]
    cases Fields.find? name scope <;> rfl

theorem overlaid_put {inner : Scope} (sorted : Fields.Sorted inner) (name : String) (value : Value)
    (outer : List Scope) :
    overlaid (Fields.put name value inner :: outer) = Fields.put name value (overlaid (inner :: outer)) := by
  have sorted' := Fields.sorted_put sorted name value
  refine Fields.eq_of_find? (sorted_overlaid _) (Fields.sorted_put (sorted_overlaid _) name value) fun key => ?_
  change Fields.find? key (Fields.putAll (overlaid outer) _) = _
  rw [Fields.find?_putAll sorted', Fields.find?_put, Fields.find?_put]
  by_cases same : key = name
  · simp [same]
  · simp only [same, if_false]
    exact (Fields.find?_putAll sorted (overlaid outer) key).symm

/-- Two stacks of scopes that show the same, of which so many of the innermost scopes are the same ones. Those of the
first one are as they may be. -/
inductive Level (opens : Scope → Prop) : Nat → List Scope → List Scope → Prop
  | same {inner : Scope} {outer : List Scope} (here : opens inner) (around : ∀ scope ∈ outer, opens scope) :
      Level opens 0 (inner :: outer) (inner :: outer)
  | ground {inner inner' : Scope} {outer outer' : List Scope} (here : opens inner)
      (around : ∀ scope ∈ outer, opens scope) (sorted : Fields.Sorted inner) (sorted' : Fields.Sorted inner')
      (found : ∀ name,
        (inner :: outer).findSome? (Fields.find? name) = (inner' :: outer').findSome? (Fields.find? name))
      (visible : overlaid (inner :: outer) = overlaid (inner' :: outer')) :
      Level opens 0 (inner :: outer) (inner' :: outer')
  | push {k : Nat} {scopes scopes' : List Scope} {scope : Scope} (here : opens scope)
      (h : Level opens k scopes scopes') : Level opens (k + 1) (scope :: scopes) (scope :: scopes')

/-- Binding variables keeps scopes as they may be. -/
structure Bindable (opens : Scope → Prop) : Prop where
  nil : opens []
  put : ∀ ⦃scope⦄, opens scope → ∀ name value, opens (Fields.put name value scope)

namespace Bindable

variable {opens : Scope → Prop} (h : Bindable opens)
include h

theorem putAll {base : Scope} (hb : opens base) (upper : Scope) : opens (Fields.putAll base upper) := by
  induction upper generalizing base with
  | nil => exact hb
  | cons field upper ih => exact ih (h.put hb field.1 field.2)

theorem overlaid (scopes : List Scope) : opens (overlaid scopes) := by
  induction scopes with
  | nil => exact h.nil
  | cons scope scopes ih => exact h.putAll ih scope

theorem bindTargets {targets : List String} {item : Value} {scope : Scope}
    (bound : Template.bindTargets targets item = .ok scope) : opens scope := by
  unfold Template.bindTargets at bound
  split at bound
  · cases bound
    exact h.put h.nil _ _
  · split at bound
    · cases bound
      exact h.putAll h.nil _
    · cases bound
  · cases bound

theorem bindParams {jumps : Jumps} {calls : Nat} {context : Context} {params : List Param} :
    ∀ {args : List Value} {bound scope : Scope}, opens bound →
      Template.bindParams jumps calls context params args bound = .ok scope → opens scope := by
  induction params with
  | nil =>
    intro args bound scope hb same
    cases same
    exact hb
  | cons param params ih =>
    rintro (_ | ⟨arg, args⟩) bound scope hb same
    · rw [Template.bindParams] at same
      cases value : param.default.elim (.ok .undefined) (jumps.value calls context) with
      | error cause =>
        rw [value] at same
        cases same
      | ok value' =>
        rw [value] at same
        exact ih (h.put hb _ _) same
    · exact ih (h.put hb _ _) same

end Bindable

namespace Level

variable {opens : Scope → Prop} {k : Nat} {scopes scopes' : List Scope}

theorem found (h : Level opens k scopes scopes') (name : String) :
    scopes.findSome? (Fields.find? name) = scopes'.findSome? (Fields.find? name) := by
  induction h with
  | same => rfl
  | ground _ _ _ _ found => exact found name
  | push _ _ ih => rw [List.findSome?_cons, List.findSome?_cons, ih]

theorem visible (h : Level opens k scopes scopes') : overlaid scopes = overlaid scopes' := by
  induction h with
  | same => rfl
  | ground _ _ _ _ _ visible => exact visible
  | push _ _ ih => exact congrArg (Fields.putAll · _) ih

theorem tail (h : Level opens (k + 1) scopes scopes') : Level opens k scopes.tail scopes'.tail := by
  cases h with
  | push _ h => exact h

theorem nonempty (h : Level opens k scopes scopes') : scopes ≠ [] := by
  cases h with
  | same | ground | push => exact List.cons_ne_nil _ _

theorem opened (h : Level opens k scopes scopes') : ∀ scope ∈ scopes, opens scope := by
  induction h with
  | same here around | ground here around => exact List.forall_mem_cons.2 ⟨here, around⟩
  | push here _ ih => exact List.forall_mem_cons.2 ⟨here, ih⟩

theorem assign (h : Level opens k scopes scopes') (hb : Bindable opens) (globals globals' : Namespace)
    (macros macros' : List (String × Callable)) (name : String) (value : Value) :
    Level opens k ((Context.mk globals scopes macros).assign name value).scopes
      ((Context.mk globals' scopes' macros').assign name value).scopes := by
  cases h with
  | same here around => exact .same (hb.put here name value) around
  | push here h => exact .push (hb.put here name value) h
  | @ground inner inner' outer outer' here around sorted sorted' found visible =>
    refine .ground (hb.put here name value) around (Fields.sorted_put sorted name value)
      (Fields.sorted_put sorted' name value) (fun other => ?_) ?_
    · have found := found other
      simp only [List.findSome?_cons, Fields.find?_put] at found ⊢
      by_cases same : other = name
      · simp [same]
      · simpa [same] using found
    · rw [overlaid_put sorted, overlaid_put sorted', visible]

end Level

/-! ### Contexts -/

namespace Terms

variable {t : Terms}

def AdmitsNode (t : Terms) (node : Node) : Prop :=
  ∀ e ∈ node.exprs, t.admits e

/-- What can be called may be rendered: its body and the defaults of its parameters. -/
structure AdmitsDefinition (t : Terms) (definition : Definition) : Prop where
  body : ∀ part ∈ Node.partsOfAll definition.body, t.AdmitsNode part
  defaults : ∀ param ∈ definition.params, ∀ e ∈ param.default, t.admits e

/-- Two contexts with the same globals. They know the same macros, but for the body of a call block that the first one
does not know, if a call that fails for that ends the comparison. -/
structure Akin (t : Terms) (context context' : Context) : Prop where
  globals : ∀ name, (context.globals.get? name).getD .undefined = (context'.globals.get? name).getD .undefined
  macros : ∀ name, context.macro? name = context'.macro? name ∨
    name = callerName ∧ context.macro? name = none ∧ t.first .notCallable ∧ t.first .callTarget
  known : ∀ ⦃name callable⦄, context'.macro? name = some callable →
    t.knows name callable ∧ t.AdmitsDefinition callable.definition

/-- The contexts show the same local variables too, so many scopes inside those that may differ. -/
structure Alike (t : Terms) (k : Nat) (context context' : Context) : Prop extends t.Akin context context' where
  scopes : Level t.opens k context.scopes context'.scopes

theorem Akin.bindMacro {context context' : Context} (h : t.Akin context context') {name : String}
    {callable : Callable} (knows : t.knows name callable) (admits : t.AdmitsDefinition callable.definition) :
    t.Akin (context.bindMacro name callable) (context'.bindMacro name callable) := by
  have found (context : Context) (other : String) : (context.bindMacro name callable).macro? other =
      if other = name then some callable else context.macro? other := Fields.find?_put name other callable _
  refine ⟨h.globals, fun other => ?_, fun other known => ?_⟩
  · rw [found, found]
    split
    · exact .inl rfl
    · exact h.macros other
  · rw [found]
    split
    · rename_i named
      intro same
      cases same
      exact named ▸ ⟨knows, admits⟩
    · exact fun same => h.known same

namespace Alike

variable {k : Nat} {context context' : Context}

theorem lookup (h : t.Alike k context context') (name : String) : context.lookup name = context'.lookup name := by
  rw [Context.lookup, Context.lookup, h.scopes.found]
  cases context'.scopes.findSome? (Fields.find? name) with
  | none => exact h.globals name
  | some value => rfl

theorem locals (h : t.Alike k context context') : context.locals = context'.locals :=
  h.scopes.visible

theorem push (h : t.Alike k context context') {scope : Scope} (here : t.opens scope) :
    t.Alike (k + 1) (context.push scope) (context'.push scope) :=
  ⟨⟨h.globals, h.macros, h.known⟩, .push here h.scopes⟩

theorem pop (h : t.Alike (k + 1) context context') : t.Alike k context.pop context'.pop :=
  ⟨⟨h.globals, h.macros, h.known⟩, h.scopes.tail⟩

theorem assign (h : t.Alike k context context') (hb : Bindable t.opens) (name : String) (value : Value) :
    t.Alike k (context.assign name value) (context'.assign name value) := by
  have apart (context : Context) : (context.assign name value).globals = context.globals ∧
      (context.assign name value).macros = context.macros := by
    unfold Context.assign
    split
    · exact ⟨rfl, rfl⟩
    · exact ⟨rfl, rfl⟩
  refine ⟨⟨?_, ?_, ?_⟩, h.scopes.assign hb context.globals context'.globals context.macros context'.macros name value⟩
  · rw [(apart context).1, (apart context').1]
    exact h.globals
  · simp only [Context.macro?, (apart context).2, (apart context').2]
    exact h.macros
  · simp only [Context.macro?, (apart context').2]
    exact h.known

theorem bindMacro (h : t.Alike k context context') {name : String} {callable : Callable}
    (knows : t.knows name callable) (admits : t.AdmitsDefinition callable.definition) :
    t.Alike k (context.bindMacro name callable) (context'.bindMacro name callable) :=
  ⟨h.toAkin.bindMacro knows admits, h.scopes⟩

end Alike

/-- The terms hold good for whatever rendering may come to. -/
structure Covers (t : Terms) (setting : Setting) : Prop where
  common : ∀ ⦃cause⦄, cause ≠ .remainderOverflow → t.common cause
  overflow : ∀ ⦃e⦄, t.admits e → Overflows setting e → t.common .remainderOverflow
  children : ∀ ⦃e⦄, t.admits e → ∀ child ∈ e.children, t.admits child
  template : ∀ ⦃name template⦄, setting.template? name = .ok (some template) →
    ∀ part ∈ Node.partsOfAll template.nodes, t.AdmitsNode part
  found : ∀ ⦃name cause⦄, setting.template? name = .error cause → t.common cause
  plain : ∀ name definition, t.knows name ⟨definition, []⟩
  caller : ∀ definition ⦃captured⦄, t.opens captured → t.knows callerName ⟨definition, captured⟩
  captured : ∀ ⦃name callable⦄, t.knows name callable → t.opens callable.captured
  bindable : Bindable t.opens

/-! ### Actions -/

/-- From contexts that are alike both actions come to the same and leave contexts that are alike again, unless the
comparison ends. -/
def Follows (t : Terms) {α : Type} (k : Nat) (a b : Rendering α) : Prop :=
  ∀ ⦃context context'⦄, t.Alike k context context' →
    t.Ended (a context).1 (b context').1 ∨
      t.Same (a context).1 (b context').1 ∧ t.Alike k (a context).2 (b context').2

namespace Follows

variable {α β : Type} {k : Nat} {a b : Rendering α}

theorem agree (h : t.Follows k a b) {context context' : Context} (alike : t.Alike k context context') :
    t.Agree (a context).1 (b context').1 :=
  (h alike).imp_right And.left

theorem pure (value : α) : t.Follows k (pure value) (pure value) :=
  fun _ _ alike => .inr ⟨⟨rfl, nofun⟩, alike⟩

/-- Results that are found without a change of the context. -/
theorem of_agree {a b : Rendering α} {f g : Context → Except RenderError α}
    (ha : ∀ context, a context = (f context, context)) (hb : ∀ context, b context = (g context, context))
    (h : ∀ ⦃context context'⦄, t.Alike k context context' → t.Agree (f context) (g context')) :
    t.Follows k a b := by
  intro context context' alike
  rw [ha, hb]
  exact (h alike).imp_right fun same => ⟨same, alike⟩

theorem lift {a b : Except RenderError α} (h : t.Agree a b) : t.Follows k (liftM a) (liftM b) :=
  of_agree (lift_apply a) (lift_apply b) fun _ _ _ => h

theorem throw {cause : RenderError} (h : t.common cause) :
    t.Follows k (throw cause : Rendering α) (throw cause) :=
  fun _ _ alike => .inr ⟨⟨rfl, fun _ same => Except.error.inj same ▸ h⟩, alike⟩

theorem modify {f g : Context → Context}
    (h : ∀ ⦃context context'⦄, t.Alike k context context' → t.Alike k (f context) (g context')) :
    t.Follows k (modify f) (modify g) :=
  fun _ _ alike => .inr ⟨⟨rfl, nofun⟩, h alike⟩

theorem bind {f g : α → Rendering β} (h : t.Follows k a b) (hf : ∀ value, t.Follows k (f value) (g value)) :
    t.Follows k (a >>= f) (b >>= g) := by
  intro context context' alike
  change t.Ended (ExceptT.bindCont f (a context).1 (a context).2).1
    (ExceptT.bindCont g (b context').1 (b context').2).1 ∨
    t.Same (ExceptT.bindCont f (a context).1 (a context).2).1 (ExceptT.bindCont g (b context').1 (b context').2).1 ∧
      t.Alike k (ExceptT.bindCont f (a context).1 (a context).2).2 (ExceptT.bindCont g (b context').1 (b context').2).2
  rcases h alike with (⟨cause, hc, same⟩ | ⟨cause, hc, same⟩) | ⟨⟨same, common⟩, after⟩
  · rw [same]
    exact .inl (.inl ⟨cause, hc, rfl⟩)
  · rw [same]
    exact .inl (.inr ⟨cause, hc, rfl⟩)
  · rw [← same]
    cases result : (a context).1 with
    | error cause => exact .inr ⟨⟨rfl, fun _ inj => Except.error.inj inj ▸ common result⟩, after⟩
    | ok value => exact hf value after

theorem lift_bind {result : Except RenderError α} (common : ∀ ⦃cause⦄, result = .error cause → t.common cause)
    {f g : α → Rendering β} (hf : ∀ value, result = .ok value → t.Follows k (f value) (g value)) :
    t.Follows k (liftM result >>= f) (liftM result >>= g) := by
  cases result with
  | error cause => exact fun _ _ alike => .inr ⟨⟨rfl, fun _ same => Except.error.inj same ▸ common rfl⟩, alike⟩
  | ok value => exact hf value rfl

theorem ite {c : Prop} [Decidable c] {a' b' : Rendering α} (h : t.Follows k a b) (h' : t.Follows k a' b') :
    t.Follows k (if c then a else a') (if c then b else b') := by
  split
  · exact h
  · exact h'

/-- What nests too deep fails, and what does not goes on. -/
theorem limit {m n : Nat} (close : t.Close m n) (cause : RenderError) (deep : cause.isLimit) (hc : t.common cause)
    (h : t.Follows k a b) :
    t.Follows k (if maxNesting ≤ m then MonadExcept.throw cause else a)
      (if maxNesting ≤ n then MonadExcept.throw cause else b) := by
  rcases close with rfl | lenient
  · exact .ite (.throw hc) h
  · intro context context' alike
    by_cases first : maxNesting ≤ m
    · rw [if_pos first]
      exact .inl (.inl ⟨cause, (lenient deep).1, rfl⟩)
    · by_cases second : maxNesting ≤ n
      · rw [if_pos second]
        exact .inl (.inr ⟨cause, (lenient deep).2, rfl⟩)
      · rw [if_neg first, if_neg second]
        exact h alike

theorem inScope {scope : Scope} (here : t.opens scope) (h : t.Follows (k + 1) a b) :
    t.Follows k (Rendering.inScope scope a) (Rendering.inScope scope b) := by
  intro context context' alike
  exact (h (alike.push here)).imp_right (And.imp_right Alike.pop)

theorem isolated {inside : Context} (hi : t.Alike 0 inside inside) (h : t.Follows 0 a b) :
    t.Follows k (Rendering.isolated inside a) (Rendering.isolated inside b) := by
  intro context context' alike
  exact (h.agree hi).imp_right fun same => ⟨same, alike⟩

end Follows

end Terms

end Template

end Folio

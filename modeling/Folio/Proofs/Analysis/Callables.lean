import Folio.Proofs.Analysis.Occurrence
import Folio.Proofs.Template.Characters
import Folio.Template.Render

/-! Callables. The analysis takes what is called for a variable. It knows the macros that are defined before a call, but
neither `range` nor the macro that a call stands in, and reports these where the namespace has no value for them. -/
namespace Folio

open Node (partsOfAll)

namespace Node

/-- The node is a text, an output or a macro. -/
def isPlain : Node → Bool
  | .text _ | .output _ | .define _ _ _ => true
  | _ => false

/-- All of the nodes are texts, outputs and macros. -/
def AllPlain (nodes : List Node) : Prop :=
  ∀ node ∈ nodes, node.isPlain

instance (nodes : List Node) : Decidable (AllPlain nodes) :=
  inferInstanceAs (Decidable (∀ node ∈ nodes, node.isPlain))

theorem AllPlain.allStraight {nodes : List Node} (h : AllPlain nodes) : AllStraight nodes := by
  intro node m
  have plain := h node m
  cases node with
  | branch | inclusion => cases plain
  | _ => rfl

end Node

/-- What can be called by the name where an expression stands: `range`, a macro that is defined before, or a macro that
the expression stands in. -/
def Site.Callable (site : Site) (x : String) : Prop :=
  x = "range" ∨ x ∈ site.declared ∨ x ∈ site.macros

/-- Every variable is a parameter, has a value in the namespace, or is only called and can be called there; and every
chain of lookups that starts in the namespace has a value. What a default filter stands on may lack one. -/
structure Supplied (ns : Namespace) (nodes : List Node) : Prop where
  names : ∀ ⦃site e x called⦄, Site.outside.Holds nodes site e → e.Exposes (.var x) called →
    x ∈ site.opened ∨ ns.hasValueAt x ∨ called = true ∧ site.Callable x
  chains : ∀ ⦃site e base key called path⦄, Site.outside.Holds nodes site e → e.Exposes (.lookup base key) called →
    (Expr.lookup base key).path? = some path → (∀ x, base.root? = some x → x ∉ site.opened) → ns.hasValueAt path

/-- The name is called where it can be called, but nothing binds it there and the namespace has no value for it. -/
def Overlooked (ns : Namespace) (nodes : List Node) (x : String) : Prop :=
  ∃ site e, Site.outside.Holds nodes site e ∧ e.Exposes (.var x) true ∧ (x = "range" ∨ x ∈ site.macros) ∧
    x ∉ site.bound ∧ ns.hasValueAt x = false

variable {ns : Namespace} {nodes : List Node}

/-- All that is lacking in a template whose variables are supplied is `range` and macros that call themselves. -/
theorem Supplied.lacks_iff (supplied : Supplied ns nodes) {path : String} :
    (∃ site e inner called, Site.outside.Holds nodes site e ∧ e.Exposes inner called ∧ Node.Lacks ns site inner path) ↔
      Overlooked ns nodes path := by
  constructor
  · rintro ⟨site, e, inner, called, holds, exposes, lacks⟩
    cases inner with
    | var x =>
      cases lacks.named
      have unbound := lacks.unbound _ rfl
      rcases supplied.names holds exposes with opened | value | ⟨rfl, builtin | declared | macros⟩
      · exact absurd (.inl opened) unbound
      · rw [lacks.absent] at value
        cases value
      · exact ⟨site, e, holds, exposes, .inl builtin, unbound, lacks.absent⟩
      · exact absurd (.inr declared) unbound
      · exact ⟨site, e, holds, exposes, .inr macros, unbound, lacks.absent⟩
    | lookup base key =>
      have value := supplied.chains holds exposes lacks.named fun x root opened => lacks.unbound x root (.inl opened)
      rw [lacks.absent] at value
      cases value
    | _ => cases lacks.named
  · rintro ⟨site, e, holds, exposes, -, unbound, absent⟩
    refine ⟨site, e, .var path, true, holds, exposes, rfl, ?_, absent⟩
    intro x root
    cases root
    exact unbound

/-- A template of texts, outputs and macros whose variables are supplied: what is reported are the callables that are
overlooked. -/
theorem Survey.reported_iff_overlooked (template : Template) (plain : Node.AllPlain (partsOfAll template.nodes))
    (supplied : Supplied ns template.nodes) (loader : Loader) :
    ∃ report, (run template.source ns loader).outcome = .ok report ∧
      ∀ x, x ∈ report ↔ Overlooked ns template.nodes x := by
  obtain ⟨report, outcome, reported⟩ := run_of_straight template plain.allStraight ns loader
  exact ⟨report, outcome, fun path => (reported path).trans supplied.lacks_iff⟩

/-! ### Calls of callables -/

/-- What stands in a call of a name with arguments in which nothing else stands. -/
theorem Expr.Exposes.of_call {f : String} {args : List Expr}
    (leaves : ∀ arg ∈ args, ∀ part calls, ¬ arg.Uses part calls) {inner : Expr} {called : Bool}
    (h : (Expr.call (.var f) args).Exposes inner called) :
    inner = .call (.var f) args ∨ (inner = .var f ∧ called = true) ∨ inner ∈ args := by
  rcases h.cases_head with same | ⟨⟨part, calls⟩, uses, steps⟩
  · cases same
    exact .inl rfl
  · cases uses with
    | callee =>
      rcases steps.cases_head with same | ⟨next, uses, -⟩
      · cases same
        exact .inr (.inl ⟨rfl, rfl⟩)
      · cases uses
    | argument _ m =>
      rcases steps.cases_head with same | ⟨next, uses, -⟩
      · cases same
        exact .inr (.inr m)
      · cases leaves part m _ _ uses

/-- A template that only calls what can be called, with literals and parameters, is supplied with all variables. -/
theorem supplied_of_calls (calls : ∀ site e, Site.outside.Holds nodes site e → ∃ f args, e = .call (.var f) args ∧
    site.Callable f ∧ ∀ arg ∈ args, (∃ value, arg = .literal value) ∨ ∃ x, arg = .var x ∧ x ∈ site.opened) :
    Supplied ns nodes where
  names site e x called holds exposes := by
    obtain ⟨f, args, rfl, callable, given⟩ := calls site e holds
    have leaves (arg) (m : arg ∈ args) (part calls) : ¬ arg.Uses part calls := by
      rcases given arg m with ⟨value, rfl⟩ | ⟨x, rfl, -⟩ <;> exact nofun
    rcases exposes.of_call leaves with same | ⟨same, rfl⟩ | m
    · cases same
    · cases same
      exact .inr (.inr ⟨rfl, callable⟩)
    · rcases given _ m with ⟨value, same⟩ | ⟨y, same, opened⟩
      · cases same
      · cases same
        exact .inl opened
  chains site e base key called path holds exposes := by
    obtain ⟨f, args, rfl, callable, given⟩ := calls site e holds
    have leaves (arg) (m : arg ∈ args) (part calls) : ¬ arg.Uses part calls := by
      rcases given arg m with ⟨value, rfl⟩ | ⟨x, rfl, -⟩ <;> exact nofun
    rcases exposes.of_call leaves with same | ⟨same, -⟩ | m
    · cases same
    · cases same
    · rcases given _ m with ⟨value, same⟩ | ⟨y, same, -⟩ <;> cases same

/-- A macro of one parameter that calls itself with it, and a call of the macro with a literal. -/
def Node.callItself (f x : String) : List Node → Bool
  | [.define m [⟨n, none⟩] [.output (.call (.var inner) [.var arg])], .output (.call (.var outer) [.literal _])] =>
    m = f && n = x && inner = f && arg = x && outer = f
  | _ => false

theorem Node.exists_of_callItself {f x : String} (h : callItself f x nodes) :
    ∃ value, nodes = [.define f [⟨x, none⟩] [.output (.call (.var f) [.var x])],
      .output (.call (.var f) [.literal value])] := by
  unfold callItself at h
  split at h
  · simp only [Bool.and_eq_true, decide_eq_true_eq] at h
    obtain ⟨⟨⟨⟨rfl, rfl⟩, rfl⟩, rfl⟩, rfl⟩ := h
    exact ⟨_, rfl⟩
  · cases h

theorem Node.AllPlain.of_callItself {f x : String} (h : callItself f x nodes) : AllPlain (partsOfAll nodes) := by
  obtain ⟨value, rfl⟩ := exists_of_callItself h
  simp [AllPlain, partsOfAll, parts, isPlain]

theorem Supplied.of_callItself {f x : String} (h : Node.callItself f x nodes) : Supplied ns nodes := by
  obtain ⟨value, rfl⟩ := Node.exists_of_callItself h
  apply supplied_of_calls
  intro site e holds
  cases holds with
  | here uses =>
    cases uses with
    | default _ _ m default =>
      cases List.mem_singleton.1 m
      cases default
  | inside opens deeper =>
    cases opens
    cases deeper with
    | here uses =>
      cases uses
      refine ⟨f, [.var x], rfl, .inr (.inr (.inr ⟨_, _, rfl⟩)), ?_⟩
      exact List.forall_mem_singleton.2 (.inr ⟨x, rfl, .inr (by simp)⟩)
    | inside opens => cases opens
    | behind later => cases later
  | behind later =>
    cases later with
    | here uses =>
      cases uses
      refine ⟨f, [.literal value], rfl, .inr (.inl (.inr (.define _ _))), ?_⟩
      exact List.forall_mem_singleton.2 (.inl ⟨value, rfl⟩)
    | inside opens => cases opens
    | behind later => cases later

theorem Overlooked.of_callItself {f x : String} (h : Node.callItself f x nodes) (parameter : f ≠ x)
    (caller : f ≠ callerName) (absent : ns.hasValueAt f = false) : Overlooked ns nodes f := by
  obtain ⟨value, rfl⟩ := Node.exists_of_callItself h
  refine ⟨_, _, .inside (.define ..) (.here (.output _)), .single (.callee ..), .inr (.inr ⟨_, _, rfl⟩), ?_, absent⟩
  simp [Site.inside, Site.outside, Site.bound, parameter, caller]

/-- In a macro that calls itself the call is overlooked, and the one behind the macro is not. -/
theorem Survey.reported_of_recursive_macro :
    let source := "\x7b% macro m(n) %\x7d\x7b\x7b m(n) \x7d\x7d\x7b% endmacro %\x7d\x7b\x7b m(1) \x7d\x7d"
    ∃ template, Template.read "page" source = .ok template ∧ Node.AllPlain (partsOfAll template.nodes) ∧
      Supplied .empty template.nodes ∧
      ∃ report, (run template.source .empty (.ofList [])).outcome = .ok report ∧ "m" ∈ report := by
  intro source
  have shown : (Template.read "page" source).toOption.any (fun template =>
      Node.callItself "m" "n" template.nodes) := by
    rw [Template.read_eq_readChars rfl]
    decide +kernel
  obtain ⟨template, read, shown⟩ := Template.exists_of_read shown
  have plain : Node.AllPlain (partsOfAll template.nodes) := .of_callItself shown
  have supplied : Supplied .empty template.nodes := .of_callItself shown
  have overlooked : Overlooked .empty template.nodes "m" := .of_callItself shown (by decide) (by decide) (by decide)
  obtain ⟨report, outcome, reported⟩ := reported_iff_overlooked template plain supplied (.ofList [])
  exact ⟨template, read, plain, supplied, report, outcome, (reported "m").2 overlooked⟩

/-- A call of the name with a literal. -/
def Node.callOnce (f : String) : List Node → Bool
  | [.output (.call (.var g) [.literal _])] => g = f
  | _ => false

theorem Node.exists_of_callOnce {f : String} (h : callOnce f nodes) :
    ∃ value, nodes = [.output (.call (.var f) [.literal value])] := by
  unfold callOnce at h
  split at h
  · obtain rfl := of_decide_eq_true h
    exact ⟨_, rfl⟩
  · cases h

/-- `range` is reported although rendering calls it. -/
theorem Survey.reported_of_range :
    let source := "\x7b\x7b range(3) \x7d\x7d"
    ∃ template, Template.read "page" source = .ok template ∧ Node.AllPlain (partsOfAll template.nodes) ∧
      Supplied .empty template.nodes ∧ (run source .empty (.ofList [])).outcome.toOption = some ["range"] ∧
      (Template.renderText source .empty .english).toOption = some "0, 1, 2" := by
  intro source
  have shown : (Template.read "page" source).toOption.any (fun template =>
      Node.callOnce "range" template.nodes) := by decide +kernel
  obtain ⟨template, read, shown⟩ := Template.exists_of_read shown
  obtain ⟨value, nodes⟩ := Node.exists_of_callOnce shown
  refine ⟨template, read, ?_, ?_, by decide +kernel, by decide +kernel⟩
  · rw [nodes]
    simp [Node.AllPlain, partsOfAll, Node.parts, Node.isPlain]
  · apply supplied_of_calls
    intro site e holds
    rw [nodes] at holds
    cases holds with
    | here uses =>
      cases uses
      exact ⟨"range", [.literal value], rfl, .inl rfl, List.forall_mem_singleton.2 (.inl ⟨value, rfl⟩)⟩
    | inside opens => cases opens
    | behind later => cases later

end Folio

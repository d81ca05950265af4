import Folio.Proofs.Analysis.Coverage
import Folio.Proofs.Analysis.Visit
import Folio.Proofs.Template.Characters
import Mathlib.Control.Monad.Basic

/-! Scopes of rendering and of the analysis. Behind a node, rendering has bound no names but those that the analysis
takes to be bound there and those that a filter or a loop without items spills, so that what is known of a condition
without these names stays right, and the analysis walks the nodes that rendering comes to. -/
namespace Folio

open Template
open Node (AllNamed partsOfAll partsOfArms partsOfOption)

/-! ### Names that are left out of account -/

namespace Expr

variable {ns : Namespace} {locals more : List String}

theorem isLocal_append {e : Expr} (h : ∀ name ∈ e.inspected, name ∉ more) :
    e.isLocal (locals ++ more) = e.isLocal locals := by
  rw [isLocal, isLocal]
  cases root : e.root? with
  | none => rfl
  | some name => simp [h name (mem_inspected_of_root? root)]

/-- What is known of an expression does not depend on whether names are bound that the analysis does not meet in it. -/
theorem known?_append : ∀ {e : Expr}, (∀ name ∈ e.inspected, name ∉ more) →
    e.known? ns (locals ++ more) = e.known? ns locals
  | .var name, h => by simp [known?, h name (List.mem_singleton_self name)]
  | .lookup base key, h => by
    rw [inspected, List.forall_mem_append] at h
    rw [known?, known?, isLocal_append h.1, known?_append h.1, known?_append h.2]
  | .and left right, h | .or left right, h => by
    rw [inspected, List.forall_mem_append] at h
    rw [known?, known?, known?_append h.1, known?_append h.2]
  | .not inner, h => by rw [known?, known?, known?_append (e := inner) h]
  | .isDefined target, h => by
    rw [known?, known?, isLocal_append (e := target) h, known?_append (e := target) h]
  | .literal _, _ | .filter .., _ | .compare .., _ | .binary .., _ | .neg _, _ | .call .., _ | .test .., _ | .list _, _
  | .dict _, _ | .inlineIf .., _ => rfl

/-- A condition that is known as it is, and in which the analysis meets none of the names. -/
structure ClearOf (names : List String) (condition : Expr) : Prop where
  named : condition.Named
  plain : condition.isPlain .truth
  clear : ∀ name ∈ condition.inspected, name ∉ names

end Expr

/-! ### Names that are assigned -/

namespace Node

mutual

/-- The names that a node may bind for the nodes after it. -/
def assigned : Node → List String
  | .assign name _ => [name]
  | .branch arms otherwise => assignedInArms arms ++ assignedInOption otherwise
  | .block _ body | .filterBlock _ _ body => assignedInAll body
  | .loop _ _ _ otherwise => assignedInOption otherwise
  | _ => []

def assignedInAll : List Node → List String
  | [] => []
  | node :: nodes => assigned node ++ assignedInAll nodes

def assignedInArms : List (Expr × List Node) → List String
  | [] => []
  | (_, body) :: arms => assignedInAll body ++ assignedInArms arms

def assignedInOption : Option (List Node) → List String
  | none => []
  | some body => assignedInAll body

end

/-- The names that rendering lets out of a body although the analysis does not: those that are assigned in the body of a
filter, and in what a loop shows instead of no items. -/
def spills : Node → List String
  | .loop _ _ _ otherwise => assignedInOption otherwise
  | .filterBlock _ _ body => assignedInAll body
  | _ => []

/-- The names that are spilled anywhere in the nodes. -/
def spilled (nodes : List Node) : List String :=
  (partsOfAll nodes).flatMap spills

/-- The conditions of the node are known as they are, and the analysis meets none of the names in them. -/
def IsClear (names : List String) (node : Node) : Prop :=
  ∀ condition ∈ node.conditions, condition.isPlain .truth ∧ ∀ name ∈ condition.inspected, name ∉ names

instance (names : List String) (node : Node) : Decidable (node.IsClear names) :=
  inferInstanceAs (Decidable (∀ condition ∈ node.conditions, _))

/-- All of the nodes are clear of what they spill. -/
def Clear (nodes : List Node) : Prop :=
  ∀ part ∈ partsOfAll nodes, part.IsClear (spilled nodes)

instance (nodes : List Node) : Decidable (Clear nodes) :=
  inferInstanceAs (Decidable (∀ part ∈ partsOfAll nodes, part.IsClear (spilled nodes)))

/-- A part whose names go nowhere but to the spilled ones, and whose conditions are clear of these. -/
structure Tidy (names : List String) (part : Node) : Prop where
  standalone : part.isStandalone
  named : ∀ e ∈ part.exprs, e.Named
  spills : part.spills ⊆ names
  clear : part.IsClear names

/-- All of the parts are tidy. -/
def AllTidy (names : List String) (parts : List Node) : Prop :=
  ∀ part ∈ parts, part.Tidy names

theorem Tidy.clearOf {names : List String} {arms : List (Expr × List Node)} {otherwise : Option (List Node)}
    (tidy : (branch arms otherwise).Tidy names) : ∀ arm ∈ arms, arm.1.ClearOf names := by
  intro arm m
  obtain ⟨plain, clear⟩ := tidy.clear arm.1 (List.mem_map_of_mem m)
  exact ⟨tidy.named arm.1 (List.mem_map_of_mem m), plain, clear⟩

theorem allTidy_append {names : List String} {parts more : List Node} :
    AllTidy names (parts ++ more) ↔ AllTidy names parts ∧ AllTidy names more :=
  List.forall_mem_append

theorem allTidy_cons {names : List String} {part : Node} {parts : List Node} :
    AllTidy names (part :: parts) ↔ part.Tidy names ∧ AllTidy names parts :=
  List.forall_mem_cons

section Assigned

variable {ns : Namespace} {names : List String}

mutual

/-- The analysis takes no names to be bound behind a node but those that the node assigns. -/
theorem mem_assigned_of_walk : ∀ {node : Node} {locals : List String} {name : String}, AllTidy names node.parts →
    name ∈ (node.walk ns locals).2 → name ∈ locals ∨ name ∈ node.assigned
  | .text _, _, _, _, m | .output _, _, _, _, m | .loop .., _, _, _, m | .filterBlock .., _, _, _, m => .inl m
  | .assign .., _, _, _, m => List.mem_append.1 m
  | .block _ body, _, _, tidy, m => by
    rw [parts, allTidy_cons] at tidy
    exact mem_assigned_of_walkAll tidy.2 m
  | .branch arms otherwise, _, _, tidy, m => by
    rw [parts, allTidy_cons, allTidy_append] at tidy
    rw [assigned, List.mem_append]
    exact mem_assigned_of_walkArms tidy.2.1 (mem_assigned_of_walkOption tidy.2.2) m
  | .inclusion .., _, _, tidy, _ | .extend _, _, _, tidy, _ | .define .., _, _, tidy, _ | .callBlock .., _, _, tidy, _
  | .importAs .., _, _, tidy, _ | .importFrom .., _, _, tidy, _ => by cases (tidy _ (self_mem_parts _)).standalone

theorem mem_assigned_of_walkAll : ∀ {nodes : List Node} {locals : List String} {name : String},
    AllTidy names (partsOfAll nodes) → name ∈ (walkAll ns locals nodes).2 →
    name ∈ locals ∨ name ∈ assignedInAll nodes
  | [], _, _, _, m => .inl m
  | node :: nodes, locals, name, tidy, m => by
    rw [partsOfAll, allTidy_append] at tidy
    rw [assignedInAll, List.mem_append, ← or_assoc]
    exact (mem_assigned_of_walkAll tidy.2 m).imp_left (mem_assigned_of_walk tidy.1)

theorem mem_assigned_of_walkArms : ∀ {arms : List (Expr × List Node)}
    {otherwise : List String → Findings × List String} {others locals : List String} {name : String},
    AllTidy names (partsOfArms arms) →
    (∀ {locals}, name ∈ (otherwise locals).2 → name ∈ locals ∨ name ∈ others) →
    name ∈ (walkArms ns locals arms otherwise).2 → name ∈ locals ∨ name ∈ assignedInArms arms ∨ name ∈ others
  | [], _, _, _, _, _, ho, m => (ho m).imp_right .inr
  | (condition, body) :: arms, _, _, locals, name, tidy, ho, m => by
    rw [partsOfArms, allTidy_append] at tidy
    have here (m : name ∈ (walkAll ns locals body).2) := mem_assigned_of_walkAll tidy.1 m
    rw [assignedInArms, List.mem_append]
    rw [walkArms] at m
    split at m
    · exact (here m).imp_right fun m => .inl (.inl m)
    · exact (mem_assigned_of_walkArms tidy.2 ho m).imp_right fun m => m.imp_left .inr
    · rcases mem_assigned_of_walkArms tidy.2 ho m with m | m
      · exact (here m).imp_right fun m => .inl (.inl m)
      · exact .inr (m.imp_left .inr)

theorem mem_assigned_of_walkOption : ∀ {body : Option (List Node)} {locals : List String} {name : String},
    AllTidy names (partsOfOption body) → name ∈ (walkOption ns locals body).2 →
    name ∈ locals ∨ name ∈ assignedInOption body
  | none, _, _, _, m => .inl m
  | some body, _, _, tidy, m => by
    rw [partsOfOption] at tidy
    exact mem_assigned_of_walkAll tidy m

end

end Assigned

end Node

/-! ### What rendering binds -/

namespace Template

open Node (AllTidy Tidy walkAll walkArms walkOption allTidy_cons allTidy_append)

namespace Context

variable {context before after : Context} {ns : Namespace} {locals more names : List String}

theorem Within.mono (h : context.Within ns locals) (sub : locals ⊆ more) : context.Within ns more :=
  ⟨h.globals, fun scope m name found => sub (h.bound scope m name found)⟩

theorem Within.widen (h : context.Within ns (locals ++ names))
    (sub : ∀ name ∈ locals, name ∈ more ∨ name ∈ names) : context.Within ns (more ++ names) :=
  h.mono (List.append_subset.2 ⟨fun name m => List.mem_append.2 (sub name m), List.subset_append_right _ _⟩)

theorem Within.append_mono (h : context.Within ns (locals ++ names)) (sub : locals ⊆ more) :
    context.Within ns (more ++ names) :=
  h.widen fun _ m => .inl (sub m)

theorem Within.assign (h : context.Within ns locals) (sub : locals ⊆ more) {name : String} (m : name ∈ more)
    (value : Value) : (context.assign name value).Within ns more := by
  rw [Context.assign]
  split
  · exact h.mono sub
  · rename_i scope outer scopes
    have bound := h.bound
    rw [scopes, List.forall_mem_cons] at bound
    refine ⟨h.globals, List.forall_mem_cons.2 ⟨fun other found => ?_, fun scope m other found => ?_⟩⟩
    · by_cases same : other = name
      · rw [same]
        exact m
      · rw [Fields.find?_put_ne same] at found
        exact sub (bound.1 other found)
    · exact sub (bound.2 scope m other found)

/-- What is left out of account around a loop is so in its body. -/
theorem Within.push_turn {targets : List String} {item progress : Value} {scope : Scope}
    (h : context.Within ns (locals ++ names)) (bound : bindTargets targets item = .ok scope) :
    (context.push (Fields.put loopName progress scope)).Within ns (locals ++ targets ++ [loopName] ++ names) :=
  (h.push_item bound).mono fun name m => by grind

theorem outer_assign (context : Context) (name : String) (value : Value) :
    (context.assign name value).scopes.tail = context.scopes.tail := by
  rw [Context.assign]
  split
  · rfl
  · rename_i scopes
    rw [scopes]
    rfl

theorem macros_assign (context : Context) (name : String) (value : Value) :
    (context.assign name value).macros = context.macros := by
  rw [Context.assign]
  split <;> rfl

/-- Rendering that leaves the outer scopes alone and binds, over the namespace, no names but those given. -/
structure Follows (ns : Namespace) (names : List String) (before after : Context) : Prop where
  outer : after.scopes.tail = before.scopes.tail
  macros : after.macros = before.macros
  within : after.Within ns names

theorem Within.follows (h : context.Within ns names) : context.Follows ns names context :=
  ⟨rfl, rfl, h⟩

theorem Follows.widen (h : before.Follows ns (locals ++ names) after)
    (sub : ∀ name ∈ locals, name ∈ more ∨ name ∈ names) : before.Follows ns (more ++ names) after :=
  ⟨h.outer, h.macros, h.within.widen sub⟩

theorem Follows.trans {between : Context} (h : before.Follows ns locals between) (ha : between.Follows ns names after) :
    before.Follows ns names after :=
  ⟨ha.outer.trans h.outer, ha.macros.trans h.macros, ha.within⟩

/-- A scope of its own leaves no trace. -/
theorem Follows.pop_eq {scope : Scope} (h : (context.push scope).Follows ns names after)
    (globals : context.globals = ns) : after.pop = context := by
  have outer : after.scopes.tail = context.scopes := h.outer
  have macros : after.macros = context.macros := h.macros
  have same : after.globals = context.globals := h.within.globals.trans globals.symm
  rw [pop, outer, macros, same]

end Context

/-- The known truth of a clear condition does not rule its value out. -/
theorem admits_of_clearOf {setting : Setting} {jumps : Jumps} {calls : Nat} {context : Context} {ns : Namespace}
    {locals names : List String} {condition : Expr} {value : Value} (clear : condition.ClearOf names)
    (within : context.Within ns (locals ++ names)) (he : eval setting jumps calls context condition = .ok value) :
    (condition.truth ns locals).Admits value.isTruthy := by
  have admits := (Expr.fits_of_eval within condition clear.named.undotted he).truth clear.plain
  rwa [Expr.truth, Expr.known?_append clear.clear] at admits

section Follows

variable {setting : Setting} {jumps : Jumps} {place : Place} {ns : Namespace} {names : List String}

theorem run_forEach {targets : List String} {body : Rendering String} {context : Context} (length : Nat)
    (items : List Value) (hb : ∀ {item scope progress text after}, bindTargets targets item = .ok scope →
      body (context.push (Fields.put loopName progress scope)) = (.ok text, after) → after.pop = context) :
    ∀ {index done text after}, forEach targets body length index items done context = (.ok text, after) →
      after = context := by
  induction items with
  | nil =>
    intro index done text after run
    cases run
    rfl
  | cons item items ih =>
    intro index done text after run
    obtain ⟨scope, bound, run⟩ := run_lift_bind run
    obtain ⟨part, between, ran, run⟩ := run_bind run
    obtain ⟨inner, inside, rfl⟩ := run_inScope ran
    rw [hb bound inside] at run
    exact ih run

section Nodes

set_option linter.unusedSectionVars false

variable (plain : place.overrides = [])
include plain

mutual

/-- Rendering a node binds no names but those that the analysis takes to be bound behind it, and spilled ones. -/
theorem follows_renderNode : ∀ {node : Node} {locals : List String} {context after : Context} {text : String},
    AllTidy names node.parts → context.Within ns (locals ++ names) →
    renderNode setting jumps place node context = (.ok text, after) →
    context.Follows ns ((node.walk ns locals).2 ++ names) after
  | .text _, _, _, _, _, _, within, run => by
    cases run
    exact within.follows
  | .output e, _, _, _, _, _, within, run => by
    obtain ⟨value, -, run⟩ := run_evaluate_bind run
    cases run
    exact within.follows
  | .assign name e, locals, context, _, _, _, within, run => by
    obtain ⟨value, -, run⟩ := run_evaluate_bind run
    cases run
    refine ⟨context.outer_assign name value, context.macros_assign name value, ?_⟩
    refine within.assign ?_ (by simp [Node.walk]) value
    exact List.append_subset.2 ⟨fun _ m => by simp [Node.walk, m], List.subset_append_right _ _⟩
  | .branch arms otherwise, _, _, _, _, tidy, within, run => by
    rw [Node.parts, allTidy_cons, allTidy_append] at tidy
    rw [renderNode] at run
    exact follows_renderArms tidy.1.clearOf tidy.2.1 (Node.subset_walkOption ns otherwise)
      (follows_renderOption tidy.2.2) within run
  | .block name body, _, _, _, _, tidy, within, run => by
    rw [Node.parts, allTidy_cons] at tidy
    rw [renderNode, plain] at run
    exact follows_renderNodes tidy.2 within run
  | .loop targets e body otherwise, locals, context, _, _, tidy, within, run => by
    rw [Node.parts, allTidy_cons, allTidy_append] at tidy
    rw [renderNode] at run
    obtain ⟨value, -, run⟩ := run_evaluate_bind run
    obtain ⟨items, -, run⟩ := run_lift_bind run
    split at run
    -- What is shown instead of no items has no scope of its own, and the analysis forgets what it binds.
    · exact (follows_renderOption tidy.2.2 within run).widen fun name m =>
        (Node.mem_assigned_of_walkOption tidy.2.2 m).imp_right (tidy.1.spills ·)
    · have same := run_forEach items.length items (fun bound ran => ?_) run
      · rw [same]
        exact within.follows
      · exact (follows_renderNodes tidy.2.1 (within.push_turn bound) ran).pop_eq within.globals
  | .filterBlock name args body, _, context, _, _, tidy, within, run => by
    rw [Node.parts, allTidy_cons] at tidy
    rw [renderNode] at run
    obtain ⟨content, between, ran, run⟩ := run_bind run
    obtain ⟨values, -, run⟩ := run_evaluateAll_bind run
    obtain ⟨value, -, run⟩ := run_lift_bind run
    cases run
    exact (follows_renderNodes tidy.2 within ran).widen fun name m =>
      (Node.mem_assigned_of_walkAll tidy.2 m).imp_right (tidy.1.spills ·)
  | .inclusion .., _, _, _, _, tidy, _, _ | .extend _, _, _, _, _, tidy, _, _ | .define .., _, _, _, _, tidy, _, _
  | .callBlock .., _, _, _, _, tidy, _, _ | .importAs .., _, _, _, _, tidy, _, _
  | .importFrom .., _, _, _, _, tidy, _, _ => by
    cases (tidy _ (Node.self_mem_parts _)).standalone

theorem follows_renderNodes : ∀ {nodes : List Node} {locals : List String} {context after : Context} {text : String},
    AllTidy names (partsOfAll nodes) → context.Within ns (locals ++ names) →
    renderNodes setting jumps place nodes context = (.ok text, after) →
    context.Follows ns ((walkAll ns locals nodes).2 ++ names) after
  | [], _, _, _, _, _, within, run => by
    cases run
    exact within.follows
  | node :: nodes, _, _, _, _, tidy, within, run => by
    rw [partsOfAll, allTidy_append] at tidy
    obtain ⟨text, between, ran, run⟩ := run_bind run
    obtain ⟨more, after, later, run⟩ := run_bind run
    cases run
    have here := follows_renderNode tidy.1 within ran
    have behind := follows_renderNodes tidy.2 here.within later
    exact here.trans behind

theorem follows_renderArms : ∀ {arms : List (Expr × List Node)} {otherwise : List String → Findings × List String}
    {rest : Rendering String} {locals : List String} {context after : Context} {text : String},
    (∀ arm ∈ arms, arm.1.ClearOf names) → AllTidy names (partsOfArms arms) →
    (∀ locals, locals ⊆ (otherwise locals).2) →
    (∀ {locals context after text}, context.Within ns (locals ++ names) → rest context = (.ok text, after) →
      context.Follows ns ((otherwise locals).2 ++ names) after) → context.Within ns (locals ++ names) →
    renderArms setting jumps place arms rest context = (.ok text, after) →
    context.Follows ns ((walkArms ns locals arms otherwise).2 ++ names) after
  | [], _, _, _, _, _, _, _, _, _, ho, within, run => ho within run
  | (condition, body) :: arms, _, _, locals, _, _, _, conditions, tidy, grows, ho, within, run => by
    rw [partsOfArms, allTidy_append] at tidy
    rw [List.forall_mem_cons] at conditions
    rw [renderArms] at run
    obtain ⟨value, he, run⟩ := run_evaluate_bind run
    have admits := admits_of_clearOf conditions.1 within he
    have later := Node.subset_walkArms ns arms grows
    cases holds : value.isTruthy with
    | true =>
      rw [holds, if_pos rfl] at run
      rw [holds] at admits
      have here := follows_renderNodes tidy.1 within run
      rw [walkArms]
      split
      · exact here
      · rename_i known
        cases (known ▸ admits).eq_false
      · exact here.widen fun name m => .inl (later _ m)
    | false =>
      rw [holds] at admits run
      rw [walkArms]
      split
      · rename_i known
        cases (known ▸ admits).eq_true
      · exact follows_renderArms conditions.2 tidy.2 grows ho within run
      · have kept := within.append_mono (Node.subset_walkAll ns body locals)
        exact follows_renderArms conditions.2 tidy.2 grows ho kept run

theorem follows_renderOption : ∀ {body : Option (List Node)} {locals : List String} {context after : Context}
    {text : String}, AllTidy names (partsOfOption body) → context.Within ns (locals ++ names) →
    renderOption setting jumps place body context = (.ok text, after) →
    context.Follows ns ((walkOption ns locals body).2 ++ names) after
  | none, _, _, _, _, _, within, run => by
    cases run
    exact within.follows
  | some body, _, _, _, _, tidy, within, run => by
    rw [partsOfOption] at tidy
    exact follows_renderNodes tidy within run

end

end Nodes

/-! ### What rendering finds -/

theorem localsOfArm_of_chosen {context : Context} : ∀ {arms : List (Expr × List Node)} {locals : List String} {i : Nat},
    (∀ arm ∈ arms, arm.1.ClearOf names) → context.Within ns (locals ++ names) →
    chosen setting jumps place context arms = .ok i → ∃ inner, Node.localsOfArm ns locals arms i = some inner
  | [], locals, _, _, _, h => by
    cases h
    exact ⟨locals, rfl⟩
  | (condition, body) :: arms, locals, i, conditions, within, h => by
    rw [List.forall_mem_cons] at conditions
    obtain ⟨value, he, h⟩ := Expr.bind_eq_ok (by simpa only [chosen] using h)
    have admits := admits_of_clearOf conditions.1 within he
    cases holds : value.isTruthy with
    | true =>
      rw [holds] at admits h
      cases h
      rcases admits with known | known <;> exact ⟨locals, by simp [Node.localsOfArm, known, Truth.ofBool]⟩
    | false =>
      rw [holds] at admits h
      obtain ⟨k, hk, h⟩ := Expr.bind_eq_ok h
      cases h
      rcases admits with known | known
      · have kept := within.append_mono (Node.subset_walkAll ns body locals)
        obtain ⟨inner, hi⟩ := localsOfArm_of_chosen conditions.2 kept hk
        exact ⟨inner, by simpa [Node.localsOfArm, known] using hi⟩
      · obtain ⟨inner, hi⟩ := localsOfArm_of_chosen conditions.2 within hk
        exact ⟨inner, by simpa [Node.localsOfArm, known, Truth.ofBool] using hi⟩

variable (plain : place.overrides = [])
include plain

/-- Every turn of a loop starts from the context that the loop finds. -/
theorem Turns.exists_scope {targets : List String} {body : List Node} {locals : List String}
    (tidy : AllTidy names (partsOfAll body)) {length index : Nat} {items : List Value} {context found : Context}
    (h : Turns targets (renderNodes setting jumps place body) length index items context found) :
    context.Within ns (locals ++ names) → ∃ item progress scope, bindTargets targets item = .ok scope ∧
      found = context.push (Fields.put loopName progress scope) := by
  induction h with
  | here bound => exact fun _ => ⟨_, _, _, bound, rfl⟩
  | next bound ran later ih =>
    intro within
    have same := (follows_renderNodes plain tidy (within.push_turn bound) ran).pop_eq within.globals
    rw [same] at ih
    exact ih within

/-- The analysis walks the body that rendering comes to, and knows the names that are bound there. -/
theorem within_of_enters {node : Node} {locals : List String} {context found : Context} {i : Nat} {body : List Node}
    (tidy : AllTidy names node.parts) (within : context.Within ns (locals ++ names))
    (enters : Enters setting jumps place context node i found) (stands : node.inner[i]? = some body) :
    ∃ inner, node.localsOfBody ns locals i = some inner ∧ found.Within ns (inner ++ names) := by
  cases enters with
  | branch h =>
    obtain ⟨inner, hi⟩ := localsOfArm_of_chosen (tidy _ (Node.self_mem_parts _)).clearOf within h
    exact ⟨inner, hi, within.append_mono (Node.subset_localsOfArm hi)⟩
  | block => exact ⟨locals, rfl, within⟩
  | loop he hv turn =>
    rename_i targets e value items body otherwise
    rw [Node.parts, allTidy_cons, allTidy_append] at tidy
    obtain ⟨item, progress, scope, bound, rfl⟩ := turn.exists_scope plain tidy.2.1 within
    exact ⟨_, rfl, by simpa using within.push_turn bound⟩
  | otherwise he hv =>
    rename_i otherwise
    cases otherwise with
    | none => cases stands
    | some rest => exact ⟨locals, by simp [Node.localsOfBody, Node.bodies], within⟩
  | filterBlock => exact ⟨locals, by simp [Node.localsOfBody, Node.bodies], within⟩

/-- Wherever rendering arrives, the analysis does too, and knows the names that are bound there. -/
theorem within_of_arrives {nodes : List Node} {locals : List String} {context found : Context} {address : Address}
    (tidy : AllTidy names (partsOfAll nodes)) (within : context.Within ns (locals ++ names))
    (arrives : Arrives setting jumps place context nodes address found) :
    ∃ node inner, Node.at? address nodes = some node ∧ node ∈ partsOfAll nodes ∧
      Node.localsAt ns address locals nodes = some inner ∧ found.Within ns (inner ++ names) := by
  induction arrives generalizing locals with
  | here =>
    rename_i node nodes
    exact ⟨node, locals, rfl, List.mem_append_left _ node.self_mem_parts, rfl, within⟩
  | next ran later ih =>
    rw [partsOfAll, allTidy_append] at tidy
    obtain ⟨node, inner, stands, part, visit, found⟩ := ih tidy.2 (follows_renderNode plain tidy.1 within ran).within
    exact ⟨node, inner, stands, List.mem_append_right _ part, visit, found⟩
  | inside enters stands deeper ih =>
    rename_i node nodes body i rest
    rw [partsOfAll, allTidy_append] at tidy
    obtain ⟨names', hb, entered⟩ := within_of_enters plain tidy.1 within enters stands
    have mb := List.mem_of_getElem? stands
    have inside := Node.partsOfAll_subset_parts mb
    obtain ⟨part, inner, stands', m, visit, found⟩ := ih (fun part m => tidy.1 part (inside m)) entered
    exact ⟨part, inner, by rw [Node.at?, stands]; exact stands', List.mem_append_left _ (inside m),
      by rw [Node.localsAt, hb, stands]; exact visit, found⟩

end Follows

/-! ### Agreement -/

/-- A scope of the context has a variable of that name. -/
def Context.Binds (context : Context) (name : String) : Prop :=
  ∃ scope ∈ context.scopes, (Fields.find? name scope).isSome

instance (context : Context) (name : String) : Decidable (context.Binds name) :=
  inferInstanceAs (Decidable (∃ scope ∈ context.scopes, (Fields.find? name scope).isSome))

/-- The analysis of the nodes for a namespace walks the node at an address, and there it takes every name to be bound
that the context binds, apart from some: it reports nothing behind such a name, and which bodies of the node it walks
does not depend on what the namespace has under the name. -/
def AgreesAt (ns : Namespace) (nodes : List Node) (apart : List String) (address : Address) (context : Context) :
    Prop :=
  ∃ node locals, Node.at? address nodes = some node ∧ Node.localsAt ns address [] nodes = some locals ∧
    ∀ name, context.Binds name → name ∉ apart → name ∈ locals ∧
      (∀ path ∈ node.reports ns locals, name ∉ (Namespace.segments path).head?) ∧
      ∀ other : Namespace, (∀ unlike, unlike ≠ name → ns.get? unlike = other.get? unlike) →
        ∀ i, node.localsOfBody ns locals i = node.localsOfBody other locals i

/-- Rendering the template for a namespace comes to the node at an address, which finds a context. -/
def ComesTo (setting : Setting) (template : Template) (globals : Namespace) (address : Address) (context : Context) :
    Prop :=
  Arrives setting (.within setting (maxJumps - 1)) ⟨[], 0, 0⟩ (.ofNamespace globals) template.nodes address context

/-- The least nodes for which rendering and the analysis come apart: a filter and a loop without items that spill a
name, and a condition whose known truth is wrong. -/
inductive Stray : List Node → Prop
  | filterBlock (name : String) (value : Value) :
      Stray [.filterBlock "upper" [] [.assign name (.literal value)], .output (.var name)]
  | otherwise (target name : String) (value : Value) :
      Stray [.loop [target] (.list []) [] (some [.assign name (.literal value)]), .output (.var name)]
  | branch {condition : Expr} (h : Expr.Misread condition) (first second : String) :
      Stray [.branch [(condition, [.text first])] (some [.text second])]

section Template

variable {template : Template} {setting : Setting} {globals : Namespace} {address : Address} {context : Context}

theorem exists_comesTo (standalone : Node.AllStandalone (partsOfAll template.nodes)) {moment : Moment}
    (m : moment ∈ template.moments setting globals) : ∃ address,
      Node.at? address template.nodes = some moment.node ∧ ComesTo setting template globals address moment.context := by
  have single := parent?_eq_none_of_notMem fun _ m => by cases standalone _ m
  rw [moments_eq single] at m
  exact arrives_of_mem rfl standalone m

theorem allTidy_of_clear (standalone : Node.AllStandalone (partsOfAll template.nodes))
    (clear : Node.Clear template.nodes) : AllTidy (Node.spilled template.nodes) (partsOfAll template.nodes) :=
  fun part m => ⟨standalone part m, template.allNamed part m, fun _ spills => List.mem_flatMap.2 ⟨part, m, spills⟩,
    clear part m⟩

theorem agreesAt_of_clear (standalone : Node.AllStandalone (partsOfAll template.nodes))
    (clear : Node.Clear template.nodes) (comes : ComesTo setting template globals address context) :
    AgreesAt globals template.nodes (Node.spilled template.nodes) address context := by
  have tidy := allTidy_of_clear standalone clear
  have start := (Context.within_ofNamespace globals).mono (List.nil_subset ([] ++ Node.spilled template.nodes))
  obtain ⟨node, locals, stands, part, visit, within⟩ := within_of_arrives rfl tidy start comes
  refine ⟨node, locals, stands, visit, fun name binds kept => ?_⟩
  obtain ⟨scope, m, found⟩ := binds
  have bound : name ∈ locals := (List.mem_append.1 (within.bound scope m name found)).resolve_right kept
  have named : AllNamed node.parts := fun inside m => template.allNamed inside (Node.parts_subset_partsOfAll part m)
  refine ⟨bound, fun path m first => Node.foreign_reports (template.allNamed node part) path m name first bound, ?_⟩
  intro other unlike i
  refine Node.AgreeOff.localsOfBody_eq (fun free hf => unlike free fun same => hf ?_) named i
  rw [same]
  exact bound

theorem not_agreesAt_of_unbound {nodes : List Node} {locals : List String} {name : String}
    (visit : Node.localsAt globals address [] nodes = some locals) (binds : context.Binds name)
    (unbound : name ∉ locals) : ¬ AgreesAt globals nodes [] address context := by
  rintro ⟨_, found, -, same, agrees⟩
  cases visit.symm.trans same
  exact unbound (agrees name binds List.not_mem_nil).1

/-- If the first node binds a name that the analysis gives up behind it, they come apart at the second one. -/
theorem not_agreesAt_of_binds {node next : Node} {rest : List Node} {text name : String} {after : Context}
    (nodes : template.nodes = node :: next :: rest)
    (ran : renderNode setting (.within setting (maxJumps - 1)) ⟨[], 0, 0⟩ node (.ofNamespace globals) =
      (.ok text, after))
    (binds : after.Binds name) (unbound : (node.walk globals []).2 = []) :
    ∃ address context, ComesTo setting template globals address context ∧
      ¬ AgreesAt globals template.nodes [] address context := by
  have visit : Node.localsAt globals (.next .here) [] template.nodes = some [] := by
    rw [nodes, Node.localsAt, unbound]
    rfl
  exact ⟨.next .here, after, by rw [ComesTo, nodes]; exact .next ran .here,
    not_agreesAt_of_unbound visit binds List.not_mem_nil⟩

theorem binds_assign (ns : Namespace) (name : String) (value : Value) :
    ((Context.ofNamespace ns).assign name value).Binds name :=
  ⟨_, List.mem_singleton_self _, by rw [Fields.find?_put_self]; rfl⟩

/-- Of a condition whose known truth is wrong, the analysis does not walk the body that rendering comes to. -/
theorem not_agreesAt_of_misjudged {condition : Expr} (h : condition.Misjudged) {first second : String}
    (nodes : template.nodes = [.branch [(condition, [.text first])] (some [.text second])]) : ∃ globals address context,
      ComesTo setting template globals address context ∧ ¬ AgreesAt globals template.nodes [] address context := by
  obtain ⟨ns, value, he, known⟩ := h
  have value_eq := he setting (.within setting (maxJumps - 1)) 0
  let body := if value.isTruthy then 0 else 1
  have enters : chosen setting (.within setting (maxJumps - 1)) ⟨[], 0, 0⟩ (.ofNamespace ns)
      [(condition, [.text first])] = .ok body := by
    rw [chosen_cons _ _ value_eq]
    cases holds : value.isTruthy <;> simp only [body, holds] <;> rfl
  have unseen : Node.localsOfArm ns [] [(condition, [.text first])] body = none := by
    cases holds : value.isTruthy <;> simp [body, Node.localsOfArm, known, holds, Truth.ofBool]
  obtain ⟨text, stands⟩ : ∃ text,
      (Node.branch [(condition, [.text first])] (some [.text second])).inner[body]? = some [.text text] := by
    cases holds : value.isTruthy <;> simp [body, Node.inner, holds]
  refine ⟨ns, .inside body .here, .ofNamespace ns, ?_, ?_⟩
  · rw [ComesTo, nodes]
    exact .inside (.branch enters) stands .here
  · rintro ⟨_, locals, -, visit, -⟩
    rw [nodes, Node.localsAt, Node.localsOfBody, unseen] at visit
    cases visit

/-- The least nodes for which rendering and the analysis come apart do so for some namespace. -/
theorem Stray.not_agreesAt (stray : Stray template.nodes) : ∃ globals address context,
    ComesTo setting template globals address context ∧ ¬ AgreesAt globals template.nodes [] address context := by
  generalize nodes : template.nodes = all at stray
  rw [← nodes]
  cases stray with
  | filterBlock name value => exact ⟨.empty, not_agreesAt_of_binds nodes rfl (binds_assign .empty name value) rfl⟩
  | otherwise target name value => exact ⟨.empty, not_agreesAt_of_binds nodes rfl (binds_assign .empty name value) rfl⟩
  | branch h first second => exact not_agreesAt_of_misjudged h.misjudged nodes

/-- Rendering a template of texts, outputs, branches, blocks, loops, assignments and filters, against its analysis,
which reports what it reports at the nodes that it walks. Rendering comes to its moments at addresses. If the conditions
are known as they are and look at no name that is spilled, the analysis walks the nodes at all of them, and takes all
names to be bound that are bound there, but for spilled ones. The least nodes that are not so come apart. -/
theorem agreesAt_of_isStandalone (standalone : Node.AllStandalone (partsOfAll template.nodes)) (setting : Setting)
    (globals : Namespace) :
    (∀ path, path ∈ (walkAll globals [] template.nodes).1.missing ↔ ∃ address node locals,
      Node.at? address template.nodes = some node ∧ Node.localsAt globals address [] template.nodes = some locals ∧
        path ∈ node.reports globals locals) ∧
    (∀ moment ∈ template.moments setting globals, ∃ address,
      Node.at? address template.nodes = some moment.node ∧ ComesTo setting template globals address moment.context) ∧
    (Node.Clear template.nodes → ∀ address context, ComesTo setting template globals address context →
      AgreesAt globals template.nodes (Node.spilled template.nodes) address context) ∧
    (Stray template.nodes → ∃ globals address context,
      ComesTo setting template globals address context ∧ ¬ AgreesAt globals template.nodes [] address context) :=
  ⟨fun _ => Node.mem_missing_walkAll_iff, fun _ m => exists_comesTo standalone m,
    fun clear _ _ comes => agreesAt_of_clear standalone clear comes, Stray.not_agreesAt⟩

end Template

/-- A variable that a loop binds and one that its body assigns, both of which the condition and the output behind it
look up. -/
theorem agreesAt_in_loop :
    let source := "\x7b% for x in xs %\x7d\x7b% set y = x %\x7d" ++
      "\x7b% if y %\x7d\x7b\x7b y.k \x7d\x7d\x7b% endif %\x7d\x7b% endfor %\x7d"
    let ns : Namespace := .ofList [("xs", .seq [.map [("k", .int 1)]])]
    ∃ template, read inlineName source = .ok template ∧ Node.AllStandalone (partsOfAll template.nodes) ∧
      Node.Clear template.nodes ∧ Node.spilled template.nodes = [] ∧
      ∃ address context, ComesTo (.alone .english) template ns address context ∧ context.Binds "x" ∧ context.Binds "y" ∧
        AgreesAt ns template.nodes [] address context := by
  intro source ns
  have shown : (read inlineName source).toOption.map (fun (template : Template) =>
      (decide (Node.AllStandalone (partsOfAll template.nodes)), decide (Node.Clear template.nodes),
        Node.spilled template.nodes, (template.moments (.alone .english) ns).any fun moment =>
          decide (moment.context.Binds "x") && decide (moment.context.Binds "y"))) = some (true, true, [], true) := by
    rw [read_eq_readChars (Text.append_eq_ofList rfl rfl)]
    decide +kernel
  cases made : read inlineName source with
  | error cause => rw [made] at shown; cases shown
  | ok template =>
    rw [made] at shown
    simp only [Except.toOption, Option.map_some, Option.some.injEq, Prod.mk.injEq, decide_eq_true_eq, List.any_eq_true,
      Bool.and_eq_true] at shown
    obtain ⟨standalone, clear, spilled, moment, m, bx, bY⟩ := shown
    obtain ⟨-, comes, agrees, -⟩ := agreesAt_of_isStandalone standalone (.alone .english) ns
    obtain ⟨address, -, comes⟩ := comes moment m
    have agree := agrees clear address moment.context comes
    rw [spilled] at agree
    exact ⟨template, rfl, standalone, clear, spilled, address, moment.context, comes, bx, bY, agree⟩

/-- The body of a filter assigns a variable that is shown behind it, and the analysis reports it. -/
theorem not_agreesAt_of_filter :
    let source := "\x7b% filter upper %\x7d\x7b% set y = 'a' %\x7d\x7b% endfilter %\x7d\x7b\x7b y \x7d\x7d"
    ∃ template, read inlineName source = .ok template ∧ Node.AllStandalone (partsOfAll template.nodes) ∧
      (∃ address context, ComesTo (.alone .english) template .empty address context ∧ context.Binds "y" ∧
        Node.localsAt .empty address [] template.nodes = some [] ∧
        ¬ AgreesAt .empty template.nodes [] address context) ∧
      template.render (.alone .english) .empty = .ok "a" ∧
      (Survey.run source .empty (.ofList [])).outcome = .ok ["y"] := by
  intro source
  have shown : (read inlineName source).toOption.bind (fun (template : Template) => template.nodes.head?.map fun node =>
      let (result, after) := renderNode (.alone .english) (.within (.alone .english) (maxJumps - 1)) ⟨[], 0, 0⟩ node
        (.ofNamespace .empty)
      (decide (Node.AllStandalone (partsOfAll template.nodes)), result.toOption, decide (after.Binds "y"),
        Node.localsAt .empty (.next .here) [] template.nodes)) = some (true, some "", true, some []) := by
    rw [read_eq_readChars rfl]
    decide +kernel
  have text : (read inlineName source).toOption.map (Template.render (.alone .english) · .empty) = some (.ok "a") := by
    rw [read_eq_readChars rfl]
    decide +kernel
  have reported : (Survey.run source .empty (.ofList [])).outcome = .ok ["y"] := by
    rw [Survey.run, parse_eq_parseChars rfl]
    decide +kernel
  cases made : read inlineName source with
  | error cause => rw [made] at shown; cases shown
  | ok template =>
    rw [made] at shown text
    obtain ⟨node, first, shown⟩ := Option.map_eq_some_iff.1 shown
    obtain ⟨rest, nodes⟩ := List.head?_eq_some_iff.1 first
    generalize ran : renderNode (.alone .english) (.within (.alone .english) (maxJumps - 1)) ⟨[], 0, 0⟩ node
      (.ofNamespace .empty) = outcome at shown
    obtain ⟨result | result, after⟩ := outcome
    · simp [Except.toOption] at shown
    · simp only [Except.toOption, Prod.mk.injEq, decide_eq_true_eq, Option.some.injEq] at shown
      obtain ⟨standalone, -, binds, visit⟩ := shown
      refine ⟨template, rfl, standalone, ⟨.next .here, after, ?_, binds, visit, ?_⟩, Option.some.inj text, reported⟩
      · rw [nodes] at visit
        rw [ComesTo, nodes]
        cases rest with
        | nil => cases visit
        | cons next rest => exact .next ran .here
      · exact not_agreesAt_of_unbound visit binds List.not_mem_nil

end Template

end Folio

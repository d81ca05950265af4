import Folio.Proofs.Analysis.Coverage
import Folio.Proofs.Analysis.Visit
import Mathlib.Data.Set.Basic
import Mathlib.Logic.Relation

/-! Occurrences. In a template without branches and inclusions the analysis reports a path where a chain of lookups
stands whose variable nothing binds there: no body around it, and no statement before it in one of the bodies around it.
-/
namespace Folio

open Node (partsOfAll)
open Relation (ReflTransGen)

variable {ns : Namespace} {locals : List String} {path x : String}

/-! ### Expressions in expressions -/

namespace Expr

/-- What stands directly in an expression, and whether the expression calls it. What a default filter stands on does
not count. -/
inductive Uses : Expr → Expr → Bool → Prop
  | base (base key : Expr) : Uses (.lookup base key) base false
  | key (base key : Expr) : Uses (.lookup base key) key false
  | andLeft (left right : Expr) : Uses (.and left right) left false
  | andRight (left right : Expr) : Uses (.and left right) right false
  | orLeft (left right : Expr) : Uses (.or left right) left false
  | orRight (left right : Expr) : Uses (.or left right) right false
  | not (inner : Expr) : Uses (.not inner) inner false
  | isDefined (target : Expr) : Uses (.isDefined target) target false
  | neg (inner : Expr) : Uses (.neg inner) inner false
  | filterTarget {name : String} (target : Expr) (args : List Expr) (strict : name ∉ defaultFilters) :
      Uses (.filter name target args) target false
  | filterArgument {args : List Expr} {arg : Expr} (name : String) (target : Expr) (m : arg ∈ args) :
      Uses (.filter name target args) arg false
  | compareLeft (op : Comparison) (left right : Expr) : Uses (.compare op left right) left false
  | compareRight (op : Comparison) (left right : Expr) : Uses (.compare op left right) right false
  | binaryLeft (op : Operator) (left right : Expr) : Uses (.binary op left right) left false
  | binaryRight (op : Operator) (left right : Expr) : Uses (.binary op left right) right false
  | callee (callee : Expr) (args : List Expr) : Uses (.call callee args) callee true
  | argument {args : List Expr} {arg : Expr} (callee : Expr) (m : arg ∈ args) : Uses (.call callee args) arg false
  | testTarget (name : String) (target : Expr) (args : List Expr) (negated : Bool) :
      Uses (.test name target args negated) target false
  | testArgument {args : List Expr} {arg : Expr} (name : String) (target : Expr) (negated : Bool) (m : arg ∈ args) :
      Uses (.test name target args negated) arg false
  | item {items : List Expr} {item : Expr} (m : item ∈ items) : Uses (.list items) item false
  | entryKey {entries : List (Expr × Expr)} {key value : Expr} (m : (key, value) ∈ entries) :
      Uses (.dict entries) key false
  | entryValue {entries : List (Expr × Expr)} {key value : Expr} (m : (key, value) ∈ entries) :
      Uses (.dict entries) value false
  | value (value condition : Expr) (otherwise : Option Expr) : Uses (.inlineIf value condition otherwise) value false
  | condition (value condition : Expr) (otherwise : Option Expr) :
      Uses (.inlineIf value condition otherwise) condition false
  | otherwise (value condition otherwise : Expr) : Uses (.inlineIf value condition (some otherwise)) otherwise false

/-- The step from an expression to what it uses. -/
def Step (outer part : Expr × Bool) : Prop :=
  outer.1.Uses part.1 part.2

theorem Uses.step {e part : Expr} {called : Bool} (h : e.Uses part called) (calls : Bool) :
    Step (e, calls) (part, called) :=
  h

/-- The one expression stands in the other at any depth, and what is around it calls it or not. -/
def Exposes (e inner : Expr) (called : Bool) : Prop :=
  ReflTransGen Step (e, false) (inner, called)

/-- The variable stands in the expression at any depth. -/
def Reads (e : Expr) (x : String) : Prop :=
  ∃ called, e.Exposes (.var x) called

theorem Uses.sizeOf_lt {e part : Expr} {called : Bool} (h : e.Uses part called) : sizeOf part < sizeOf e := by
  have listed {es : List Expr} (m : part ∈ es) : sizeOf part < sizeOf es := List.sizeOf_lt_of_mem m
  cases h with
  | filterArgument _ _ m | argument _ m | testArgument _ _ _ m | item m =>
    have := listed m
    simp
    omega
  | entryKey m | entryValue m =>
    have := List.sizeOf_lt_of_mem m
    simp at this ⊢
    omega
  | _ =>
    simp
    try omega

theorem Uses.names_subset {e part : Expr} {called : Bool} (h : e.Uses part called) : part.names ⊆ e.names := by
  intro name here
  have listed {es : List Expr} (m : part ∈ es) : name ∈ namesOfAll es := by
    rw [namesOfAll_eq]
    exact List.mem_flatMap.2 ⟨part, m, here⟩
  cases h with
  | filterArgument _ _ m | argument _ m | testArgument _ _ _ m | item m => simp [names, listed m]
  | entryKey m | entryValue m =>
    rw [names, namesOfEntries_eq]
    exact List.mem_flatMap.2 ⟨_, m, by simp [here]⟩
  | otherwise => simp [names, namesOfOption, here]
  | _ => simp [names, here]

theorem mem_missingAll_iff {es : List Expr} :
    path ∈ missingAll ns locals es ↔ ∃ e ∈ es, path ∈ e.missing ns locals := by
  induction es with
  | nil => simp [missingAll]
  | cons e es ih => simp [missingAll, ih]

theorem mem_missingEntries_iff {entries : List (Expr × Expr)} : path ∈ missingEntries ns locals entries ↔
    ∃ key value, (key, value) ∈ entries ∧ (path ∈ key.missing ns locals ∨ path ∈ value.missing ns locals) := by
  induction entries with
  | nil => simp [missingEntries]
  | cons entry entries ih =>
    obtain ⟨key, value⟩ := entry
    simp only [missingEntries, List.mem_append, ih, List.mem_cons, Prod.mk.injEq]
    constructor
    · rintro ((m | m) | ⟨k, v, entry, m⟩)
      · exact ⟨key, value, .inl ⟨rfl, rfl⟩, .inl m⟩
      · exact ⟨key, value, .inl ⟨rfl, rfl⟩, .inr m⟩
      · exact ⟨k, v, .inr entry, m⟩
    · rintro ⟨k, v, ⟨rfl, rfl⟩ | entry, m⟩
      · exact .inl m
      · exact .inr ⟨k, v, entry, m⟩

/-- What an expression uses is reported where the expression stands. -/
theorem Uses.missing_subset {e part : Expr} {called : Bool} (h : e.Uses part called) :
    part.missing ns locals ⊆ e.missing ns locals := by
  intro path m
  cases h with
  | filterTarget target args strict => simp [missing, strict, m]
  | filterArgument name target arg =>
    have all := mem_missingAll_iff.2 ⟨part, arg, m⟩
    by_cases default : name ∈ defaultFilters <;> simp [missing, default, all]
  | argument _ arg | testArgument _ _ _ arg | item arg =>
    have all := mem_missingAll_iff.2 ⟨part, arg, m⟩
    simp [missing, all]
  | entryKey entry => exact mem_missingEntries_iff.2 ⟨_, _, entry, .inl m⟩
  | entryValue entry => exact mem_missingEntries_iff.2 ⟨_, _, entry, .inr m⟩
  | otherwise => simp [missing, missingOption, m]
  | _ => simp [missing, m]

/-- An expression reports its own path and what the expressions in it report. -/
theorem mem_missing_iff {e : Expr} : path ∈ e.missing ns locals ↔
    path ∈ missingPath ns locals e ∨ ∃ part called, e.Uses part called ∧ path ∈ part.missing ns locals := by
  constructor
  · intro m
    cases e with
    | literal => cases m
    | var => exact .inl m
    | lookup base key =>
      simp only [missing, List.mem_append, or_assoc] at m
      exact m.imp_right (·.elim (fun m => ⟨_, _, .base .., m⟩) fun m => ⟨_, _, .key .., m⟩)
    | and left right =>
      rcases List.mem_append.1 m with m | m
      · exact .inr ⟨_, _, .andLeft .., m⟩
      · exact .inr ⟨_, _, .andRight .., m⟩
    | or left right =>
      rcases List.mem_append.1 m with m | m
      · exact .inr ⟨_, _, .orLeft .., m⟩
      · exact .inr ⟨_, _, .orRight .., m⟩
    | not inner => exact .inr ⟨_, _, .not inner, m⟩
    | isDefined target => exact .inr ⟨_, _, .isDefined target, m⟩
    | filter name target args =>
      have arg (m : path ∈ missingAll ns locals args) : ∃ part called, (filter name target args).Uses part called ∧
          path ∈ part.missing ns locals := by
        obtain ⟨e, arg, m⟩ := mem_missingAll_iff.1 m
        exact ⟨e, _, .filterArgument name target arg, m⟩
      rw [missing] at m
      split at m
      · exact .inr (arg m)
      · rename_i strict
        rcases List.mem_append.1 m with m | m
        · exact .inr ⟨_, _, .filterTarget target args (by simpa using strict), m⟩
        · exact .inr (arg m)
    | compare op left right =>
      rcases List.mem_append.1 m with m | m
      · exact .inr ⟨_, _, .compareLeft .., m⟩
      · exact .inr ⟨_, _, .compareRight .., m⟩
    | binary op left right =>
      rcases List.mem_append.1 m with m | m
      · exact .inr ⟨_, _, .binaryLeft .., m⟩
      · exact .inr ⟨_, _, .binaryRight .., m⟩
    | neg inner => exact .inr ⟨_, _, .neg inner, m⟩
    | call callee args =>
      rcases List.mem_append.1 m with m | m
      · exact .inr ⟨_, _, .callee .., m⟩
      · obtain ⟨e, arg, m⟩ := mem_missingAll_iff.1 m
        exact .inr ⟨e, _, .argument callee arg, m⟩
    | test name target args negated =>
      rcases List.mem_append.1 m with m | m
      · exact .inr ⟨_, _, .testTarget .., m⟩
      · obtain ⟨e, arg, m⟩ := mem_missingAll_iff.1 m
        exact .inr ⟨e, _, .testArgument name target negated arg, m⟩
    | list items =>
      obtain ⟨e, item, m⟩ := mem_missingAll_iff.1 m
      exact .inr ⟨e, _, .item item, m⟩
    | dict entries =>
      obtain ⟨key, value, entry, m | m⟩ := mem_missingEntries_iff.1 m
      · exact .inr ⟨_, _, .entryKey entry, m⟩
      · exact .inr ⟨_, _, .entryValue entry, m⟩
    | inlineIf value condition otherwise =>
      simp only [missing, List.mem_append] at m
      rcases m with (m | m) | m
      · exact .inr ⟨_, _, .value .., m⟩
      · exact .inr ⟨_, _, .condition .., m⟩
      · cases otherwise with
        | none => cases m
        | some otherwise => exact .inr ⟨_, _, .otherwise .., m⟩
  · rintro (m | ⟨part, called, uses, m⟩)
    · cases e with
      | var => exact m
      | lookup => simp [missing, m]
      | _ => cases m
    · exact uses.missing_subset m

/-- What an expression reports it reports for one of the expressions in it. -/
theorem exists_step_of_mem_missing {e : Expr} (called : Bool) (m : path ∈ e.missing ns locals) :
    ∃ inner, ReflTransGen Step (e, called) inner ∧ path ∈ missingPath ns locals inner.1 := by
  rcases mem_missing_iff.1 m with m | ⟨part, calls, uses, m⟩
  · exact ⟨(e, called), .refl, m⟩
  · have := uses.sizeOf_lt
    obtain ⟨inner, steps, m⟩ := exists_step_of_mem_missing calls m
    exact ⟨inner, .head (uses.step called) steps, m⟩
termination_by sizeOf e

theorem mem_missing_iff_exposes {e : Expr} : path ∈ e.missing ns locals ↔
    ∃ inner called, e.Exposes inner called ∧ path ∈ missingPath ns locals inner := by
  constructor
  · intro m
    obtain ⟨⟨inner, called⟩, steps, m⟩ := exists_step_of_mem_missing false m
    exact ⟨inner, called, steps, m⟩
  · rintro ⟨inner, called, steps, m⟩
    have here : path ∈ inner.missing ns locals := mem_missing_iff.2 (.inl m)
    exact steps.head_induction_on (motive := fun outer _ => path ∈ outer.1.missing ns locals) here
      fun uses _ m => Uses.missing_subset uses m

/-- The variables in an expression are variables of the expressions around it. -/
theorem Exposes.names_subset {e inner : Expr} {called : Bool} (h : e.Exposes inner called) : inner.names ⊆ e.names :=
  h.head_induction_on (motive := fun outer _ => inner.names ⊆ outer.1.names) (List.Subset.refl _)
    fun uses _ subset => List.Subset.trans subset (Uses.names_subset uses)

/-- An expression stands around the variable at its root. -/
theorem steps_of_root? {e : Expr} (called : Bool) (h : e.root? = some x) :
    ∃ calls, ReflTransGen Step (e, called) (.var x, calls) := by
  fun_induction root? e generalizing called with
  | case1 name =>
    cases h
    exact ⟨called, .refl⟩
  | case2 base key ih =>
    obtain ⟨calls, steps⟩ := ih false h
    exact ⟨calls, .head ((Uses.base base key).step called) steps⟩
  | case3 => cases h

theorem Exposes.reads {e inner : Expr} {called : Bool} (h : e.Exposes inner called) (root : inner.root? = some x) :
    e.Reads x := by
  obtain ⟨calls, steps⟩ := steps_of_root? called root
  exact ⟨calls, h.trans steps⟩

end Expr

/-! ### Expressions in nodes -/

namespace Node

/-- The node is neither a branch nor an inclusion. -/
def isStraight : Node → Bool
  | .branch _ _ | .inclusion _ _ _ => false
  | _ => true

/-- None of the nodes is a branch or an inclusion. -/
def AllStraight (nodes : List Node) : Prop :=
  ∀ node ∈ nodes, node.isStraight

instance (nodes : List Node) : Decidable (AllStraight nodes) :=
  inferInstanceAs (Decidable (∀ node ∈ nodes, node.isStraight))

theorem allStraight_append {nodes more : List Node} :
    AllStraight (nodes ++ more) ↔ AllStraight nodes ∧ AllStraight more :=
  List.forall_mem_append

/-- The expression is shown, called with a body, given to a filter or stands for an argument. -/
inductive Uses : Node → Expr → Prop
  | output (e : Expr) : Uses (.output e) e
  | target (params : List Param) (call : Expr) (body : List Node) : Uses (.callBlock params call body) call
  | argument {args : List Expr} {e : Expr} (name : String) (body : List Node) (m : e ∈ args) :
      Uses (.filterBlock name args body) e
  | default {params : List Param} {param : Param} {e : Expr} (name : String) (body : List Node) (m : param ∈ params)
      (default : param.default = some e) : Uses (.define name params body) e
  | callDefault {params : List Param} {param : Param} {e : Expr} (call : Expr) (body : List Node) (m : param ∈ params)
      (default : param.default = some e) : Uses (.callBlock params call body) e

/-- The body stands in the node, which binds the names in it. -/
inductive Opens : Node → List String → List Node → Prop
  | block (name : String) (body : List Node) : Opens (.block name body) [] body
  | turn (targets : List String) (items : Expr) (body : List Node) (otherwise : Option (List Node)) :
      Opens (.loop targets items body otherwise) (targets ++ [loopName]) body
  | otherwise (targets : List String) (items : Expr) (body otherwise : List Node) :
      Opens (.loop targets items body (some otherwise)) [] otherwise
  | define (name : String) (params : List Param) (body : List Node) :
      Opens (.define name params body) (params.map (·.name) ++ [callerName]) body
  | callBlock (params : List Param) (call : Expr) (body : List Node) :
      Opens (.callBlock params call body) (params.map (·.name)) body
  | filterBlock (name : String) (args : List Expr) (body : List Node) : Opens (.filterBlock name args body) [] body

/-- The statement binds the name for what follows it. What is bound in a block is bound behind it too. -/
inductive Declares (x : String) : Node → Prop
  | assign (value : Expr) : Declares x (.assign x value)
  | define (params : List Param) (body : List Node) : Declares x (.define x params body)
  | importAs (template : Expr) : Declares x (.importAs template x)
  | importFrom {names : List (String × String)} {name : String} (template : Expr) (m : (name, x) ∈ names) :
      Declares x (.importFrom template names)
  | block {body : List Node} {node : Node} (name : String) (m : node ∈ body) (inside : Declares x node) :
      Declares x (.block name body)

theorem Opens.mem_inner {node : Node} {names : List String} {body : List Node} (h : node.Opens names body) :
    body ∈ node.inner := by
  cases h <;> simp [inner, bodies]

end Node

/-- Where an expression stands: the names that the nodes around it bind in their bodies, the names that statements
before it bind, there and around it, and the macros that it stands in. -/
structure Site where
  opened : Set String
  declared : Set String
  macros : Set String

namespace Site

/-- In no body. -/
def outside : Site :=
  ⟨∅, ∅, ∅⟩

def bound (site : Site) : Set String :=
  site.opened ∪ site.declared

def behind (site : Site) (node : Node) : Site :=
  { site with declared := site.declared ∪ {x | node.Declares x} }

def inside (site : Site) (node : Node) (names : List String) : Site where
  opened := site.opened ∪ {x | x ∈ names}
  declared := site.declared
  macros := site.macros ∪ {x | ∃ params body, node = .define x params body}

/-- The analysis takes the names for bound that are bound. -/
def Binds (site : Site) (locals : List String) : Prop :=
  ∀ x, x ∈ locals ↔ x ∈ site.bound

/-- Nodes that stand at the first site hold an expression that stands at the other. -/
inductive Holds : Site → List Node → Site → Expr → Prop
  | here {site : Site} {node : Node} {nodes : List Node} {e : Expr} (uses : node.Uses e) :
      Holds site (node :: nodes) site e
  | inside {site target : Site} {node : Node} {nodes body : List Node} {names : List String} {e : Expr}
      (opens : node.Opens names body) (deeper : Holds (site.inside node names) body target e) :
      Holds site (node :: nodes) target e
  | behind {site target : Site} {node : Node} {nodes : List Node} {e : Expr}
      (later : Holds (site.behind node) nodes target e) : Holds site (node :: nodes) target e

theorem Holds.exists_part {site target : Site} {nodes : List Node} {e : Expr} (h : site.Holds nodes target e) :
    ∃ part ∈ partsOfAll nodes, part.Uses e := by
  induction h with
  | here uses => exact ⟨_, Node.mem_partsOfAll.2 ⟨_, List.mem_cons_self, Node.self_mem_parts _⟩, uses⟩
  | inside opens _ ih =>
    obtain ⟨part, m, uses⟩ := ih
    exact ⟨part, List.mem_append_left _ (Node.partsOfAll_subset_parts opens.mem_inner m), uses⟩
  | behind _ ih =>
    obtain ⟨part, m, uses⟩ := ih
    exact ⟨part, List.mem_append_right _ m, uses⟩

end Site

/-! ### What is reported -/

namespace Node

open Site (Binds)

variable {site : Site} {node : Node} {nodes : List Node}

theorem uses_iff {e : Expr} : node.Uses e ↔ node = .output e ∨ e ∈ node.arguments := by
  constructor
  · intro h
    cases h with
    | output => exact .inl rfl
    | target => simp [arguments]
    | argument _ _ m => exact .inr m
    | default _ _ m default => exact .inr (List.mem_filterMap.2 ⟨_, m, default⟩)
    | callDefault _ _ m default => exact .inr (List.mem_append_left _ (List.mem_filterMap.2 ⟨_, m, default⟩))
  · rintro (rfl | m)
    · exact .output e
    · cases node with
      | define name params body =>
        obtain ⟨param, m, default⟩ := List.mem_filterMap.1 m
        exact .default name body m default
      | callBlock params call body =>
        rcases List.mem_append.1 m with m | m
        · obtain ⟨param, m, default⟩ := List.mem_filterMap.1 m
          exact .callDefault call body m default
        · obtain rfl := List.mem_singleton.1 m
          exact .target params e body
      | filterBlock name args body => exact .argument name body m
      | _ => cases m

theorem Uses.mem_exprs {e : Expr} (h : node.Uses e) : e ∈ node.exprs := by
  rcases uses_iff.1 h with rfl | m
  · exact List.mem_singleton_self e
  · cases node with
    | define | callBlock | filterBlock => exact m
    | _ => cases m

theorem opens_iff {names : List String} {body : List Node} :
    node.Opens names body ↔ (∃ name, node = .block name body ∧ names = []) ∨ (names, body) ∈ node.bodies := by
  constructor
  · intro h
    cases h <;> simp [bodies]
  · rintro (⟨name, rfl, rfl⟩ | m)
    · exact .block name body
    · cases node with
      | loop targets items inner otherwise =>
        rcases List.mem_cons.1 m with h | m
        · cases h
          exact .turn targets items body otherwise
        · cases otherwise with
          | none => cases m
          | some rest =>
            cases List.mem_singleton.1 m
            exact .otherwise targets items inner body
      | define name params inner =>
        cases List.mem_singleton.1 m
        exact .define name params body
      | callBlock params call inner =>
        cases List.mem_singleton.1 m
        exact .callBlock params call body
      | filterBlock name args inner =>
        cases List.mem_singleton.1 m
        exact .filterBlock name args body
      | _ => cases m

theorem declares_iff :
    node.Declares x ↔ x ∈ node.declares ∨ ∃ name body, node = .block name body ∧ ∃ inner ∈ body, inner.Declares x := by
  constructor
  · intro h
    cases h with
    | assign | define | importAs => exact .inl (List.mem_singleton_self x)
    | importFrom _ m => exact .inl (List.mem_map.2 ⟨_, m, rfl⟩)
    | block name m inside => exact .inr ⟨name, _, rfl, _, m, inside⟩
  · rintro (m | ⟨name, body, rfl, inner, m, inside⟩)
    · cases node with
      | assign name value =>
        obtain rfl := List.mem_singleton.1 m
        exact .assign value
      | define name params body =>
        obtain rfl := List.mem_singleton.1 m
        exact .define params body
      | importAs template name =>
        obtain rfl := List.mem_singleton.1 m
        exact .importAs template
      | importFrom template names =>
        obtain ⟨⟨name, shown⟩, entry, rfl⟩ := List.mem_map.1 m
        exact .importFrom template entry
      | _ => cases m
    · exact .block name m inside

/-- What is reported in a node is reported for the expressions that it uses and in the bodies that it opens. -/
theorem mem_missing_walk_iff_uses_or_opens (straight : node.isStraight) :
    path ∈ (node.walk ns locals).1.missing ↔ (∃ e, node.Uses e ∧ path ∈ e.missing ns locals) ∨
      ∃ names body, node.Opens names body ∧ path ∈ (walkAll ns (locals ++ names) body).1.missing := by
  cases node with
  | branch | inclusion => cases straight
  | output e => simp [walk, uses_iff, opens_iff, arguments, bodies]
  | block name body =>
    simp only [walk, uses_iff, opens_iff, arguments, bodies]
    simp [and_assoc]
  | loop | define | callBlock | filterBlock =>
    rw [missing_walk_eq (by simp [bodies]), List.mem_append, Expr.mem_missingAll_iff, List.mem_flatMap]
    simp [uses_iff, opens_iff]
  | _ => simp [walk, uses_iff, opens_iff, arguments, bodies, Findings.none]

/-- Behind nodes the names are bound that were bound before and those that the nodes declare. -/
theorem mem_walkAll_iff_declares (straight : AllStraight (partsOfAll nodes)) :
    x ∈ (walkAll ns locals nodes).2 ↔ x ∈ locals ∨ ∃ node ∈ nodes, node.Declares x := by
  induction nodes using induction_inner generalizing locals with
  | nil => simp [walkAll]
  | cons node nodes inside next =>
    rw [partsOfAll, allStraight_append] at straight
    have here : x ∈ (node.walk ns locals).2 ↔ x ∈ locals ∨ node.Declares x := by
      cases node with
      | branch | inclusion => cases straight.1 _ (self_mem_parts _)
      | block name body =>
        have body : x ∈ (walkAll ns locals body).2 ↔ _ :=
          inside body (List.mem_singleton_self body) fun part m => straight.1 part (List.mem_cons_of_mem _ m)
        rw [walk, body, declares_iff]
        simp [declares, and_assoc]
      | _ =>
        rw [declares_iff]
        simp [walk, declares]
    rw [walkAll]
    simp only [next straight.2, here, List.mem_cons, or_and_right, exists_or, exists_eq_left, or_assoc]

theorem mem_walk_iff_declares (straight : AllStraight node.parts) :
    x ∈ (node.walk ns locals).2 ↔ x ∈ locals ∨ node.Declares x := by
  have single : x ∈ (walkAll ns locals [node]).2 ↔ x ∈ locals ∨ ∃ other ∈ [node], other.Declares x :=
    mem_walkAll_iff_declares (by simpa [partsOfAll] using straight)
  simpa [walkAll] using single

/-- Nothing is included in a template without inclusions. -/
theorem inclusions_walkAll_of_straight (straight : AllStraight (partsOfAll nodes)) :
    (walkAll ns locals nodes).1.inclusions = [] := by
  induction nodes using induction_inner generalizing locals with
  | nil => rfl
  | cons node nodes inside next =>
    rw [partsOfAll, allStraight_append] at straight
    have within {body : List Node} (m : body ∈ node.inner) (locals : List String) :
        (walkAll ns locals body).1.inclusions = [] :=
      inside body m fun part mp => straight.1 part (partsOfAll_subset_parts m mp)
    have here : (node.walk ns locals).1.inclusions = [] := by
      cases node with
      | branch | inclusion => cases straight.1 _ (self_mem_parts _)
      | block | define | callBlock | filterBlock => exact within (List.mem_singleton_self _) _
      | loop targets items body otherwise =>
        have turn : (walkAll ns (locals ++ (targets ++ [loopName])) body).1.inclusions = [] :=
          within (List.mem_cons_self ..) _
        cases otherwise with
        | none => simp [walk, walkOption, inclusions_append, turn, Findings.none]
        | some rest =>
          have otherwise := within (List.mem_cons_of_mem _ (List.mem_singleton_self rest)) locals
          simp [walk, walkOption, inclusions_append, turn, otherwise]
      | _ => rfl
    rw [walkAll]
    simp only [inclusions_append, here, next straight.2, List.append_nil]

/-- The chain of lookups has the path, its variable is bound nowhere, and the namespace has nothing for it. -/
structure Lacks (ns : Namespace) (site : Site) (chain : Expr) (path : String) : Prop where
  named : chain.path? = some path
  unbound : ∀ x, chain.root? = some x → x ∉ site.bound
  absent : ns.hasValueAt path = false

theorem mem_missingPath_iff (binds : site.Binds locals) {e : Expr} :
    path ∈ e.missingPath ns locals ↔ Lacks ns site e path := by
  have unbound : e.isLocal locals = false ↔ ∀ x, e.root? = some x → x ∉ site.bound := by
    rw [Expr.isLocal]
    cases e.root? with
    | none => simp
    | some root => simp [binds root]
  rw [Expr.missingPath]
  constructor
  · intro m
    split at m
    · rename_i found hp
      split at m
      · cases m
      · rename_i free
        cases List.mem_singleton.1 m
        rw [Bool.or_eq_true, not_or, Bool.not_eq_true, Bool.not_eq_true] at free
        exact ⟨hp, unbound.1 free.1, free.2⟩
    · cases m
  · intro h
    simp [h.named, unbound.2 h.unbound, h.absent]

end Node

namespace Site

variable {site : Site} {node : Node}

theorem Binds.outside : outside.Binds [] := by
  simp [Binds, bound, Site.outside]

theorem Binds.inside (binds : site.Binds locals) (node : Node) (names : List String) :
    (site.inside node names).Binds (locals ++ names) := by
  intro x
  rw [List.mem_append, binds x]
  exact or_right_comm

theorem Binds.behind (binds : site.Binds locals) (straight : Node.AllStraight node.parts) :
    (site.behind node).Binds (node.walk ns locals).2 := by
  intro x
  rw [Node.mem_walk_iff_declares straight, binds x]
  exact or_assoc

end Site

namespace Node

variable {site : Site} {nodes : List Node}

/-- In a template without branches and inclusions a path is reported if and only if something that is used lacks it. -/
theorem mem_missing_walkAll_iff_lacks (straight : AllStraight (partsOfAll nodes))
    (binds : site.Binds locals) : path ∈ (walkAll ns locals nodes).1.missing ↔ ∃ target e inner called,
      site.Holds nodes target e ∧ e.Exposes inner called ∧ Lacks ns target inner path := by
  induction nodes using induction_inner generalizing locals site with
  | nil =>
    constructor
    · exact nofun
    · rintro ⟨target, e, inner, called, holds, -⟩
      cases holds
  | cons node nodes inside next =>
    rw [partsOfAll, allStraight_append] at straight
    have within {names : List String} {body : List Node} (opens : node.Opens names body) :
        path ∈ (walkAll ns (locals ++ names) body).1.missing ↔ ∃ target e inner called,
          (site.inside node names).Holds body target e ∧ e.Exposes inner called ∧ Lacks ns target inner path :=
      inside body opens.mem_inner
        (fun part m => straight.1 part (partsOfAll_subset_parts opens.mem_inner m)) (binds.inside node names)
    rw [walkAll, missing_append, List.mem_append, next straight.2 (binds.behind straight.1),
      mem_missing_walk_iff_uses_or_opens (straight.1 _ (self_mem_parts _))]
    constructor
    · rintro ((⟨e, uses, m⟩ | ⟨names, body, opens, m⟩) | ⟨target, e, inner, called, holds, more⟩)
      · obtain ⟨inner, called, exposes, m⟩ := Expr.mem_missing_iff_exposes.1 m
        exact ⟨site, e, inner, called, .here uses, exposes, (mem_missingPath_iff binds).1 m⟩
      · obtain ⟨target, e, inner, called, holds, more⟩ := (within opens).1 m
        exact ⟨target, e, inner, called, .inside opens holds, more⟩
      · exact ⟨target, e, inner, called, .behind holds, more⟩
    · rintro ⟨target, e, inner, called, holds, exposes, lacks⟩
      cases holds with
      | here uses =>
        have m := Expr.mem_missing_iff_exposes.2 ⟨inner, called, exposes, (mem_missingPath_iff binds).2 lacks⟩
        exact .inl (.inl ⟨e, uses, m⟩)
      | inside opens deeper =>
        exact .inl (.inr ⟨_, _, opens, (within opens).2 ⟨target, e, inner, called, deeper, exposes, lacks⟩⟩)
      | behind later => exact .inr ⟨target, e, inner, called, later, exposes, lacks⟩

end Node

/-- The report on a template without branches and inclusions is what its nodes miss. -/
theorem Survey.outcome_of_straight (template : Template) (straight : Node.AllStraight (partsOfAll template.nodes))
    (ns : Namespace) (loader : Loader) : (run template.source ns loader).outcome =
      .ok (ascending (Node.walkAll ns [] template.nodes).1.missing) := by
  simp only [run, template.parsed, Node.inclusions_walkAll_of_straight straight, follow_nil]

/-- The report on a template without branches and inclusions has the paths that something in it lacks. -/
theorem Survey.run_of_straight (template : Template) (straight : Node.AllStraight (partsOfAll template.nodes))
    (ns : Namespace) (loader : Loader) : ∃ report, (run template.source ns loader).outcome = .ok report ∧
      ∀ path, path ∈ report ↔ ∃ site e inner called, Site.outside.Holds template.nodes site e ∧
        e.Exposes inner called ∧ Node.Lacks ns site inner path := by
  refine ⟨_, outcome_of_straight template straight ns loader, fun path => ?_⟩
  rw [Template.mem_ascending, Node.mem_missing_walkAll_iff_lacks straight Site.Binds.outside]

end Folio

import Folio.Proofs.Template.Named
import Folio.Proofs.Template.Nesting
import Folio.Proofs.Template.Substitution

/-! Inheritance is substitution. A template that extends others, up to an outermost layout, renders to what the layout
renders to once each of its blocks has given way, again and again, to the most derived body of its name. -/
namespace Folio

open Template
open Node (partsOfAll partsOfArms partsOfOption)
open Relation (ReflTransGen TransGen)

/-! ### Pages -/

namespace Node

/-- Texts, outputs, branches, loops and assignments. -/
def isInline : Node → Bool
  | .text _ | .output _ | .branch .. | .loop .. | .assign .. => true
  | _ => false

mutual

/-- An inline node with only such nodes inside, or a block of such nodes and blocks. -/
def isPlaced : Node → Bool
  | .block _ body => allPlaced body
  | node => node.parts.all isInline

def allPlaced : List Node → Bool
  | [] => true
  | node :: nodes => isPlaced node && allPlaced nodes

end

/-- What may stand at the top of a page: also the tag that names its parent. -/
def isSection : Node → Bool
  | .extend _ => true
  | node => node.isPlaced

/-- All of the nodes may stand at the top of a page. -/
def IsPage (nodes : List Node) : Prop :=
  ∀ node ∈ nodes, node.isSection

instance (nodes : List Node) : Decidable (IsPage nodes) :=
  inferInstanceAs (Decidable (∀ node ∈ nodes, node.isSection))

@[simp] theorem isPage_cons {node : Node} {nodes : List Node} :
    IsPage (node :: nodes) ↔ node.isSection ∧ IsPage nodes :=
  List.forall_mem_cons

/-- The body of a block of that name. -/
def bodyNamed? (name : String) : Node → Option (List Node)
  | .block shown body => if name = shown then some body else none
  | _ => none

/-- The body of the first block of that name, in the order of the text. -/
def firstBody? (name : String) (nodes : List Node) : Option (List Node) :=
  (partsOfAll nodes).findSome? (bodyNamed? name)

theorem bodyNamed?_of_isInline {name : String} {node : Node} (h : node.isInline) : node.bodyNamed? name = none := by
  cases node <;> first | rfl | cases h

theorem isInline_of_isPlaced {node : Node} (placed : node.isPlaced) (single : node.isInline) :
    ∀ part ∈ node.parts, part.isInline := by
  cases node <;> first | exact List.all_eq_true.1 placed | cases single

mutual

theorem lookup_blocksOf (name : String) : ∀ {node : Node}, node.isPlaced →
    (blocksOf node).lookup name = node.parts.findSome? (bodyNamed? name)
  | .block shown body, placed => by
    rw [isPlaced] at placed
    have inside := lookup_blocksIn name placed
    rw [blocksOf, parts, List.lookup_cons, List.findSome?_cons, bodyNamed?]
    by_cases same : name = shown
    · simp [same]
    · simp only [same, beq_eq_false_iff_ne.2 same, inside, if_false]
  | .text _, placed | .output _, placed | .branch .., placed | .loop .., placed | .assign .., placed
  | .extend _, placed | .inclusion .., placed | .define .., placed | .callBlock .., placed | .filterBlock .., placed
  | .importAs .., placed | .importFrom .., placed => by
    simp only [isPlaced, List.all_eq_true] at placed
    exact (List.findSome?_eq_none_iff.2 fun part m => bodyNamed?_of_isInline (placed part m)).symm

theorem lookup_blocksIn (name : String) : ∀ {nodes : List Node}, allPlaced nodes →
    (blocksIn nodes).lookup name = (partsOfAll nodes).findSome? (bodyNamed? name)
  | [], _ => rfl
  | node :: nodes, placed => by
    rw [allPlaced, Bool.and_eq_true] at placed
    rw [blocksIn, partsOfAll, List.lookup_append, List.findSome?_append, lookup_blocksOf name placed.1,
      lookup_blocksIn name placed.2]

end

theorem lookup_blocksIn_of_isSection (name : String) {nodes : List Node} (page : IsPage nodes) :
    (blocksIn nodes).lookup name = firstBody? name nodes := by
  induction nodes with
  | nil => rfl
  | cons node nodes ih =>
    rw [isPage_cons] at page
    rw [blocksIn, firstBody?, partsOfAll, List.lookup_append, List.findSome?_append, ih page.2, firstBody?]
    congr 1
    cases node with
    | extend parent => rfl
    | _ => exact lookup_blocksOf name page.1

theorem allPlaced_iff {nodes : List Node} : allPlaced nodes ↔ ∀ node ∈ nodes, node.isPlaced := by
  induction nodes with
  | nil => simp [allPlaced]
  | cons node nodes ih => simp [allPlaced, ih]

theorem isSection_of_isPlaced {node : Node} (placed : node.isPlaced) : node.isSection := by
  cases node with
  | extend parent => rfl
  | _ => exact placed

/-- The bodies of the blocks of a page are made of inline nodes and blocks. -/
theorem allPlaced_of_mem_blocksIn {nodes : List Node} (page : IsPage nodes) :
    ∀ entry ∈ blocksIn nodes, allPlaced entry.2 := by
  induction nodes using induction_inner with
  | nil => exact nofun
  | cons node nodes inside next =>
    rw [isPage_cons] at page
    rw [blocksIn, List.forall_mem_append]
    refine ⟨?_, next page.2⟩
    cases node with
    | block name body =>
      have placed : allPlaced body := page.1
      rw [blocksOf, List.forall_mem_cons]
      exact ⟨placed, inside body (List.mem_singleton_self _) fun node m =>
        isSection_of_isPlaced (allPlaced_iff.1 placed node m)⟩
    | _ => exact nofun

end Node

namespace Template

/-! ### Rendering without macros -/

namespace Rendering

variable {α β : Type}

/-- Where no macro is known, both actions do the same and make none known. -/
def Agrees (a b : Rendering α) : Prop :=
  ∀ ⦃context⦄, context.Bare → a context = b context ∧ (a context).2.Bare

namespace Agrees

theorem pure (value : α) : Agrees (pure value) (pure value) :=
  fun _ bare => ⟨rfl, bare⟩

theorem lift (result : Except RenderError α) : Agrees (liftM result) (liftM result) := by
  intro context bare
  rw [lift_apply]
  exact ⟨rfl, bare⟩

theorem modify {f : Context → Context} (h : ∀ ⦃context⦄, context.Bare → (f context).Bare) :
    Agrees (modify f) (modify f) :=
  fun _ bare => ⟨rfl, h bare⟩

theorem bind {a b : Rendering α} {f g : α → Rendering β} (h : Agrees a b) (hf : ∀ value, Agrees (f value) (g value)) :
    Agrees (a >>= f) (b >>= g) := by
  intro context bare
  obtain ⟨same, kept⟩ := h bare
  change ExceptT.bindCont f (a context).1 (a context).2 = ExceptT.bindCont g (b context).1 (b context).2 ∧
    (ExceptT.bindCont f (a context).1 (a context).2).2.Bare
  rw [← same]
  cases (a context).1 with
  | error cause => exact ⟨rfl, kept⟩
  | ok value => exact hf value kept

theorem ite {c : Prop} [Decidable c] {a b a' b' : Rendering α} (h : Agrees a b) (h' : Agrees a' b') :
    Agrees (if c then a else a') (if c then b else b') := by
  split
  · exact h
  · exact h'

theorem inScope {a b : Rendering α} (scope : Scope) (h : Agrees a b) :
    Agrees (Rendering.inScope scope a) (Rendering.inScope scope b) := by
  intro context bare
  have pushed : (context.push scope).Bare := bare
  obtain ⟨same, kept⟩ := h pushed
  change ((a (context.push scope)).1, (a (context.push scope)).2.pop) =
    ((b (context.push scope)).1, (b (context.push scope)).2.pop) ∧ _
  rw [← same]
  exact ⟨rfl, kept⟩

theorem forEach {targets : List String} {a b : Rendering String} (h : Agrees a b) (length : Nat)
    (items : List Value) : ∀ index done,
    Agrees (Template.forEach targets a length index items done)
      (Template.forEach targets b length index items done) := by
  induction items with
  | nil => exact fun _ done => .pure done
  | cons item items ih =>
    intro index done
    rw [Template.forEach, Template.forEach]
    exact (lift _).bind fun scope => (h.inScope _).bind fun text => ih _ _

end Agrees

end Rendering

open Folio.Template.Rendering (Agrees)

theorem bare_assign {context : Context} (bare : context.Bare) (name : String) (value : Value) :
    (context.assign name value).Bare := by
  rw [Context.assign]
  split
  · exact bare
  · exact bare

section Nodes

variable {setting : Setting} {jumps other : Jumps} {place there : Place}

section Inline

set_option linter.unusedSectionVars false

variable (calls : place.calls = there.calls)
include calls

theorem agrees_evaluate (e : Expr) :
    Agrees (evaluate setting jumps place e) (evaluate setting other there e) := by
  intro context bare
  rw [evaluate_apply, evaluate_apply, calls, bare.eval_eq jumps other]
  exact ⟨rfl, bare⟩

mutual

/-- The overriding bodies and the depth of the place do not matter to nodes without blocks. -/
theorem agrees_renderNode : ∀ {node : Node}, (∀ part ∈ node.parts, part.isInline) →
    Agrees (renderNode setting jumps place node) (renderNode setting other there node)
  | .text content, _ => .pure content
  | .output e, _ => (agrees_evaluate calls e).bind fun value => .pure _
  | .assign name value, _ => (agrees_evaluate calls value).bind fun value =>
    (Agrees.modify fun _ bare => bare_assign bare name value).bind fun _ => .pure _
  | .branch arms otherwise, inline => by
    simp only [Node.parts, List.forall_mem_cons, List.forall_mem_append] at inline
    rw [renderNode, renderNode]
    exact agrees_renderArms inline.2.1 (agrees_renderOption inline.2.2)
  | .loop targets items body otherwise, inline => by
    simp only [Node.parts, List.forall_mem_cons, List.forall_mem_append] at inline
    rw [renderNode, renderNode]
    refine (agrees_evaluate calls items).bind fun value => (Agrees.lift _).bind fun items => ?_
    exact .ite (agrees_renderOption inline.2.2) ((agrees_renderNodes inline.2.1).forEach _ _ _ _)
  | .inclusion .., inline | .block .., inline | .extend _, inline | .define .., inline | .callBlock .., inline
  | .filterBlock .., inline | .importAs .., inline | .importFrom .., inline => by
    cases inline _ (Node.self_mem_parts _)

theorem agrees_renderNodes : ∀ {nodes : List Node}, (∀ part ∈ partsOfAll nodes, part.isInline) →
    Agrees (renderNodes setting jumps place nodes) (renderNodes setting other there nodes)
  | [], _ => .pure ""
  | node :: nodes, inline => by
    rw [partsOfAll, List.forall_mem_append] at inline
    rw [renderNodes, renderNodes]
    exact (agrees_renderNode inline.1).bind fun _ => (agrees_renderNodes inline.2).bind fun _ => .pure _

theorem agrees_renderArms : ∀ {arms : List (Expr × List Node)} {otherwise otherwise' : Rendering String},
    (∀ part ∈ partsOfArms arms, part.isInline) → Agrees otherwise otherwise' →
    Agrees (renderArms setting jumps place arms otherwise) (renderArms setting other there arms otherwise')
  | [], _, _, _, ho => ho
  | (condition, body) :: arms, _, _, inline, ho => by
    rw [partsOfArms, List.forall_mem_append] at inline
    rw [renderArms, renderArms]
    exact (agrees_evaluate calls condition).bind fun _ =>
      .ite (agrees_renderNodes inline.1) (agrees_renderArms inline.2 ho)

theorem agrees_renderOption : ∀ {body : Option (List Node)}, (∀ part ∈ partsOfOption body, part.isInline) →
    Agrees (renderOption setting jumps place body) (renderOption setting other there body)
  | none, _ => .pure ""
  | some body, inline => agrees_renderNodes (by rwa [partsOfOption] at inline)

end

end Inline

theorem renderNodes_append (nodes more : List Node) : renderNodes setting jumps place (nodes ++ more) =
    (do let text ← renderNodes setting jumps place nodes; return text ++ (← renderNodes setting jumps place more)) := by
  induction nodes with
  | nil => simp only [List.nil_append, renderNodes, pure_bind, String.empty_append, bind_pure]
  | cons node nodes ih => simp only [List.cons_append, renderNodes, ih, bind_assoc, pure_bind, String.append_assoc]

end Nodes

/-! ### Blocks that give way -/

/-- The second nodes are the first ones with each block replaced by the body that is given for its name, or by its own
body if none is given, once the blocks in that body are replaced in turn. -/
inductive Flattens (bodies : String → Option (List Node)) : List Node → List Node → Prop
  | nil : Flattens bodies [] []
  | inline {node : Node} {nodes flat : List Node} (single : node.isInline) (rest : Flattens bodies nodes flat) :
      Flattens bodies (node :: nodes) (node :: flat)
  | block {name : String} {body inside nodes flat : List Node}
      (shown : Flattens bodies ((bodies name).getD body) inside) (rest : Flattens bodies nodes flat) :
      Flattens bodies (.block name body :: nodes) (inside ++ flat)

section Flattens

variable {bodies : String → Option (List Node)}

theorem Flattens.unique {nodes flat : List Node} (h : Flattens bodies nodes flat) :
    ∀ {other : List Node}, Flattens bodies nodes other → other = flat := by
  induction h with
  | nil =>
    rintro _ ⟨⟩
    rfl
  | @inline node nodes flat single rest ih =>
    rintro _ (_ | ⟨-, rest'⟩ | _)
    · rw [ih rest']
    · cases single
  | @block name body inside nodes flat shown rest shownIh restIh =>
    rintro _ (_ | ⟨single, _⟩ | ⟨shown', rest'⟩)
    · cases single
    · rw [shownIh shown', restIh rest']

/-- Nothing is left but inline nodes. -/
theorem Flattens.isInline {nodes flat : List Node} (h : Flattens bodies nodes flat) (placed : Node.allPlaced nodes)
    (given : ∀ ⦃name body⦄, bodies name = some body → Node.allPlaced body) :
    ∀ part ∈ partsOfAll flat, part.isInline := by
  induction h with
  | nil => exact nofun
  | @inline node nodes flat single rest ih =>
    rw [Node.allPlaced, Bool.and_eq_true] at placed
    rw [partsOfAll, List.forall_mem_append]
    exact ⟨Node.isInline_of_isPlaced placed.1 single, ih placed.2⟩
  | @block name body inside nodes flat shown rest shownIh restIh =>
    rw [Node.allPlaced, Node.isPlaced, Bool.and_eq_true] at placed
    rw [Parser.partsOfAll_append, List.forall_mem_append]
    refine ⟨shownIh ?_, restIh placed.2⟩
    cases found : bodies name with
    | none => exact placed.1
    | some body => exact given found

mutual

/-- The names of the blocks of a node that give way to a body. What stands in such a block is not looked into. -/
def givingWay (bodies : String → Option (List Node)) : Node → List String
  | .block name body => if (bodies name).isSome then [name] else allGivingWay bodies body
  | _ => []

def allGivingWay (bodies : String → Option (List Node)) : List Node → List String
  | [] => []
  | node :: nodes => givingWay bodies node ++ allGivingWay bodies nodes

end

/-- If the bodies that blocks of the nodes give way to render as flattened, so do the nodes. -/
theorem exists_flat {setting : Setting} {jumps other : Jumps} {place there : Place} (calls : place.calls = there.calls)
    (overrides : ∀ name, place.overrides.lookup name = bodies name) {nodes : List Node} (placed : Node.allPlaced nodes)
    (given : ∀ name ∈ allGivingWay bodies nodes, ∀ body, bodies name = some body → ∃ flat, Flattens bodies body flat ∧
      Agrees (jumps.body place body) (renderNodes setting other there flat)) :
    ∃ flat, Flattens bodies nodes flat ∧
      Agrees (renderNodes setting jumps place nodes) (renderNodes setting other there flat) := by
  induction nodes using Node.induction_inner with
  | nil => exact ⟨[], .nil, .pure ""⟩
  | cons node nodes inside next =>
    rw [Node.allPlaced, Bool.and_eq_true] at placed
    rw [allGivingWay, List.forall_mem_append] at given
    obtain ⟨flat, flattens, agrees⟩ := next placed.2 given.2
    by_cases single : node.isInline
    · refine ⟨node :: flat, .inline single flattens, ?_⟩
      rw [renderNodes, renderNodes]
      exact (agrees_renderNode calls (Node.isInline_of_isPlaced placed.1 single)).bind fun _ =>
        agrees.bind fun _ => .pure _
    · cases node with
      | block name body =>
        suffices shown : ∃ flat, Flattens bodies ((bodies name).getD body) flat ∧
            Agrees (renderNode setting jumps place (.block name body)) (renderNodes setting other there flat) by
          obtain ⟨first, flattensFirst, agreesFirst⟩ := shown
          refine ⟨first ++ flat, .block flattensFirst flattens, ?_⟩
          rw [renderNodes, renderNodes_append]
          exact agreesFirst.bind fun _ => agrees.bind fun _ => .pure _
        rw [renderNode, overrides]
        rw [givingWay] at given
        cases found : bodies name with
        | some replacement => exact given.1 name (by simp [found]) replacement found
        | none =>
          rw [found] at given
          rw [Node.isPlaced] at placed
          exact inside body (List.mem_singleton_self _) placed.1 given.1
      | text | output | branch | loop | assign => exact absurd rfl single
      | extend | inclusion | define | callBlock | filterBlock | importAs | importFrom =>
        simp [Node.isPlaced, Node.parts, Node.isInline] at placed

end Flattens

/-! ### Chains of parents -/

/-- The body that the first of the templates gives to blocks of that name. -/
def mostDerived? (derived : List Template) (name : String) : Option (List Node) :=
  derived.findSome? (fun template => Node.firstBody? name template.nodes)

/-- The blocks of the templates, in order. -/
def blocksOfAll (derived : List Template) : Overrides :=
  derived.flatMap (fun template => blocksIn template.nodes)

/-- The template extends one that extends another, and so on, up to the outermost one, which extends none. The list has
all but the outermost one; parents are named by literals. -/
inductive Descends (setting : Setting) : Template → List Template → Template → Prop
  | outermost {template : Template} (single : parent? template.nodes = none) : Descends setting template [] template
  | extend {template parent outermost : Template} {derived : List Template} {name : Value}
      (extends? : parent? template.nodes = some (.literal name))
      (found : setting.template? name.text = .ok (some parent)) (chain : Descends setting parent derived outermost) :
      Descends setting template (template :: derived) outermost

/-- The text of nodes that make up a template, if so many nested jumps are allowed. -/
def textWithin (setting : Setting) (budget : Nat) (name : String) (nodes : List Node) (globals : Namespace) :
    Except RenderError String :=
  (layOut setting (.within setting budget) name maxNesting ⟨[], 0, 0⟩ nodes (.ofNamespace globals)).1

theorem renderWithin_eq_textWithin (setting : Setting) (budget : Nat) (template : Template) (globals : Namespace) :
    renderWithin setting budget template globals = textWithin setting budget template.name template.nodes globals :=
  rfl

/-- The name of a document's parent, where it is a fixed text. -/
def parentName? (nodes : List Node) : Option String :=
  match parent? nodes with
  | some (.literal (.string name)) => some name
  | _ => none

theorem parent?_of_parentName? {nodes : List Node} {name : String} (h : parentName? nodes = some name) :
    parent? nodes = some (.literal (.string name)) := by
  rw [parentName?] at h
  split at h
  · cases h
    assumption
  · cases h

section Chain

variable {setting : Setting} {template outermost : Template} {derived : List Template}

theorem Descends.parent?_eq_none (chain : Descends setting template derived outermost) :
    parent? outermost.nodes = none := by
  induction chain with
  | outermost single => exact single
  | extend _ _ _ ih => exact ih

theorem layOut_of_parent?_eq_none {nodes : List Node} (single : parent? nodes = none) (jumps : Jumps) (start : String)
    (allowed : Nat) (place : Place) : layOut setting jumps start allowed place nodes = jumps.body place nodes := by
  rw [layOut.eq_def, single]

theorem Descends.layOut_eq (chain : Descends setting template derived outermost) (jumps : Jumps) (start : String)
    (context : Context) : ∀ {allowed : Nat} {place : Place}, derived.length ≤ allowed →
    layOut setting jumps start allowed place template.nodes context = jumps.body
      ⟨place.overrides ++ blocksOfAll derived, place.depth + derived.length, place.calls⟩ outermost.nodes context := by
  induction chain with
  | outermost single =>
    intro allowed place _
    rw [layOut_of_parent?_eq_none single]
    simp [blocksOfAll]
  | @extend template parent outermost derived name extends? found chain ih =>
    intro allowed place long
    obtain ⟨allowed, rfl⟩ : ∃ more, allowed = more + 1 := ⟨allowed - 1, by simp at long; omega⟩
    rw [layOut_succ extends? rfl found, ih (by simpa using long)]
    simp [blocksOfAll, Nat.add_assoc, Nat.add_comm 1]

theorem lookup_blocksOfAll (pages : ∀ page ∈ derived, Node.IsPage page.nodes) (name : String) :
    (blocksOfAll derived).lookup name = mostDerived? derived name := by
  induction derived with
  | nil => rfl
  | cons page derived ih =>
    rw [List.forall_mem_cons] at pages
    rw [blocksOfAll, List.flatMap_cons, List.lookup_append, mostDerived?, List.findSome?_cons,
      Node.lookup_blocksIn_of_isSection name pages.1]
    cases Node.firstBody? name page.nodes with
    | some body => rfl
    | none => exact ih pages.2

theorem allPlaced_of_mostDerived? (pages : ∀ page ∈ derived, Node.IsPage page.nodes) ⦃name : String⦄
    ⦃body : List Node⦄ (found : mostDerived? derived name = some body) : Node.allPlaced body := by
  obtain ⟨page, m, found⟩ := List.exists_of_findSome?_eq_some found
  rw [← Node.lookup_blocksIn_of_isSection name (pages page m)] at found
  obtain ⟨before, after, split, -⟩ := List.lookup_eq_some_iff.1 found
  exact Node.allPlaced_of_mem_blocksIn (pages page m) (name, body) (by simp [split])

end Chain

/-- Where no block leads back to itself, nodes can be flattened and render as flattened, if one jump more is allowed
than there are bodies. -/
theorem exists_flat_of_acyclic {setting : Setting} {place there : Place} {bodies : String → Option (List Node)}
    (calls : place.calls = there.calls) (overrides : ∀ name, place.overrides.lookup name = bodies name)
    (given : ∀ ⦃name body⦄, bodies name = some body → Node.allPlaced body) {nodes : List Node}
    (placed : Node.allPlaced nodes)
    (clear : ¬ RecursIn bodies (fun nodes name => name ∈ allGivingWay bodies nodes) nodes)
    (other : Jumps) {n : Nat} (long : place.overrides.length < n) : ∃ flat, Flattens bodies nodes flat ∧
      Agrees ((Jumps.within setting n).body place nodes) (renderNodes setting other there flat) := by
  have step (n : Nat) (nodes : List Node) (shown : ∀ ⦃name body⦄, name ∈ allGivingWay bodies nodes →
      bodies name = some body → Node.allPlaced body → ∃ flat, Flattens bodies body flat ∧
        Agrees ((Jumps.within setting n).body place body) (renderNodes setting other there flat))
      (placed : Node.allPlaced nodes) : ∃ flat, Flattens bodies nodes flat ∧
        Agrees ((Jumps.within setting (n + 1)).body place nodes) (renderNodes setting other there flat) :=
    exists_flat calls overrides placed fun name m body found => shown m found (given found)
  have known ⦃name : String⦄ ⦃body : List Node⦄ (found : bodies name = some body) :
      name ∈ place.overrides.map Prod.fst :=
    mem_keys_of_lookup ((overrides name).trans found)
  exact induction_of_acyclic step known clear (by rwa [List.length_map]) placed

end Template

namespace Library

variable {library : Library}

theorem template?_of_get? {name : String} {template : Template} (found : library.get? name = some template) :
    library.setting.template? name = .ok (some template) := by
  change library.template? name = _
  rw [template?, found]

/-- A template that extends others renders to what the outermost of them renders to once its blocks have given way to
the most derived bodies of their names, and the blocks in those bodies as well, where this leads from no block back to
itself. There is just one way to do so, and of the templates that extend others only the bodies of blocks matter. -/
theorem renderWithin_of_descends {template outermost : Template} {derived : List Template}
    (chain : Descends library.setting template derived outermost) (short : derived.length ≤ maxNesting)
    (pages : ∀ page ∈ outermost :: derived, Node.IsPage page.nodes)
    (clear : ¬ RecursIn (mostDerived? derived) (fun nodes name => name ∈ allGivingWay (mostDerived? derived) nodes)
      outermost.nodes) :
    ∃ flat, (∀ other, Flattens (mostDerived? derived) outermost.nodes other ↔ other = flat) ∧
      ∀ globals,
        (∀ budget, (blocksOfAll derived).length < budget → renderWithin library.setting budget template globals =
          textWithin library.setting budget template.name flat globals) ∧
        ((blocksOfAll derived).length < maxJumps → ∀ name, library.get? name = some template →
          library.render name globals = textWithin library.setting maxJumps template.name flat globals) := by
  rw [List.forall_mem_cons] at pages
  have overrides := lookup_blocksOfAll pages.2
  have given := allPlaced_of_mostDerived? pages.2
  have placed : Node.allPlaced outermost.nodes := by
    refine Node.allPlaced_iff.2 fun node m => ?_
    have single := chain.parent?_eq_none
    rw [parent?, List.findSome?_eq_none_iff] at single
    have section? := pages.1 node m
    cases node with
    | extend parent => cases single _ m
    | _ => exact section?
  let place : Place := ⟨[] ++ blocksOfAll derived, 0 + derived.length, 0⟩
  let there : Place := ⟨[], 0, 0⟩
  have calls : place.calls = there.calls := rfl
  have flattened (n : Nat) (long : place.overrides.length < n) (other : Jumps) :
      ∃ flat, Flattens (mostDerived? derived) outermost.nodes flat ∧
        Rendering.Agrees ((Jumps.within library.setting n).body place outermost.nodes)
          (renderNodes library.setting other there flat) :=
    exists_flat_of_acyclic calls overrides given placed clear other long
  obtain ⟨flat, flattens, -⟩ := flattened _ (Nat.lt_succ_self _) (.within library.setting 0)
  have single : parent? flat = none := parent?_eq_none_of_notMem fun parent m => by
    cases flattens.isInline placed given _ m
  have same (globals : Namespace) (budget : Nat) (long : (blocksOfAll derived).length < budget) :
      renderWithin library.setting budget template globals =
        textWithin library.setting budget template.name flat globals := by
    obtain ⟨budget, rfl⟩ : ∃ less, budget = less + 1 := ⟨budget - 1, by omega⟩
    obtain ⟨flat', flattens', agrees⟩ := flattened _ long (.within library.setting budget)
    obtain rfl := flattens.unique flattens'
    rw [renderWithin_eq_textWithin, textWithin, textWithin, chain.layOut_eq _ _ _ short,
      layOut_of_parent?_eq_none single]
    have bare : (Context.ofNamespace globals).Bare := rfl
    exact congrArg Prod.fst (agrees bare).1
  refine ⟨flat, fun other => ⟨flattens.unique, fun h => h ▸ flattens⟩, fun globals => ⟨same globals, ?_⟩⟩
  intro few name found
  rw [render_eq found]
  exact same globals maxJumps few

/-- A page overrides a block that stands in a body by which its parent overrides a block of the outermost layout. -/
theorem renderWithin_of_three_pages :
    let texts := [("base", "[\x7b% block a %\x7d\x7b% endblock %\x7d|\x7b% block c %\x7dC\x7b% endblock %\x7d]"),
      ("middle", "\x7b% extends 'base' %\x7d\x7b% block a %\x7d<\x7b% block b %\x7db\x7b% endblock %\x7d>\x7b% endblock %\x7d"),
      ("page", "\x7b% extends 'middle' %\x7dlost\x7b% block b %\x7d\x7b% set x = 1 %\x7d\x7b\x7b x \x7d\x7d\x7b% endblock %\x7d")]
    ∃ library page middle base, ofList texts = .ok library ∧ library.get? "page" = some page ∧
      Descends library.setting page [page, middle] base ∧ [page, middle].length ≤ maxNesting ∧
      (∀ template ∈ [base, page, middle], Node.IsPage template.nodes) ∧
      ¬ RecursIn (mostDerived? [page, middle])
        (fun nodes name => name ∈ allGivingWay (mostDerived? [page, middle]) nodes) base.nodes ∧
      ∃ flat, Flattens (mostDerived? [page, middle]) base.nodes flat ∧
        textWithin library.setting maxJumps page.name flat .empty = .ok "[<1>|C]" := by
  intro texts
  have shown : (ofList texts).toOption.bind (fun library => (library.get? "page").bind fun page =>
      (library.get? "middle").bind fun middle => (library.get? "base").map fun base =>
        (decide (parentName? page.nodes = some "middle" ∧ parentName? middle.nodes = some "base" ∧
            (parent? base.nodes).isNone ∧ (∀ template ∈ [base, page, middle], Node.IsPage template.nodes) ∧
            (∀ entry ∈ blocksOfAll [page, middle], ∀ name ∈ allGivingWay (mostDerived? [page, middle]) entry.2,
              entry.1 = "a" ∧ name = "b") ∧ (blocksOfAll [page, middle]).length < maxJumps),
          library.render "page" .empty)) = some (true, .ok "[<1>|C]") := by
    rw [ofList_eq_ofChars (.cons rfl (.cons rfl (.cons rfl .nil)))]
    decide +kernel
  cases made : ofList texts with
  | error error => rw [made] at shown; cases shown
  | ok library =>
    rw [made] at shown
    obtain ⟨_, ⟨⟩, shown⟩ := Option.bind_eq_some_iff.1 shown
    obtain ⟨page, foundPage, shown⟩ := Option.bind_eq_some_iff.1 shown
    obtain ⟨middle, foundMiddle, shown⟩ := Option.bind_eq_some_iff.1 shown
    obtain ⟨base, foundBase, shown⟩ := Option.map_eq_some_iff.1 shown
    simp only [Prod.mk.injEq, decide_eq_true_eq, Option.isNone_iff_eq_none] at shown
    obtain ⟨⟨toMiddle, toBase, single, pages, leads, few⟩, text⟩ := shown
    have chain : Descends library.setting page [page, middle] base :=
      .extend (parent?_of_parentName? toMiddle) (template?_of_get? foundMiddle)
        (.extend (parent?_of_parentName? toBase) (template?_of_get? foundBase) (.outermost single))
    have clear : ¬ RecursIn (mostDerived? [page, middle])
        (fun nodes name => name ∈ allGivingWay (mostDerived? [page, middle]) nodes) base.nodes := by
      have ab {first second : String} (h : LeadsIn (mostDerived? [page, middle])
          (fun nodes name => name ∈ allGivingWay (mostDerived? [page, middle]) nodes) first second) :
          first = "a" ∧ second = "b" := by
        obtain ⟨body, found, m⟩ := h
        rw [← lookup_blocksOfAll fun page m => pages page (List.mem_cons_of_mem _ m)] at found
        obtain ⟨before, after, split, -⟩ := List.lookup_eq_some_iff.1 found
        exact leads (first, body) (by simp [split]) second m
      rintro ⟨first, name, -, -, cycle⟩
      obtain ⟨_, out, -⟩ := TransGen.head'_iff.1 cycle
      obtain ⟨_, -, back⟩ := TransGen.tail'_iff.1 cycle
      exact absurd ((ab out).1.symm.trans (ab back).2) (by decide)
    have short : 2 ≤ maxNesting := by decide
    obtain ⟨flat, flattens, same⟩ := renderWithin_of_descends chain short pages clear
    refine ⟨library, page, middle, base, rfl, foundPage, chain, short, pages, clear, flat, (flattens flat).2 rfl, ?_⟩
    rw [← (same .empty).2 few "page" foundPage, text]

end Library

end Folio

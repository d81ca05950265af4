import Folio.Proofs.Template.Run

/-! Addresses. In a template that needs no other template and no macro, every node that rendering comes to stands at an
address, and rendering arrives there from the start of the template, node after node and body inside body. -/
namespace Folio

open Template
open Node (partsOfAll)

/-- Where a node stands among nodes: in front, behind the first node, or in a body of the first node. -/
inductive Address where
  | here
  | next (rest : Address)
  | inside (body : Nat) (rest : Address)
  deriving DecidableEq, Repr

namespace Node

/-- The node at an address. -/
def at? : Address → List Node → Option Node
  | _, [] => none
  | .here, node :: _ => some node
  | .next rest, _ :: nodes => at? rest nodes
  | .inside body rest, node :: _ => node.inner[body]?.bind (at? rest)

/-- Texts, outputs, branches, blocks, loops, assignments and filters. -/
def isStandalone : Node → Bool
  | .text _ | .output _ | .branch .. | .block .. | .loop .. | .assign .. | .filterBlock .. => true
  | _ => false

/-- All of the nodes are standalone. -/
def AllStandalone (nodes : List Node) : Prop :=
  ∀ node ∈ nodes, node.isStandalone

instance (nodes : List Node) : Decidable (AllStandalone nodes) :=
  inferInstanceAs (Decidable (∀ node ∈ nodes, node.isStandalone))

end Node

namespace Template

section Arrives

variable (setting : Setting) (jumps : Jumps) (place : Place)

/-- The number of the first arm whose condition holds, or of the arms if none does. -/
def chosen (context : Context) : List (Expr × List Node) → Except RenderError Nat
  | [] => .ok 0
  | (condition, _) :: arms => do
    if (← eval setting jumps place.calls context condition).isTruthy then return 0
    else return (← chosen context arms) + 1

/-- A loop that goes on from an item comes to the body again, which finds a context. -/
inductive Turns (targets : List String) (body : Rendering String) (length : Nat) :
    Nat → List Value → Context → Context → Prop
  | here {index : Nat} {item : Value} {items : List Value} {context : Context} {scope : Scope}
      (bound : bindTargets targets item = .ok scope) : Turns targets body length index (item :: items) context
        (context.push (Fields.put loopName (progress index length) scope))
  | next {index : Nat} {item : Value} {items : List Value} {context after found : Context} {scope : Scope}
      {text : String} (bound : bindTargets targets item = .ok scope)
      (ran : body (context.push (Fields.put loopName (progress index length) scope)) = (.ok text, after))
      (later : Turns targets body length (index + 1) items after.pop found) :
      Turns targets body length index (item :: items) context found

/-- A node that is rendered in a context comes to one of its bodies, which finds a context. -/
inductive Enters (context : Context) : Node → Nat → Context → Prop
  | branch {arms : List (Expr × List Node)} {otherwise : Option (List Node)} {body : Nat}
      (h : chosen setting jumps place context arms = .ok body) : Enters context (.branch arms otherwise) body context
  | block {name : String} {body : List Node} (own : place.overrides.lookup name = none) :
      Enters context (.block name body) 0 context
  | loop {targets : List String} {e : Expr} {value : Value} {items : List Value} {body : List Node}
      {otherwise : Option (List Node)} {found : Context} (he : eval setting jumps place.calls context e = .ok value)
      (hv : loopItems targets value = .ok items)
      (turn : Turns targets (renderNodes setting jumps place body) items.length 0 items context found) :
      Enters context (.loop targets e body otherwise) 0 found
  | otherwise {targets : List String} {e : Expr} {value : Value} {body : List Node}
      {otherwise : Option (List Node)} (he : eval setting jumps place.calls context e = .ok value)
      (hv : loopItems targets value = .ok []) : Enters context (.loop targets e body otherwise) 1 context
  | filterBlock {name : String} {args : List Expr} {body : List Node} :
      Enters context (.filterBlock name args body) 0 context

/-- Rendering nodes from a context comes to the node at an address, which finds a context. -/
inductive Arrives : Context → List Node → Address → Context → Prop
  | here {context : Context} {node : Node} {nodes : List Node} : Arrives context (node :: nodes) .here context
  | next {context after found : Context} {node : Node} {nodes : List Node} {rest : Address} {text : String}
      (ran : renderNode setting jumps place node context = (.ok text, after)) (h : Arrives after nodes rest found) :
      Arrives context (node :: nodes) (.next rest) found
  | inside {context entered found : Context} {node : Node} {nodes body : List Node} {i : Nat} {rest : Address}
      (enters : Enters setting jumps place context node i entered) (stands : node.inner[i]? = some body)
      (h : Arrives entered body rest found) : Arrives context (node :: nodes) (.inside i rest) found

end Arrives

/-! ### Moments have addresses -/

section Moments

variable {setting : Setting} {jumps : Jumps} {elsewhere : Place → View → List Node → Context → List Moment}
variable {place : Place} {moment : Moment}

theorem mem_following_evaluate {e : Expr} {next : Value → Context → List Moment} {context : Context}
    (m : moment ∈ following (evaluate setting jumps place e) next context) :
    ∃ value, eval setting jumps place.calls context e = .ok value ∧ moment ∈ next value context := by
  obtain ⟨value, after, run, m⟩ := mem_following m
  rw [evaluate_apply, Prod.mk.injEq] at run
  obtain ⟨he, rfl⟩ := run
  exact ⟨value, he, m⟩

theorem chosen_cons {condition : Expr} {context : Context} {value : Value} (body : List Node)
    (arms : List (Expr × List Node)) (he : eval setting jumps place.calls context condition = .ok value) :
    chosen setting jumps place context ((condition, body) :: arms) =
      if value.isTruthy then .ok 0 else (chosen setting jumps place context arms).map (· + 1) := by
  rw [chosen, he]
  change (if value.isTruthy then pure 0 else _) = _
  cases chosen setting jumps place context arms <;> rfl

theorem chosen_of_mem {view : View} {context : Context} {rest : Context → List Moment} :
    ∀ {arms : List (Expr × List Node)},
      moment ∈ momentsOfArms setting jumps elsewhere place view arms rest context →
      ∃ i, chosen setting jumps place context arms = .ok i ∧
        (i = arms.length ∧ moment ∈ rest context ∨
          ∃ body, (arms.map (·.2))[i]? = some body ∧
            moment ∈ momentsOfAll setting jumps elsewhere place view body context)
  | [], m => ⟨0, rfl, .inl ⟨rfl, m⟩⟩
  | (condition, body) :: arms, m => by
    obtain ⟨value, he, m⟩ := mem_following_evaluate m
    rw [chosen_cons body arms he]
    cases holds : value.isTruthy with
    | true =>
      rw [holds] at m
      exact ⟨0, rfl, .inr ⟨body, rfl, m⟩⟩
    | false =>
      rw [holds] at m
      obtain ⟨i, hi, m⟩ := chosen_of_mem m
      refine ⟨i + 1, by rw [hi]; rfl, m.imp (fun ⟨last, m⟩ => ⟨?_, m⟩) id⟩
      rw [last, List.length_cons]

theorem turns_of_mem {targets : List String} {body : Rendering String} {inside : Context → List Moment} {length : Nat}
    {items : List Value} : ∀ {index : Nat} {context : Context},
      moment ∈ momentsOfEach targets body inside length index items context →
      ∃ found, Turns targets body length index items context found ∧ moment ∈ inside found := by
  induction items with
  | nil => exact nofun
  | cons item items ih =>
    intro index context m
    rw [momentsOfEach] at m
    split at m
    · cases m
    · rename_i scope bound
      rcases List.mem_append.1 m with m | m
      · exact ⟨_, .here bound, m⟩
      · obtain ⟨text, after, ran, m⟩ := mem_following m
        obtain ⟨found, later, m⟩ := ih m
        exact ⟨found, .next bound ran later, m⟩

theorem enters_of_mem {view : View} {node : Node} {context : Context} (standalone : node.isStandalone)
    (plain : place.overrides = []) (m : moment ∈ momentsOf setting jumps elsewhere place view node context) :
    moment.node = node ∧ moment.context = context ∨ ∃ i found body view,
      Enters setting jumps place context node i found ∧ node.inner[i]? = some body ∧
        moment ∈ momentsOfAll setting jumps elsewhere place view body found := by
  have self {moments : List Moment} (m : moment ∈ ⟨jumps, place, view, node, context⟩ :: moments)
      (deeper : moment ∈ moments → ∃ i found body view, Enters setting jumps place context node i found ∧
        node.inner[i]? = some body ∧ moment ∈ momentsOfAll setting jumps elsewhere place view body found) :
      moment.node = node ∧ moment.context = context ∨ ∃ i found body view,
        Enters setting jumps place context node i found ∧ node.inner[i]? = some body ∧
        moment ∈ momentsOfAll setting jumps elsewhere place view body found :=
    (List.mem_cons.1 m).imp (fun same => by rw [same]; exact ⟨rfl, rfl⟩) deeper
  cases node with
  | text | output | assign =>
    rw [momentsOf.eq_def] at m
    exact self m nofun
  | branch arms otherwise =>
    rw [momentsOf.eq_def] at m
    refine self m fun m => ?_
    obtain ⟨i, hi, ⟨last, m⟩ | ⟨body, stands, m⟩⟩ := chosen_of_mem m
    · cases otherwise with
      | none => cases m
      | some body =>
        exact ⟨i, context, body, view, .branch hi, by simp [Node.inner, last], m⟩
    · have short : i < (arms.map (·.2)).length := (List.getElem?_eq_some_iff.1 stands).1
      exact ⟨i, context, body, view, .branch hi, by rw [Node.inner, List.getElem?_append_left short, stands], m⟩
  | block name body =>
    rw [momentsOf.eq_def] at m
    refine self m fun m => ?_
    have own : place.overrides.lookup name = none := by rw [plain]; rfl
    simp only [own] at m
    exact ⟨0, context, body, view, .block own, rfl, m⟩
  | loop targets e body otherwise =>
    rw [momentsOf.eq_def] at m
    refine self m fun m => ?_
    obtain ⟨value, he, m⟩ := mem_following_evaluate m
    split at m
    · cases m
    · rename_i items hv
      cases items with
      | nil =>
        cases otherwise with
        | none => cases m
        | some rest => exact ⟨1, context, rest, view, .otherwise he hv, rfl, m⟩
      | cons item items =>
        obtain ⟨found, turn, m⟩ := turns_of_mem m
        exact ⟨0, found, body, view.inLoop targets, .loop he hv turn, rfl, m⟩
  | filterBlock name args body =>
    rw [momentsOf.eq_def] at m
    exact self m fun m => ⟨0, context, body, view, .filterBlock, rfl, m⟩
  | _ => cases standalone

/-- Rendering arrives at every moment. -/
theorem arrives_of_mem (plain : place.overrides = []) {nodes : List Node}
    (standalone : Node.AllStandalone (partsOfAll nodes)) {view : View} {context : Context}
    (m : moment ∈ momentsOfAll setting jumps elsewhere place view nodes context) :
    ∃ address, Node.at? address nodes = some moment.node ∧
      Arrives setting jumps place context nodes address moment.context := by
  induction nodes using Node.induction_inner generalizing view context with
  | nil => cases m
  | cons node nodes inside next =>
    have parts ⦃part⦄ (m : part ∈ node.parts) := standalone part (List.mem_append_left _ m)
    rcases List.mem_append.1 m with m | m
    · obtain ⟨hn, hc⟩ | ⟨i, found, body, view, enters, stands, m⟩ := enters_of_mem (parts node.self_mem_parts) plain m
      · rw [hn, hc]
        exact ⟨.here, rfl, .here⟩
      · have mb := List.mem_of_getElem? stands
        obtain ⟨address, stands', arrives⟩ :=
          inside body mb (fun part m => parts (Node.mem_parts_iff.2 (.inr ⟨body, mb, m⟩))) m
        exact ⟨.inside i address, by rw [Node.at?, stands]; exact stands', .inside enters stands arrives⟩
    · obtain ⟨text, after, ran, m⟩ := mem_following m
      obtain ⟨address, stands, arrives⟩ := next (fun part m => standalone part (List.mem_append_right _ m)) m
      exact ⟨.next address, stands, .next ran arrives⟩

end Moments

end Template

end Folio

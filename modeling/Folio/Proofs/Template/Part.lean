import Folio.Namespace
import Folio.Proofs.Template.Identifier

/-! The parts of a template, and the templates that bind names only in loops: they are made of texts,
outputs, branches, loops, blocks, filters and inclusions under fixed names, and choose their branches by
conditions that read variables only in chains of names. -/
namespace Folio

namespace Expr

/-- A variable, or parts of it under names: `a.b.c`. -/
def isChain : Expr → Bool
  | .var name => Template.isIdentifier name
  | .lookup base (.literal (.string key)) => isChain base && Template.isIdentifier key
  | _ => false

/-- Literals, chains, `and`, `or` and `not` of such conditions, `is defined` of a chain, and whatever the
analysis does not look into. -/
def isCondition : Expr → Bool
  | .literal _ => true
  | .and left right | .or left right => isCondition left && isCondition right
  | .not inner => isCondition inner
  | .isDefined target => isChain target
  | .var name => isChain (.var name)
  | .lookup base key => isChain (.lookup base key)
  | _ => true

end Expr

namespace Node

mutual

/-- The node and the nodes inside it, in the order of the text. -/
def parts : Node → List Node
  | .branch arms otherwise => .branch arms otherwise :: (partsOfArms arms ++ partsOfOption otherwise)
  | .block name body => .block name body :: partsOfAll body
  | .loop targets items body otherwise =>
    .loop targets items body otherwise :: (partsOfAll body ++ partsOfOption otherwise)
  | .define name params body => .define name params body :: partsOfAll body
  | .callBlock params call body => .callBlock params call body :: partsOfAll body
  | .filterBlock name args body => .filterBlock name args body :: partsOfAll body
  | node => [node]

def partsOfAll : List Node → List Node
  | [] => []
  | node :: nodes => parts node ++ partsOfAll nodes

def partsOfArms : List (Expr × List Node) → List Node
  | [] => []
  | (_, body) :: arms => partsOfAll body ++ partsOfArms arms

def partsOfOption : Option (List Node) → List Node
  | none => []
  | some body => partsOfAll body

end

theorem self_mem_parts (node : Node) : node ∈ node.parts := by
  cases node <;> simp [parts]

theorem mem_partsOfAll {nodes : List Node} {part : Node} :
    part ∈ partsOfAll nodes ↔ ∃ node ∈ nodes, part ∈ node.parts := by
  induction nodes with
  | nil => simp [partsOfAll]
  | cons node nodes ih => simp [partsOfAll, ih]

/-- The bodies that stand directly in a node, in the order of the text. -/
def inner : Node → List (List Node)
  | .branch arms otherwise => arms.map (·.2) ++ otherwise.toList
  | .block _ body => [body]
  | node => node.bodies.map (·.2)

theorem sizeOf_lt_of_mem_inner {node : Node} {body : List Node} (m : body ∈ node.inner) :
    sizeOf body < sizeOf node := by
  cases node with
  | branch arms otherwise =>
    rw [Node.branch.sizeOf_spec]
    rcases List.mem_append.1 m with m | m
    · obtain ⟨⟨condition, body⟩, arm, rfl⟩ := List.mem_map.1 m
      have smaller := List.sizeOf_lt_of_mem arm
      rw [Prod.mk.sizeOf_spec] at smaller
      dsimp only
      omega
    · rw [Option.mem_toList] at m
      cases m
      simp only [Option.some.sizeOf_spec]
      omega
  | loop targets items body otherwise =>
    rw [Node.loop.sizeOf_spec]
    rcases List.mem_cons.1 m with rfl | m
    · omega
    · cases otherwise with
      | none => cases m
      | some rest =>
        cases List.mem_singleton.1 m
        simp only [Option.some.sizeOf_spec]
        omega
  | block name body | define name params body | callBlock params call body | filterBlock name args body =>
    cases List.mem_singleton.1 m
    simp
    try omega
  | _ => cases m

/-- What holds of nodes if it holds of the bodies of the first one and of the others holds of all nodes. -/
theorem induction_inner {P : List Node → Prop} (nil : P [])
    (cons : ∀ node nodes, (∀ body ∈ node.inner, P body) → P nodes → P (node :: nodes)) : ∀ nodes, P nodes
  | [] => nil
  | node :: nodes => cons node nodes (fun body _ => induction_inner nil cons body) (induction_inner nil cons nodes)
termination_by nodes => sizeOf nodes
decreasing_by
  · have := sizeOf_lt_of_mem_inner ‹_›
    rw [List.cons.sizeOf_spec]
    omega
  · rw [List.cons.sizeOf_spec]
    omega

/-- The parts of a node are the node and the parts of its bodies. -/
theorem mem_parts_iff {node part : Node} :
    part ∈ node.parts ↔ part = node ∨ ∃ body ∈ node.inner, part ∈ partsOfAll body := by
  have arms (arms : List (Expr × List Node)) :
      part ∈ partsOfArms arms ↔ ∃ body ∈ arms.map (·.2), part ∈ partsOfAll body := by
    induction arms with
    | nil => simp [partsOfArms]
    | cons arm arms ih =>
      simp only [partsOfArms, List.map_cons, List.mem_append, List.mem_cons, or_and_right, exists_or, exists_eq_left,
        ih]
  have option (body : Option (List Node)) :
      part ∈ partsOfOption body ↔ ∃ nodes ∈ body.toList, part ∈ partsOfAll nodes := by
    cases body <;> simp [partsOfOption]
  cases node with
  | branch all otherwise =>
    simp only [parts, inner, arms, option, List.mem_cons, List.mem_append, or_and_right, exists_or]
  | loop => simp [parts, inner, bodies, option]
  | _ => simp [parts, inner, bodies]

theorem partsOfAll_subset_parts {node : Node} {body : List Node} (m : body ∈ node.inner) :
    partsOfAll body ⊆ node.parts :=
  fun _ part => mem_parts_iff.2 (.inr ⟨body, m, part⟩)

/-- The parts of a part are parts. -/
theorem parts_subset_partsOfAll {nodes : List Node} {part : Node} (m : part ∈ partsOfAll nodes) :
    part.parts ⊆ partsOfAll nodes := by
  induction nodes using induction_inner with
  | nil => cases m
  | cons node nodes inside next =>
    rw [partsOfAll]
    rcases List.mem_append.1 m with m | m
    · refine List.subset_append_of_subset_left _ ?_
      rcases mem_parts_iff.1 m with rfl | ⟨body, mb, m⟩
      · exact List.Subset.refl _
      · exact List.Subset.trans (inside body mb m) (partsOfAll_subset_parts mb)
    · exact List.subset_append_of_subset_right _ (next m)

/-- The name of an inclusion, where it is fixed. -/
def includedName? : Node → Option String
  | .inclusion (.literal (.string name)) _ _ => some name
  | _ => none

/-- The fixed names in the inclusions of a template. -/
def includedNames (nodes : List Node) : List String :=
  (partsOfAll nodes).filterMap includedName?

/-- The conditions by which a node chooses what to render. -/
def conditions : Node → List Expr
  | .branch arms _ => arms.map (·.1)
  | _ => []

/-- The node binds names only in a loop, and it is clear what the analysis makes of it. -/
def isBasic : Node → Bool
  | .text _ | .output _ | .block _ _ | .loop _ _ _ _ | .filterBlock _ _ _ => true
  | .branch arms otherwise => (conditions (.branch arms otherwise)).all Expr.isCondition
  | .inclusion name ignoreMissing withContext =>
    (includedName? (.inclusion name ignoreMissing withContext)).any (fun name => !name.isEmpty)
  | _ => false

theorem exists_name_of_isBasic {name : Expr} {ignoreMissing withContext : Bool}
    (h : (Node.inclusion name ignoreMissing withContext).isBasic) :
    ∃ s, name = .literal (.string s) ∧ s.isEmpty = false := by
  rw [isBasic, includedName?.eq_def] at h
  split at h
  · rename_i s _ _ e
    cases e
    exact ⟨s, rfl, by simpa using h⟩
  · cases h

/-- All of the nodes are basic. -/
def AllBasic (nodes : List Node) : Prop :=
  ∀ node ∈ nodes, node.isBasic

instance (nodes : List Node) : Decidable (AllBasic nodes) :=
  inferInstanceAs (Decidable (∀ node ∈ nodes, node.isBasic))

@[simp] theorem allBasic_cons {node : Node} {nodes : List Node} :
    AllBasic (node :: nodes) ↔ node.isBasic ∧ AllBasic nodes :=
  List.forall_mem_cons

@[simp] theorem allBasic_append {nodes more : List Node} :
    AllBasic (nodes ++ more) ↔ AllBasic nodes ∧ AllBasic more :=
  List.forall_mem_append

end Node

end Folio

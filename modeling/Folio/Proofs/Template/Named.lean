import Folio.Proofs.Template.Part
import Folio.Template.Basic

/-! Identifiers in templates. The variables in every tag of a template that was read are identifiers, however deep the
tag stands. -/
namespace Folio

open Node (partsOfAll partsOfArms partsOfOption)

namespace Node

/-- The expressions that stand in the tag of a node. -/
def exprs : Node → List Expr
  | .text _ | .block _ _ => []
  | .output e | .inclusion e _ _ | .loop _ e _ _ | .assign _ e | .extend e | .importAs e _ | .importFrom e _ => [e]
  | .branch arms otherwise => conditions (.branch arms otherwise)
  | node => node.arguments

/-- The variables in the tags of the nodes are identifiers. -/
def AllNamed (nodes : List Node) : Prop :=
  ∀ node ∈ nodes, ∀ e ∈ node.exprs, e.Named

theorem allNamed_nil : AllNamed [] :=
  nofun

@[simp] theorem allNamed_cons {node : Node} {nodes : List Node} :
    AllNamed (node :: nodes) ↔ (∀ e ∈ node.exprs, e.Named) ∧ AllNamed nodes :=
  List.forall_mem_cons

@[simp] theorem allNamed_append {nodes more : List Node} :
    AllNamed (nodes ++ more) ↔ AllNamed nodes ∧ AllNamed more :=
  List.forall_mem_append

/-- The variables of a node are those in its tag and those in its bodies. -/
theorem allNamed_parts {node : Node} {inside : List Node} (parts : node.parts = node :: inside)
    (tag : ∀ e ∈ node.exprs, e.Named) (bodies : AllNamed inside) : AllNamed node.parts :=
  parts ▸ allNamed_cons.2 ⟨tag, bodies⟩

/-- A node without bodies whose tag has one expression. -/
theorem allNamed_of_alone {node : Node} {e : Expr} (parts : node.parts = [node]) (tag : node.exprs = [e])
    (h : e.Named) : AllNamed node.parts :=
  allNamed_parts parts (tag ▸ List.forall_mem_singleton.2 h) allNamed_nil

theorem allNamed_text (content : String) : AllNamed (Node.text content).parts :=
  allNamed_parts rfl (List.forall_mem_nil _) allNamed_nil

/-- The defaults of parameters are expressions of the tag that they stand in. -/
theorem named_defaults {params : List Param} (h : ∀ param ∈ params, ∀ e ∈ param.default, e.Named) :
    ∀ e ∈ params.filterMap (·.default), e.Named := by
  intro e m
  obtain ⟨param, mp, default⟩ := List.mem_filterMap.1 m
  exact h param mp e default

end Node

namespace Template.Parser

open Node (AllNamed allNamed_nil allNamed_append allNamed_parts allNamed_of_alone allNamed_text named_defaults)
open Folio.Expr (Named)

section Bodies

variable {body : BodyParser} (hb : ∀ ends, Yields (body ends) (fun read => AllNamed (partsOfAll read.1)))
variable {inner : Parser Expr} (hi : Yields inner Named) (bound : Nat)

/-- A node whose bodies are named is named if its own tag is. -/
def YieldsNamed (p : Parser Node) : Prop :=
  Yields p (fun node => AllNamed node.parts)

section Body

include hb

theorem yields_bodyUntil (closing : String) :
    Yields (bodyUntil body closing) (fun nodes => AllNamed (partsOfAll nodes)) :=
  .bind (hb _) fun _ h => .after fun _ => .pure h

theorem yields_blockTag : YieldsNamed (blockTag body) := by
  refine .after fun name => .after fun _ => .bind (hb _) fun read h => ?_
  have block : YieldsNamed (pure (.block name read.1)) := .pure (allNamed_parts rfl (List.forall_mem_nil _) h)
  refine .after fun _ => .after fun _ => .after fun _ => .after fun _ => .after fun _ => .ite ?_ ?_
  · refine .after fun closing => ?_
    split
    · exact .after fun _ => .after fun _ => block
    · exact .after fun _ => block
  · exact .after fun _ => block

end Body

section Expressions

include hi

theorem yields_inclusionTag : YieldsNamed (inclusionTag inner) := by
  refine .bind hi fun name h => .after fun ignoreMissing => ?_
  have inclusion : YieldsNamed (do
      let withContext ← contextModifier
      expectClose "%\x7d"
      return .inclusion name ignoreMissing withContext) :=
    .after fun _ => .after fun _ => .pure (allNamed_of_alone rfl rfl h)
  exact .ite (.after fun _ => inclusion) inclusion

theorem yields_assignTag : YieldsNamed (assignTag inner) :=
  .after fun _ => .after fun _ => .after fun _ => .bind hi fun _ h => .after fun _ =>
    .pure (allNamed_of_alone rfl rfl h)

theorem yields_extendTag : YieldsNamed (extendTag inner) :=
  .bind hi fun _ h => .after fun _ => .pure (allNamed_of_alone rfl rfl h)

theorem yields_importTag : YieldsNamed (importTag inner) :=
  .bind hi fun _ h => .after fun _ => .after fun _ => .after fun _ => .after fun _ =>
    .pure (allNamed_of_alone rfl rfl h)

theorem yields_importFromTag : YieldsNamed (importFromTag inner bound) :=
  .bind hi fun _ h => .after fun _ => .after fun _ => .after fun _ => .after fun _ =>
    .pure (allNamed_of_alone rfl rfl h)

theorem yields_outputTag : YieldsNamed (outputTag inner) :=
  .after fun _ => .after fun _ => .bind hi fun _ h => .after fun _ =>
    .pure (allNamed_of_alone rfl rfl h)

theorem yields_param : Yields (param inner) (fun param => ∀ e ∈ param.default, e.Named) := by
  refine .after fun name => .after fun _ => .after fun text => ?_
  split
  · exact .pure (by simp)
  · exact .after fun _ => .bind hi fun e h => .pure (by simpa using h)
  · exact .pure (by simp)

theorem yields_params : Yields (params inner bound) (fun params => ∀ param ∈ params, ∀ e ∈ param.default, e.Named) :=
  .after fun _ => .listUntil _ (yields_param hi) bound

theorem yields_optionalParams :
    Yields (optionalParams inner bound) (fun params => ∀ param ∈ params, ∀ e ∈ param.default, e.Named) :=
  .after fun _ => .after fun _ => .ite (yields_params hi bound) (.pure (by simp))

end Expressions

section Both

include hb hi

theorem yields_arms : ∀ (n : Nat) {condition : Expr}, condition.Named →
    Yields (arms body inner n condition) (fun read => (∀ arm ∈ read.1, arm.1.Named) ∧
      AllNamed (partsOfArms read.1) ∧ AllNamed (partsOfOption read.2))
  | 0, _, _ => .fail _
  | n + 1, condition, hc => by
    refine .bind (hb _) fun read h => .ite ?_ ?_
    · refine .after fun _ => .bind hi fun next hn => .after fun _ => .bind (yields_arms n hn) fun more hm => .pure ?_
      exact ⟨List.forall_mem_cons.2 ⟨hc, hm.1⟩, allNamed_append.2 ⟨h, hm.2.1⟩, hm.2.2⟩
    · have arm : (∀ arm ∈ [(condition, read.1)], arm.1.Named) ∧ AllNamed (partsOfArms [(condition, read.1)]) :=
        ⟨by simpa using hc, by simpa [partsOfArms, allNamed_nil] using h⟩
      split
      · refine .after fun _ => .after fun _ => .bind (yields_bodyUntil hb _) fun otherwise ho => .pure ?_
        exact ⟨arm.1, arm.2, ho⟩
      · exact .after fun _ => .pure ⟨arm.1, arm.2, allNamed_nil⟩

theorem yields_branchTag : YieldsNamed (branchTag body inner bound) := by
  refine .bind hi fun condition hc => .after fun _ => .bind (yields_arms hb hi bound hc) fun read h => .pure ?_
  obtain ⟨conditions, arms, otherwise⟩ := h
  exact allNamed_parts rfl (List.forall_mem_map.2 conditions) (allNamed_append.2 ⟨arms, otherwise⟩)

theorem yields_loopTag : YieldsNamed (loopTag body inner bound) := by
  refine .after fun targets => .after fun _ => .bind (yields_disjunction hi bound) fun items hs => ?_
  refine .after fun _ => .bind (hb _) fun ⟨nodes, closing⟩ h => ?_
  dsimp only
  split
  · refine .after fun _ => .after fun _ => .bind (yields_bodyUntil hb _) fun otherwise ho => .pure ?_
    exact allNamed_parts rfl (List.forall_mem_singleton.2 hs) (allNamed_append.2 ⟨h, ho⟩)
  · refine .after fun _ => .pure ?_
    exact allNamed_parts rfl (List.forall_mem_singleton.2 hs) (allNamed_append.2 ⟨h, allNamed_nil⟩)

theorem yields_defineTag : YieldsNamed (defineTag body inner bound) := by
  refine .after fun name => .after fun _ => .bind (yields_params hi bound) fun params hp => .after fun _ => ?_
  refine .bind (yields_bodyUntil hb _) fun nodes h => .pure (allNamed_parts rfl (named_defaults hp) h)

theorem yields_callTag : YieldsNamed (callTag body inner bound) := by
  refine .bind (yields_optionalParams hi bound) fun params hp => .bind hi fun call hc => .after fun _ => ?_
  refine .bind (yields_bodyUntil hb _) fun nodes h => .pure (allNamed_parts rfl ?_ h)
  exact List.forall_mem_append.2 ⟨named_defaults hp, List.forall_mem_singleton.2 hc⟩

theorem yields_filterTag : YieldsNamed (filterTag body inner bound) := by
  refine .after fun name => .bind (yields_optionalArguments hi bound) fun args ha => .after fun _ => ?_
  exact .bind (yields_bodyUntil hb _) fun nodes h => .pure (allNamed_parts rfl ha h)

theorem yields_tag : YieldsNamed (tag body inner bound) := by
  refine .after fun _ => .after fun keyword => ?_
  split
  · exact yields_branchTag hb hi bound
  · exact yields_loopTag hb hi bound
  · exact yields_inclusionTag hi
  · exact yields_assignTag hi
  · exact yields_blockTag hb
  · exact yields_extendTag hi
  · refine .after fun _ => .after fun text => ?_
    split
    · exact .after fun _ => .after fun _ => .after fun _ => .pure (allNamed_text _)
    · exact .after fun _ => .fail _
  · exact yields_defineTag hb hi bound
  · exact yields_callTag hb hi bound
  · exact yields_filterTag hb hi bound
  · exact yields_importTag hi
  · exact yields_importFromTag hi bound
  · exact .after fun _ => .fail _

theorem yields_markup : Yields (markup body inner bound) (fun node? => AllNamed (partsOfAll node?.toList)) := by
  have found {p : Parser Node} (hp : YieldsNamed p) :
      Yields (do return some (← p)) (fun node? => AllNamed (partsOfAll node?.toList)) :=
    .bind hp fun node h => .pure (allNamed_append.2 ⟨h, allNamed_nil⟩)
  refine .after fun _ => .ite (.after fun _ => .pure allNamed_nil) (.after fun _ => .ite ?_ ?_)
  · exact found (yields_outputTag hi)
  · exact found (yields_tag hb hi bound)

end Both

end Bodies

theorem partsOfAll_append (nodes more : List Node) :
    partsOfAll (nodes ++ more) = partsOfAll nodes ++ partsOfAll more := by
  induction nodes with
  | nil => rfl
  | cons node nodes ih => simp [partsOfAll, ih]

theorem yields_nodes : ∀ (bound : Nat) (ends : List String),
    Yields (nodes bound ends) (fun read => AllNamed (partsOfAll read.1))
  | 0, _ => .fail _
  | bound + 1, ends => by
    refine .after fun content => ?_
    generalize hbefore : (if content.isEmpty then [] else [Node.text content]) = before
    have text : AllNamed (partsOfAll before) := by
      subst hbefore
      split
      · exact allNamed_nil
      · exact allNamed_append.2 ⟨allNamed_text content, allNamed_nil⟩
    refine .after fun _ => .ite (.after fun _ => .pure text) (.after fun rest => ?_)
    split
    · exact .pure text
    · refine .bind (yields_markup (yields_nodes bound) (yields_expression (bound + 1)) (bound + 1)) fun node? hn => ?_
      refine .bind (yields_nodes bound ends) fun read h => .pure ?_
      simp only [partsOfAll_append, allNamed_append]
      exact ⟨⟨text, hn⟩, h⟩

end Template.Parser

/-- Every variable in a template is an identifier. -/
theorem Template.allNamed (template : Template) : Node.AllNamed (partsOfAll template.nodes) := by
  have parsed := template.parsed
  rw [parse] at parsed
  split at parsed
  · rename_i nodes closing after read
    cases parsed
    exact Parser.yields_nodes _ _ read
  · cases parsed

end Folio

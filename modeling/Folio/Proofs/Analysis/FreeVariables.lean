import Folio.Proofs.Analysis.Occurrence
import Folio.Proofs.Template.Characters

/-! Free variables. Where the namespace is empty, the reported paths start with the variables that a template without
branches and inclusions uses and does not bind. -/
namespace Folio

open Node (partsOfAll)

theorem Namespace.hasValueAt_empty (path : String) : empty.hasValueAt path = false := by
  rw [hasValueAt, at?]
  split <;> rfl

/-- The variable stands in something that the nodes use, where neither a body around it nor a statement before it binds
it. -/
def Node.IsFree (x : String) (nodes : List Node) : Prop :=
  ∃ site e, Site.outside.Holds nodes site e ∧ e.Reads x ∧ x ∉ site.bound

/-- The variables in what a template uses are identifiers. -/
theorem Template.named_of_holds {site target : Site} {e : Expr} (template : Template)
    (holds : site.Holds template.nodes target e) : e.Named := by
  obtain ⟨part, m, uses⟩ := holds.exists_part
  exact template.allNamed part m e uses.mem_exprs

namespace Survey

/-- The roots of the reported paths are the free variables. -/
theorem roots_eq_free (template : Template) (straight : Node.AllStraight (partsOfAll template.nodes))
    (loader : Loader) : ∃ report, (run template.source .empty loader).outcome = .ok report ∧
      {x | ∃ path ∈ report, (Namespace.segments path).head? = some x} = {x | Node.IsFree x template.nodes} := by
  obtain ⟨report, outcome, reported⟩ := run_of_straight template straight .empty loader
  refine ⟨report, outcome, ?_⟩
  ext x
  constructor
  · rintro ⟨path, m, root⟩
    obtain ⟨site, e, inner, called, holds, exposes, lacks⟩ := (reported path).1 m
    have named : inner.Named := fun name here => template.named_of_holds holds name (exposes.names_subset here)
    rw [← Expr.head?_segments_of_path? lacks.named named.undotted] at root
    exact ⟨site, e, holds, exposes.reads root, lacks.unbound x root⟩
  · rintro ⟨site, e, holds, ⟨called, exposes⟩, unbound⟩
    have named : (Expr.var x).Named := fun name here => template.named_of_holds holds name (exposes.names_subset here)
    refine ⟨x, (reported x).2 ⟨site, e, .var x, called, holds, exposes, rfl, ?_, Namespace.hasValueAt_empty x⟩, ?_⟩
    · intro root same
      cases same
      exact unbound
    · rw [← Expr.head?_segments_of_path? rfl named.undotted]
      rfl

/-- A variable that is set in a block is bound behind the block, and one that a loop binds is free in the body for no
items. -/
theorem roots_eq_free_of_block_and_loop :
    let source := "\x7b% block b %\x7d\x7b% set s = q %\x7d\x7b% endblock %\x7d\x7b\x7b s \x7d\x7d" ++
      "\x7b% for x in xs %\x7d\x7b\x7b x[y.k] \x7d\x7d\x7b% else %\x7d\x7b\x7b x | d(z) \x7d\x7d" ++
      "\x7b\x7b x \x7d\x7d\x7b% endfor %\x7d"
    ∃ template, Template.read "page" source = .ok template ∧ Node.AllStraight (partsOfAll template.nodes) ∧
      (run template.source .empty (.ofList [])).outcome = .ok ["x", "y", "y.k", "z"] ∧
      Node.IsFree "x" template.nodes ∧ ¬ Node.IsFree "s" template.nodes := by
  intro source
  have shown : (Template.read "page" source).toOption.any (fun template =>
      decide (Node.AllStraight (partsOfAll template.nodes) ∧
        ascending (Node.walkAll .empty [] template.nodes).1.missing = ["x", "y", "y.k", "z"])) := by
    rw [Template.read_eq_readChars (Text.append_eq_ofList (Text.append_eq_ofList rfl rfl) rfl)]
    decide +kernel
  obtain ⟨template, read, shown⟩ := Template.exists_of_read shown
  obtain ⟨straight, listed⟩ := of_decide_eq_true shown
  have reported : (run template.source .empty (.ofList [])).outcome = .ok ["x", "y", "y.k", "z"] := by
    rw [outcome_of_straight template straight, listed]
  obtain ⟨report, outcome, roots⟩ := roots_eq_free template straight (.ofList [])
  cases outcome.symm.trans reported
  rw [Set.ext_iff] at roots
  refine ⟨template, read, straight, outcome, (roots "x").1 ⟨"x", by decide, by decide⟩, fun free => ?_⟩
  obtain ⟨path, m, root⟩ := (roots "s").2 free
  revert path
  decide

end Survey

end Folio

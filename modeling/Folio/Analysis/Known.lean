import Folio.Analysis.Truth
import Folio.Namespace
import Folio.Template.Syntax

/-! What is known of an expression before the template is rendered. Literals, lookups in the namespace,
`and`, `or`, `not` and `is defined` are known; whatever else an expression may be, and every name that
the template itself binds, is not. -/
namespace Folio

namespace Expr

/-- The variable at the root of the expression is bound by the template. -/
def isLocal (locals : List String) (e : Expr) : Bool :=
  e.root?.any (fun root => locals.contains root)

variable (ns : Namespace) (locals : List String)

/-- The value of an expression, where it is known. -/
def known? : Expr → Option Value
  | .literal value => some value
  | .var name => if locals.contains name then none else some ((ns.at? name).getD .undefined)
  | .lookup base key =>
    if base.isLocal locals then none
    else
      match (Expr.lookup base key).path? with
      | some path => some ((ns.at? path).getD .undefined)
      | none => do
        let base ← known? base
        let key ← known? key
        return (base.segment? key.text).getD .undefined
  | .and left right => ((Truth.ofKnown (known? left)).and (.ofKnown (known? right))).known?
  | .or left right => ((Truth.ofKnown (known? left)).or (.ofKnown (known? right))).known?
  | .not inner => (Truth.ofKnown (known? inner)).not.known?
  | .isDefined target =>
    if target.isLocal locals then none
    else
      match target.path? with
      | some path => some (.bool (ns.hasValueAt path))
      | none => (known? target).map (fun value => .bool !value.isUndefined)
  | _ => none

/-- The truth of an expression, where it is known. -/
def truth (e : Expr) : Truth :=
  .ofKnown (e.known? ns locals)

/-- The text of an expression, where it is known to be one that is not empty. -/
def knownText? (e : Expr) : Option String :=
  match e.known? ns locals with
  | some (.string s) => if s.isEmpty then none else some s
  | _ => none

end Expr

end Folio

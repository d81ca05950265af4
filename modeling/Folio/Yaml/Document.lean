import Folio.Yaml.Node
import Folio.Yaml.Scanner

/-! Documents. A text holds one document, which may stand between marks, and that document is a mapping. -/
namespace Folio.Yaml

/-- How deep collections may be nested. -/
def nestingLimit : Nat := 128

/-- Nothing follows but marks that end documents. -/
def endsStream (tokens : List Token) : Bool :=
  tokens.all (· = .documentEnd)

/-- The node of the only document among the tokens. A text without a document gives none. -/
def root? (tokens : List Token) : Option Node :=
  let whole (result : Option (Node × List Token)) : Option Node :=
    result.bind (fun (node, rest) => if endsStream rest then some node else none)
  match tokens with
  | [] => some (.mapping [])
  | .documentStart :: rest => if endsStream rest then some (.mapping []) else whole (Node.ofTokens? rest)
  | tokens => whole (Node.ofTokens? tokens)

/-- The fields of the mapping that a text holds. -/
def parse? (text : String) : Option (List (String × Value)) := do
  match ← root? (← tokenize text.toList) with
  | .mapping entries => Node.fields? (nestingLimit - 1) entries
  | _ => none

end Folio.Yaml

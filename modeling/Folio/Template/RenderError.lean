import Folio.Template.ParseError
import Folio.Template.Syntax

/-! The ways in which rendering a template fails. -/
namespace Folio

/-- How deep inclusions, parents and macro calls may nest. -/
def maxNesting : Nat := 64

inductive RenderError where
  /-- A template that is needed does not parse. -/
  | parse (template : String) (error : ParseError)
  | missingTemplate (name : String)
  | notComparable (left right : String)
  | divisionByZero
  | overflow (op : Operator)
  | negationOverflow
  /-- The remainder by minus one of the least integer. -/
  | remainderOverflow
  | unsupportedOperands (op : Operator) (left right : String)
  | notNegatable (kind : String)
  | missingArgument (filter : String) (count : Nat)
  | unknownFilter (name : String)
  | unknownTest (name : String)
  | notIterable (kind : String)
  | notUnpackable (kind : String) (targets : Nat)
  | unpackMismatch (values targets : Nat)
  | rangeOfKind (kind : String)
  | rangeArguments
  | rangeStep
  | notCallable
  | callTarget
  | missingMacro (name : String)
  | inclusionTooDeep (name : String)
  | parentsTooDeep (name : String)
  | macroTooDeep (name : String)
  /-- Blocks or defaults of parameters lead back to themselves without end. -/
  | unsettled
  deriving DecidableEq, Repr

def Operator.name : Operator → String
  | .add => "Add"
  | .sub => "Sub"
  | .mul => "Mul"
  | .div => "Div"
  | .floorDiv => "FloorDiv"
  | .rem => "Rem"
  | .pow => "Pow"
  | .concat => "Concat"

namespace RenderError

/-- What is wrong, for the errors that arise while a template is being evaluated. -/
def reason : RenderError → String
  | .parse _ _ | .missingTemplate _ => ""
  | .notComparable left right => "cannot compare " ++ left ++ " with " ++ right
  | .divisionByZero => "division by zero"
  | .overflow op => "integer overflow in " ++ op.name
  | .negationOverflow => "integer overflow in negation"
  | .remainderOverflow => "integer overflow in remainder"
  | .unsupportedOperands op left right =>
    "unsupported operand types for " ++ op.name ++ ": " ++ left ++ " and " ++ right
  | .notNegatable kind => "cannot negate " ++ kind
  | .missingArgument filter count =>
    "filter '" ++ filter ++ "' expects at least " ++ toString count ++ " argument(s)"
  | .unknownFilter name => "unknown filter '" ++ name ++ "'"
  | .unknownTest name => "unknown test '" ++ name ++ "'"
  | .notIterable kind => "cannot iterate over " ++ kind
  | .notUnpackable kind targets =>
    "cannot unpack " ++ kind ++ " into " ++ toString targets ++ " loop variables"
  | .unpackMismatch values targets =>
    "cannot unpack " ++ toString values ++ " values into " ++ toString targets ++ " loop variables"
  | .rangeOfKind kind => "range() expects integers, got " ++ kind
  | .rangeArguments => "range() expects 1 to 3 arguments"
  | .rangeStep => "range() step must not be zero"
  | .notCallable => "only macros and range() can be called in templates"
  | .callTarget => "call blocks must call a macro"
  | .missingMacro name => "cannot import '" ++ name ++ "': no such macro"
  | .inclusionTooDeep name =>
    "include of '" ++ name ++ "' nested deeper than " ++ toString maxNesting ++ " levels"
  | .parentsTooDeep name =>
    "template nesting deeper than " ++ toString maxNesting ++ " levels in '" ++ name ++ "'"
  | .macroTooDeep name =>
    "macro '" ++ name ++ "' nested deeper than " ++ toString maxNesting ++ " levels"
  | .unsettled => "template does not settle"

def message : RenderError → String
  | .parse template error => "Failed to parse template " ++ template ++ ": " ++ error.message
  | .missingTemplate name => "Template not found: " ++ name
  | error => "Rendering error: " ++ error.reason

end RenderError

end Folio

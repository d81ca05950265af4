import Folio.Value.Basic

/-! Truth that may not be known yet, with the connectives under which an unknown operand counts only
where the other one does not decide. -/
namespace Folio

inductive Truth where
  | true
  | false
  | unknown
  deriving DecidableEq, Repr

namespace Truth

def ofBool (b : Bool) : Truth :=
  if b then .true else .false

def not : Truth → Truth
  | .true => .false
  | .false => .true
  | .unknown => .unknown

def and : Truth → Truth → Truth
  | .false, _ => .false
  | _, .false => .false
  | .true, .true => .true
  | _, _ => .unknown

def or : Truth → Truth → Truth
  | .true, _ => .true
  | _, .true => .true
  | .false, .false => .false
  | _, _ => .unknown

/-- The truth of a value that may not be known. -/
def ofKnown : Option Value → Truth
  | some value => ofBool value.isTruthy
  | none => .unknown

/-- Truth as a value, where it is known. -/
def known? : Truth → Option Value
  | .true => some (.bool Bool.true)
  | .false => some (.bool Bool.false)
  | .unknown => none

end Truth

end Folio

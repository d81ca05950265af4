import Folio.Decimal.Text

/-! Calendar dates of the years 0 to 9999 by the Gregorian rule, extended to all years. -/
namespace Folio

def isLeapYear (year : Nat) : Bool :=
  year % 4 = 0 && (year % 100 ≠ 0 || year % 400 = 0)

def daysInMonth (year month : Nat) : Nat :=
  match month with
  | 2 => if isLeapYear year then 29 else 28
  | 4 | 6 | 9 | 11 => 30
  | _ => 31

/-- The month has this day in this year. -/
def IsCalendarDay (year month day : Nat) : Prop :=
  year ≤ 9999 ∧ 1 ≤ month ∧ month ≤ 12 ∧ 1 ≤ day ∧ day ≤ daysInMonth year month

instance (year month day : Nat) : Decidable (IsCalendarDay year month day) :=
  inferInstanceAs (Decidable (_ ∧ _))

structure Date where
  year : Nat
  month : Nat
  day : Nat
  isDay : IsCalendarDay year month day
  deriving DecidableEq

namespace Date

def ofYmd? (year month day : Nat) : Option Date :=
  if h : IsCalendarDay year month day then some ⟨year, month, day, h⟩ else none

/-- Earlier dates come first. -/
def compare (a b : Date) : Ordering :=
  (Ord.compare a.year b.year).then ((Ord.compare a.month b.month).then (Ord.compare a.day b.day))

/-- The text `DD-MM-YYYY`. -/
def dashed (d : Date) : List Char :=
  Decimal.padded 2 d.day ++ '-' :: Decimal.padded 2 d.month ++ '-' :: Decimal.padded 4 d.year

/-- The text `YYYY-MM-DD`. -/
def iso (d : Date) : List Char :=
  Decimal.padded 4 d.year ++ '-' :: Decimal.padded 2 d.month ++ '-' :: Decimal.padded 2 d.day

end Date

end Folio
